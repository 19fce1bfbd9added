import BrushlessDrive.Proofs.Scalar.Infinity

/-!
# Sums of any two scalars

A scalar is finite, an infinity of one of the two signs, or no number (`isFinite_or_infinity`). This module
says which of them a sum is, and a difference: two infinities have to meet for a sum of numbers to be none.
-/

set_option autoImplicit false

namespace BrushlessDrive

open Float.Model (Format UnpackedFloat)
open Float.Model.UnpackedFloat (Sign)

namespace Scalar

open Binary32

variable {x y : Scalar} {s t : Sign}

/-! ## Kinds of scalars -/

theorem isFinite_or_infinity (h : x.isNaN = false) :
    x.isFinite = true ∨ ∃ s, x.unpacked = .infinity s := by
  rw [isFinite_eq]
  rw [isNaN_eq] at h
  cases hu : x.unpacked with
  | infinity s => exact .inr ⟨s, rfl⟩
  | notANumber => rw [hu] at h; cases h
  | _ => exact .inl rfl

theorem isNaN_or_infinity (h : x.isFinite = false) :
    x.isNaN = true ∨ ∃ s, x.unpacked = .infinity s := by
  cases hn : x.isNaN with
  | true => exact .inl rfl
  | false => exact .inr ((isFinite_or_infinity hn).resolve_left (by rw [h]; exact Bool.false_ne_true))

theorem not_isFinite_of_infinity (h : x.unpacked = .infinity s) : ¬ x.isFinite = true := by
  rw [isFinite_eq, h]
  exact Bool.false_ne_true

theorem isNaN_of_infinity (h : x.unpacked = .infinity s) : x.isNaN = false := by
  rw [isNaN_eq, h]
  rfl

theorem isFinite_eq_false_iff : x.isFinite = false ↔ x.isNaN = true ∨ x.isInf = true := by
  show x.unpacked.isFinite = false ↔ x.unpacked.isNaN = true ∨ x.unpacked.isInf = true
  cases x.unpacked with
  | notANumber => exact iff_of_true rfl (.inl rfl)
  | infinity s => exact iff_of_true rfl (.inr rfl)
  | _ => exact iff_of_false nofun (not_or.2 ⟨nofun, nofun⟩)

theorem nonneg_iff_of_infinity (h : x.unpacked = .infinity s) : 0 ≤ x ↔ s = .positive := by
  rw [nonneg_iff (isNaN_of_infinity h), val, h, value_infinity]
  cases s with
  | negative => exact iff_of_false (by norm_num [signum]) Sign.noConfusion
  | positive => exact iff_of_true (by norm_num [signum]) rfl

/-! ## Sums -/

theorem unpacked_add_infinity (hx : x.unpacked = .infinity s)
    (hy : y.isFinite = true ∨ y.unpacked = .infinity s) : (x + y).unpacked = .infinity s := by
  have hi : UnpackedFloat.add Format.binary32 x.unpacked y.unpacked = .infinity s := by
    rw [hx]
    rcases hy with hy | hy
    · rw [isFinite_eq] at hy
      cases hu : y.unpacked <;> rw [hu] at hy <;> first | rfl | cases hy
    · rw [hy]
      cases s <;> rfl
  rw [add_eq, hi]
  exact unpacked_infinity s

theorem unpacked_infinity_add (hx : x.isFinite = true) (hy : y.unpacked = .infinity s) :
    (x + y).unpacked = .infinity s := by
  have hi : UnpackedFloat.add Format.binary32 x.unpacked y.unpacked = .infinity s := by
    rw [hy]
    rw [isFinite_eq] at hx
    cases hu : x.unpacked <;> rw [hu] at hx <;> first | rfl | cases hx
  rw [add_eq, hi]
  exact unpacked_infinity s

theorem isNaN_add_infinity (hx : x.unpacked = .infinity s) (hy : y.unpacked = .infinity (-s)) :
    (x + y).isNaN = true := by
  rw [add_eq, hx, hy]
  cases s <;> exact isNaN_notANumber

/-- Infinities of different signs cancel to no number, and nothing else does. -/
theorem isNaN_add_iff : (x + y).isNaN = true ↔ x.isNaN = true ∨ y.isNaN = true ∨
    ∃ s, x.unpacked = .infinity s ∧ y.unpacked = .infinity (-s) := by
  constructor
  · intro h
    by_contra! hc
    obtain ⟨hx, hy, hs⟩ := hc
    rw [ne_eq, Bool.not_eq_true] at hx hy
    have hn : (x + y).isNaN = false := by
      obtain hxf | ⟨s, hxi⟩ := isFinite_or_infinity hx
      · obtain hyf | ⟨t, hyi⟩ := isFinite_or_infinity hy
        · exact (isNearest_add hxf hyf).not_nan
        · exact isNaN_of_infinity (unpacked_infinity_add hxf hyi)
      · refine isNaN_of_infinity (unpacked_add_infinity hxi ?_)
        obtain hyf | ⟨t, hyi⟩ := isFinite_or_infinity hy
        · exact .inl hyf
        · have hst := hs s hxi
          cases s <;> cases t <;> first | exact .inr hyi | exact absurd hyi hst
    rw [hn] at h
    cases h
  · rintro (hx | hy | ⟨s, hx, hy⟩)
    · exact isNaN_add_left hx y
    · exact isNaN_add_right x hy
    · exact isNaN_add_infinity hx hy

theorem add_infinity (hx : x.unpacked = .infinity s) (y : Scalar) :
    (x + y).isNaN = true ∨ (x + y).unpacked = .infinity s := by
  by_cases hn : (x + y).isNaN = true
  · exact .inl hn
  rw [isNaN_add_iff, not_or, not_or, Bool.not_eq_true y.isNaN] at hn
  refine .inr (unpacked_add_infinity hx ((isFinite_or_infinity hn.2.1).imp_right ?_))
  rintro ⟨t, hy⟩
  have hst := fun h => hn.2.2 ⟨s, hx, h⟩
  cases s <;> cases t <;> first | exact hy | exact absurd hy hst

/-! ## Differences -/

theorem sign_neg_neg (s : Sign) : - -s = s := by cases s <;> rfl

theorem unpacked_neg (x : Scalar) : (-x).unpacked = x.unpacked.neg := by
  have hu : (-x).unpacked = (ofUnpacked x.unpacked.neg).unpacked := rfl
  rw [hu]
  cases hx : x.unpacked with
  | finite s m e hm =>
    have hf : x.isFinite = true := by
      rw [isFinite_eq, hx]
      rfl
    have hc := canonical hf
    have hv := abs_val_lt hf
    rw [val, hx] at hv
    rw [hx] at hc
    exact unpack_pack_finite hc ((abs_value_lt_iff hc).1 hv)
  | infinity s => exact unpacked_infinity (-s)
  | zero s => exact unpack_pack_zero (-s)
  | notANumber => rfl

theorem isNaN_neg (x : Scalar) : (-x).isNaN = x.isNaN := by
  rw [isNaN_eq, isNaN_eq, unpacked_neg]
  cases x.unpacked <;> rfl

theorem neg_infinity_iff : (-x).unpacked = .infinity s ↔ x.unpacked = .infinity (-s) := by
  rw [unpacked_neg]
  cases x.unpacked with
  | infinity t =>
    show UnpackedFloat.infinity (-t) = .infinity s ↔ _
    rw [UnpackedFloat.infinity.injEq, UnpackedFloat.infinity.injEq]
    constructor
    · rintro rfl
      exact (sign_neg_neg t).symm
    · rintro rfl
      exact sign_neg_neg s
  | _ => exact iff_of_false nofun nofun

/-- A difference is a sum, also of what is not finite. -/
protected theorem sub_eq_add_neg (x y : Scalar) : x - y = x + -y := by
  have hs : x - y = ofUnpacked (UnpackedFloat.sub Format.binary32 x.unpacked y.unpacked) := rfl
  rw [hs, add_eq, unpacked_neg]
  congr 1
  obtain ⟨s, hx⟩ | hx | ⟨hx, -⟩ := x.unpacked_cases
  · rw [hx]
    cases y.unpacked <;> rfl
  · rw [hx]
    cases y.unpacked <;> rfl
  obtain ⟨t, hy⟩ | hy | ⟨hy, -⟩ := y.unpacked_cases
  · rw [hy]
    cases x.unpacked <;> rfl
  · rw [hy]
    cases x.unpacked <;> rfl
  · exact sub_eq_add hx hy

theorem isNaN_sub_iff : (x - y).isNaN = true ↔ x.isNaN = true ∨ y.isNaN = true ∨
    ∃ s, x.unpacked = .infinity s ∧ y.unpacked = .infinity s := by
  simp only [Scalar.sub_eq_add_neg, isNaN_add_iff, isNaN_neg, neg_infinity_iff, sign_neg_neg]

/-- What is lost in an infinity does not come back. -/
theorem isNaN_sub_of_infinity (hx : x.isNaN = true ∨ x.unpacked = .infinity s)
    (hy : y.isNaN = true ∨ y.unpacked = .infinity s) : (x - y).isNaN = true := by
  rw [isNaN_sub_iff]
  rcases hx with hx | hx
  · exact .inl hx
  · exact .inr (hy.imp_right fun hy => ⟨s, hx, hy⟩)

theorem sub_infinity (hx : x.unpacked = .infinity s) (y : Scalar) :
    (x - y).isNaN = true ∨ (x - y).unpacked = .infinity s := by
  rw [Scalar.sub_eq_add_neg]
  exact add_infinity hx (-y)

/-- What is taken away, be it an infinity, leaves no more. -/
theorem sub_le_of_nonneg (hx : x.isFinite = true) (hy : 0 ≤ y) : x - y ≤ x := by
  have hxn := isNaN_of_isFinite hx
  rcases infinity_or_finite hy with hi | ⟨hf, hv⟩
  · have hn : (x - y).unpacked = .infinity .negative := by
      rw [Scalar.sub_eq_add_neg]
      exact unpacked_infinity_add hx (neg_infinity_iff.2 hi)
    have hlo := (abs_lt.1 (abs_val_lt hx)).1
    rw [le_iff (isNaN_of_infinity hn) hxn, val, hn, value_infinity, signum]
    linarith
  · exact (isNearest_sub hx hf).le hxn (by linarith)

theorem isNaN_add_of_isFinite (hx : x.isNaN = false) (hy : y.isNaN = false)
    (h : x.isFinite = true ∨ y.isFinite = true) :
    (x + y).isNaN = false ∧ (x - y).isNaN = false := by
  have hxy (s t : Sign) (hs : x.unpacked = .infinity s) (ht : y.unpacked = .infinity t) : False :=
    h.elim (not_isFinite_of_infinity hs) (not_isFinite_of_infinity ht)
  rw [← Bool.not_eq_true, ← Bool.not_eq_true, isNaN_add_iff, isNaN_sub_iff, hx, hy]
  constructor
  · rintro (h | h | ⟨s, hs, ht⟩)
    · cases h
    · cases h
    · exact hxy _ _ hs ht
  · rintro (h | h | ⟨s, hs, ht⟩)
    · cases h
    · cases h
    · exact hxy _ _ hs ht

/-! ## Finite sums -/

/-- A rounded result is finite if the exact one is not beyond a finite scalar. -/
theorem IsNearest.isFinite_of_abs_le {q : ℚ} (h : IsNearest x q) (hy : y.isFinite = true)
    (hq : |q| ≤ |y.val|) : x.isFinite = true :=
  (h.abs_le (representable_val hy).abs (abs_val_lt hy) hq).1

/-- Whichever of the two goes toward zero. -/
theorem isFinite_add_or_sub (hx : x.isFinite = true) (hy : y.isFinite = true) :
    (x + y).isFinite = true ∨ (x - y).isFinite = true := by
  have hadd := isNearest_add hx hy
  have hsub := isNearest_sub hx hy
  -- the exact result is between one term and the other one, that one perhaps negated
  have hmax {q : ℚ} {z : Scalar} (h : IsNearest z q) (hq : |q| ≤ max |x.val| |y.val|) :
      z.isFinite = true := by
    rcases max_choice |x.val| |y.val| with hm | hm <;> rw [hm] at hq
    · exact h.isFinite_of_abs_le hx hq
    · exact h.isFinite_of_abs_le hy hq
  rcases le_total 0 x.val with h0 | h0 <;> rcases le_total 0 y.val with h1 | h1
  · refine .inr (hmax hsub ?_)
    rw [max_comm, ← abs_neg y.val]
    exact abs_le_max_abs_abs (by linarith) (by linarith)
  · refine .inl (hmax hadd ?_)
    rw [max_comm]
    exact abs_le_max_abs_abs (by linarith) (by linarith)
  · exact .inl (hmax hadd (abs_le_max_abs_abs (by linarith) (by linarith)))
  · refine .inr (hmax hsub ?_)
    rw [← abs_neg y.val]
    exact abs_le_max_abs_abs (by linarith) (by linarith)

/-! ## Factors above zero, and halves -/

theorem isNaN_mul_of_pos (hy : 0 < y) (hf : y.isFinite = true) (x : Scalar) :
    (y * x).isNaN = x.isNaN := by
  cases hn : x.isNaN with
  | true =>
    rw [Scalar.mul_comm]
    exact isNaN_mul hn y
  | false =>
    obtain hxf | ⟨s, hs⟩ := isFinite_or_infinity hn
    · exact (isNearest_mul hf hxf).not_nan
    · obtain ⟨m, e, hm, hu⟩ := finite_of_pos hy hf
      refine isNaN_of_infinity (s := .positive * s) ?_
      rw [mul_eq, hu, hs]
      exact unpacked_infinity _

theorem isFinite_div_of_one_le (hx : x.isFinite = true) (hy : y.isFinite = true) (h1 : 1 ≤ y.val) :
    (x / y).isFinite = true := by
  refine (isNearest_div hx hy (by linarith)).isFinite_of_abs_le hx ?_
  rw [abs_div]
  exact div_le_self (abs_nonneg _) (h1.trans (le_abs_self _))

theorem isFinite_half (h : x.isFinite = true) : (x / 2).isFinite = true :=
  isFinite_div_of_one_le h isFinite_two (by norm_num [val_two])

theorem half_infinity (h : x.unpacked = .infinity s) : (x / 2).unpacked = .infinity s := by
  obtain ⟨m, e, hm, hu⟩ : ∃ m e hm, (2 : Scalar).unpacked = .finite .positive m e hm := ⟨_, _, _, rfl⟩
  have hi : UnpackedFloat.div Format.binary32 x.unpacked (2 : Scalar).unpacked = .infinity s := by
    rw [h, hu]
    cases s <;> rfl
  rw [div_eq, hi]
  exact unpacked_infinity s

theorem isNaN_half (x : Scalar) : (x / 2).isNaN = x.isNaN := by
  cases hn : x.isNaN with
  | true =>
    have hd : UnpackedFloat.div Format.binary32 x.unpacked (2 : Scalar).unpacked = .notANumber := by
      rw [unpacked_of_isNaN hn]
      rfl
    rw [div_eq, hd]
    exact isNaN_notANumber
  | false =>
    obtain hf | ⟨s, hs⟩ := isFinite_or_infinity hn
    · exact isNaN_of_isFinite (isFinite_half hf)
    · exact isNaN_of_infinity (half_infinity hs)

end Scalar

end BrushlessDrive
