import BrushlessDrive.Proofs.Scalar.Infinity

/-!
# Remainders

The remainder of two finite scalars needs no rounding: both are integers on a common exponent, and the
remainder of the integers has no more bits than one of them. So `Scalar.remainder` gives the exact
remainder of the quotient truncated toward zero (`remainder_spec`). There is none of an infinity, or of what is
no number (`isNaN_remainder`).
-/

set_option autoImplicit false

namespace BrushlessDrive

open Float.Model (Format UnpackedFloat)
open Float.Model.UnpackedFloat (Sign decreaseExponent)

namespace Scalar

open Binary32

variable {x y : Scalar}

theorem abs_spec (hx : x.isFinite = true) : x.abs.isFinite = true ∧ val x.abs = |x.val| := by
  have hc := canonical hx
  have hr := representable_val hx
  have hb := abs_val_lt hx
  have ha : Representable |x.val| := by
    rcases abs_choice x.val with h | h <;> rw [h]
    · exact hr
    · exact hr.neg
  have hu : Canonical x.unpacked.abs ∧ value x.unpacked.abs = nearest |x.val| := by
    rw [nearest_of_representable ha, val]
    cases hx' : x.unpacked with
    | infinity s => rw [hx'] at hc; exact hc.elim
    | notANumber => rw [hx'] at hc; exact hc.elim
    | zero s => exact ⟨trivial, abs_zero.symm⟩
    | finite s m e hm =>
      rw [hx'] at hc
      refine ⟨hc, ?_⟩
      rw [abs_value_finite]
      exact one_mul _
  exact (isNearest_ofUnpacked hu).exact ha (by rwa [abs_abs])

theorem abs_lt_iff (hx : x.isFinite = true) (hy : y.isFinite = true) :
    x.abs < y.abs ↔ |x.val| < |y.val| := by
  obtain ⟨hxa, hxv⟩ := abs_spec hx
  obtain ⟨hya, hyv⟩ := abs_spec hy
  rw [lt_iff (isNaN_of_isFinite hxa) (isNaN_of_isFinite hya), hxv, hyv]

/-- A bound of the magnitude leaves out the infinities, and what is no number. -/
theorem isFinite_of_abs_le (h : x.abs ≤ y) (hy : y.isFinite = true) :
    x.isFinite = true ∧ |x.val| ≤ y.val := by
  have hf : x.isFinite = true := by
    have hu : unpacked x.abs = (ofUnpacked x.unpacked.abs).unpacked := rfl
    obtain ⟨hn, hyn⟩ := isNaN_of_le h
    rw [isNaN_eq, hu] at hn
    rw [le_iff (by rwa [isNaN_eq, hu]) hyn, val, hu] at h
    rw [isFinite_eq]
    cases hx : x.unpacked with
    | infinity s =>
      have hi : (ofUnpacked (UnpackedFloat.infinity s).abs).unpacked = .infinity .positive :=
        unpacked_infinity .positive
      rw [hx, hi] at h
      have := (abs_lt.1 (abs_val_lt hy)).2
      norm_num [signum] at h this
      linarith
    | notANumber => rw [hx] at hn; cases hn
    | _ => rfl
  obtain ⟨ha, hv⟩ := abs_spec hf
  rw [le_iff (isNaN_of_isFinite ha) (isNaN_of_isFinite hy), hv] at h
  exact ⟨hf, h⟩

/-! ## The remainder of integers on a common exponent -/

/-- It has no more bits than the lesser of the two mantissas that were shifted to the exponent. -/
theorem mod_lt_two_pow {m n : ℕ} {e f : ℤ} (hm : m < 2 ^ 24) (hn : 0 < n) (hn' : n < 2 ^ 24) :
    (m <<< (e - min e f).toNat) % (n <<< (f - min e f).toNat) < 2 ^ 24 := by
  rcases le_total e f with h | h
  · have h0 : (e - min e f).toNat = 0 := by omega
    rw [h0]
    exact (Nat.mod_le _ _).trans_lt hm
  · have h0 : (f - min e f).toNat = 0 := by omega
    rw [h0]
    exact (Nat.mod_lt _ hn).trans hn'

theorem IsNearest.mod {r : Scalar} {s : Sign} {a b : ℕ} {k : ℤ}
    (h : IsNearest r (signum s * ((a % b : ℕ) * 2 ^ k))) (hb : 0 < b) (hbits : a % b < 2 ^ 24)
    (hk : -149 ≤ k) (hlt : (b : ℚ) * 2 ^ k < 2 ^ 128) :
    r.isFinite = true ∧ (∃ c : ℤ, r.val = signum s * (a * 2 ^ k) - c * (b * 2 ^ k)) ∧
      |r.val| < b * 2 ^ k ∧ 0 ≤ r.val * (signum s * (a * 2 ^ k)) := by
  have hp := two_zpow_pos k
  have hmod : ((a % b : ℕ) : ℚ) * 2 ^ k < b * 2 ^ k :=
    mul_lt_mul_of_pos_right (by exact_mod_cast Nat.mod_lt a hb) hp
  have habs : |signum s * (((a % b : ℕ) : ℚ) * 2 ^ k)| = (a % b : ℕ) * 2 ^ k := by
    cases s <;> simp [signum, abs_of_pos hp]
  have hr : Representable (signum s * (((a % b : ℕ) : ℚ) * 2 ^ k)) :=
    representable_signum_mul s hbits hk
  obtain ⟨hf, hv⟩ := h.exact hr (by rw [habs]; exact hmod.trans hlt)
  rw [hv, habs]
  refine ⟨hf, ⟨s.apply (a / b : ℕ), ?_⟩, hmod, ?_⟩
  · have hd : (a : ℚ) = b * (a / b : ℕ) + (a % b : ℕ) := by exact_mod_cast (Nat.div_add_mod a b).symm
    rw [signum_apply, Int.cast_natCast]
    linear_combination (-(signum s * 2 ^ k)) * hd
  · have hs : signum s * signum s = 1 := by cases s <;> norm_num [signum]
    have he : signum s * (((a % b : ℕ) : ℚ) * 2 ^ k) * (signum s * (a * 2 ^ k)) =
        signum s * signum s * ((a % b : ℕ) * 2 ^ k * (a * 2 ^ k)) := by ring
    rw [he, hs, one_mul]
    positivity

/-! ## The remainder of scalars -/

/-- The remainder as the rounded form of one of integers. -/
theorem isNearest_remainder {s t : Sign} {m n : ℕ} {e f : ℤ} {hm : 0 < m} {hn : 0 < n}
    (hx : x.unpacked = .finite s m e hm) (hy : y.unpacked = .finite t n f hn)
    (hle : ¬ x.abs < y.abs) :
    IsNearest (remainder x y)
      (signum s * (((m <<< (e - min e f).toNat) % (n <<< (f - min e f).toNat) : ℕ) * 2 ^ min e f)) := by
  have h := isNearest_ofUnpacked (normalize_spec
    (s.apply ((m <<< (e - min e f).toNat) % (n <<< (f - min e f).toNat) : ℕ)) (min e f) s)
  rw [signum_apply, mul_assoc, Int.cast_natCast] at h
  unfold remainder
  rw [if_neg hle, hx, hy]
  exact h

/-- **The remainder is exact.** It is what is left of `x` after whole multiples of `y`, is less than `y`
and lies on the side of zero that `x` is on. -/
theorem remainder_spec (hx : x.isFinite = true) (hy : y.isFinite = true) (h0 : 0 < y) :
    (remainder x y).isFinite = true ∧ (∃ c : ℤ, (remainder x y).val = x.val - c * y.val) ∧
      |(remainder x y).val| < y.val ∧ 0 ≤ (remainder x y).val * x.val := by
  have hy0 := val_pos h0
  by_cases hlt : x.abs < y.abs
  · have hr : remainder x y = x := if_pos hlt
    rw [abs_lt_iff hx hy, abs_of_pos hy0] at hlt
    rw [hr]
    exact ⟨hx, ⟨0, by simp⟩, hlt, mul_self_nonneg _⟩
  have hxc := canonical hx
  have hyc := canonical hy
  have hyb := abs_val_lt hy
  obtain ⟨n, f, hn, hy'⟩ := finite_of_pos h0 hy
  rw [hy'] at hyc
  cases hx' : x.unpacked with
  | infinity s => rw [hx'] at hxc; exact hxc.elim
  | notANumber => rw [hx'] at hxc; exact hxc.elim
  | zero s =>
    -- zero is less than any divisor
    have hz : x.val = 0 := congrArg value hx'
    rw [abs_lt_iff hx hy, hz, abs_zero] at hlt
    exact absurd (abs_pos.2 hy0.ne') hlt
  | finite s m e hm =>
    rw [hx'] at hxc
    have hxv : x.val = signum s * ((m <<< (e - min e f).toNat : ℕ) * 2 ^ min e f) := by
      rw [val, hx', value_finite]
      exact congrArg (signum s * ·) (decreaseExponent_spec m (min_le_left e f)).1.symm
    have hyv : y.val = (n <<< (f - min e f).toNat : ℕ) * 2 ^ min e f := by
      rw [val, hy', value_finite, signum, one_mul]
      exact (decreaseExponent_spec n (min_le_right e f)).1.symm
    have hpos : 0 < n <<< (f - min e f).toNat := by
      rw [Nat.shiftLeft_eq]
      positivity
    rw [abs_of_pos hy0] at hyb
    rw [hyv] at hyb ⊢
    rw [hxv]
    exact (isNearest_remainder hx' hy' hlt).mod hpos (mod_lt_two_pow hxc.1 hn hyc.1)
      (le_min hxc.2.1 hyc.2.1) hyb

/-- What is less than the divisor is left as it is. -/
theorem remainder_of_abs_lt (hx : x.isFinite = true) (hy : y.isFinite = true) (h : |x.val| < |y.val|) :
    remainder x y = x :=
  if_pos ((abs_lt_iff hx hy).2 h)

theorem remainder_nonneg (hx : 0 ≤ x) (hxf : x.isFinite = true) (hy : y.isFinite = true) (h0 : 0 < y) :
    0 ≤ remainder x y := by
  obtain ⟨hf, -, -, hs⟩ := remainder_spec hxf hy h0
  rcases (val_nonneg hx).eq_or_lt with hx0 | hx0
  · have hlt : |x.val| < |y.val| := by
      rw [← hx0, abs_zero]
      exact abs_pos.2 (val_pos h0).ne'
    rwa [remainder_of_abs_lt hxf hy hlt]
  · rw [nonneg_iff (isNaN_of_isFinite hf)]
    exact nonneg_of_mul_nonneg_left hs hx0

/-- An infinity has no remainder, and neither has what is no number. -/
theorem isNaN_remainder (hx : x.isFinite = false) (hy : y.isFinite = true) :
    (remainder x y).isNaN = true := by
  have hlt : ¬ x.abs < y.abs := by
    intro h
    have hxf := (isFinite_of_abs_le (Scalar.le_of_lt h) (abs_spec hy).1).1
    rw [hx] at hxf
    cases hxf
  rw [isFinite_eq] at hx
  unfold remainder
  rw [if_neg hlt]
  split
  · rename_i hu _
    rw [hu] at hx
    cases hx
  · rfl

end Scalar

end BrushlessDrive
