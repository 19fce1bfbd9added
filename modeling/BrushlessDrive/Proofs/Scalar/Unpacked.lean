import BrushlessDrive.Proofs.Scalar.Rounding
import Mathlib.Tactic.FieldSimp
import Mathlib.Tactic.LinearCombination
import Mathlib.Tactic.Positivity

/-!
# Rounding of unpacked numbers

The arithmetic works on unpacked numbers `± m · 2 ^ e`. It carries the bits that do not fit into the
mantissa as a round bit and a sticky bit; `Residue` is what the two say about the exact number. They
suffice to round correctly (`Residue.isRounded`), shifts keep them right (`Residue.shiftRight`), and
so the rounding of an unpacked number is `Binary32.nearest` of its value
(`roundWithAccuracy_spec`).

`Canonical`: the number has 24 bits, or as many as there are above `2 ^ -149`. Every rounded number
is canonical; its exponent may still be too great for the format.
-/

set_option autoImplicit false

namespace BrushlessDrive.Binary32

open Float.Model (Format UnpackedFloat totalExponent)
open Float.Model.UnpackedFloat

/-! ## Values -/

def signum : Sign → ℚ
  | .negative => -1
  | .positive => 1

/-- The rational value. An infinity stands for the first power of two beyond the format, and what is
no number for zero. -/
def value : UnpackedFloat → ℚ
  | .infinity s => signum s * 2 ^ 128
  | .notANumber => 0
  | .zero _ => 0
  | .finite s m e _ => signum s * (m * 2 ^ e)

@[simp] theorem value_infinity (s : Sign) : value (.infinity s) = signum s * 2 ^ 128 := rfl

@[simp] theorem value_zero (s : Sign) : value (.zero s) = 0 := rfl

@[simp] theorem value_finite (s : Sign) (m : ℕ) (e : ℤ) (h : 0 < m) :
    value (.finite s m e h) = signum s * (m * 2 ^ e) := rfl

/-- A number that is neither infinite nor no number, with all the bits that the format has room
for. -/
def Canonical : UnpackedFloat → Prop
  | .infinity _ | .notANumber => False
  | .zero _ => True
  | .finite _ m e _ => m < 2 ^ 24 ∧ -149 ≤ e ∧ (2 ^ 23 ≤ m ∨ e = -149)

@[simp] theorem signum_apply (s : Sign) (n : ℤ) : ((s.apply n : ℤ) : ℚ) = signum s * n := by
  cases s <;> simp [Sign.apply, signum]

/-- A mantissa of 24 bits with a sign and an exponent is a number of the format. -/
theorem representable_signum_mul (s : Sign) {m : ℕ} (hm : m < 2 ^ 24) {e : ℤ} (he : -149 ≤ e) :
    Representable (signum s * (m * 2 ^ e)) := by
  refine ⟨s.apply m, e, ?_, he, ?_⟩
  · cases s <;> simp only [Sign.apply, abs_neg, Nat.abs_cast] <;> exact_mod_cast hm
  · rw [signum_apply, mul_assoc]
    rfl

@[simp] theorem signum_mul (s t : Sign) : signum (s * t) = signum s * signum t := by
  cases s <;> cases t
  · show (1 : ℚ) = -1 * -1
    norm_num
  · show (-1 : ℚ) = -1 * 1
    norm_num
  · show (-1 : ℚ) = 1 * -1
    norm_num
  · show (1 : ℚ) = 1 * 1
    norm_num

@[simp] theorem signum_div (s t : Sign) : signum (s / t) = signum s / signum t := by
  have hd : s / t = s * t := by cases s <;> cases t <;> rfl
  have ht : (signum t)⁻¹ = signum t := by cases t <;> norm_num [signum]
  rw [hd, signum_mul, div_eq_mul_inv, ht]

@[simp] theorem signum_neg (s : Sign) : signum (-s) = -signum s := by
  cases s
  · exact (neg_neg 1).symm
  · rfl

theorem nearest_signum_mul (s : Sign) (q : ℚ) : nearest (signum s * q) = signum s * nearest q := by
  cases s <;> simp [signum, nearest_neg]

/-! ## Round bit and sticky bit -/

/-- `x` has the mantissa of `em` as its integer part, and its fraction is as the two bits say. -/
structure Residue (em : ExtendedMantissa) (x : ℚ) : Prop where
  lower : em.mantissa ≤ x
  upper : x < em.mantissa + 1
  round : em.roundBit = true ↔ em.mantissa + 1 / 2 ≤ x
  sticky : em.stickyBit = true ↔ x ≠ em.mantissa ∧ x ≠ em.mantissa + 1 / 2

theorem residue_exact (m : ℕ) : Residue (.ofMantissaAndAccuracy m .exact) m := by
  constructor <;> norm_num [ExtendedMantissa.ofMantissaAndAccuracy]

/-- Rounding up or down by the two bits gives the nearest integer. -/
theorem Residue.isRounded {em : ExtendedMantissa} {x : ℚ} (h : Residue em x) :
    IsRounded x em.roundedMantissa := by
  obtain ⟨m, r, s⟩ := em
  obtain ⟨hl, hu, hr, hs⟩ := h
  dsimp only at hl hu hr hs
  have hm : (m : ℤ) % 2 = 0 ∨ (m : ℤ) % 2 = 1 := by omega
  cases r <;> cases s <;>
    simp only [ExtendedMantissa.roundedMantissa, ExtendedMantissa.accuracy,
      Accuracy.roundToNearestEven]
  · -- nothing is left over
    have hx : x = m := by
      by_contra hx
      have : x = m + 1 / 2 := by simpa [hx] using hs
      simp [this] at hr
    rw [hx]
    exact isRounded_intCast m
  · -- less than half
    have hlt : x < m + 1 / 2 := by simpa using hr
    refine .of_abs_lt (abs_lt.2 ⟨?_, ?_⟩) <;> push_cast <;> linarith
  · -- half: the even one of the two neighbours
    have hx : x = m + 1 / 2 := by
      have hx : x ≠ m := by
        rintro rfl
        norm_num at hr
      by_contra hne
      exact absurd (hs.2 ⟨hx, hne⟩) (by simp)
    rcases hm with h0 | h1
    · have he : ((m + m % 2 : ℕ) : ℤ) = m := by omega
      refine ⟨?_, fun _ => by omega⟩
      rw [he, hx]
      norm_num
    · have he : ((m + m % 2 : ℕ) : ℤ) = m + 1 := by omega
      refine ⟨?_, fun _ => by omega⟩
      rw [he, hx]
      norm_num
  · -- more than half
    have hgt : m + 1 / 2 < x := lt_of_le_of_ne (hr.1 rfl) (Ne.symm (hs.1 rfl).2)
    refine .of_abs_lt (abs_lt.2 ⟨?_, ?_⟩) <;> push_cast <;> linarith

theorem Residue.shiftRightOne {em : ExtendedMantissa} {x : ℚ} (h : Residue em x) :
    Residue em.shiftRightOne (x / 2) := by
  obtain ⟨m, r, s⟩ := em
  obtain ⟨hl, hu, hr, hs⟩ := h
  dsimp only at hl hu hr hs
  -- the two bits together say whether anything is left over
  have hrs : (r || s) = true ↔ x ≠ m := by
    rw [Bool.or_eq_true, hr, hs]
    constructor
    · rintro (h | h)
      · intro he
        rw [he] at h
        linarith
      · exact h.1
    · intro hne
      by_cases he : x = m + 1 / 2
      · exact .inl he.ge
      · exact .inr ⟨hne, he⟩
  obtain ⟨q, rfl | rfl⟩ : ∃ q, m = 2 * q ∨ m = 2 * q + 1 := ⟨m / 2, by omega⟩
  · have hd : 2 * q / 2 = q := by omega
    push_cast at hl hu hrs
    refine ⟨?_, ?_, ?_, ?_⟩ <;> simp only [ExtendedMantissa.shiftRightOne, hd]
    · linarith
    · linarith
    · refine ⟨fun h => ?_, fun h => ?_⟩
      · norm_num at h
      · linarith
    · rw [hrs]
      refine ⟨fun hne => ⟨fun he => hne (by linarith), fun he => ?_⟩, fun hne he => hne.1 ?_⟩ <;>
        linarith
  · have hd : (2 * q + 1) / 2 = q := by omega
    push_cast at hl hu hrs
    refine ⟨?_, ?_, ?_, ?_⟩ <;> simp only [ExtendedMantissa.shiftRightOne, hd]
    · linarith
    · linarith
    · refine ⟨fun _ => by linarith, fun _ => ?_⟩
      norm_num
    · rw [hrs]
      refine ⟨fun hne => ⟨fun he => ?_, fun he => hne (by linarith)⟩, fun hne he => hne.2 ?_⟩ <;>
        linarith

theorem Residue.shiftRight {em : ExtendedMantissa} {x : ℚ} (h : Residue em x) (n : ℕ) :
    Residue (em >>> n) (x / 2 ^ n) := by
  show Residue (n.repeat ExtendedMantissa.shiftRightOne em) _
  induction n with
  | zero => simpa [Nat.repeat] using h
  | succ n ih =>
    rw [pow_succ, ← div_div]
    exact ih.shiftRightOne

/-! ## Rounding to the format -/

theorem targetExponent_eq (t : ℤ) : Format.binary32.targetExponent t = max (t - 24) (-149) := rfl

@[simp] theorem mantissa_ofMantissaAndAccuracy (m : ℕ) (acc : Accuracy) :
    (ExtendedMantissa.ofMantissaAndAccuracy m acc).mantissa = m := by
  rcases acc with _ | o
  · rfl
  · cases o <;> rfl

/-- The exponent that rounding goes for is that of the last place, if there are enough bits. -/
theorem targetExponent_of_residue {m : ℕ} {e : ℤ} {acc : Accuracy} {x : ℚ}
    (hx : Residue (.ofMantissaAndAccuracy m acc) x) (hpos : 0 < x)
    (he : e ≤ Format.binary32.targetExponent (totalExponent m e)) :
    Format.binary32.targetExponent (totalExponent m e) = ulpExponent (x * 2 ^ e) := by
  have h2e : (0 : ℚ) < 2 ^ e := zpow_pos (by norm_num) e
  have hl := hx.lower
  have hu := hx.upper
  rw [mantissa_ofMantissaAndAccuracy] at hl hu
  rw [targetExponent_eq, totalExponent] at he ⊢
  have habs : |x * 2 ^ e| = x * 2 ^ e := abs_of_pos (mul_pos hpos h2e)
  by_cases hm : m = 0
  · -- less than one unit, which is then at most the least place of the format
    subst hm
    rw [Nat.log2_zero] at he ⊢
    have hle : ulpExponent (x * 2 ^ e) ≤ -149 := by
      refine ulpExponent_le (mul_pos hpos h2e).ne' le_rfl ?_
      rw [habs]
      have h1 : (2 : ℚ) ^ e ≤ 2 ^ (-149 : ℤ) := zpow_le_zpow_right₀ (by norm_num) (by omega)
      have h0 : (0 : ℚ) < 2 ^ (-149 : ℤ) := zpow_pos (by norm_num) _
      have h3 : x * 2 ^ e < 1 * 2 ^ e := mul_lt_mul_of_pos_right (by simpa using hu) h2e
      linarith
    have hge : -149 ≤ ulpExponent (x * 2 ^ e) := le_max_right _ _
    omega
  · have h1 : (2 : ℚ) ^ m.log2 ≤ m := by exact_mod_cast Nat.log2_self_le hm
    have h2 : (m : ℚ) + 1 ≤ 2 ^ (m.log2 + 1) := by exact_mod_cast Nat.lt_log2_self (n := m)
    rw [ulpExponent_eq (k := m.log2 + e)]
    · omega
    · rw [habs, zpow_add₀ (by norm_num), zpow_natCast]
      exact mul_le_mul_of_nonneg_right (h1.trans hl) h2e.le
    · rw [habs, show (m.log2 : ℤ) + e + 1 = ((m.log2 + 1 : ℕ) : ℤ) + e by push_cast; ring,
        zpow_add₀ (by norm_num), zpow_natCast]
      exact mul_lt_mul_of_pos_right (hu.trans_le h2) h2e

/-- The first shift, to the last place of the value. -/
theorem exists_shift {m : ℕ} {e : ℤ} {acc : Accuracy} {x : ℚ}
    (hx : Residue (.ofMantissaAndAccuracy m acc) x) (hpos : 0 < x)
    (he : e ≤ Format.binary32.targetExponent (totalExponent m e)) :
    ∃ em, shiftToTargetExponent Format.binary32 m e acc = (em, ulpExponent (x * 2 ^ e)) ∧
      Residue em (x * 2 ^ e / 2 ^ ulpExponent (x * 2 ^ e)) := by
  have hT := targetExponent_of_residue hx hpos he
  generalize hq : x * 2 ^ e = q at *
  have h2e : (0 : ℚ) < 2 ^ e := zpow_pos (by norm_num) e
  obtain ⟨n, hn⟩ := Int.le.dest (hT ▸ he)
  have hd : q / 2 ^ ulpExponent q = x / 2 ^ n := by
    rw [← hn, two_zpow_add, ← hq, mul_div_mul_right _ _ h2e.ne']
  refine ⟨ExtendedMantissa.ofMantissaAndAccuracy m acc >>> n, ?_, ?_⟩
  · dsimp only [shiftToTargetExponent, shiftToExponent]
    rw [hT, ← hn, show (e + n - e).toNat = n by omega]
  · rw [hd]
    exact hx.shiftRight n

/-- The second shift undoes a carry out of the 24 bits, and otherwise does nothing. -/
theorem shift_carry {r : ℕ} {t : ℤ} (hr : r ≤ 2 ^ 24) (ht : -149 ≤ t) :
    let p := shiftToTargetExponent Format.binary32 r t .exact
    (r < 2 ^ 24 ∧ p.1.mantissa = r ∧ p.2 = t) ∨
      (r = 2 ^ 24 ∧ p.1.mantissa = 2 ^ 23 ∧ p.2 = t + 1) := by
  dsimp only [shiftToTargetExponent, shiftToExponent, totalExponent]
  rw [targetExponent_eq]
  rcases hr.lt_or_eq with hlt | rfl
  · have hl : r.log2 < 24 := by
      by_cases h0 : r = 0
      · subst h0
        decide
      · exact (Nat.log2_lt h0).2 hlt
    have hz : (max (((r.log2 : ℤ) + 1 + t) - 24) (-149) - t).toNat = 0 := by omega
    rw [hz]
    exact .inl ⟨hlt, rfl, by simp⟩
  · have ho : (max ((((2 ^ 24).log2 : ℕ) : ℤ) + 1 + t - 24) (-149) - t).toNat = 1 := by
      rw [Nat.log2_two_pow]
      omega
    rw [ho]
    exact .inr ⟨rfl, rfl, rfl⟩

theorem roundWithAccuracy_eq (s : Sign) {m : ℕ} {e t : ℤ} {acc : Accuracy} {em : ExtendedMantissa}
    {p : ExtendedMantissa × ℤ} (h : shiftToTargetExponent Format.binary32 m e acc = (em, t))
    (hp : shiftToTargetExponent Format.binary32 em.roundedMantissa t .exact = p) :
    roundWithAccuracy Format.binary32 s m e acc =
      if h : p.1.mantissa = 0 then .zero s
      else .finite s p.1.mantissa p.2 (Nat.pos_of_ne_zero h) := by
  subst hp
  unfold roundWithAccuracy
  rw [h]

/-- Rounding an unpacked number of at least the bits of the format. -/
theorem roundWithAccuracy_spec (s : Sign) {m : ℕ} {e : ℤ} {acc : Accuracy} {x : ℚ}
    (hx : Residue (.ofMantissaAndAccuracy m acc) x) (hpos : 0 < x)
    (he : e ≤ Format.binary32.targetExponent (totalExponent m e)) :
    Canonical (roundWithAccuracy Format.binary32 s m e acc) ∧
      value (roundWithAccuracy Format.binary32 s m e acc) = signum s * nearest (x * 2 ^ e) := by
  obtain ⟨em, hfirst, hres⟩ := exists_shift hx hpos he
  have hq0 : 0 < x * 2 ^ e := mul_pos hpos (zpow_pos (by norm_num) e)
  generalize x * 2 ^ e = q at *
  have hmin : -149 ≤ ulpExponent q := le_max_right _ _
  -- the rounded mantissa, and a carry out of it
  have hr : (em.roundedMantissa : ℤ) = roundEven (q / 2 ^ ulpExponent q) :=
    (roundEven_eq hres.isRounded).symm
  have hle : em.roundedMantissa ≤ 2 ^ 24 := by
    have := (abs_le.1 (abs_roundEven_le q)).2
    rw [← hr] at this
    exact_mod_cast this
  have hbits : 2 ^ 23 ≤ em.roundedMantissa ∨ ulpExponent q = -149 := by
    refine or_iff_not_imp_right.2 fun hne => ?_
    have hg := le_roundEven hq0 (by omega)
    rw [← hr] at hg
    exact_mod_cast hg
  have hval : nearest q = em.roundedMantissa * 2 ^ ulpExponent q := by
    rw [nearest, ← hr]
    rfl
  have hcarry := shift_carry hle hmin
  generalize hp : shiftToTargetExponent Format.binary32 em.roundedMantissa (ulpExponent q) .exact = p
    at hcarry
  rw [roundWithAccuracy_eq s hfirst hp, hval]
  obtain ⟨hlt, hm, hp⟩ | ⟨h24, hm, hp⟩ := hcarry
  · by_cases h0 : p.1.mantissa = 0
    · rw [dif_pos h0, ← hm, h0]
      exact ⟨trivial, by simp⟩
    · rw [dif_neg h0, hp]
      rw [← hm] at hlt hbits ⊢
      exact ⟨⟨hlt, hmin, hbits⟩, rfl⟩
  · by_cases h0 : p.1.mantissa = 0
    · rw [h0] at hm
      norm_num at hm
    · rw [dif_neg h0]
      refine ⟨⟨by rw [hm]; norm_num, by omega, .inl hm.ge⟩, ?_⟩
      show signum s * ((p.1.mantissa : ℚ) * 2 ^ p.2) = _
      rw [hm, hp, h24, zpow_add_one₀ (by norm_num)]
      push_cast
      ring

end BrushlessDrive.Binary32
