import BrushlessDrive.Proofs.Scalar.Order

/-!
# Rounding to an integer

`Scalar.roundHalfAway` gives the integer nearest to a number, and of two the one that is further from zero:
`Binary32.roundAway` of its value (`val_roundHalfAway`). The integer has no more bits than the number, so it
is exact, and an infinity stays where it is.
-/

set_option autoImplicit false

namespace BrushlessDrive

open Float.Model (Format UnpackedFloat)
open Float.Model.UnpackedFloat (Sign)

namespace Binary32

/-! ## The nearest integer -/

def roundAway (q : ℚ) : ℤ := if 0 ≤ q then ⌊q + 1 / 2⌋ else -⌊-q + 1 / 2⌋

variable {p q : ℚ}

theorem roundAway_of_nonneg (h : 0 ≤ q) : roundAway q = ⌊q + 1 / 2⌋ := if_pos h

@[simp] theorem roundAway_intCast (n : ℤ) : roundAway n = n := by
  have hf (k : ℤ) : ⌊(k : ℚ) + 1 / 2⌋ = k := Int.floor_eq_iff.2 ⟨by linarith, by linarith⟩
  unfold roundAway
  split
  · exact hf n
  · rw [← Int.cast_neg, hf, neg_neg]

@[simp] theorem roundAway_zero : roundAway 0 = 0 := by
  simpa using roundAway_intCast 0

@[simp] theorem roundAway_neg (q : ℚ) : roundAway (-q) = -roundAway q := by
  rcases lt_trichotomy q 0 with h | rfl | h
  · rw [roundAway, roundAway, if_pos (by linarith), if_neg (by linarith), neg_neg]
  · simp
  · rw [roundAway, roundAway, if_neg (by linarith), if_pos h.le, neg_neg]

theorem roundAway_nonneg (h : 0 ≤ q) : 0 ≤ roundAway q := by
  rw [roundAway_of_nonneg h]
  exact Int.floor_nonneg.2 (by linarith)

theorem roundAway_mono (h : p ≤ q) : roundAway p ≤ roundAway q := by
  rcases le_total 0 p with hp | hp
  · rw [roundAway_of_nonneg hp, roundAway_of_nonneg (hp.trans h)]
    exact Int.floor_le_floor (by linarith)
  rcases le_total 0 q with hq | hq
  · have := roundAway_nonneg (neg_nonneg.2 hp)
    rw [roundAway_neg] at this
    exact (neg_nonneg.1 this).trans (roundAway_nonneg hq)
  · rw [← neg_le_neg_iff, ← roundAway_neg, ← roundAway_neg, roundAway_of_nonneg (neg_nonneg.2 hp),
      roundAway_of_nonneg (neg_nonneg.2 hq)]
    exact Int.floor_le_floor (by linarith)

theorem roundAway_bounds (h : 0 ≤ q) : q - 1 / 2 < roundAway q ∧ roundAway q ≤ q + 1 / 2 := by
  have hlo := Int.floor_le (q + 1 / 2)
  have hhi := Int.lt_floor_add_one (q + 1 / 2)
  rw [roundAway_of_nonneg h]
  exact ⟨by linarith, hlo⟩

theorem abs_roundAway_sub_le (q : ℚ) : |roundAway q - q| ≤ 1 / 2 := by
  rcases le_total 0 q with h | h
  · obtain ⟨hlo, hhi⟩ := roundAway_bounds h
    exact abs_le.2 ⟨by linarith, by linarith⟩
  · obtain ⟨hlo, hhi⟩ := roundAway_bounds (neg_nonneg.2 h)
    rw [roundAway_neg, Int.cast_neg] at hlo hhi
    exact abs_le.2 ⟨by linarith, by linarith⟩

/-! ## Mantissas -/

/-- Half of the first place after the point is added before the places after the point go. -/
theorem shifted_eq_floor (m : ℕ) {k : ℕ} (hk : 0 < k) :
    (((m + 1 <<< (k - 1)) >>> k : ℕ) : ℤ) = ⌊(m : ℚ) / 2 ^ k + 1 / 2⌋ := by
  obtain ⟨j, rfl⟩ : ∃ j, k = j + 1 := ⟨k - 1, by omega⟩
  have hsum : (m : ℚ) / 2 ^ (j + 1) + 1 / 2 = (m + 2 ^ j : ℕ) / (2 ^ (j + 1) : ℕ) := by
    push_cast
    field_simp
    ring
  rw [hsum, Nat.add_sub_cancel, Nat.shiftLeft_eq, one_mul, Nat.shiftRight_eq_div_pow,
    Rat.floor_natCast_div_natCast, Int.natCast_div]

/-- Of a number with places after the point no more than 23 bits are before it. -/
theorem shifted_lt {m k : ℕ} (hm : m < 2 ^ 24) (hk : 0 < k) :
    (m + 1 <<< (k - 1)) >>> k < 2 ^ 24 := by
  obtain ⟨j, rfl⟩ : ∃ j, k = j + 1 := ⟨k - 1, by omega⟩
  rw [Nat.add_sub_cancel, Nat.shiftLeft_eq, one_mul, Nat.shiftRight_eq_div_pow,
    Nat.div_lt_iff_lt_mul (by positivity), pow_succ]
  have := Nat.one_le_two_pow (n := j)
  omega

/-! ## Signs -/

theorem roundAway_signum_mul (s : Sign) (h : 0 ≤ q) :
    (roundAway (signum s * q) : ℚ) = signum s * ⌊q + 1 / 2⌋ := by
  rw [← roundAway_of_nonneg h]
  cases s <;> simp [signum]

/-- What has no places after the point is an integer. -/
theorem roundAway_signum_mul_natCast (s : Sign) (n : ℕ) :
    (roundAway (signum s * n) : ℚ) = signum s * n := by
  have hint : signum s * (n : ℚ) = (s.apply n : ℤ) := by rw [signum_apply, Int.cast_natCast]
  rw [hint, roundAway_intCast]

end Binary32

namespace Scalar

open Binary32

variable {x y : Scalar}

theorem val_shifted (s : Sign) {m k : ℕ} (hm : m < 2 ^ 24) (hk : 0 < k) :
    let z := ofUnpacked (.normalize Format.binary32 (s.apply ((m + 1 <<< (k - 1)) >>> k : ℕ)) 0 s)
    z.isNaN = false ∧ z.val = signum s * ⌊(m : ℚ) / 2 ^ k + 1 / 2⌋ := by
  intro z
  have hfloor := shifted_eq_floor m hk
  have hlt := shifted_lt hm hk
  have hz : IsNearest z ((s.apply ((m + 1 <<< (k - 1)) >>> k : ℕ) : ℤ) * 2 ^ (0 : ℤ)) :=
    isNearest_ofUnpacked (normalize_spec _ 0 s)
  generalize (m + 1 <<< (k - 1)) >>> k = w at hfloor hlt hz
  have hr : Representable (signum s * (w * 2 ^ (0 : ℤ))) :=
    representable_signum_mul s hlt (by norm_num)
  have habs : |signum s * (w * 2 ^ (0 : ℤ))| = w := by cases s <;> simp [signum]
  rw [signum_apply, mul_assoc, Int.cast_natCast] at hz
  obtain ⟨hf, hv⟩ := hz.exact hr (by rw [habs]; exact_mod_cast hlt.trans (by norm_num))
  rw [hv, zpow_zero, mul_one, ← Int.cast_natCast, hfloor]
  exact ⟨isNaN_of_isFinite hf, rfl⟩

theorem val_roundHalfAway (hx : x.isNaN = false) :
    (roundHalfAway x).isNaN = false ∧ (roundHalfAway x).val = roundAway x.val := by
  obtain ⟨s, hu⟩ | hu | ⟨hc, -⟩ := x.unpacked_cases
  · have hr : roundHalfAway x = x := by simp only [roundHalfAway, hu]
    have hv : x.val = signum s * (2 ^ 128 : ℕ) := by
      rw [val, hu, value_infinity, Nat.cast_pow, Nat.cast_two]
    rw [hr, hv, roundAway_signum_mul_natCast]
    exact ⟨hx, rfl⟩
  · rw [isNaN_eq, hu] at hx
    cases hx
  cases hu : x.unpacked with
  | infinity s => rw [hu] at hc; exact hc.elim
  | notANumber => rw [hu] at hc; exact hc.elim
  | zero s =>
    have hr : roundHalfAway x = x := by simp only [roundHalfAway, hu]
    have hv : x.val = 0 := congrArg value hu
    rw [hr, hv, roundAway_zero, Int.cast_zero]
    exact ⟨hx, rfl⟩
  | finite s m e hm =>
    rw [hu] at hc
    have hv : x.val = signum s * (m * 2 ^ e) := congrArg value hu
    rcases le_or_gt 0 e with he | he
    · obtain ⟨n, rfl⟩ := Int.eq_ofNat_of_zero_le he
      have hr : roundHalfAway x = x := by
        unfold roundHalfAway
        rw [hu]
        exact if_pos he
      have hint : (m : ℚ) * 2 ^ (n : ℤ) = (m * 2 ^ n : ℕ) := by
        rw [zpow_natCast]
        push_cast
        rfl
      rw [hr, hv, hint, roundAway_signum_mul_natCast]
      exact ⟨hx, rfl⟩
    · obtain ⟨k, hk⟩ : ∃ k : ℕ, (-e).toNat = k := ⟨_, rfl⟩
      have hk0 : 0 < k := by omega
      have hr : roundHalfAway x = ofUnpacked (.normalize Format.binary32
          (s.apply ((m + 1 <<< (k - 1)) >>> k : ℕ)) 0 s) := by
        unfold roundHalfAway
        rw [hu, ← hk]
        exact if_neg he.not_ge
      have hq : (m : ℚ) * 2 ^ e = m / 2 ^ k := by
        rw [show e = -(k : ℤ) by omega, zpow_neg, zpow_natCast, div_eq_mul_inv]
      rw [hr, hv, hq, roundAway_signum_mul s (by positivity)]
      exact val_shifted s hc.1 hk0

end Scalar

end BrushlessDrive
