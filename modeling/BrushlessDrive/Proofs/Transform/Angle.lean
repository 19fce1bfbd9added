import BrushlessDrive.Proofs.Scalar.Remainder
import BrushlessDrive.Transform
import Mathlib.Algebra.Order.ToIntervalMod

/-!
# Angles within the turn

A finite angle is brought into `[0, 2π)`. The remainder of the turn can be below zero; with a turn added it is
within the turn again, or has been rounded to the end of it, which is replaced by zero. `turnResidue` is the
exact angle within the turn.
-/

set_option autoImplicit false

namespace BrushlessDrive

open Scalar Binary32

theorem isFinite_tau : tau.isFinite = true := by rfl

theorem tau_pos : 0 < tau := by decide +kernel

theorem nonneg_turned {x : Scalar} (hf : x.isFinite = true) (h : |x.val| < tau.val) :
    0 ≤ if x < 0 then x + tau else x := by
  have hn := isNaN_of_isFinite hf
  split
  · refine (isNearest_add hf isFinite_tau).nonneg ?_
    linarith [(abs_lt.1 h).1]
  · rename_i hx
    exact (le_iff_not_lt rfl hn).2 hx

theorem normalizeAngle_range {x : Scalar} (h : x.isFinite = true) :
    0 ≤ normalizeAngle x ∧ normalizeAngle x < tau := by
  obtain ⟨hf, -, hlt, -⟩ := remainder_spec h isFinite_tau tau_pos
  have hn := nonneg_turned hf hlt
  unfold normalizeAngle
  dsimp only
  generalize (if remainder x tau < 0 then remainder x tau + tau else remainder x tau) = y at *
  split
  · exact ⟨Scalar.le_refl rfl, tau_pos⟩
  · rename_i hy
    exact ⟨hn, (lt_iff_not_le (isNaN_of_le hn).2 rfl).2 hy⟩

/-! ## The exact residue -/

theorem val_tau_pos : 0 < tau.val := val_pos tau_pos

theorem val_tau_lt : tau.val < 2 ^ 3 := by decide +kernel

/-- The angle in `[0, 2π)` that is whole turns away from `q`, for the turn of the scalars. -/
def turnResidue (q : ℚ) : ℚ := Int.fract (q / tau.val) * tau.val

theorem turnResidue_eq {q r : ℚ} (h0 : 0 ≤ r) (h : r < tau.val) {n : ℤ} (hq : q = r + n * tau.val) :
    turnResidue q = r := by
  rw [turnResidue, ← toIcoMod_eq_fract_mul val_tau_pos, toIcoMod_eq_iff, zero_add]
  exact ⟨⟨h0, h⟩, n, by rw [hq, zsmul_eq_mul]⟩

/-! ## The computed angle -/

theorem isNaN_normalizeAngle {x : Scalar} (h : x.isFinite = false) : (normalizeAngle x).isNaN = true := by
  have hn := isNaN_remainder h isFinite_tau
  have hlt : ¬ remainder x tau < 0 := not_lt_of_isNaN (.inl hn)
  have hle : ¬ tau ≤ remainder x tau := not_le_of_isNaN (.inr hn)
  simpa [normalizeAngle, hlt, hle] using hn

theorem normalizeAngle_of_nonneg {x : Scalar} (h : 0 ≤ remainder x tau) (hx : x.isFinite = true) :
    normalizeAngle x = remainder x tau := by
  obtain ⟨hf, -, hlt, -⟩ := remainder_spec hx isFinite_tau tau_pos
  have hn := isNaN_of_isFinite hf
  have h0 : ¬ remainder x tau < 0 := (le_iff_not_lt rfl hn).1 h
  have ht : ¬ tau ≤ remainder x tau := by
    rw [le_iff rfl hn, not_le]
    exact (abs_lt.1 hlt).2
  simp [normalizeAngle, h0, ht]

theorem val_normalizeAngle_of_nonneg {x : Scalar} (h : 0 ≤ remainder x tau) (hx : x.isFinite = true) :
    (normalizeAngle x).val = turnResidue x.val := by
  obtain ⟨-, ⟨c, hc⟩, hlt, -⟩ := remainder_spec hx isFinite_tau tau_pos
  rw [normalizeAngle_of_nonneg h hx]
  exact (turnResidue_eq (val_nonneg h) (abs_lt.1 hlt).2 (n := c) (by rw [hc]; ring)).symm

/-- An angle within the turn stays as it is, with the sign of a zero. -/
theorem normalizeAngle_of_range {x : Scalar} (h0 : 0 ≤ x) (h : x < tau) : normalizeAngle x = x := by
  have hf := isFinite_of_le_of_le isFinite_zero isFinite_tau h0 (Scalar.le_of_lt h)
  have hlt : |x.val| < |tau.val| := by
    rw [abs_of_nonneg (val_nonneg h0), abs_of_pos val_tau_pos]
    exact (lt_iff (isNaN_of_isFinite hf) rfl).1 h
  have hr := remainder_of_abs_lt hf isFinite_tau hlt
  rw [normalizeAngle_of_nonneg (by rwa [hr]) hf, hr]

/-- Below zero the residue is the remainder with a turn added, which is rounded by `2 ^ -22` at most. -/
theorem normalizeAngle_near_of_neg {x : Scalar} (hx : x.isFinite = true) (h : remainder x tau < 0) :
    |(normalizeAngle x).val - turnResidue x.val| ≤ 1 / 2 ^ 22 ∨
      normalizeAngle x = 0 ∧ |tau.val - turnResidue x.val| ≤ 1 / 2 ^ 22 := by
  obtain ⟨hf, ⟨c, hc⟩, hlt, -⟩ := remainder_spec hx isFinite_tau tau_pos
  have hneg : (remainder x tau).val < 0 := (lt_iff (isNaN_of_isFinite hf) rfl).1 h
  have hlo := (abs_lt.1 hlt).1
  have hsum := isNearest_add hf isFinite_tau
  have hres : turnResidue x.val = (remainder x tau).val + tau.val :=
    turnResidue_eq (by linarith) (by linarith) (n := c - 1) (by rw [hc]; push_cast; ring)
  rw [← hres] at hsum
  have hb : |turnResidue x.val| ≤ 2 ^ (3 : ℤ) := by
    rw [hres, abs_of_nonneg (by linarith)]
    have := val_tau_lt
    norm_num at this ⊢
    linarith
  obtain ⟨hsf, hsv⟩ := hsum.isFinite (hb.trans (by norm_num))
  have he := abs_nearest_sub_le (by norm_num) hb
  rw [← hsv, show ((2 : ℚ) ^ ((3 : ℤ) - 25)) = 1 / 2 ^ 22 by norm_num] at he
  by_cases ht : tau ≤ remainder x tau + tau
  · -- the sum has been rounded up to the whole turn
    refine .inr ⟨by simp [normalizeAngle, h, ht], ?_⟩
    have hle := val_le_val ht
    rw [abs_of_nonneg (by linarith)]
    linarith [(abs_le.1 he).2]
  · refine .inl ?_
    have hn : normalizeAngle x = remainder x tau + tau := by simp [normalizeAngle, h, ht]
    rwa [hn]

/-- **The reduction of an angle**: a finite one gets into `[0, 2π)`, where a second reduction changes no bit.
Above zero there is no error; below it the one of a single sum, which may bring the angle to the end of the
turn and so to zero. -/
theorem normalizeAngle_law (x : Scalar) :
    (x.isFinite = false → (normalizeAngle x).isNaN = true) ∧
    (x.isFinite = true →
      let r := normalizeAngle x
      (0 ≤ r ∧ r < tau) ∧ normalizeAngle r = r ∧
      (0 ≤ x → ∃ n : ℤ, x.val - r.val = n * tau.val) ∧
      (x < 0 → |r.val - turnResidue x.val| ≤ 1 / 2 ^ 22 ∨
        r = 0 ∧ |tau.val - turnResidue x.val| ≤ 1 / 2 ^ 22)) := by
  refine ⟨isNaN_normalizeAngle, fun hx => ?_⟩
  intro r
  have hr := normalizeAngle_range hx
  obtain ⟨hf, ⟨c, hc⟩, -, -⟩ := remainder_spec hx isFinite_tau tau_pos
  refine ⟨hr, normalizeAngle_of_range hr.1 hr.2, fun h0 => ?_, fun _ => ?_⟩
  · refine ⟨c, ?_⟩
    have hn : r = remainder x tau :=
      normalizeAngle_of_nonneg (remainder_nonneg h0 hx isFinite_tau tau_pos) hx
    rw [hn, hc]
    ring
  · by_cases hneg : remainder x tau < 0
    · exact normalizeAngle_near_of_neg hx hneg
    · -- whole turns below zero, and no remainder
      have h0 : 0 ≤ remainder x tau := (le_iff_not_lt rfl (isNaN_of_isFinite hf)).2 hneg
      have hres : r.val = turnResidue x.val := val_normalizeAngle_of_nonneg h0 hx
      refine .inl ?_
      rw [hres, sub_self, abs_zero]
      norm_num

/-- The greatest angle below zero is within `2 ^ -149` of the whole turn, and is brought to zero. -/
theorem normalizeAngle_law_of_least :
    let x : Scalar := .ofBits 0x80000001
    x < 0 ∧ normalizeAngle x = 0 ∧ normalizeAngle (normalizeAngle x) = normalizeAngle x ∧
      |tau.val - turnResidue x.val| ≤ 1 / 2 ^ 22 := by
  intro x
  have hneg : x < 0 := by decide +kernel
  have h0 : normalizeAngle x = 0 := by decide +kernel
  obtain ⟨-, hidem, -, hnear⟩ := (normalizeAngle_law x).2 (by decide +kernel)
  refine ⟨hneg, h0, hidem, ?_⟩
  rcases hnear hneg with hr | ⟨-, hr⟩
  · rw [h0] at hr
    exact absurd hr (by decide +kernel)
  · exact hr

end BrushlessDrive
