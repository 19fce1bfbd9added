import BrushlessDrive.Modulation
import BrushlessDrive.Proofs.Scalar.Error

/-!
# Phase levels, exact and rounded

`Sector.exactLevels` and `exactDuty` are the formulas of the modulation over the rational numbers, and the
computed values are as near to them as the rounding errors allow. The choice of the sector moves all three
exact levels together, and none between any two phases (`exactLevels_differences`).
-/

set_option autoImplicit false

namespace BrushlessDrive

open Scalar

/-- The levels of a voltage with the second component `x` and `√3` times the first one `r`, both relative to
the supply. -/
def planeLevels (x r : Scalar) : Phases Scalar :=
  let y := (x + r) / 2
  let z := (x - r) / 2
  (Sector.ofSigns (0 ≤ x) (0 ≤ y) (0 ≤ z)).levels x y z

theorem svpwm_eq_map (v : Stationary) {bus : Scalar} (h : 0 < bus) :
    svpwm v bus = (planeLevels (v.beta / bus) (sqrt3 * (v.alpha / bus))).map dutyOfLevel :=
  if_neg (not_not.2 h)

theorem svpwm_of_pos (v : Stationary) {bus : Scalar} (h : 0 < bus) :
    ∃ s : Sector, svpwm v bus = (s.levels (v.beta / bus)
      ((v.beta / bus + sqrt3 * (v.alpha / bus)) / 2)
      ((v.beta / bus - sqrt3 * (v.alpha / bus)) / 2)).map dutyOfLevel :=
  ⟨_, svpwm_eq_map v h⟩

theorem svpwm_of_not_pos (v : Stationary) {bus : Scalar} (h : ¬ 0 < bus) :
    svpwm v bus = .uniform 0.5 := if_pos h

def Sector.exactLevels (s : Sector) (x y z : ℚ) : Phases ℚ :=
  match s with
  | one | four => ⟨x - z, x + z, -x + z⟩
  | two | five => ⟨y - z, y + z, -y - z⟩
  | three | six => ⟨y - x, -y + x, -y - x⟩

def exactDuty (t : ℚ) : ℚ := max 0 (min ((t + 1) / 2) 1)

theorem exactDuty_of_abs_le {t : ℚ} (h : |t| ≤ 1) : exactDuty t = (t + 1) / 2 := by
  obtain ⟨h1, h2⟩ := abs_le.1 h
  rw [exactDuty, min_eq_left (by linarith), max_eq_right (by linarith)]

namespace Sector

theorem exactLevels_differences (s : Sector) (x r : ℚ) :
    let t := s.exactLevels x ((x + r) / 2) ((x - r) / 2)
    2 * t.a - t.b - t.c = 2 * r ∧ t.b - t.c = 2 * x := by
  cases s <;> refine ⟨?_, ?_⟩ <;> simp only [exactLevels] <;> ring

/-- The computed levels add up the errors of two coordinates, and one of their own. -/
theorem levels_within (s : Sector) {x y z : Scalar} {p q r b ε : ℚ} {k : ℤ} (hx : Within x p ε)
    (hy : Within y q ε) (hz : Within z r ε) (hp : |p| ≤ b) (hq : |q| ≤ b) (hr : |r| ≤ b)
    (hk : -125 ≤ k) (hk' : k ≤ 127) (hb : 2 * b + 2 * ε ≤ 2 ^ k) (i : Phase) :
    Within ((s.levels x y z).get i) ((s.exactLevels p q r).get i) (ε + ε + 2 ^ (k - 25)) := by
  -- each level is a sum or a difference of two coordinates, one of them perhaps negated
  have hadd {u v : Scalar} {m n : ℚ} (hu : Within u m ε) (hv : Within v n ε) (hm : |m| ≤ b)
      (hn : |n| ≤ b) : Within (u + v) (m + n) (ε + ε + 2 ^ (k - 25)) :=
    hu.add hv hk hk' (by linarith [abs_add_le m n])
  have hsub {u v : Scalar} {m n : ℚ} (hu : Within u m ε) (hv : Within v n ε) (hm : |m| ≤ b)
      (hn : |n| ≤ b) : Within (u - v) (m - n) (ε + ε + 2 ^ (k - 25)) :=
    hu.sub hv hk hk' (by linarith [abs_sub m n])
  have hp' : |-p| ≤ b := by rwa [abs_neg]
  have hq' : |-q| ≤ b := by rwa [abs_neg]
  cases s <;> cases i
  case one.a | four.a => exact hsub hx hz hp hr
  case one.b | four.b => exact hadd hx hz hp hr
  case one.c | four.c => exact hadd hx.neg hz hp' hr
  case two.a | five.a => exact hsub hy hz hq hr
  case two.b | five.b => exact hadd hy hz hq hr
  case two.c | five.c => exact hsub hy.neg hz hq' hr
  case three.a | six.a => exact hsub hy hx hq hp
  case three.b | six.b => exact hadd hy.neg hx hq' hp
  case three.c | six.c => exact hsub hy.neg hx hq' hp

end Sector

/-- The second and the third coordinate of a voltage have half of the errors of the first one, of `√3` times
the other component and of the sum, and that of the half. -/
theorem plane_coordinates_within {x r : Scalar} {p q ε δ : ℚ} {k : ℤ} (hx : Within x p ε)
    (hr : Within r q δ) (hk : -124 ≤ k) (hk' : k ≤ 127)
    (hadd : |p + q| + (ε + δ + 2 ^ (k - 25)) ≤ 2 ^ k)
    (hsub : |p - q| + (ε + δ + 2 ^ (k - 25)) ≤ 2 ^ k) :
    Within ((x + r) / 2) ((p + q) / 2) ((ε + δ + 2 ^ (k - 25)) / 2 + 2 ^ (k - 1 - 25)) ∧
      Within ((x - r) / 2) ((p - q) / 2) ((ε + δ + 2 ^ (k - 25)) / 2 + 2 ^ (k - 1 - 25)) := by
  have hpos : (0 : ℚ) < 2 ^ (k - 25) := zpow_pos (by norm_num) _
  exact ⟨(hx.add hr (by omega) hk' (by linarith)).half hk hk' hadd,
    (hx.sub hr (by omega) hk' (by linarith)).half hk hk' hsub⟩

/-- The computed part of the period has half the error of the level, and those of the sum and of the
half. -/
theorem dutyOfLevel_within {t : Scalar} {q ε : ℚ} {k : ℤ} (ht : Within t q ε) (hk : -124 ≤ k)
    (hk' : k ≤ 127) (hb : |q| + 1 + (ε + 2 ^ (k - 25)) ≤ 2 ^ k) :
    Within (dutyOfLevel t) (exactDuty q) ((ε + 2 ^ (k - 25)) / 2 + 2 ^ (k - 1 - 25)) := by
  have hq : |q + 1| ≤ |q| + 1 := (abs_add_le q 1).trans_eq (by rw [abs_one])
  have hpos : (0 : ℚ) < 2 ^ (k - 25) := zpow_pos (by norm_num) _
  have hsum : Within (t + 1) (q + 1) (ε + 2 ^ (k - 25)) := by
    have h := ht.add within_one (k := k) (by omega) hk' (by linarith)
    rwa [add_zero] at h
  have h := (hsum.half hk hk' (by linarith)).clamp isFinite_zero isFinite_one (by norm_num [val_one])
  rwa [val_zero, val_one] at h

end BrushlessDrive
