import BrushlessDrive.Proofs.Modulation.ZeroSequence

/-!
# Voltages within the hexagon

The voltages that the supply can put on the motor form a hexagon. The part of it that a voltage takes is that
of the greatest difference of two phase voltages, so inside of it, at a distance from the edge, no duty comes
near to its ends.
-/

set_option autoImplicit false

namespace BrushlessDrive

open Scalar

section

variable {x r h : ℚ} (hx : |x| ≤ h) (hxr : |x| + |r| ≤ 2 * h)
include hx hxr

theorem abs_phaseVoltages_sub_le (i j : Phase) :
    |(phaseVoltages x r).get i - (phaseVoltages x r).get j| ≤ 2 * h := by
  have hx' := abs_le.1 hx
  have hr' := abs_le.1 (le_refl |r|)
  have hxx := abs_le.1 (le_refl |x|)
  rw [abs_le]
  cases i <;> cases j <;> simp only [phaseVoltages, Phases.get] <;> constructor <;> linarith

theorem abs_minMaxDuty_sub_le (h1 : h ≤ 1) (i : Phase) :
    |minMaxDuty (phaseVoltages x r) i - 1 / 2| ≤ h / 2 := by
  have hm : |midrange (phaseVoltages x r) - ((phaseVoltages x r).get i + (phaseVoltages x r).get i) / 2|
      ≤ 2 * h / 2 := abs_midrange_sub_le fun j => by
    have hd := abs_le.1 (abs_phaseVoltages_sub_le hx hxr j i)
    constructor <;> linarith
  have hb := abs_le.1 hm
  rw [minMaxDuty, max_eq_right (by linarith), min_eq_right (by linarith), abs_le]
  constructor <;> linarith

end

/-- **Headroom.** A voltage within a part of the hexagon leaves every phase some time on either side. -/
theorem svpwm_interior (v : Stationary) {bus : Scalar} {h : ℚ} (hbus : 0 < bus)
    (hx : (v.beta / bus).isFinite = true) (hr : (sqrt3 * (v.alpha / bus)).isFinite = true)
    (bx : |(v.beta / bus).val| ≤ h)
    (bxr : |(v.beta / bus).val| + |(sqrt3 * (v.alpha / bus)).val| ≤ 2 * h) (h1 : h < 1 - 1 / 2 ^ 17)
    (i : Phase) : 0 < (svpwm v bus).get i ∧ (svpwm v bus).get i < 1 := by
  have hd := abs_le.1 (abs_minMaxDuty_sub_le bx bxr (by linarith) i)
  have hx0 := abs_nonneg (v.beta / bus).val
  have hw := dutyOfLevel_planeLevels_within hx hr (by linarith) (by linarith) i
  have hn := isNaN_of_isFinite hw.isFinite
  have he := abs_le.1 hw.near
  rw [svpwm_eq_map v hbus, Phases.get_map, pos_iff hn, lt_iff hn (isNaN_of_isFinite isFinite_one), val_one]
  constructor <;> linarith

end BrushlessDrive
