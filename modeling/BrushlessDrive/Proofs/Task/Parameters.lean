import BrushlessDrive.Proofs.Interval
import BrushlessDrive.Proofs.Task.Spinup

/-!
# The parameters of a start

Every parameter of a configuration has been found to be above zero and finite. A start computes with what it
derives from them (`Spinup.Sound`), and of the period of the board only the sign has been checked.
-/

set_option autoImplicit false

namespace BrushlessDrive

open Binary32

namespace Spinup

structure Sound (t : Spinup) : Prop where
  period : Scalar.isPositive t.context.board.pwm.period = true
  acceleration : Scalar.isPositive t.acceleration = true
  targetVelocity : Scalar.isPositive t.targetVelocity = true
  minBusVoltage : Scalar.isPositive t.minBusVoltage = true

/-! ## Speeds -/

/-- A speed in RPM, or a change of it per second, whose electrical velocity is neither lost in the rounding
nor beyond the range. -/
structure SpeedInRange (rpm : Scalar) (poles : UInt32) : Prop where
  not_lost : 5 * 2 ^ (-149 : ℤ) ≤ rpm.val
  within : (Units.angularVelocityOfRpm rpm).val * Scalar.val (poles.toFloat32 / 2) < overflowLimit

section
variable {rpm : Scalar} {poles : UInt32} (hp : Units.isPoleCount poles = true)
  (h : Scalar.isPositive rpm = true)
include hp h

theorem pos_electricalVelocity_iff : 0 < electricalVelocity rpm poles ↔ 5 * 2 ^ (-149 : ℤ) ≤ rpm.val := by
  obtain ⟨h0, hf⟩ := Scalar.isPositive_iff.1 h
  obtain ⟨hpf, h1⟩ := Units.polePairs_spec hp
  have hw := Units.nonneg_angularVelocityOfRpm (Scalar.le_of_lt h0)
  rw [electricalVelocity, Units.electricalOfMechanical_of_isPoleCount hp]
  exact (Scalar.pos_mul_iff_of_one_le hw hpf h1).trans
    (Units.pos_angularVelocityOfRpm_iff (Scalar.le_of_lt h0) hf)

theorem isPositive_electricalVelocity_iff :
    Scalar.isPositive (electricalVelocity rpm poles) = true ↔ SpeedInRange rpm poles := by
  obtain ⟨hpf, h1⟩ := Units.polePairs_spec hp
  have hw := Units.nonneg_angularVelocityOfRpm (Scalar.le_of_lt (Scalar.isPositive_iff.1 h).1)
  rw [Scalar.isPositive_iff, pos_electricalVelocity_iff hp h, electricalVelocity,
    Units.electricalOfMechanical_of_isPoleCount hp]
  exact (and_congr_right' (Scalar.isFinite_mul_iff_of_one_le hw hpf h1)).trans
    ⟨fun hr => ⟨hr.1, hr.2⟩, fun hr => ⟨hr.not_lost, hr.within⟩⟩

end

/-! ## The voltage -/

theorem voltage_make (c : Context) : (make c).voltage = c.config.controller.spinupVoltage := by
  obtain ⟨⟨hv, hle⟩, -⟩ := c.start_valid
  exact Interval.constrain_of_mem (Scalar.le_of_lt (Scalar.isPositive_iff.1 hv).1) hle

theorem isPositive_minBusVoltage_iff (c : Context) :
    Scalar.isPositive (make c).minBusVoltage = true ↔
      c.config.controller.spinupVoltage.val * Scalar.sqrt3.val < overflowLimit := by
  obtain ⟨⟨hv, -⟩, -⟩ := c.start_valid
  have h0 := (Scalar.isPositive_iff.1 hv).1
  have hle := Scalar.le_of_lt h0
  have h1 : 1 ≤ Scalar.sqrt3 := by decide +kernel
  rw [minBusVoltage, voltage_make, Scalar.isPositive_iff,
    Scalar.isFinite_mul_iff_of_one_le hle Scalar.isFinite_sqrt3 h1,
    Scalar.pos_mul_iff_of_one_le hle Scalar.isFinite_sqrt3 h1, and_iff_right h0]

/-! ## Starts -/

theorem sound_make_iff (c : Context) : Sound (make c) ↔
    c.board.pwm.period.isFinite = true ∧
      SpeedInRange c.config.controller.spinupAcceleration c.config.motor.poles ∧
      SpeedInRange c.config.controller.spinupTarget c.config.motor.poles ∧
      c.config.controller.spinupVoltage.val * Scalar.sqrt3.val < overflowLimit := by
  obtain ⟨-, ha, ht, -, hp⟩ := c.start_valid
  rw [← isPositive_electricalVelocity_iff hp ha, ← isPositive_electricalVelocity_iff hp ht,
    ← isPositive_minBusVoltage_iff]
  constructor
  · intro h
    exact ⟨(Scalar.isPositive_iff.1 h.period).2, h.acceleration, h.targetVelocity, h.minBusVoltage⟩
  · rintro ⟨hf, ha, ht, hv⟩
    exact ⟨Scalar.isPositive_iff.2 ⟨c.period_pos, hf⟩, ha, ht, hv⟩

theorem success_of_no_pwm (c : Context) {es : List Task.Event} (h : es.countP Task.Event.isPwm = 0)
    (p : Scalar) (s : PowerStatus) :
    (((make c).after es).mainCheck p s).1 = .success ↔
      s.powerOk = true ∧ c.config.controller.spinupTarget.val < 5 * 2 ^ (-149 : ℤ) := by
  obtain ⟨-, -, ht, -, hp⟩ := c.start_valid
  obtain ⟨elapsed, he⟩ := after_of_no_pwm h (make c)
  rw [mainCheck_eq_success_iff, he, ← not_le, ← pos_electricalVelocity_iff hp ht]
  obtain ⟨hv, hn⟩ := Scalar.isNaN_of_le (ramped_make c).le
  exact and_congr_right' (Scalar.le_iff_not_lt hn hv)

/-- **The parameters of a start.** It is sound within limits that valid parameters can leave: those of the
period, of speeds that are not lost in the rounding, and of products that stay in the range. A target that is
lost is reached before the start has turned. -/
theorem parameters_law (c : Context) :
    (Sound (make c) ↔
      c.board.pwm.period.isFinite = true ∧
        SpeedInRange c.config.controller.spinupAcceleration c.config.motor.poles ∧
        SpeedInRange c.config.controller.spinupTarget c.config.motor.poles ∧
        c.config.controller.spinupVoltage.val * Scalar.sqrt3.val < overflowLimit) ∧
    (∀ es, es.countP Task.Event.isPwm = 0 → ∀ p s,
      ((((make c).after es).mainCheck p s).1 = .success ↔
        s.powerOk = true ∧ c.config.controller.spinupTarget.val < 5 * 2 ^ (-149 : ℤ))) :=
  ⟨sound_make_iff c, fun _ h => success_of_no_pwm c h⟩

/-- The least target that is valid is reached at rest. -/
theorem not_sound_of_least_target :
    let c : Context := ⟨{ controller := { spinupTarget := .ofBits 1 } }, ⟨.ofParams {}, .current⟩, rfl,
      PwmTiming.period_default_pos⟩
    ¬ Sound (make c) ∧ ((make c).mainCheck 0.001 ⟨true, 24⟩).1 = .success := by
  refine ⟨fun h => ?_, by decide +kernel⟩
  have := h.targetVelocity
  exact absurd this (by decide +kernel)

end Spinup

end BrushlessDrive
