import BrushlessDrive.Proofs.Task.Run
import BrushlessDrive.Proofs.Transform.Angle
import BrushlessDrive.Proofs.Units

/-!
# The run of a start

`Spinup.Ramped` holds on the way to the target velocity: every call keeps it, whatever arrives, and an
acceleration that overflows or makes no number gives way to the target. The angle stays within the turn
(`OnTurn`) if the target velocity covers a finite angle in a PWM period.
-/

set_option autoImplicit false

namespace BrushlessDrive

theorem Context.start_valid (c : Context) : let p := c.config.controller
    (Scalar.isPositive p.spinupVoltage = true ∧ p.spinupVoltage ≤ p.maxVoltage) ∧
      Scalar.isPositive p.spinupAcceleration = true ∧ Scalar.isPositive p.spinupTarget = true ∧
      Scalar.isPositive p.spinupTimeout = true ∧ Units.isPoleCount c.config.motor.poles = true := by
  obtain ⟨hc, hm, -⟩ := Config.validate_eq_ok_iff.1 c.config_valid
  simp only [ControllerParams.isValid, MotorParams.isValid, Bool.and_eq_true, decide_eq_true_eq] at hc hm
  tauto

namespace Spinup

def next (t : Spinup) : Task.Event → Spinup
  | .pwm currents bus => t.advance currents bus
  | .check period power => (t.mainCheck period power).2

def after (t : Spinup) (es : List Task.Event) : Spinup := es.foldl next t

theorem after_append (t : Spinup) (es fs : List Task.Event) :
    t.after (es ++ fs) = (t.after es).after fs := List.foldl_append

/-- What every call keeps holds after any number of them. -/
theorem after_induction {P : Spinup → Prop} (hP : ∀ u e, P u → P (u.next e)) {t : Spinup} (h : P t)
    (es : List Task.Event) : P (t.after es) :=
  List.foldlRecOn es next h fun u hu e _ => hP u e hu

end Spinup

namespace Task

theorem run_spinup (t : Spinup) (es : List Event) :
    ((spinup t).run es).2 = .spinup (t.after es) := by
  induction es generalizing t with
  | nil => rfl
  | cons e es ih =>
    cases e with
    | pwm i v => exact ih (t.advance i v)
    | check p s => exact ih (t.mainCheck p s).2

theorem driverActive_of_mem_spinup (t : Spinup) (es : List Event) :
    ∀ o ∈ (spinup t).outputs es, o.driverActive = true := by
  induction es generalizing t with
  | nil => simp [outputs, run]
  | cons e es ih =>
    cases e with
    | pwm i v =>
      intro o ho
      rw [outputs_pwm, List.mem_cons] at ho
      rcases ho with rfl | ho
      · rfl
      · exact ih (t.advance i v) o ho
    | check p s => exact ih (t.mainCheck p s).2

end Task

namespace Spinup

/-! ## What no call changes -/

@[simp] theorem context_next (t : Spinup) (e : Task.Event) : (t.next e).context = t.context := by
  cases e <;> rfl

@[simp] theorem targetVelocity_next (t : Spinup) (e : Task.Event) :
    (t.next e).targetVelocity = t.targetVelocity := by
  cases e <;> rfl

@[simp] theorem voltage_next (t : Spinup) (e : Task.Event) : (t.next e).voltage = t.voltage := by
  cases e <;> rfl

@[simp] theorem targetVelocity_after (t : Spinup) (es : List Task.Event) :
    (t.after es).targetVelocity = t.targetVelocity :=
  after_induction (P := fun u => u.targetVelocity = t.targetVelocity)
    (fun u e h => (u.targetVelocity_next e).trans h) rfl es

@[simp] theorem voltage_after (t : Spinup) (es : List Task.Event) : (t.after es).voltage = t.voltage :=
  after_induction (P := fun u => u.voltage = t.voltage) (fun u e h => (u.voltage_next e).trans h) rfl es

/-- Without a PWM period only time passes. -/
theorem after_of_no_pwm {es : List Task.Event} (h : es.countP Task.Event.isPwm = 0) (t : Spinup) :
    ∃ elapsed, t.after es = { t with elapsed } := by
  induction es generalizing t with
  | nil => exact ⟨t.elapsed, rfl⟩
  | cons e es ih =>
    cases e with
    | pwm i v => simp [Task.Event.isPwm] at h
    | check p s =>
      rw [List.countP_cons_of_neg Bool.false_ne_true] at h
      exact ih h (t.mainCheck p s).2

theorem lastBus_after {es : List Task.Event} (h : es.countP Task.Event.isPwm = 0) (t : Spinup) :
    (t.after es).lastBus = t.lastBus := by
  obtain ⟨elapsed, he⟩ := after_of_no_pwm h t
  rw [he]

/-! ## The velocity -/

/-- On the way from standstill to the target velocity. -/
structure Ramped (t : Spinup) : Prop where
  acceleration_nonneg : 0 ≤ t.acceleration
  nonneg : 0 ≤ t.velocity
  le : t.velocity ≤ t.targetVelocity

theorem Ramped.isNaN {t : Spinup} (h : t.Ramped) : t.velocity.isNaN = false :=
  (Scalar.isNaN_of_le h.le).1

theorem velocity_le_advance {t : Spinup} (h : t.Ramped) (i : PhasePair Scalar) (v : Scalar) :
    t.velocity ≤ (t.advance i v).velocity := by
  refine Scalar.le_minNum h.le ?_
  -- infinite acceleration over a period of length zero is no number, and neither is the sum
  rcases Scalar.isNaN_or_nonneg_mul h.acceleration_nonneg
    (Scalar.le_of_lt t.context.period_pos) with hn | hw
  · exact .inl (Scalar.isNaN_add_right _ hn)
  · exact .inr (Scalar.le_add_of_nonneg h.nonneg hw)

theorem ramped_advance {t : Spinup} (h : t.Ramped) (i : PhasePair Scalar) (v : Scalar) :
    (t.advance i v).Ramped where
  acceleration_nonneg := h.acceleration_nonneg
  nonneg := Scalar.le_trans h.nonneg (velocity_le_advance h i v)
  le := Scalar.minNum_le (Scalar.isNaN_of_le h.le).2

theorem velocity_le_next {t : Spinup} (h : t.Ramped) (e : Task.Event) :
    t.velocity ≤ (t.next e).velocity := by
  cases e with
  | pwm i v => exact velocity_le_advance h i v
  | check p s => exact Scalar.le_refl h.isNaN

theorem ramped_next {t : Spinup} (h : t.Ramped) (e : Task.Event) : (t.next e).Ramped := by
  cases e with
  | pwm i v => exact ramped_advance h i v
  | check p s => exact ⟨h.acceleration_nonneg, h.nonneg, h.le⟩

theorem ramped_after {t : Spinup} (h : t.Ramped) (es : List Task.Event) : (t.after es).Ramped :=
  after_induction (P := Ramped) (fun _ e h => ramped_next h e) h es

theorem velocity_le_after {t : Spinup} (h : t.Ramped) (es : List Task.Event) :
    t.velocity ≤ (t.after es).velocity := by
  induction es generalizing t with
  | nil => exact Scalar.le_refl h.isNaN
  | cons e es ih => exact Scalar.le_trans (velocity_le_next h e) (ih (ramped_next h e))

/-! ## The angle -/

/-- Within the turn that starts at zero. -/
def OnTurn (angle : Scalar) : Prop := 0 ≤ angle ∧ angle < Scalar.tau

theorem onTurn_advance {t : Spinup} (h : t.Ramped)
    (hf : (t.targetVelocity * t.context.board.pwm.period).isFinite = true) (ha : OnTurn t.angle)
    (i : PhasePair Scalar) (v : Scalar) : OnTurn (t.advance i v).angle := by
  have hu := ramped_advance h i v
  have hangle := Scalar.isFinite_of_le_of_le Scalar.isFinite_zero isFinite_tau ha.1
    (Scalar.le_of_lt ha.2)
  -- the velocity covers no more in a period than the target velocity
  have hturned := (Scalar.isFinite_mul_of_le hu.nonneg hu.le (Scalar.le_of_lt t.context.period_pos)
    hf).1
  refine normalizeAngle_range (Scalar.isFinite_add hangle hturned ?_)
  have hlt := (Scalar.lt_iff (Scalar.isNaN_of_isFinite hangle) rfl).1 ha.2
  rw [abs_of_nonneg (Scalar.val_nonneg ha.1)]
  exact hlt.trans (by decide +kernel)

theorem onTurn_after {t : Spinup} (h : t.Ramped)
    (hf : (t.targetVelocity * t.context.board.pwm.period).isFinite = true) (ha : OnTurn t.angle)
    (es : List Task.Event) : OnTurn (t.after es).angle := by
  induction es generalizing t with
  | nil => exact ha
  | cons e es ih =>
    refine ih (ramped_next h e) (by simpa using hf) ?_
    cases e with
    | pwm i v => exact onTurn_advance h hf ha i v
    | check p s => exact ha

/-! ## Main checks -/

theorem mainCheck_cases (t : Spinup) (p : Scalar) (s : PowerStatus) :
    (s.powerOk = false ∧ (t.mainCheck p s).1 = .failure .badPower) ∨
    (s.powerOk = true ∧ t.targetVelocity ≤ t.velocity ∧ (t.mainCheck p s).1 = .success) ∨
    (s.powerOk = true ∧ ¬ t.targetVelocity ≤ t.velocity ∧
      let late := t.context.config.controller.spinupTimeout < t.elapsed + p
      (late ∧ (t.mainCheck p s).1 = .failure .timeout) ∨
      (¬ late ∧ t.isBusLow = true ∧ (t.mainCheck p s).1 = .failure .lowBusVoltage) ∨
      (¬ late ∧ t.isBusLow = false ∧ (t.mainCheck p s).1 = .inProgress)) := by
  have ho : (t.mainCheck p s).1 = outcome { t with elapsed := t.elapsed + p } s := rfl
  have hb : isBusLow { t with elapsed := t.elapsed + p } = t.isBusLow := rfl
  rw [ho, outcome, hb]
  by_cases hs : s.powerOk = true <;> by_cases hv : t.targetVelocity ≤ t.velocity <;>
    by_cases he : t.context.config.controller.spinupTimeout < t.elapsed + p <;>
      by_cases hl : t.isBusLow = true <;> simp [hs, hv, he, hl]

theorem mainCheck_eq_success_iff (t : Spinup) (p : Scalar) (s : PowerStatus) :
    (t.mainCheck p s).1 = .success ↔ s.powerOk = true ∧ t.targetVelocity ≤ t.velocity := by
  rcases t.mainCheck_cases p s with ⟨hs, hc⟩ | ⟨hs, hv, hc⟩ |
    ⟨hs, hv, ⟨-, hc⟩ | ⟨-, -, hc⟩ | ⟨-, -, hc⟩⟩ <;> simp [*]

theorem mainCheck_eq_inProgress_iff (t : Spinup) (p : Scalar) (s : PowerStatus) :
    (t.mainCheck p s).1 = .inProgress ↔ s.powerOk = true ∧ ¬ t.targetVelocity ≤ t.velocity ∧
      ¬ t.context.config.controller.spinupTimeout < t.elapsed + p ∧ t.isBusLow = false := by
  rcases t.mainCheck_cases p s with ⟨hs, hc⟩ | ⟨hs, hv, hc⟩ |
    ⟨hs, hv, ⟨hl, hc⟩ | ⟨hl, hb, hc⟩ | ⟨hl, hb, hc⟩⟩ <;> simp [*]

theorem isBusLow_of_failure {t : Spinup} {p : Scalar} {s : PowerStatus}
    (h : (t.mainCheck p s).1 = .failure .lowBusVoltage) : t.isBusLow = true := by
  rcases t.mainCheck_cases p s with ⟨-, hc⟩ | ⟨-, -, hc⟩ |
    ⟨-, -, ⟨-, hc⟩ | ⟨-, hb, -⟩ | ⟨-, -, hc⟩⟩
  case inr.inr.inr.inl => exact hb
  all_goals simp [hc] at h

theorem isBusLow_advance (t : Spinup) (i : PhasePair Scalar) (v : Scalar) :
    (t.advance i v).isBusLow = decide (v < t.minBusVoltage) := rfl

/-- A bus voltage that has not been measured is not too low. -/
theorem isBusLow_of_lastBus {t : Spinup} (h : t.lastBus = none) : t.isBusLow = false := by
  simp [isBusLow, h]

/-! ## A start from standstill -/

theorem nonneg_electricalVelocity {rpm : Scalar} (h : 0 ≤ rpm) (poles : UInt32) :
    0 ≤ electricalVelocity rpm poles := by
  unfold electricalVelocity
  cases he : Units.electricalOfMechanical (Units.angularVelocityOfRpm rpm) poles with
  | error c => exact Scalar.le_refl rfl
  | ok w => exact Units.nonneg_electricalOfMechanical (Units.nonneg_angularVelocityOfRpm h) he

theorem ramped_make (context : Context) : (make context).Ramped := by
  obtain ⟨-, ha, ht, -⟩ := context.start_valid
  rw [Scalar.isPositive_iff] at ha ht
  exact ⟨nonneg_electricalVelocity (Scalar.le_of_lt ha.1) _, Scalar.le_refl rfl,
    nonneg_electricalVelocity (Scalar.le_of_lt ht.1) _⟩

/-- **The law of the start**: what holds of every state that a run from standstill leads to, with whatever
currents, voltages and times. -/
theorem start_law (context : Context) (es : List Task.Event) :
    let start := Task.spinup (make context)
    ∃ u : Spinup, (start.run es).2 = .spinup u ∧ u.targetVelocity = (make context).targetVelocity ∧
      (u.velocity.isNaN = false ∧ 0 ≤ u.velocity ∧ u.velocity ≤ u.targetVelocity) ∧
      (∀ fs, ∃ u' : Spinup, (start.run (es ++ fs)).2 = .spinup u' ∧ u.velocity ≤ u'.velocity) ∧
      (∀ o ∈ start.outputs es, o.driverActive = true) ∧
      (∀ p s, ((Task.spinup u).mainCheck p s).1 = .success ↔
        s.powerOk = true ∧ (u.velocity == u.targetVelocity) = true) ∧
      (es.countP Task.Event.isPwm = 0 →
        ∀ p s, ((Task.spinup u).mainCheck p s).1 ≠ .failure .lowBusVoltage) ∧
      ((u.targetVelocity * context.board.pwm.period).isFinite = true →
        0 ≤ u.angle ∧ u.angle < Scalar.tau) := by
  intro start
  have hr := ramped_make context
  have hu := ramped_after hr es
  refine ⟨(make context).after es, Task.run_spinup _ es, targetVelocity_after _ es,
    ⟨hu.isNaN, hu.nonneg, hu.le⟩, fun fs => ?_, Task.driverActive_of_mem_spinup _ es, fun p s => ?_,
    fun hn p s h => ?_, fun hf => ?_⟩
  · refine ⟨((make context).after es).after fs, ?_, velocity_le_after hu fs⟩
    rw [← after_append]
    exact Task.run_spinup _ _
  · rw [← Scalar.le_iff_beq hu.le]
    exact mainCheck_eq_success_iff _ p s
  · have hlow := isBusLow_of_lastBus (lastBus_after hn (make context))
    rw [isBusLow_of_failure h] at hlow
    cases hlow
  · rw [targetVelocity_after] at hf
    exact onTurn_after hr hf ⟨Scalar.le_refl rfl, tau_pos⟩ es

end Spinup

end BrushlessDrive
