import BrushlessDrive.Task
import Mathlib.Data.List.Forall2

/-!
# What the answers of a task depend on

The phase currents are shown in the telemetry and go nowhere else, so runs that differ in them only
(`Task.Event.EqUpToCurrents`) have the same answers: a step of a task is that of the task with no currents
stored (`Task.blind`). A task that is no start reads nothing of its calls but the power status
(`Task.Event.EqUpToSensors`).
-/

set_option autoImplicit false

namespace BrushlessDrive

/-- What every step keeps, with the same answers, is kept by the runs. -/
theorem Machine.run_congr {σ ε α : Type} (step : σ → ε → α × σ) {R : σ → σ → Prop} {Q : ε → ε → Prop}
    (hstep : ∀ {s t e f}, R s t → Q e f → (step s e).1 = (step t f).1 ∧ R (step s e).2 (step t f).2)
    {s t : σ} {es fs : List ε} (hst : R s t) (h : List.Forall₂ Q es fs) :
    (run step s es).1 = (run step t fs).1 ∧ R (run step s es).2 (run step t fs).2 := by
  induction h generalizing s t with
  | nil => exact ⟨rfl, hst⟩
  | cons hef _ ih =>
    obtain ⟨ha, hs⟩ := hstep hst hef
    obtain ⟨has, hss⟩ := ih hs
    exact ⟨by rw [run_cons, run_cons, ha, has], hss⟩

namespace Task

/-- The same call, with any currents. -/
inductive Event.EqUpToCurrents : Event → Event → Prop
  | pwm (i j : PhasePair Scalar) (bus : Scalar) : EqUpToCurrents (.pwm i bus) (.pwm j bus)
  | check (period : Scalar) (power : PowerStatus) :
    EqUpToCurrents (.check period power) (.check period power)

/-- The same call, with any currents, bus voltages and periods. -/
inductive Event.EqUpToSensors : Event → Event → Prop
  | pwm (i j : PhasePair Scalar) (v w : Scalar) : EqUpToSensors (.pwm i v) (.pwm j w)
  | check (ok : Bool) (p q v w : Scalar) : EqUpToSensors (.check p ⟨ok, v⟩) (.check q ⟨ok, w⟩)

def blind : Task → Task
  | spinup t => .spinup { t with lastCurrent := ⟨0, 0⟩ }
  | t => t

variable {t u : Task} {e f : Event} {es fs : List Event}

/-! ## Currents -/

theorem step_blind (t : Task) (h : e.EqUpToCurrents f) :
    (t.blind.step f).1 = (t.step e).1 ∧ (t.blind.step f).2.blind = (t.step e).2.blind := by
  cases h <;> cases t <;> exact ⟨rfl, rfl⟩

theorem step_of_blind_eq (htu : t.blind = u.blind) (h : e.EqUpToCurrents f) :
    (t.step e).1 = (u.step f).1 ∧ (t.step e).2.blind = (u.step f).2.blind := by
  have hf : f.EqUpToCurrents f := by cases f <;> constructor
  obtain ⟨ha, hb⟩ := t.step_blind h
  rw [htu] at ha hb
  exact ⟨ha.symm.trans (u.step_blind hf).1, hb.symm.trans (u.step_blind hf).2⟩

theorem run_of_blind_eq (htu : t.blind = u.blind) (h : List.Forall₂ Event.EqUpToCurrents es fs) :
    (t.run es).1 = (u.run fs).1 ∧ (t.run es).2.blind = (u.run fs).2.blind :=
  Machine.run_congr step (R := fun t u => t.blind = u.blind) step_of_blind_eq htu h

/-! ## Tasks that are no start -/

theorem step_eq_of_kind_ne (ht : t.kind ≠ .spinup) (h : e.EqUpToSensors f) :
    t.step e = t.step f ∧ (t.step e).2.kind ≠ .spinup := by
  cases t with
  | idle c => cases h <;> exact ⟨rfl, ht⟩
  | beep b => cases h <;> exact ⟨rfl, ht⟩
  | spinup s => exact absurd rfl ht

theorem run_eq_of_kind_ne (ht : t.kind ≠ .spinup) (h : List.Forall₂ Event.EqUpToSensors es fs) :
    (t.run es).1 = (t.run fs).1 := by
  have hstep {s u : Task} {e f : Event} (hs : s = u ∧ s.kind ≠ .spinup) (h : e.EqUpToSensors f) :
      (s.step e).1 = (u.step f).1 ∧ (s.step e).2 = (u.step f).2 ∧ (s.step e).2.kind ≠ .spinup := by
    obtain ⟨rfl, hk⟩ := hs
    obtain ⟨he, hk'⟩ := step_eq_of_kind_ne hk h
    exact ⟨congrArg Prod.fst he, congrArg Prod.snd he, hk'⟩
  exact (Machine.run_congr step hstep ⟨rfl, ht⟩ h).1

/-- **Measured currents do not influence the control**, and an idle task and a beep are not influenced by bus
voltages and periods either. -/
theorem run_eq_of_currents (t : Task) (es fs : List Event) :
    (List.Forall₂ Event.EqUpToCurrents es fs → (t.run es).1 = (t.run fs).1) ∧
      (t.kind ≠ .spinup → List.Forall₂ Event.EqUpToSensors es fs → (t.run es).1 = (t.run fs).1) :=
  ⟨fun h => (run_of_blind_eq rfl h).1, run_eq_of_kind_ne⟩

/-- A start with a broken current sensor, and a beep with other broken sensors as well. -/
theorem run_eq_with_broken_sensors :
    let nan : Scalar := Float32.ofBits 0x7fc00000
    let inf : Scalar := Float32.ofBits 0x7f800000
    let start : Task := .spinup (.make .ofDefaults)
    let beep : Task := .beep (.make .ofDefaults 1000 1)
    (start.run [.pwm ⟨nan, inf⟩ 24, .check 1 ⟨true, 24⟩]).1 =
        (start.run [.pwm ⟨1, 2⟩ 24, .check 1 ⟨true, 24⟩]).1 ∧
      (beep.run [.pwm ⟨nan, inf⟩ nan, .check inf ⟨true, nan⟩]).1 =
        (beep.run [.pwm ⟨1, 2⟩ 24, .check 1 ⟨true, 24⟩]).1 :=
  ⟨(run_eq_of_currents _ _ _).1 (.cons (.pwm _ _ _) (.cons (.check _ _) .nil)),
    (run_eq_of_currents _ _ _).2 TaskKind.noConfusion
      (.cons (.pwm _ _ _ _) (.cons (.check _ _ _ _ _) .nil))⟩

end Task

end BrushlessDrive
