import BrushlessDrive.Proofs.Scalar.Sum
import BrushlessDrive.Proofs.Task.Release
import BrushlessDrive.Proofs.Task.Spinup

/-!
# Outcomes that stay

A task can be asked on after it has come to its end. A task with nothing left to do stays so (`Task.Done`),
and a success is found in such tasks only. A start whose time is over stays late (`Spinup.Late`) as long as
no check turns the time back, and then does not wait any more.
-/

set_option autoImplicit false

namespace BrushlessDrive

/-- What a task that has nothing left to do says to a power status. -/
def PowerStatus.verdict (s : PowerStatus) : CheckResult :=
  if s.powerOk then .success else .failure .badPower

/-- A call that does not turn the time back. -/
def Task.Event.IsForward : Task.Event → Prop
  | .pwm _ _ => True
  | .check p _ => 0 ≤ p

/-! ## The end of a beep -/

namespace Beep

theorem mainCheck_eq_success_iff (t : Beep) (s : PowerStatus) :
    t.mainCheck s = .success ↔ s.powerOk = true ∧ t.remaining ≤ 0 := by
  cases hs : s.powerOk <;> by_cases hr : t.remaining ≤ 0 <;> simp [mainCheck, hs, hr]

theorem mainCheck_of_remaining_le {t : Beep} (h : t.remaining ≤ 0) (s : PowerStatus) :
    t.mainCheck s = s.verdict := by
  cases hs : s.powerOk <;> simp [mainCheck, PowerStatus.verdict, hs, h]

/-- A beep with no time left has none after a period either, be that an infinite one. -/
theorem remaining_le_pwmPeriod {t : Beep} (h : t.remaining ≤ 0) : t.pwmPeriod.2.remaining ≤ 0 := by
  by_cases hr : t.remaining < 0
  · rwa [pwmPeriod_of_released hr]
  · have h0 : 0 ≤ t.remaining := (Scalar.le_iff_not_lt rfl (Scalar.isNaN_of_le h).1).2 hr
    have hf := Scalar.isFinite_of_le_of_le Scalar.isFinite_zero Scalar.isFinite_zero h0 h
    rw [remaining_pwmPeriod hr]
    exact Scalar.le_trans (Scalar.sub_le_of_nonneg hf (Scalar.le_of_lt t.context.period_pos)) h

end Beep

/-! ## The end of a start -/

namespace Spinup

theorem mainCheck_of_arrived {t : Spinup} (h : t.targetVelocity ≤ t.velocity) (p : Scalar)
    (s : PowerStatus) : (t.mainCheck p s).1 = s.verdict := by
  rcases t.mainCheck_cases p s with ⟨hs, hc⟩ | ⟨hs, -, hc⟩ | ⟨-, hv, -⟩
  · simp [hc, PowerStatus.verdict, hs]
  · simp [hc, PowerStatus.verdict, hs]
  · exact absurd h hv

/-- The time that a start has is over. -/
def Late (t : Spinup) : Prop := t.context.config.controller.spinupTimeout < t.elapsed

theorem late_of_timeout {t : Spinup} {p : Scalar} {s : PowerStatus}
    (h : (t.mainCheck p s).1 = .failure .timeout) : (t.mainCheck p s).2.Late := by
  rcases t.mainCheck_cases p s with ⟨-, hc⟩ | ⟨-, -, hc⟩ |
    ⟨-, -, ⟨hl, -⟩ | ⟨-, -, hc⟩ | ⟨-, -, hc⟩⟩
  case inr.inr.inl => exact hl
  all_goals simp [hc] at h

theorem mainCheck_of_late {t : Spinup} {p : Scalar} {s : PowerStatus} (h : (t.mainCheck p s).2.Late) :
    (t.mainCheck p s).1 ≠ .inProgress ∧ (t.mainCheck p s).1 ≠ .failure .lowBusVoltage := by
  rcases t.mainCheck_cases p s with ⟨-, hc⟩ | ⟨-, -, hc⟩ |
    ⟨-, -, ⟨-, hc⟩ | ⟨hl, -, -⟩ | ⟨hl, -, -⟩⟩
  · simp [hc]
  · simp [hc]
  · simp [hc]
  · exact absurd h hl
  · exact absurd h hl

theorem Late.next {t : Spinup} (h : t.Late) {e : Task.Event} (he : e.IsForward) : (t.next e).Late := by
  cases e with
  | pwm i v => exact h
  | check p s =>
    obtain ⟨-, -, -, ht, -⟩ := t.context.start_valid
    have h0 : 0 ≤ t.elapsed :=
      Scalar.le_of_lt (Scalar.lt_of_lt_of_le (Scalar.isPositive_iff.1 ht).1 (Scalar.le_of_lt h))
    exact Scalar.lt_of_lt_of_le h (Scalar.le_add_of_nonneg h0 he)

theorem Late.after {t : Spinup} (h : t.Late) {es : List Task.Event} (hes : ∀ e ∈ es, e.IsForward) :
    (t.after es).Late := by
  induction es generalizing t with
  | nil => exact h
  | cons e es ih =>
    rw [List.forall_mem_cons] at hes
    exact ih (h.next hes.1) hes.2

end Spinup

/-! ## Runs after the end -/

namespace Task

/-- The task has nothing left to do. An idle task never had. -/
def Done : Task → Prop
  | idle _ => False
  | beep t => t.remaining ≤ 0
  | spinup t => t.Ramped ∧ t.targetVelocity ≤ t.velocity

theorem Done.step {t : Task} (h : t.Done) (e : Event) : (t.step e).2.Done := by
  cases t with
  | idle c => exact h.elim
  | beep t =>
    cases e with
    | pwm i v => exact Beep.remaining_le_pwmPeriod h
    | check p s => exact h
  | spinup t =>
    obtain ⟨hr, hv⟩ := h
    have hn : (t.next e).Ramped ∧ (t.next e).targetVelocity ≤ (t.next e).velocity := by
      refine ⟨Spinup.ramped_next hr e, ?_⟩
      rw [Spinup.targetVelocity_next]
      exact Scalar.le_trans hv (Spinup.velocity_le_next hr e)
    cases e with
    | pwm i v => exact hn
    | check p s => exact hn

theorem Done.run {t : Task} (h : t.Done) (es : List Event) : (t.run es).2.Done :=
  Machine.run_induction (P := Done) (fun _ e h => h.step e) h es

theorem Done.mainCheck {t : Task} (h : t.Done) (p : Scalar) (s : PowerStatus) :
    (t.mainCheck p s).1 = s.verdict := by
  cases t with
  | idle c => exact h.elim
  | beep t => exact t.mainCheck_of_remaining_le h s
  | spinup t => exact Spinup.mainCheck_of_arrived h.2 p s

def resultAfter (t : Task) (es : List Event) (p : Scalar) (s : PowerStatus) : CheckResult :=
  ((t.run es).2.mainCheck p s).1

/-- In no run is a success taken back: the checks after it find success too, or bad power. -/
def Settles (t : Task) : Prop :=
  ∀ es p s, t.resultAfter es p s = .success →
    ∀ fs p' s', t.resultAfter (es ++ .check p s :: fs) p' s' = s'.verdict

theorem settles_of_done {t : Task} (h : ∀ es p s, t.resultAfter es p s = .success → (t.run es).2.Done) :
    t.Settles := by
  intro es p s hr fs p' s'
  rw [resultAfter, run_append]
  exact ((h es p s hr).run _).mainCheck p' s'

theorem settles_beep (t : Beep) : (beep t).Settles := by
  refine settles_of_done fun es p s h => ?_
  rw [resultAfter, run_beep] at h
  rw [run_beep]
  exact (((t.after _).mainCheck_eq_success_iff s).1 h).2

theorem settles_spinup {t : Spinup} (ht : t.Ramped) : (spinup t).Settles := by
  refine settles_of_done fun es p s h => ?_
  rw [resultAfter, run_spinup] at h
  rw [run_spinup]
  exact ⟨Spinup.ramped_after ht es, (((t.after es).mainCheck_eq_success_iff p s).1 h).2⟩

theorem resultAfter_timeout {t : Spinup} {es fs : List Event} {p p' : Scalar} {s : PowerStatus}
    (h : (spinup t).resultAfter es p s = .failure .timeout) (hfs : ∀ e ∈ fs, e.IsForward)
    (hp : 0 ≤ p') (s' : PowerStatus) :
    (spinup t).resultAfter (es ++ .check p s :: fs) p' s' ≠ .inProgress ∧
      (spinup t).resultAfter (es ++ .check p s :: fs) p' s' ≠ .failure .lowBusVoltage := by
  rw [resultAfter, run_spinup] at h
  rw [resultAfter, run_spinup, Spinup.after_append]
  have hl := (Spinup.late_of_timeout h).after hfs
  exact Spinup.mainCheck_of_late (hl.next (e := .check p' s') hp)

end Task

/-- **Outcomes stay**, with whatever PWM periods there are between the main checks: a success for good, and a
timeout unless the time is turned back. -/
theorem outcome_law (c : Context) :
    (∀ frequency duration, (Task.beep (.make c frequency duration)).Settles) ∧
    (Task.spinup (.make c)).Settles ∧
    ∀ es p s, (Task.spinup (.make c)).resultAfter es p s = .failure .timeout →
      ∀ fs, (∀ e ∈ fs, Task.Event.IsForward e) → ∀ p' s', 0 ≤ p' →
        (Task.spinup (.make c)).resultAfter (es ++ .check p s :: fs) p' s' ≠ .inProgress ∧
        (Task.spinup (.make c)).resultAfter (es ++ .check p s :: fs) p' s' ≠ .failure .lowBusVoltage :=
  ⟨fun _ _ => Task.settles_beep _, Task.settles_spinup (Spinup.ramped_make c),
    fun _ _ _ h _ hfs _ s' hp => Task.resultAfter_timeout h hfs hp s'⟩

/-- A start that is late at its first check, with a low bus after it and no time between its checks, and a
beep of no duration. -/
theorem outcome_law_of_late_start :
    let c : Context := ⟨{ controller := { spinupTimeout := 1 } }, ⟨.ofParams {}, .current⟩, rfl,
      PwmTiming.period_default_pos⟩
    let start := Task.spinup (.make c)
    let tone := Task.beep (.make c 1000 0)
    let fs : List Task.Event := [.pwm ⟨0, 0⟩ 1, .check 0 ⟨false, 1⟩]
    start.resultAfter [] 2 ⟨true, 24⟩ = .failure .timeout ∧
      start.resultAfter (.check 2 ⟨true, 24⟩ :: fs) 0 ⟨true, 24⟩ ≠ .inProgress ∧
      start.resultAfter (.check 2 ⟨true, 24⟩ :: fs) 0 ⟨true, 24⟩ ≠ .failure .lowBusVoltage ∧
      tone.resultAfter [] 0.001 ⟨true, 24⟩ = .success ∧
      tone.resultAfter (.check 0.001 ⟨true, 24⟩ :: fs) 0.001 ⟨false, 24⟩ = .failure .badPower := by
  intro c start tone fs
  obtain ⟨hbeep, -, hstart⟩ := outcome_law c
  have hlate : start.resultAfter [] 2 ⟨true, 24⟩ = .failure .timeout := by decide +kernel
  have htone : tone.resultAfter [] 0.001 ⟨true, 24⟩ = .success := by decide +kernel
  have hfs : ∀ e ∈ fs, Task.Event.IsForward e := by
    simp [fs, Task.Event.IsForward, Scalar.le_refl (x := 0) rfl]
  obtain ⟨hwait, hlow⟩ := hstart [] 2 _ hlate fs hfs 0 ⟨true, 24⟩ (Scalar.le_refl rfl)
  exact ⟨hlate, hwait, hlow, htone, hbeep 1000 0 [] 0.001 _ htone fs 0.001 ⟨false, 24⟩⟩

end BrushlessDrive
