import BrushlessDrive.Drive
import BrushlessDrive.Proofs.Bridge
import BrushlessDrive.Proofs.Supervision.BootSequence

/-!
# The drive without power

A bad power status reaches the bridge through four parts: the task fails on it, the runner drops the
task, the supervisor puts the idle task in its place, and the bridge follows the output of that task
and turns the channels off. `Drive.Sound` is what holds of these parts between any two events.
-/

set_option autoImplicit false

namespace BrushlessDrive.Drive

/-! ## Between two events -/

/-- What holds of the parts of a drive between any two events. -/
structure Sound (d : Drive) : Prop where
  coupled : d.toSupervised.Coupled
  consistent : d.bridge.Consistent

theorem sound_begin (context : Context) (sequence : BootSequence) (timer : BridgeTimer) :
    (begin context sequence (Bridge.make timer).2).Sound :=
  ⟨Supervised.coupled_begin context sequence, Bridge.consistent_make timer⟩

theorem sound_step {d : Drive} (h : d.Sound) (e : Event) : (d.step e).Sound := by
  cases e with
  | pwm i v => exact ⟨Supervised.coupled_step h.coupled (.pwm i v), Bridge.consistent_follow h.consistent _⟩
  | check p s => exact ⟨Supervised.coupled_step h.coupled (.check p s), h.consistent⟩
  | refresh => exact ⟨Supervised.coupled_step h.coupled (.setContext _), h.consistent⟩
  | stage c => exact ⟨h.coupled, h.consistent⟩

theorem run_induction {P : Drive → Prop} {es : List Event}
    (hP : ∀ d, ∀ e ∈ es, P d → P (d.step e)) {d : Drive} (h : P d) : P (d.run es) := by
  induction es generalizing d with
  | nil => exact h
  | cons e es ih =>
    exact ih (fun d e he => hP d e (List.mem_cons_of_mem _ he)) (hP d e List.mem_cons_self h)

theorem sound_run {d : Drive} (h : d.Sound) (es : List Event) : (d.run es).Sound :=
  run_induction (P := Sound) (fun _ e _ h => sound_step h e) h

/-- Only a check brings a task that drives. -/
theorem isIdle_step {d : Drive} {e : Event} (he : ∀ p s, e ≠ .check p s)
    (h : d.runner.isIdle = true) : (d.step e).runner.isIdle = true := by
  cases e with
  | pwm i v => exact (Runner.isIdle_congr (Runner.activeKind_pwmPeriod _ i v)).trans h
  | check p s => exact absurd rfl (he p s)
  | refresh => exact h
  | stage c => exact h

theorem running_step {d : Drive} (e : Event) (h : d.supervisor.stage = .running) :
    (d.step e).supervisor.stage = .running := by
  cases e with
  | check p s =>
    have hr : _ ≤ (d.toSupervised.mainCheck p s).2.supervisor.stage.rank :=
      d.toSupervised.rank_step (.check p s)
    rw [h] at hr
    exact Stage.eq_running_of_rank hr
  | _ => exact h

/-- A PWM period without a driving task turns the bridge off. -/
theorem isOff_step_pwm {d : Drive} (h : d.Sound) (hi : d.runner.isIdle = true)
    (i : PhasePair Scalar) (v : Scalar) : (d.step (.pwm i v)).bridge.IsOff := by
  refine Bridge.isOff_follow h.consistent ?_
  show (d.runner.pwmPeriod i v).1.driverActive = false
  rw [Runner.pwmPeriod_of_isIdle hi]
  rfl

/-- A PWM period turns channels on only at a stage whose task drives. -/
theorem stage_of_enabled {d : Drive} (h : d.Sound) {i : PhasePair Scalar} {v : Scalar} {q : Phase}
    (hq : (d.step (.pwm i v)).bridge.timer.enabled.get q = true) :
    (d.step (.pwm i v)).supervisor.stage = .beeping ∨
      (d.step (.pwm i v)).supervisor.stage = .spinningUp := by
  by_cases hk : d.supervisor.stage.kind = .idle
  · have hoff := isOff_step_pwm h (Supervised.isIdle_of_kind h.coupled hk) i v
    rw [hoff.2, Phases.get_uniform] at hq
    cases hq
  · show d.supervisor.stage = .beeping ∨ d.supervisor.stage = .spinningUp
    cases hs : d.supervisor.stage <;> simp_all [Stage.kind]

/-! ## The whole run -/

/-- **Bad power never reaches the motor**, in any run and from a bridge in any state: a check with bad power turns
the channels off up to the next check, one that returned a failure does so for good, and only a beep or a start
of the motor turns them on. -/
theorem power_fault_safety (context : Context) (sequence : BootSequence) (timer : BridgeTimer)
    (es : List Event) :
    let d := (begin context sequence (Bridge.make timer).2).run es
    (∀ p s, s.powerOk = false → ∀ fs, (∀ p' s', .check p' s' ∉ fs) → ∀ i v,
      (((d.step (.check p s)).run fs).step (.pwm i v)).bridge.IsOff) ∧
    (∀ p s c, (d.check p s).1 = some (.failure c) → ∀ fs i v,
      (((d.step (.check p s)).run fs).step (.pwm i v)).bridge.IsOff) ∧
    (∀ i v q, (d.step (.pwm i v)).bridge.timer.enabled.get q = true →
      (d.step (.pwm i v)).supervisor.stage = .beeping ∨
        (d.step (.pwm i v)).supervisor.stage = .spinningUp) := by
  intro d
  have hd : d.Sound := sound_run (sound_begin context sequence timer) es
  refine ⟨fun p s hs fs hfs i v => ?_, fun p s c hr fs i v => ?_,
    fun i v q hq => stage_of_enabled hd hq⟩
  · have hi : ((d.step (.check p s)).run fs).runner.isIdle = true :=
      run_induction (P := fun d => d.runner.isIdle = true)
        (fun d e he => isIdle_step fun p' s' h => hfs p' s' (h ▸ he))
        (d.toSupervised.isIdle_mainCheck_of_badPower p hs)
    exact isOff_step_pwm (sound_run (sound_step hd _) fs) hi i v
  · have hsound := sound_run (sound_step hd (.check p s)) fs
    have hrun : ((d.step (.check p s)).run fs).supervisor.stage = .running :=
      run_induction (P := fun d => d.supervisor.stage = .running) (fun d e _ => running_step e)
        (Supervised.stage_mainCheck_of_failure hd.coupled hr)
    refine isOff_step_pwm hsound (Supervised.isIdle_of_kind hsound.coupled ?_) i v
    rw [hrun]
    rfl

end BrushlessDrive.Drive
