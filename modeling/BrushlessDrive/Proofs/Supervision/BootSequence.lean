import BrushlessDrive.Proofs.Supervision.Orders

/-!
# The boot sequence

`Supervised.Booting`: the sequence is the one that the run began with, stage and task are coupled,
and at most one task has failed, the sequence then being over. It holds at the beginning, and every event
keeps it (`booting_step`).
-/

set_option autoImplicit false

namespace BrushlessDrive.Supervised

/-- What every state of a run satisfies. -/
structure Booting (sequence : BootSequence) (x : Supervised) : Prop where
  sequence_eq : x.supervisor.sequence = sequence
  coupled : x.Coupled
  failures : x.runner.taskFailures.count = 0 ∨
    x.supervisor.stage = .running ∧ x.runner.taskFailures.count = 1

theorem booting_begin (context : Context) (sequence : BootSequence) :
    (begin context sequence).Booting sequence :=
  ⟨rfl, coupled_begin context sequence, .inl rfl⟩

theorem booting_greet {sequence : BootSequence} {x : Supervised} (h : x.Booting sequence)
    (s : PowerStatus) : (x.greet s).Booting sequence := by
  refine ⟨?_, coupled_greet h.coupled s, ?_⟩ <;>
    obtain ⟨hs, -, he⟩ | ⟨-, he⟩ := x.greet_cases s <;> rw [he]
  · exact h.sequence_eq
  · exact h.sequence_eq
  · refine .inl (h.failures.resolve_right fun hf => ?_)
    rw [hs] at hf
    cases hf.1
  · exact h.failures

/-- A task that ends is not an idle one, so nothing has failed before it. -/
theorem Booting.no_failure_yet {sequence : BootSequence} {x : Supervised} (h : x.Booting sequence)
    {t : Task} (ha : x.runner.active = some t) {p : Scalar} {s : PowerStatus}
    (ht : (t.mainCheck p s).1.isTerminal = true) : x.runner.taskFailures.count = 0 := by
  have hk := h.coupled.kind_ne_idle ha ht
  exact h.failures.resolve_right fun hf => hk (by rw [hf.1]; rfl)

theorem booting_settle {sequence : BootSequence} {x : Supervised} (h : x.Booting sequence)
    (p : Scalar) (s : PowerStatus) : (x.settle p s).2.Booting sequence := by
  refine ⟨?_, coupled_of_activeKind (activeKind_settle h.coupled p s), ?_⟩ <;>
    obtain ⟨-, he⟩ | ⟨t, ha, ⟨-, he⟩ | ⟨ht, he⟩⟩ := x.settle_cases p s <;> rw [he]
  · exact h.sequence_eq
  · exact h.sequence_eq
  · exact h.sequence_eq
  · refine h.failures.imp_right fun hf => ⟨?_, hf.2⟩
    show (x.supervisor.next none).1 = .running
    simp [Supervisor.next, hf.1]
  · exact h.failures
  · have hw := h.coupled.ne_waitingForPower ha ht
    have h0 := h.no_failure_yet ha ht
    cases hr : (t.mainCheck p s).1 with
    | inProgress => rw [hr] at ht; cases ht
    | success => exact .inl h0
    | failure c =>
      refine .inr ⟨Supervisor.next_failure hw, ?_⟩
      show x.runner.taskFailures.count + 1 = 1
      rw [h0]
      rfl

theorem booting_step {sequence : BootSequence} {x : Supervised} (h : x.Booting sequence)
    (e : Event) : (x.step e).2.Booting sequence := by
  cases e with
  | pwm i v =>
    refine ⟨h.sequence_eq, coupled_pwmPeriod h.coupled i v, ?_⟩
    show (x.runner.pwmPeriod i v).2.taskFailures.count = 0 ∨
      _ ∧ (x.runner.pwmPeriod i v).2.taskFailures.count = 1
    rw [Runner.taskFailures_pwmPeriod]
    exact h.failures
  | check p s =>
    show (x.mainCheck p s).2.Booting sequence
    rw [mainCheck_eq]
    exact booting_settle (booting_greet h s) p s
  | setContext c => exact ⟨h.sequence_eq, h.coupled, h.failures⟩
  | stop => exact ⟨h.sequence_eq, coupled_step h.coupled .stop, h.failures⟩

theorem booting_run (context : Context) (sequence : BootSequence) (es : List Event) :
    ((begin context sequence).run es).2.Booting sequence :=
  run_induction (P := Booting sequence) (fun _ e h => booting_step h e)
    (booting_begin context sequence) es

/-! ## Changes of the stage -/

/-- A run is still waiting exactly when no check of it has seen good power. -/
theorem run_waiting_iff (x : Supervised) (es : List Event) :
    (x.run es).2.supervisor.stage = .waitingForPower ↔ x.supervisor.stage = .waitingForPower ∧
      ∀ p s, .check p s ∈ es → s.powerOk = false := by
  induction es generalizing x with
  | nil => simp [run, Machine.run_nil]
  | cons e es ih =>
    rw [run_cons, ih]
    obtain ⟨p, s, rfl⟩ | hn := e.check_or_not
    · show (x.mainCheck p s).2.supervisor.stage = _ ∧ _ ↔ _
      rw [mainCheck_waiting_iff, and_assoc]
      refine and_congr_right fun _ => ⟨fun ⟨hs, hes⟩ p' s' hm => ?_, fun hm => ?_⟩
      · obtain he | hm := List.mem_cons.1 hm
        · cases he
          exact hs
        · exact hes p' s' hm
      · exact ⟨hm p s List.mem_cons_self, fun p' s' h => hm p' s' (List.mem_cons_of_mem _ h)⟩
    · rw [stage_step_of_not_check hn]
      refine and_congr_right fun _ => ⟨fun hes p s hm => ?_, fun hm p s h => ?_⟩
      · exact hes p s ((List.mem_cons.1 hm).resolve_left fun he => hn p s he.symm)
      · exact hm p s (List.mem_cons_of_mem _ h)

/-- The start of the motor begins in a check that ends a beep with success. -/
theorem step_eq_spinningUp {sequence : BootSequence} {x : Supervised} (h : x.Booting sequence)
    {e : Event} (hx : x.supervisor.stage ≠ .spinningUp)
    (hy : (x.step e).2.supervisor.stage = .spinningUp) :
    sequence.spinupAfterBeep = true ∧ ∃ p s, e = .check p s ∧
      (x.step e).1 = .result (some .success) ∧
      (x.step e).2.runner.lastResult = some (.beep, .success) := by
  obtain ⟨p, s, rfl⟩ | hn := e.check_or_not
  · have hg := booting_greet h s
    have hgs : (x.greet s).supervisor.stage ≠ .spinningUp := by
      obtain ⟨-, -, he⟩ | ⟨-, he⟩ := x.greet_cases s <;> rw [he]
      · exact Stage.noConfusion
      · exact hx
    change (x.mainCheck p s).2.supervisor.stage = _ at hy
    show _ ∧ ∃ p' s', _ ∧ Answer.result (x.mainCheck p s).1 = _ ∧
      (x.mainCheck p s).2.runner.lastResult = _
    rw [mainCheck_eq] at hy ⊢
    obtain ⟨-, he⟩ | ⟨t, ha, ⟨-, he⟩ | ⟨-, he⟩⟩ := (x.greet s).settle_cases p s <;>
      rw [he] at hy ⊢
    · cases (Supervisor.next_eq_spinningUp hy).2.2
    · exact absurd hy hgs
    · obtain ⟨hb, hq, hr⟩ := Supervisor.next_eq_spinningUp hy
      have hk : t.kind = .beep := by
        rw [hg.coupled t ha, hb]
        rfl
      rw [hg.sequence_eq] at hq
      refine ⟨hq, p, s, rfl, congrArg _ hr, ?_⟩
      show some (t.kind, (t.mainCheck p s).1) = _
      rw [hk, Option.some.inj hr]
  · rw [stage_step_of_not_check hn] at hy
    exact absurd hy hx

/-! ## The whole run -/

/-- **The boot sequence of any run.** The stages come in their order, the runner holds the task of the stage,
neither the beep nor the motor is started twice, and no more than one task fails. -/
theorem boot_sequence (context : Context) (sequence : BootSequence) (es : List Event) :
    let x := ((begin context sequence).run es).2
    let orders := (begin context sequence).orders es
    (∀ p s, (x.step (.check p s)).2.runner.activeKind =
      some (x.step (.check p s)).2.supervisor.stage.kind) ∧
    (∀ e, x.supervisor.stage.rank ≤ (x.step e).2.supervisor.stage.rank) ∧
    (x.supervisor.stage = .waitingForPower ↔ ∀ p s, .check p s ∈ es → s.powerOk = false) ∧
    (∀ e, x.supervisor.stage ≠ .spinningUp → (x.step e).2.supervisor.stage = .spinningUp →
      sequence.spinupAfterBeep = true ∧ ∃ p s, e = .check p s ∧
        (x.step e).1 = .result (some .success) ∧
        (x.step e).2.runner.lastResult = some (.beep, .success)) ∧
    x.runner = (({} : Runner).run (.start (.idle context) :: orders)).2 ∧
    orders.countP (Runner.Event.isStart .beep) ≤ 1 ∧
    orders.countP (Runner.Event.isStart .spinup) ≤ 1 ∧
    x.runner.taskFailures.count ≤ 1 := by
  intro x orders
  have hx : x.Booting sequence := booting_run context sequence es
  refine ⟨fun p s => activeKind_mainCheck hx.coupled p s, fun e => x.rank_step e, ?_,
    fun e => step_eq_spinningUp hx, runner_run _ es, ?_, ?_, ?_⟩
  · exact (run_waiting_iff _ es).trans (and_iff_right rfl)
  · have h := count_beep_orders (begin context sequence) es
    exact Nat.le_trans (Nat.le_of_eq h) (Nat.min_le_right _ _)
  · have h := count_spinup_orders (begin context sequence) es
    have hr := x.supervisor.stage.rank_lt
    refine Nat.le_trans (Nat.le_trans (Nat.le_add_right _ _) h) ?_
    show x.supervisor.stage.rank / 2 ≤ 1
    omega
  · obtain h | ⟨-, h⟩ := hx.failures <;> rw [h] <;> decide

end BrushlessDrive.Supervised
