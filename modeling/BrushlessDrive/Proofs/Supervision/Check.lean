import BrushlessDrive.Proofs.Runner
import BrushlessDrive.Supervisor

/-!
# One main check of the supervisor

A main check is a greeting, which starts the beep when the power is good for the first time
(`Supervised.greet`), and then the check of the runner with what follows from it
(`Supervised.settle`).
-/

set_option autoImplicit false

namespace BrushlessDrive

namespace Stage

def kind : Stage → TaskKind
  | waitingForPower | running => .idle
  | beeping => .beep
  | spinningUp => .spinup

/-- The place of a stage in the boot sequence. -/
def rank : Stage → Nat
  | waitingForPower => 0
  | beeping => 1
  | spinningUp => 2
  | running => 3

theorem rank_eq_zero {s : Stage} : s.rank = 0 ↔ s = waitingForPower := by
  cases s <;> simp [rank]

theorem rank_lt (s : Stage) : s.rank < 4 := by
  cases s <;> simp [rank]

theorem eq_running_of_rank {s : Stage} (h : running.rank ≤ s.rank) : s = running := by
  cases s <;> simp_all [rank]

theorem eq_spinningUp_of_kind {s : Stage} (h : s.kind = .spinup) : s = spinningUp := by
  cases s <;> simp_all [kind]

end Stage

namespace Supervisor

variable {s : Supervisor} {result : Option CheckResult}

/-- Everything that can follow a result: the sequence waits, it goes on from the beep to the start of
the motor, or it is over. -/
theorem next_cases (s : Supervisor) (result : Option CheckResult) :
    (s.stage = .waitingForPower ∧ s.next result = (.waitingForPower, .idle s.context)) ∨
    (s.stage = .beeping ∧ s.sequence.spinupAfterBeep = true ∧ result = some .success ∧
      s.next result = (.spinningUp, .spinup (.make s.context))) ∨
    (s.stage ≠ .waitingForPower ∧ s.next result = (.running, .idle s.context)) := by
  unfold next
  cases s.stage with
  | waitingForPower => exact .inl ⟨rfl, rfl⟩
  | beeping =>
    by_cases hc : s.sequence.spinupAfterBeep = true ∧ result = some .success
    · exact .inr (.inl ⟨rfl, hc.1, hc.2, if_pos hc⟩)
    · exact .inr (.inr ⟨Stage.noConfusion, if_neg hc⟩)
  | spinningUp => exact .inr (.inr ⟨Stage.noConfusion, rfl⟩)
  | running => exact .inr (.inr ⟨Stage.noConfusion, rfl⟩)

theorem kind_next (s : Supervisor) (result : Option CheckResult) :
    (s.next result).2.kind = (s.next result).1.kind := by
  obtain ⟨-, he⟩ | ⟨-, -, -, he⟩ | ⟨-, he⟩ := s.next_cases result <;> rw [he] <;> rfl

theorem context_next (s : Supervisor) (result : Option CheckResult) :
    (s.next result).2.context = s.context := by
  obtain ⟨-, he⟩ | ⟨-, -, -, he⟩ | ⟨-, he⟩ := s.next_cases result <;> rw [he] <;> rfl

theorem rank_next (s : Supervisor) (result : Option CheckResult) :
    s.stage.rank ≤ (s.next result).1.rank := by
  obtain ⟨hs, he⟩ | ⟨hs, -, -, he⟩ | ⟨-, he⟩ := s.next_cases result <;> rw [he]
  · simp [hs]
  · simp [hs, Stage.rank]
  · exact Nat.le_of_lt_succ s.stage.rank_lt

/-- Only a beep that succeeds leads to a start of the motor. -/
theorem next_eq_spinningUp (h : (s.next result).1 = .spinningUp) :
    s.stage = .beeping ∧ s.sequence.spinupAfterBeep = true ∧ result = some .success := by
  obtain ⟨-, he⟩ | ⟨hs, hq, hr, -⟩ | ⟨-, he⟩ := s.next_cases result
  · rw [he] at h
    cases h
  · exact ⟨hs, hq, hr⟩
  · rw [he] at h
    cases h

/-- Only a success is followed by a task that drives. -/
theorem kind_next_of_ne_success (h : result ≠ some .success) : (s.next result).2.kind = .idle := by
  obtain ⟨-, he⟩ | ⟨-, -, hr, -⟩ | ⟨-, he⟩ := s.next_cases result
  · rw [he]
    rfl
  · exact absurd hr h
  · rw [he]
    rfl

theorem next_failure (h : s.stage ≠ .waitingForPower) {c : TaskFailure} :
    (s.next (some (.failure c))).1 = .running := by
  obtain ⟨hs, -⟩ | ⟨-, -, hr, -⟩ | ⟨-, he⟩ := s.next_cases (some (.failure c))
  · exact absurd hs h
  · cases hr
  · rw [he]

theorem next_eq_waitingForPower :
    (s.next result).1 = .waitingForPower ↔ s.stage = .waitingForPower := by
  obtain ⟨hs, he⟩ | ⟨hs, -, -, he⟩ | ⟨hs, he⟩ := s.next_cases result <;> simp [he, hs]

theorem kind_next_ne_beep (s : Supervisor) (result : Option CheckResult) :
    (s.next result).1.kind ≠ .beep := by
  obtain ⟨-, he⟩ | ⟨-, -, -, he⟩ | ⟨-, he⟩ := s.next_cases result <;> simp [he, Stage.kind]

theorem advance_of_needsTask (h : needsTask result = true) :
    s.advance result = (some (s.next result).2, { s with stage := (s.next result).1 }) := if_pos h

theorem stage_advance :
    (s.advance result).2.stage = if needsTask result then (s.next result).1 else s.stage := by
  unfold advance
  split <;> rfl

theorem advance_of_not_needsTask (h : needsTask result = false) : s.advance result = (none, s) :=
  if_neg (by rw [h]; exact Bool.false_ne_true)

end Supervisor

namespace Supervised

/-- The first half of a main check: the beep at the first good power. -/
def greet (x : Supervised) (s : PowerStatus) : Supervised :=
  ⟨(x.supervisor.greet s).2, x.runner.startAny (x.supervisor.greet s).1⟩

/-- The second half of a main check: the runner's own check, and what follows from it. -/
def settle (x : Supervised) (p : Scalar) (s : PowerStatus) : Option CheckResult × Supervised :=
  let (result, r) := x.runner.mainCheck p s
  let (task, supervisor) := x.supervisor.advance result
  (result, ⟨supervisor, r.startAny task⟩)

theorem mainCheck_eq (x : Supervised) (p : Scalar) (s : PowerStatus) :
    x.mainCheck p s = (x.greet s).settle p s := rfl

/-- Goes on with the stage and the task that follow a result. -/
def proceed (x : Supervised) (r : Runner) (result : Option CheckResult) : Supervised :=
  ⟨{ x.supervisor with stage := (x.supervisor.next result).1 },
    (r.start (x.supervisor.next result).2).2⟩

theorem greet_cases (x : Supervised) (s : PowerStatus) :
    (x.supervisor.stage = .waitingForPower ∧ s.powerOk = true ∧ x.greet s =
      ⟨{ x.supervisor with stage := .beeping }, (x.runner.start x.supervisor.beep).2⟩) ∨
    (¬ (x.supervisor.stage = .waitingForPower ∧ s.powerOk = true) ∧ x.greet s = x) := by
  by_cases h : x.supervisor.stage = .waitingForPower ∧ s.powerOk = true
  · exact .inl ⟨h.1, h.2, by simp [greet, Supervisor.greet, h]⟩
  · exact .inr ⟨h, by simp only [greet, Supervisor.greet, if_neg h, Runner.startAny_none]⟩

theorem greet_of_badPower (x : Supervised) {s : PowerStatus} (h : s.powerOk = false) :
    x.greet s = x := by
  obtain ⟨-, hp, -⟩ | ⟨-, he⟩ := x.greet_cases s
  · rw [h] at hp
    cases hp
  · exact he

theorem greet_of_not_waiting {x : Supervised} (h : x.supervisor.stage ≠ .waitingForPower)
    (s : PowerStatus) : x.greet s = x := by
  obtain ⟨hw, -, -⟩ | ⟨-, he⟩ := x.greet_cases s
  · exact absurd hw h
  · exact he

/-- Everything the second half of a check can do: without a task the next one is started, a task
that goes on is kept, and a task that ends is replaced by the next one. -/
theorem settle_cases (x : Supervised) (p : Scalar) (s : PowerStatus) :
    (x.runner.active = none ∧ x.settle p s = (none, x.proceed x.runner none)) ∨
    ∃ t, x.runner.active = some t ∧
      (((t.mainCheck p s).1 = .inProgress ∧ x.settle p s = (some .inProgress,
          ⟨x.supervisor, { x.runner with
            mainChecks := x.runner.mainChecks.increment, active := some (t.mainCheck p s).2 }⟩)) ∨
        ((t.mainCheck p s).1.isTerminal = true ∧ x.settle p s = (some (t.mainCheck p s).1,
          x.proceed ({ x.runner with mainChecks := x.runner.mainChecks.increment }.finish t.kind
            (t.mainCheck p s).1) (some (t.mainCheck p s).1)))) := by
  obtain ⟨ha, hr⟩ | ⟨t, ha, ⟨hc, hr⟩ | ⟨hc, hr⟩⟩ := x.runner.mainCheck_cases p s
  · refine .inl ⟨ha, ?_⟩
    simp only [settle, hr]
    rfl
  · refine .inr ⟨t, ha, .inl ⟨hc, ?_⟩⟩
    simp only [settle, hr]
    rfl
  · refine .inr ⟨t, ha, .inr ⟨hc, ?_⟩⟩
    have hn : Supervisor.needsTask (some (t.mainCheck p s).1) = true := hc
    simp only [settle, hr, Supervisor.advance_of_needsTask hn]
    rfl

/-! ## What a check does to the stage and to the context -/

theorem stage_settle (x : Supervised) (p : Scalar) (s : PowerStatus) :
    (x.settle p s).2.supervisor.stage =
      if Supervisor.needsTask (x.settle p s).1 then (x.supervisor.next (x.settle p s).1).1
      else x.supervisor.stage :=
  Supervisor.stage_advance

theorem rank_greet (x : Supervised) (s : PowerStatus) :
    x.supervisor.stage.rank ≤ (x.greet s).supervisor.stage.rank := by
  obtain ⟨hs, -, he⟩ | ⟨-, he⟩ := x.greet_cases s
  · rw [he, hs]
    exact Nat.zero_le _
  · exact Nat.le_of_eq (by rw [he])

theorem rank_settle (x : Supervised) (p : Scalar) (s : PowerStatus) :
    x.supervisor.stage.rank ≤ (x.settle p s).2.supervisor.stage.rank := by
  rw [stage_settle]
  split
  · exact x.supervisor.rank_next _
  · exact Nat.le_refl _

theorem settle_waiting_iff (x : Supervised) (p : Scalar) (s : PowerStatus) :
    (x.settle p s).2.supervisor.stage = .waitingForPower ↔
      x.supervisor.stage = .waitingForPower := by
  rw [stage_settle]
  split
  · exact Supervisor.next_eq_waitingForPower
  · exact Iff.rfl

theorem mainCheck_waiting_iff (x : Supervised) (p : Scalar) (s : PowerStatus) :
    (x.mainCheck p s).2.supervisor.stage = .waitingForPower ↔
      x.supervisor.stage = .waitingForPower ∧ s.powerOk = false := by
  rw [mainCheck_eq, settle_waiting_iff]
  obtain ⟨-, hp, he⟩ | ⟨hn, he⟩ := x.greet_cases s
  · simp [he, hp]
  · rw [he]
    cases hp : s.powerOk <;> simp_all

theorem context_greet (x : Supervised) (s : PowerStatus) :
    (x.greet s).supervisor.context = x.supervisor.context := by
  obtain ⟨-, -, he⟩ | ⟨-, he⟩ := x.greet_cases s <;> rw [he]

theorem context_mainCheck (x : Supervised) (p : Scalar) (s : PowerStatus) :
    (x.mainCheck p s).2.supervisor.context = x.supervisor.context := by
  rw [mainCheck_eq, ← x.context_greet s]
  obtain ⟨-, he⟩ | ⟨t, -, ⟨-, he⟩ | ⟨-, he⟩⟩ := (x.greet s).settle_cases p s <;> rw [he] <;> rfl

end Supervised

end BrushlessDrive
