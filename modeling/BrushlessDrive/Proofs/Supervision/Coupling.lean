import BrushlessDrive.Proofs.Supervision.Check

/-!
# Coupling of stage and task

`Supervised.Coupled`: the task, if there is one, is of the kind of the stage (`Stage.kind`). Both
halves of a check keep it, so does everything else that happens between two checks (`coupled_step`),
and a check leaves a task in place (`activeKind_mainCheck`).
-/

set_option autoImplicit false

namespace BrushlessDrive.Supervised

def Coupled (x : Supervised) : Prop :=
  ∀ t, x.runner.active = some t → t.kind = x.supervisor.stage.kind

theorem coupled_of_activeKind {x : Supervised}
    (h : x.runner.activeKind = some x.supervisor.stage.kind) : x.Coupled := by
  intro t ht
  simpa [Runner.activeKind, ht] using h

theorem coupled_begin (context : Context) (sequence : BootSequence) :
    (begin context sequence).Coupled := coupled_of_activeKind rfl

theorem coupled_greet {x : Supervised} (h : x.Coupled) (s : PowerStatus) :
    (x.greet s).Coupled := by
  obtain ⟨-, -, he⟩ | ⟨-, he⟩ := x.greet_cases s <;> rw [he]
  · exact coupled_of_activeKind rfl
  · exact h

theorem activeKind_greet {x : Supervised}
    (h : x.runner.activeKind = some x.supervisor.stage.kind) (s : PowerStatus) :
    (x.greet s).runner.activeKind = some (x.greet s).supervisor.stage.kind := by
  obtain ⟨-, -, he⟩ | ⟨-, he⟩ := x.greet_cases s <;> rw [he]
  · rfl
  · exact h

/-- Whatever the runner's check found, the runner holds the task of the stage after it. -/
theorem activeKind_settle {x : Supervised} (h : x.Coupled) (p : Scalar) (s : PowerStatus) :
    (x.settle p s).2.runner.activeKind = some (x.settle p s).2.supervisor.stage.kind := by
  obtain ⟨-, he⟩ | ⟨t, ha, ⟨-, he⟩ | ⟨-, he⟩⟩ := x.settle_cases p s <;> rw [he]
  · exact congrArg some (x.supervisor.kind_next none)
  · show some (t.mainCheck p s).2.kind = _
    rw [t.kind_mainCheck, h t ha]
  · exact congrArg some (x.supervisor.kind_next _)

theorem activeKind_mainCheck {x : Supervised} (h : x.Coupled) (p : Scalar) (s : PowerStatus) :
    (x.mainCheck p s).2.runner.activeKind = some (x.mainCheck p s).2.supervisor.stage.kind := by
  rw [mainCheck_eq]
  exact activeKind_settle (coupled_greet h s) p s

theorem coupled_pwmPeriod {x : Supervised} (h : x.Coupled) (i : PhasePair Scalar) (v : Scalar) :
    (x.pwmPeriod i v).2.Coupled := by
  intro t ht
  have hk : x.runner.activeKind = some t.kind := by
    rw [← x.runner.activeKind_pwmPeriod i v]
    exact congrArg (Option.map Task.kind) ht
  obtain ⟨u, hu, huk⟩ := Option.map_eq_some_iff.1 hk
  rw [← huk]
  exact h u hu

theorem coupled_step {x : Supervised} (h : x.Coupled) (e : Event) : (x.step e).2.Coupled := by
  cases e with
  | pwm i v => exact coupled_pwmPeriod h i v
  | check p s => exact coupled_of_activeKind (activeKind_mainCheck h p s)
  | setContext c => exact h
  | stop => intro t ht; cases ht

/-- Before the beep and after the sequence nothing drives. -/
theorem isIdle_of_kind {x : Supervised} (h : x.Coupled) (hk : x.supervisor.stage.kind = .idle) :
    x.runner.isIdle = true := by
  unfold Runner.isIdle Runner.activeKind
  cases ha : x.runner.active with
  | none => rfl
  | some t => simp [h t ha, hk]

/-! ## Tasks that end -/

theorem Coupled.kind_ne_idle {x : Supervised} (h : x.Coupled) {t : Task}
    (ha : x.runner.active = some t) {p : Scalar} {s : PowerStatus}
    (ht : (t.mainCheck p s).1.isTerminal = true) : x.supervisor.stage.kind ≠ .idle := by
  rw [← h t ha]
  exact Task.kind_ne_idle ht

theorem Coupled.ne_waitingForPower {x : Supervised} (h : x.Coupled) {t : Task}
    (ha : x.runner.active = some t) {p : Scalar} {s : PowerStatus}
    (ht : (t.mainCheck p s).1.isTerminal = true) : x.supervisor.stage ≠ .waitingForPower := by
  intro hw
  exact h.kind_ne_idle ha ht (by rw [hw]; rfl)

/-- With the task of the stage in place, the second half of a check asks for another one only while
the drive beeps or starts the motor. -/
theorem settle_of_activeKind {x : Supervised}
    (h : x.runner.activeKind = some x.supervisor.stage.kind) (p : Scalar) (s : PowerStatus) :
    (Supervisor.needsTask (x.settle p s).1 = false ∧
      (x.settle p s).2.supervisor.stage = x.supervisor.stage) ∨
    (Supervisor.needsTask (x.settle p s).1 = true ∧
      ((x.supervisor.stage = .beeping ∧ (x.settle p s).2.supervisor.stage = .spinningUp) ∨
        (x.supervisor.stage.kind ≠ .idle ∧ (x.settle p s).2.supervisor.stage = .running))) := by
  have hx := coupled_of_activeKind h
  obtain ⟨ha, -⟩ | ⟨t, ha, ⟨-, he⟩ | ⟨ht, he⟩⟩ := x.settle_cases p s
  · rw [Runner.activeKind, ha] at h
    cases h
  · rw [he]
    exact .inl ⟨rfl, rfl⟩
  · have hn : Supervisor.needsTask (x.settle p s).1 = true := by
      rw [he]
      exact ht
    refine .inr ⟨hn, ?_⟩
    rw [stage_settle, if_pos hn]
    obtain ⟨hw, -⟩ | ⟨hb, -, -, hs⟩ | ⟨-, hs⟩ := x.supervisor.next_cases (x.settle p s).1
    · exact absurd hw (hx.ne_waitingForPower ha ht)
    · exact .inl ⟨hb, by rw [hs]⟩
    · exact .inr ⟨hx.kind_ne_idle ha ht, by rw [hs]⟩

theorem stage_mainCheck_of_failure {x : Supervised} (h : x.Coupled) {p : Scalar} {s : PowerStatus}
    {c : TaskFailure} (hr : (x.mainCheck p s).1 = some (.failure c)) :
    (x.mainCheck p s).2.supervisor.stage = .running := by
  have hg := coupled_greet h s
  rw [mainCheck_eq] at hr ⊢
  obtain ⟨-, he⟩ | ⟨t, ha, ⟨-, he⟩ | ⟨ht, he⟩⟩ := (x.greet s).settle_cases p s <;> rw [he] at hr ⊢
  · cases hr
  · cases hr
  · show ((x.greet s).supervisor.next (some (t.mainCheck p s).1)).1 = _
    rw [Option.some.inj hr]
    exact Supervisor.next_failure (hg.ne_waitingForPower ha ht)

theorem isIdle_mainCheck_of_badPower (x : Supervised) (p : Scalar) {s : PowerStatus}
    (hs : s.powerOk = false) : (x.mainCheck p s).2.runner.isIdle = true := by
  apply Runner.isIdle_of_activeKind
  rw [mainCheck_eq, x.greet_of_badPower hs]
  obtain ⟨-, he⟩ | ⟨t, ha, ⟨ht, he⟩ | ⟨ht, he⟩⟩ := x.settle_cases p s <;> rw [he]
  · exact congrArg some (Supervisor.kind_next_of_ne_success (by simp))
  · show some (t.mainCheck p s).2.kind = _
    rw [t.kind_mainCheck]
    apply congrArg some
    apply Classical.byContradiction
    intro hk
    rw [t.mainCheck_of_badPower hk p hs] at ht
    cases ht
  · refine congrArg some (Supervisor.kind_next_of_ne_success ?_)
    rw [t.mainCheck_of_badPower (Task.kind_ne_idle ht) p hs]
    simp

end BrushlessDrive.Supervised
