import BrushlessDrive.Proofs.Supervision.Orders

/-!
# A staged context stays out of sight

`Supervised.setContext` hands over a context for the tasks to come. The active task has one of its own, so
nothing shows of the new one before a check that starts a task (`Supervised.renews`), and of that check
neither the answer nor the stage depends on it: a beep that has just been started is over or not by its
duration alone.
-/

set_option autoImplicit false

namespace BrushlessDrive

theorem Runner.mainCheck_fst (r : Runner) (p : Scalar) (s : PowerStatus) :
    (r.mainCheck p s).1 = r.active.map fun t => (t.mainCheck p s).1 := by
  obtain ⟨ha, he⟩ | ⟨t, ha, ⟨hr, he⟩ | ⟨-, he⟩⟩ := r.mainCheck_cases p s <;> simp [ha, he]
  exact hr.symm

theorem Supervisor.stage_next_setContext (s : Supervisor) (c : Context)
    (result : Option CheckResult) : ((s.setContext c).next result).1 = (s.next result).1 := by
  cases hs : s.stage <;> simp only [next, setContext, hs]
  split <;> rfl

namespace Supervised

/-! ## What a call shows -/

def Event.isStaging : Event → Bool
  | .setContext _ => true
  | _ => false

def renews (x : Supervised) : Event → Bool
  | .check p s => !(x.started p s).isEmpty
  | _ => false

/-- What a call shows: its answer, and after it the stage and the runner with all that it holds, its task
and so the telemetry, its counts and its last result. -/
structure Sight where
  answer : Answer
  stage : Stage
  runner : Runner
  renews : Bool

def sight (x : Supervised) (e : Event) : Sight :=
  ⟨(x.step e).1, (x.step e).2.supervisor.stage, (x.step e).2.runner, x.renews e⟩

/-- What a run shows, call by call; nothing shows of a context that is handed over. -/
def sights (x : Supervised) : List Event → List Sight
  | [] => []
  | e :: es => (if e.isStaging then [] else [x.sight e]) ++ (x.step e).2.sights es

/-- What a run shows in the calls before the first one that starts a task, and the answer to that one and
the stage after it. -/
def visible (x : Supervised) (es : List Event) : List Sight × Option (Answer × Stage) :=
  ((x.sights es).takeWhile fun v => !v.renews,
    ((x.sights es).find? Sight.renews).map fun v => (v.answer, v.stage))

theorem renews_check {x : Supervised} {p : Scalar} {s : PowerStatus} :
    x.renews (.check p s) = true ↔ (x.supervisor.stage = .waitingForPower ∧ s.powerOk = true) ∨
      Supervisor.needsTask (x.mainCheck p s).1 = true := by
  rw [renews, Bool.not_eq_true', List.isEmpty_eq_false_iff_exists_mem]
  constructor
  · rintro ⟨t, ht⟩
    exact (mem_started.1 ht).imp (fun h => ⟨h.1, h.2.1⟩) And.left
  · rintro (⟨hw, hp⟩ | hn)
    · exact ⟨_, mem_started.2 (.inl ⟨hw, hp, rfl⟩)⟩
    · exact ⟨_, mem_started.2 (.inr ⟨hn, rfl⟩)⟩

theorem visible_setContext_cons (x : Supervised) (c : Context) (es : List Event) :
    x.visible (.setContext c :: es) = (x.setContext c).visible es := rfl

theorem visible_cons (x : Supervised) {e : Event} (he : e.isStaging = false) (es : List Event) :
    x.visible (e :: es) =
      if x.renews e then ([], some ((x.step e).1, (x.step e).2.supervisor.stage))
      else (x.sight e :: ((x.step e).2.visible es).1, ((x.step e).2.visible es).2) := by
  have hs : (x.sight e).renews = x.renews e := rfl
  cases hr : x.renews e <;> simp [visible, sights, he, hs, hr]
  exact ⟨rfl, rfl⟩

/-! ## One call with another context -/

theorem greet_setContext (x : Supervised) (c : Context) (s : PowerStatus) :
    (x.greet s = x ∧ (x.setContext c).greet s = x.setContext c) ∨
    ∃ v, x.greet s = ⟨v, (x.runner.start x.supervisor.beep).2⟩ ∧
      (x.setContext c).greet s = ⟨v.setContext c, (x.runner.start (x.supervisor.setContext c).beep).2⟩ := by
  by_cases h : x.supervisor.stage = .waitingForPower ∧ s.powerOk = true
  · refine .inr ⟨{ x.supervisor with stage := .beeping }, ?_, ?_⟩
    · simp [greet, Supervisor.greet, h]
    · simp [greet, Supervisor.greet, setContext, Supervisor.setContext, h]
  · have h' : ¬ ((x.setContext c).supervisor.stage = .waitingForPower ∧ s.powerOk = true) := h
    refine .inl ⟨?_, ?_⟩
    · simp only [greet, Supervisor.greet, if_neg h, Runner.startAny_none]
    · simp only [greet, Supervisor.greet, if_neg h', Runner.startAny_none]

theorem mainCheck_beep_setContext (v : Supervisor) (c : Context) (p : Scalar) (s : PowerStatus) :
    ((v.setContext c).beep.mainCheck p s).1 = (v.beep.mainCheck p s).1 := rfl

theorem settle_fst (x : Supervised) (p : Scalar) (s : PowerStatus) :
    (x.settle p s).1 = x.runner.active.map fun t => (t.mainCheck p s).1 :=
  x.runner.mainCheck_fst p s

theorem mainCheck_setContext_fst (x : Supervised) (c : Context) (p : Scalar) (s : PowerStatus) :
    ((x.setContext c).mainCheck p s).1 = (x.mainCheck p s).1 := by
  rw [mainCheck_eq, mainCheck_eq, settle_fst, settle_fst]
  obtain ⟨h, h'⟩ | ⟨v, h, h'⟩ := x.greet_setContext c s <;> rw [h, h']
  · rfl
  · exact congrArg some (mainCheck_beep_setContext x.supervisor c p s)

theorem answer_setContext (x : Supervised) (c : Context) {e : Event} (he : e.isStaging = false) :
    ((x.setContext c).step e).1 = (x.step e).1 := by
  cases e with
  | check p s => exact congrArg Answer.result (x.mainCheck_setContext_fst c p s)
  | setContext d => cases he
  | _ => rfl

theorem stage_setContext (x : Supervised) (c : Context) (e : Event) :
    ((x.setContext c).step e).2.supervisor.stage = (x.step e).2.supervisor.stage := by
  cases e with
  | check p s =>
    have hr := x.mainCheck_setContext_fst c p s
    show ((x.setContext c).mainCheck p s).2.supervisor.stage = (x.mainCheck p s).2.supervisor.stage
    rw [mainCheck_eq, mainCheck_eq] at hr ⊢
    rw [stage_settle, stage_settle, hr]
    obtain ⟨h, h'⟩ | ⟨v, h, h'⟩ := x.greet_setContext c s <;> rw [h, h']
    · exact congrArg (ite _ · _) (Supervisor.stage_next_setContext _ c _)
    · exact congrArg (ite _ · _) (Supervisor.stage_next_setContext _ c _)
  | _ => rfl

theorem renews_setContext (x : Supervised) (c : Context) (e : Event) :
    (x.setContext c).renews e = x.renews e := by
  cases e with
  | check p s =>
    rw [Bool.eq_iff_iff, renews_check, renews_check, mainCheck_setContext_fst]
    rfl
  | _ => rfl

theorem mainCheck_of_not_renews {x : Supervised} {p : Scalar} {s : PowerStatus}
    (h : x.renews (.check p s) = false) :
    x.mainCheck p s = ((x.runner.mainCheck p s).1, ⟨x.supervisor, (x.runner.mainCheck p s).2⟩) := by
  rw [← Bool.not_eq_true, renews_check, not_or] at h
  obtain ⟨hw, hn⟩ := h
  have hg : x.greet s = x := by
    obtain ⟨hw', hp, -⟩ | ⟨-, he⟩ := x.greet_cases s
    · exact absurd ⟨hw', hp⟩ hw
    · exact he
  rw [mainCheck_eq, hg] at hn ⊢
  have hf : Supervisor.needsTask (x.runner.mainCheck p s).1 = false := by simpa [settle] using hn
  simp only [settle, Supervisor.advance_of_not_needsTask hf, Runner.startAny_none]

/-- A call that starts no task keeps the context that has been handed over, and does not look at it. -/
theorem step_setContext {x : Supervised} {e : Event} (he : e.isStaging = false)
    (h : x.renews e = false) (c : Context) :
    (x.setContext c).step e = ((x.step e).1, (x.step e).2.setContext c) := by
  cases e with
  | check p s =>
    have h' : (x.setContext c).renews (.check p s) = false := (x.renews_setContext c _).trans h
    simp only [step, mainCheck_of_not_renews h, mainCheck_of_not_renews h']
    rfl
  | setContext d => cases he
  | _ => rfl

/-! ## Runs -/

theorem visible_setContext (x : Supervised) (c : Context) (es : List Event) :
    (x.setContext c).visible es = x.visible es := by
  induction es generalizing x with
  | nil => rfl
  | cons e es ih =>
    cases he : e.isStaging with
    | true =>
      cases e with
      | setContext d => rfl
      | _ => cases he
    | false =>
      rw [visible_cons _ he, visible_cons _ he, renews_setContext, answer_setContext x c he,
        stage_setContext]
      cases hr : x.renews e with
      | true => rfl
      | false =>
        have hs : (x.setContext c).sight e = x.sight e := by
          simp only [sight, step_setContext he hr, renews_setContext]
          rfl
        rw [hs, step_setContext he hr, ih]

theorem visible_filter (x : Supervised) (es : List Event) :
    x.visible (es.filter fun e => !e.isStaging) = x.visible es := by
  induction es generalizing x with
  | nil => rfl
  | cons e es ih =>
    cases he : e.isStaging with
    | true =>
      cases e with
      | setContext c =>
        rw [visible_setContext_cons, visible_setContext]
        exact ih x
      | _ => cases he
    | false => rw [List.filter_cons_of_pos (by simp [he]), visible_cons _ he, visible_cons _ he, ih]

/-- **What is staged shows only after the next start of a task.** Two ways to go on that differ in the contexts
that are handed over, and when, look the same up to the first check that starts a task, and so do the answer
to that check and the stage after it. -/
theorem unaffected_by_staging (context : Context) (sequence : BootSequence) (past : List Event)
    {es fs : List Event}
    (h : (es.filter fun e => !e.isStaging) = fs.filter fun e => !e.isStaging) :
    let x := ((begin context sequence).run past).2
    x.visible es = x.visible fs := by
  intro x
  rw [← x.visible_filter es, h, visible_filter]

/-- A faster target is handed over during the beep, and does not show until the motor is started. -/
theorem unaffected_by_faster_target :
    let context := Context.ofDefaults
    let faster : Context :=
      ⟨{ controller := { spinupTarget := 900.0 } }, ⟨.ofParams {}, .current⟩, rfl, context.period_pos⟩
    let sequence : BootSequence := ⟨1000.0, 0.00005, true⟩
    let past : List Event := [.check 0.001 ⟨true, 24⟩]
    let calls : List Event := [.pwm ⟨0, 0⟩ 24, .check 0.001 ⟨true, 24⟩, .pwm ⟨1, 2⟩ 24]
    let x := ((begin context sequence).run past).2
    ((.setContext faster :: calls).filter fun e => !e.isStaging) = calls.filter (fun e => !e.isStaging) ∧
      x.visible (.setContext faster :: calls) = x.visible calls :=
  ⟨rfl, unaffected_by_staging _ _ _ rfl⟩

end Supervised

end BrushlessDrive
