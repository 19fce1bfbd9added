import BrushlessDrive.Proofs.Supervision.Coupling

/-!
# The orders of the supervisor

Whatever happens to a supervised runner reaches the runner as orders: `Supervised.orders` lists them,
a main check being the check of the runner with a start before it, after it, or both. They are all
that happens to the runner (`runner_run`), so the tasks that a run starts are the starts among its
orders.
-/

set_option autoImplicit false

namespace BrushlessDrive

def Runner.Event.isStart (k : TaskKind) : Runner.Event → Bool
  | .start t => t.kind = k
  | _ => false

/-- The task that an order starts, if it is a start. -/
def Runner.Event.startee : Runner.Event → Option Task
  | .start t => some t
  | _ => none

theorem Runner.run_append (r : Runner) (es fs : List Runner.Event) :
    (r.run (es ++ fs)).2 = ((r.run es).2.run fs).2 := by
  unfold run
  rw [Machine.run_append]

namespace Supervised

theorem run_cons (x : Supervised) (e : Event) (es : List Event) :
    (x.run (e :: es)).2 = ((x.step e).2.run es).2 := rfl

theorem run_induction {P : Supervised → Prop} (hP : ∀ x e, P x → P (x.step e).2) {x : Supervised}
    (h : P x) (es : List Event) : P (x.run es).2 :=
  Machine.run_induction hP h es

/-! ## Orders -/

/-- The starts that make up `Runner.startAny`. -/
def starts (t : Option Task) : List Runner.Event := t.toList.map .start

/-- What the first half of a check makes the runner start. -/
def greeting (x : Supervised) (s : PowerStatus) : List Runner.Event := starts (x.supervisor.greet s).1

/-- What the second half makes it start after a result. -/
def replacement (x : Supervised) (result : Option CheckResult) : List Runner.Event :=
  starts (x.supervisor.advance result).1

theorem greeting_eq (x : Supervised) (s : PowerStatus) : x.greeting s =
    if x.supervisor.stage = .waitingForPower ∧ s.powerOk = true then [.start x.supervisor.beep]
    else [] := by
  unfold greeting Supervisor.greet
  split <;> rfl

theorem replacement_eq (x : Supervised) (result : Option CheckResult) : x.replacement result =
    if Supervisor.needsTask result then [.start (x.supervisor.next result).2] else [] := by
  unfold replacement Supervisor.advance
  split <;> rfl

/-- What an event makes the runner do. -/
def order (x : Supervised) : Event → List Runner.Event
  | .pwm i v => [.pwm i v]
  | .check p s =>
    x.greeting s ++ .check p s :: (x.greet s).replacement (x.mainCheck p s).1
  | .setContext _ => []
  | .stop => [.stop]

def orders (x : Supervised) : List Event → List Runner.Event
  | [] => []
  | e :: es => x.order e ++ (x.step e).2.orders es

theorem startAny_eq_run (r : Runner) (t : Option Task) : r.startAny t = (r.run (starts t)).2 := by
  cases t <;> rfl

theorem runner_greet (x : Supervised) (s : PowerStatus) :
    (x.greet s).runner = (x.runner.run (x.greeting s)).2 := startAny_eq_run _ _

theorem runner_settle (x : Supervised) (p : Scalar) (s : PowerStatus) :
    (x.settle p s).2.runner =
      (x.runner.run (.check p s :: x.replacement (x.settle p s).1)).2 := startAny_eq_run _ _

theorem runner_step (x : Supervised) (e : Event) :
    (x.step e).2.runner = (x.runner.run (x.order e)).2 := by
  cases e with
  | pwm i v => rfl
  | check p s =>
    show (x.mainCheck p s).2.runner = _
    rw [order, Runner.run_append, ← runner_greet, mainCheck_eq]
    exact runner_settle _ p s
  | setContext c => rfl
  | stop => rfl

/-- The orders are all that happens to the runner. -/
theorem runner_run (x : Supervised) (es : List Event) :
    (x.run es).2.runner = (x.runner.run (x.orders es)).2 := by
  induction es generalizing x with
  | nil => rfl
  | cons e es ih => rw [run_cons, ih, orders, Runner.run_append, runner_step]

/-! ## How often a task is started -/

/-- Only checks change the stage and start tasks. -/
theorem Event.check_or_not (e : Event) :
    (∃ p s, e = .check p s) ∨ ∀ p s, e ≠ .check p s := by
  cases e with
  | check p s => exact .inl ⟨p, s, rfl⟩
  | _ => exact .inr fun p s h => by cases h

theorem stage_step_of_not_check {x : Supervised} {e : Event} (h : ∀ p s, e ≠ .check p s) :
    (x.step e).2.supervisor.stage = x.supervisor.stage := by
  cases e with
  | check p s => exact absurd rfl (h p s)
  | _ => rfl

theorem rank_step (x : Supervised) (e : Event) :
    x.supervisor.stage.rank ≤ (x.step e).2.supervisor.stage.rank := by
  obtain ⟨p, s, rfl⟩ | hn := e.check_or_not
  · show _ ≤ (x.mainCheck p s).2.supervisor.stage.rank
    rw [mainCheck_eq]
    exact Nat.le_trans (x.rank_greet s) ((x.greet s).rank_settle p s)
  · exact Nat.le_of_eq (by rw [stage_step_of_not_check hn])

theorem count_order_check (x : Supervised) (k : TaskKind) (p : Scalar) (s : PowerStatus) :
    (x.order (.check p s)).countP (Runner.Event.isStart k) =
      (x.greeting s).countP (Runner.Event.isStart k) +
        ((x.greet s).replacement (x.mainCheck p s).1).countP (Runner.Event.isStart k) := by
  rw [order, List.countP_append, List.countP_cons_of_neg (by simp [Runner.Event.isStart])]

theorem count_order_of_not_check {x : Supervised} {e : Event} (k : TaskKind)
    (h : ∀ p s, e ≠ .check p s) : (x.order e).countP (Runner.Event.isStart k) = 0 := by
  cases e with
  | check p s => exact absurd rfl (h p s)
  | _ => rfl

theorem count_greeting (x : Supervised) (k : TaskKind) (s : PowerStatus) :
    (x.greeting s).countP (Runner.Event.isStart k) =
      if x.supervisor.stage = .waitingForPower ∧ s.powerOk = true ∧ k = .beep then 1 else 0 := by
  rw [greeting_eq]
  by_cases h : x.supervisor.stage = .waitingForPower ∧ s.powerOk = true
  · simp [h, Runner.Event.isStart, Supervisor.beep, Task.kind, eq_comm]
  · rw [if_neg h, if_neg fun h' => h ⟨h'.1, h'.2.1⟩]
    rfl

theorem count_replacement (x : Supervised) (k : TaskKind) (result : Option CheckResult) :
    (x.replacement result).countP (Runner.Event.isStart k) =
      if Supervisor.needsTask result ∧ (x.supervisor.next result).1.kind = k then 1 else 0 := by
  rw [replacement_eq]
  cases Supervisor.needsTask result <;>
    simp [List.countP_cons, Runner.Event.isStart, Supervisor.kind_next]

/-- The beep is started in the event that ends the waiting, and in no other. -/
theorem count_beep_order (x : Supervised) (e : Event) :
    (x.order e).countP (Runner.Event.isStart .beep) + min x.supervisor.stage.rank 1 =
      min (x.step e).2.supervisor.stage.rank 1 := by
  obtain ⟨p, s, rfl⟩ | hn := e.check_or_not
  · have hr : _ ≤ (x.mainCheck p s).2.supervisor.stage.rank := x.rank_step (.check p s)
    have hw := x.mainCheck_waiting_iff p s
    rw [← Stage.rank_eq_zero, ← Stage.rank_eq_zero] at hw
    have hb : ((x.greet s).replacement (x.mainCheck p s).1).countP (Runner.Event.isStart .beep) = 0 := by
      rw [count_replacement, if_neg fun h => Supervisor.kind_next_ne_beep _ _ h.2]
    rw [count_order_check, hb, count_greeting]
    show _ = min (x.mainCheck p s).2.supervisor.stage.rank 1
    by_cases hg : x.supervisor.stage = .waitingForPower ∧ s.powerOk = true
    · have h0 := Stage.rank_eq_zero.2 hg.1
      have h1 : (x.mainCheck p s).2.supervisor.stage.rank ≠ 0 := by simp [hw, hg.2]
      rw [if_pos ⟨hg.1, hg.2, rfl⟩]
      omega
    · have h1 : (x.mainCheck p s).2.supervisor.stage.rank = 0 ↔ x.supervisor.stage.rank = 0 := by
        rw [hw, and_iff_left_of_imp]
        intro h0
        simpa [Stage.rank_eq_zero.1 h0] using hg
      rw [if_neg fun h => hg ⟨h.1, h.2.1⟩]
      omega
  · rw [count_order_of_not_check _ hn, stage_step_of_not_check hn, Nat.zero_add]

/-- The motor is started in the event that begins its stage, and in no other. -/
theorem count_spinup_order (x : Supervised) (e : Event) :
    (x.order e).countP (Runner.Event.isStart .spinup) + x.supervisor.stage.rank / 2 ≤
      (x.step e).2.supervisor.stage.rank / 2 := by
  have hr := x.rank_step e
  obtain ⟨p, s, rfl⟩ | hn := e.check_or_not
  · have hg := x.rank_greet s
    rw [count_order_check, count_greeting, count_replacement, if_neg (by simp), Nat.zero_add]
    split
    · rename_i hc
      obtain ⟨hneeds, hk⟩ := hc
      have hn := Stage.eq_spinningUp_of_kind hk
      have hb := (Supervisor.next_eq_spinningUp hn).1
      have hstage : (x.step (.check p s)).2.supervisor.stage = .spinningUp := by
        show (x.mainCheck p s).2.supervisor.stage = _
        rw [mainCheck_eq] at hneeds hn ⊢
        rw [stage_settle, if_pos hneeds, hn]
      rw [hb] at hg
      rw [hstage]
      simp only [Stage.rank] at hg ⊢
      omega
    · omega
  · rw [count_order_of_not_check _ hn, Nat.zero_add]
    exact Nat.div_le_div_right (x.rank_step e)

theorem count_beep_orders (x : Supervised) (es : List Event) :
    (x.orders es).countP (Runner.Event.isStart .beep) + min x.supervisor.stage.rank 1 =
      min (x.run es).2.supervisor.stage.rank 1 := by
  induction es generalizing x with
  | nil => exact Nat.zero_add _
  | cons e es ih =>
    rw [run_cons, ← ih, orders, List.countP_append, ← count_beep_order]
    omega

theorem count_spinup_orders (x : Supervised) (es : List Event) :
    (x.orders es).countP (Runner.Event.isStart .spinup) + x.supervisor.stage.rank / 2 ≤
      (x.run es).2.supervisor.stage.rank / 2 := by
  induction es generalizing x with
  | nil => exact Nat.le_of_eq (Nat.zero_add _)
  | cons e es ih =>
    have h := x.count_spinup_order e
    have hs := ih (x.step e).2
    rw [run_cons, orders, List.countP_append]
    omega

/-! ## The tasks that a check starts -/

def started (x : Supervised) (p : Scalar) (s : PowerStatus) : List Task :=
  (x.order (.check p s)).filterMap Runner.Event.startee

theorem mem_started {x : Supervised} {p : Scalar} {s : PowerStatus} {t : Task} :
    t ∈ x.started p s ↔
      (x.supervisor.stage = .waitingForPower ∧ s.powerOk = true ∧ t = x.supervisor.beep) ∨
      (Supervisor.needsTask (x.mainCheck p s).1 = true ∧
        t = ((x.greet s).supervisor.next (x.mainCheck p s).1).2) := by
  have hc : Runner.Event.startee (.check p s) = none := rfl
  have hs (t : Task) : Runner.Event.startee (.start t) = some t := rfl
  rw [started, order, greeting_eq, replacement_eq]
  rw [List.filterMap_append, List.mem_append, List.filterMap_cons_none hc, ← and_assoc]
  refine or_congr ?_ ?_ <;> split <;> rename_i h
  · simp [List.filterMap_cons_some (hs _), h]
  · simp [h]
  · simp [List.filterMap_cons_some (hs _), h]
  · simp [h]

theorem context_of_mem_started {x : Supervised} {p : Scalar} {s : PowerStatus} {t : Task}
    (h : t ∈ x.started p s) : t.context = x.supervisor.context := by
  obtain ⟨-, -, rfl⟩ | ⟨-, rfl⟩ := mem_started.1 h
  · rfl
  · rw [Supervisor.context_next, context_greet]

theorem started_of_running {x : Supervised}
    (h : x.runner.activeKind = some x.supervisor.stage.kind) (hs : x.supervisor.stage = .running)
    (p : Scalar) (s : PowerStatus) {t : Task} : t ∉ x.started p s := by
  intro ht
  have hw : x.supervisor.stage ≠ .waitingForPower := by
    rw [hs]
    exact Stage.noConfusion
  obtain ⟨hw', -, -⟩ | ⟨hn, -⟩ := mem_started.1 ht
  · exact hw hw'
  · rw [mainCheck_eq, greet_of_not_waiting hw] at hn
    obtain ⟨hf, -⟩ | ⟨-, ⟨hb, -⟩ | ⟨hk, -⟩⟩ := settle_of_activeKind h p s
    · rw [hn] at hf
      cases hf
    · rw [hs] at hb
      cases hb
    · rw [hs] at hk
      exact hk rfl

end Supervised

end BrushlessDrive
