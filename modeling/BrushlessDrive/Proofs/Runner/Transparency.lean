import BrushlessDrive.Proofs.Runner

/-!
# The runner and the bare task

A runner answers as the task that it holds would by itself, until the answer that ends the task; from
then on it answers as a runner without a task (`Runner.silence`). So a run of the task alone says what
the runner does.
-/

set_option autoImplicit false

namespace BrushlessDrive

namespace Task

def Event.toRunner : Event → Runner.Event
  | .pwm i v => .pwm i v
  | .check p s => .check p s

def Answer.toRunner : Answer → Runner.Answer
  | .output o => .output o
  | .result r => .result (some r)

/-- The task has come to its end. -/
def Answer.isTerminal : Answer → Bool
  | .output _ => false
  | .result r => r.isTerminal

/-- The number of calls up to the one that ends the task, or one more than there are. -/
def lifetime (t : Task) (es : List Event) : Nat := (t.run es).1.findIdx Answer.isTerminal + 1

/-- The task after the calls, unless one of them ends it. -/
def survivor (t : Task) (es : List Event) : Option Task :=
  if (t.run es).1.any Answer.isTerminal then none else some (t.run es).2

theorem lifetime_cons (t : Task) (e : Event) (es : List Event) :
    t.lifetime (e :: es) = if (t.step e).1.isTerminal then 1 else (t.step e).2.lifetime es + 1 := by
  unfold lifetime run
  rw [Machine.run_cons, List.findIdx_cons]
  cases (t.step e).1.isTerminal <;> rfl

theorem survivor_cons (t : Task) (e : Event) (es : List Event) :
    t.survivor (e :: es) = if (t.step e).1.isTerminal then none else (t.step e).2.survivor es := by
  unfold survivor run
  rw [Machine.run_cons, List.any_cons]
  cases (t.step e).1.isTerminal <;> rfl

end Task

namespace Runner

/-- The answer of a runner that holds no task. -/
def silence : Event → Answer
  | .start _ | .stop => .previous none
  | .pwm _ _ => .output .inactive
  | .check _ _ => .result none

def calls (es : List Task.Event) : List Event := es.map Task.Event.toRunner

variable {r : Runner} {t : Task}

/-! ## One call -/

theorem step_of_active (h : r.active = some t) (e : Task.Event) :
    (r.step e.toRunner).1 = (t.step e).1.toRunner ∧
      (r.step e.toRunner).2.active =
        if (t.step e).1.isTerminal then none else some (t.step e).2 := by
  cases e with
  | pwm i v =>
    show Answer.output (r.pwmPeriod i v).1 = .output (t.pwmPeriod i v).1 ∧
      (r.pwmPeriod i v).2.active = some (t.pwmPeriod i v).2
    unfold pwmPeriod
    rw [h]
    exact ⟨rfl, rfl⟩
  | check p s =>
    show Answer.result (r.mainCheck p s).1 = .result (some (t.mainCheck p s).1) ∧
      (r.mainCheck p s).2.active =
        if (t.mainCheck p s).1.isTerminal then none else some (t.mainCheck p s).2
    obtain ⟨hn, -⟩ | ⟨u, hu, ⟨hr, he⟩ | ⟨hr, he⟩⟩ := r.mainCheck_cases p s
    · rw [h] at hn
      cases hn
    · cases h.symm.trans hu
      rw [he, hr]
      exact ⟨rfl, rfl⟩
    · cases h.symm.trans hu
      rw [he, hr]
      exact ⟨rfl, rfl⟩

theorem step_of_inactive (h : r.active = none) {e : Event} (he : ∀ u, e ≠ .start u) :
    (r.step e).1 = silence e ∧ (r.step e).2.active = none := by
  cases e with
  | start u => exact absurd rfl (he u)
  | stop => exact ⟨congrArg Answer.previous h, rfl⟩
  | pwm i v =>
    show Answer.output (r.pwmPeriod i v).1 = .output .inactive ∧ (r.pwmPeriod i v).2.active = none
    unfold pwmPeriod
    rw [h]
    exact ⟨rfl, rfl⟩
  | check p s =>
    show Answer.result (r.mainCheck p s).1 = .result none ∧ (r.mainCheck p s).2.active = none
    unfold mainCheck
    rw [h]
    exact ⟨rfl, h⟩

/-! ## Runs -/

theorem run_of_inactive (h : r.active = none) {es : List Event} (hes : ∀ u, .start u ∉ es) :
    (r.run es).1 = es.map silence ∧ (r.run es).2.active = none := by
  induction es generalizing r with
  | nil => exact ⟨rfl, h⟩
  | cons e es ih =>
    obtain ⟨ha, hn⟩ := step_of_inactive h (e := e) fun u he => hes u (he ▸ List.mem_cons_self)
    obtain ⟨has, hns⟩ := ih hn fun u hu => hes u (List.mem_cons_of_mem e hu)
    exact ⟨List.cons_eq_cons.2 ⟨ha, has⟩, hns⟩

theorem start_notMem_calls (es : List Task.Event) (u : Task) : .start u ∉ calls es := by
  intro hm
  obtain ⟨e, -, he⟩ := List.mem_map.1 hm
  cases e <;> cases he

theorem run_of_active (h : r.active = some t) (es : List Task.Event) :
    (r.run (calls es)).1 = ((t.run es).1.take (t.lifetime es)).map Task.Answer.toRunner ++
        (calls (es.drop (t.lifetime es))).map silence ∧
      (r.run (calls es)).2.active = t.survivor es := by
  induction es generalizing r t with
  | nil => exact ⟨rfl, h⟩
  | cons e es ih =>
    obtain ⟨ha, hs⟩ := step_of_active h e
    rw [Task.lifetime_cons, Task.survivor_cons]
    cases hd : (t.step e).1.isTerminal <;> rw [hd] at hs
    · obtain ⟨has, hss⟩ := ih hs
      exact ⟨List.cons_eq_cons.2 ⟨ha, has⟩, hss⟩
    · -- the call ends the task, and silence follows
      obtain ⟨has, hss⟩ := run_of_inactive hs (start_notMem_calls es)
      exact ⟨List.cons_eq_cons.2 ⟨ha, has⟩, hss⟩

theorem run_calls_append (r : Runner) (es fs : List Task.Event) :
    r.run (calls (es ++ fs)) = ((r.run (calls es)).1 ++ ((r.run (calls es)).2.run (calls fs)).1,
      ((r.run (calls es)).2.run (calls fs)).2) := by
  unfold run calls
  rw [List.map_append, Machine.run_append]

/-- **A runner is transparent to its task**, up to the call that ends it; from then on there is silence until
the next start. The bare task after these calls is what a stop or another start gives back, and to start it
again continues it, whatever the runner did in the meantime. -/
theorem transparent (r : Runner) (t : Task) (es : List Task.Event) :
    let x := (r.start t).2.run (calls es)
    x.1 = ((t.run es).1.take (t.lifetime es)).map Task.Answer.toRunner ++
        (calls (es.drop (t.lifetime es))).map silence ∧
    (t.survivor es = none → ∀ fs, (∀ u, .start u ∉ fs) → (x.2.run fs).1 = fs.map silence) ∧
    x.2.stop.1 = t.survivor es ∧
    (∀ u, (x.2.start u).1 = t.survivor es) ∧
    (∀ b, t.survivor es = some b → ∀ gs fs,
      let y := ((x.2.run gs).2.start b).2.run (calls fs)
      let z := (r.start t).2.run (calls (es ++ fs))
      x.1 ++ y.1 = z.1 ∧ y.2.active = z.2.active) := by
  intro x
  obtain ⟨ha, hs⟩ := run_of_active (r := (r.start t).2) rfl es
  refine ⟨ha, fun hn fs hfs => (run_of_inactive (hs.trans hn) hfs).1, hs, fun _ => hs, ?_⟩
  intro b hb gs fs y z
  have hz : z = _ := run_calls_append (r.start t).2 es fs
  -- both runners hold the same task, and both answer as that task does
  obtain ⟨hx1, hx2⟩ := run_of_active (hs.trans hb) fs
  obtain ⟨hy1, hy2⟩ := run_of_active (r := ((x.2.run gs).2.start b).2) rfl fs
  rw [hz]
  exact ⟨congrArg (x.1 ++ ·) (hy1.trans hx1.symm), hy2.trans hx2.symm⟩

end Runner

end BrushlessDrive
