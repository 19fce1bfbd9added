import BrushlessDrive.Proofs.Runner
import Mathlib.Algebra.Group.Nat.Defs
import Mathlib.Data.List.Induction

/-!
# The records of a runner

A runner keeps three counts, the last ending and the active task. `Runner.history` is what its callers have
seen: the calls with their answers, the last one first. The records say what follows from it, whatever the
runner has done before (`recorded_step`).
-/

set_option autoImplicit false

namespace BrushlessDrive

theorem Counter.toNat_advance {n : Nat} (h : n < 2 ^ 64) :
    (({} : Counter).advance n).count.toNat = n := by
  simp only [advance, UInt64.toNat_add, UInt64.toNat_zero, UInt64.toNat_ofNat']
  omega

namespace Runner

def Event.isPwm : Event → Bool
  | .pwm _ _ => true
  | _ => false

structure Entry where
  call : Event
  answer : Answer

namespace Entry

/-- The result of a main check that reached a task. -/
def result? (x : Entry) : Option CheckResult :=
  match x.answer with
  | .result r => r
  | _ => none

/-- The result that ends a task. -/
def ending? (x : Entry) : Option CheckResult := x.result?.filter CheckResult.isTerminal

def isFailure (x : Entry) : Bool :=
  match x.result? with
  | some (.failure _) => true
  | _ => false

/-- A start, a stop, or the end of a task. -/
def changesTask (x : Entry) : Bool :=
  match x.call with
  | .start _ | .stop => true
  | _ => x.ending?.isSome

end Entry

/-- What the callers have seen of a run, the last call first. -/
def history (r : Runner) (es : List Event) : List Entry :=
  (List.zipWith Entry.mk es (r.run es).1).reverse

/-- The kind of the task that a history leaves active. -/
def kindLeft (h : List Entry) : Option TaskKind :=
  match h.find? Entry.changesTask with
  | some ⟨.start t, _⟩ => some t.kind
  | _ => none

/-- The task that ended last in a history, by its kind, and how it ended. -/
def lastEnding : List Entry → Option (TaskKind × CheckResult)
  | [] => none
  | x :: h =>
    match x.ending? with
    | some c => (kindLeft h).map fun k => (k, c)
    | none => lastEnding h

/-! ## One call -/

/-- What becomes of the records of `r` in a call. -/
structure Recorded (r : Runner) (x : Entry) (r' : Runner) : Prop where
  pwmPeriods : r'.pwmPeriods = if x.call.isPwm then r.pwmPeriods.increment else r.pwmPeriods
  mainChecks : r'.mainChecks = if x.result?.isSome then r.mainChecks.increment else r.mainChecks
  taskFailures : r'.taskFailures = if x.isFailure then r.taskFailures.increment else r.taskFailures
  lastResult : r'.lastResult =
    match x.ending? with
    | some c => r.activeKind.map fun k => (k, c)
    | none => r.lastResult
  activeKind : r'.activeKind =
    match x.call with
    | .start t => some t.kind
    | .stop => none
    | _ => if x.ending?.isSome then none else r.activeKind

theorem recorded_step (r : Runner) (e : Event) : r.Recorded ⟨e, (r.step e).1⟩ (r.step e).2 := by
  cases e with
  | start t => exact ⟨rfl, rfl, rfl, rfl, rfl⟩
  | stop => exact ⟨rfl, rfl, rfl, rfl, rfl⟩
  | pwm i v =>
    refine ⟨?_, ?_, r.taskFailures_pwmPeriod i v, ?_, r.activeKind_pwmPeriod i v⟩ <;>
      simp only [step, pwmPeriod] <;> cases r.active <;> rfl
  | check p s =>
    have hs : r.step (.check p s) = (.result (r.mainCheck p s).1, (r.mainCheck p s).2) := rfl
    obtain ⟨-, he⟩ | ⟨t, ha, ⟨-, he⟩ | ⟨hr, he⟩⟩ := r.mainCheck_cases p s <;> rw [hs, he]
    · exact ⟨rfl, rfl, rfl, rfl, rfl⟩
    · refine ⟨rfl, rfl, rfl, rfl, ?_⟩
      simp [activeKind, ha, Entry.ending?, Entry.result?, CheckResult.isTerminal]
    · have hk : r.activeKind = some t.kind := by simp [activeKind, ha]
      generalize (t.mainCheck p s).1 = c at hr ⊢
      cases c with
      | inProgress => cases hr
      | success => exact ⟨rfl, rfl, rfl, by rw [hk]; rfl, rfl⟩
      | failure c => exact ⟨rfl, rfl, rfl, by rw [hk]; rfl, rfl⟩

/-! ## Runs -/

theorem history_concat (r : Runner) (es : List Event) (e : Event) :
    r.history (es ++ [e]) = ⟨e, ((r.run es).2.step e).1⟩ :: r.history es := by
  have hl : es.length = (r.run es).1.length := (Machine.length_answers step r es).symm
  unfold run at hl
  simp [history, run, Machine.run_append, Machine.run_cons, List.zipWith_append hl]

theorem run_concat (r : Runner) (es : List Event) (e : Event) :
    (r.run (es ++ [e])).2 = ((r.run es).2.step e).2 := by
  simp [run, Machine.run_append, Machine.run_cons]

theorem map_call_history (r : Runner) (es : List Event) :
    (r.history es).map Entry.call = es.reverse := by
  induction es using List.reverseRecOn with
  | nil => rfl
  | append_singleton es e ih => simp [history_concat, ih]

theorem countP_isPwm_history (r : Runner) (es : List Event) :
    (r.history es).countP (fun x => x.call.isPwm) = es.countP Event.isPwm := by
  rw [← List.countP_reverse (l := es), ← r.map_call_history, List.countP_map]
  rfl

theorem length_history (r : Runner) (es : List Event) : (r.history es).length = es.length := by
  simpa using congrArg List.length (r.map_call_history es)

theorem counter_run (count : Runner → Counter) (p : Entry → Bool) (h0 : count {} = {})
    (hstep : ∀ r e, count (step r e).2 =
      if p ⟨e, (step r e).1⟩ then (count r).increment else count r) (es : List Event) :
    count (({} : Runner).run es).2 = ({} : Counter).advance ((history {} es).countP p) := by
  induction es using List.reverseRecOn with
  | nil => exact h0.trans (Counter.advance_zero _).symm
  | append_singleton es e ih =>
    rw [run_concat, hstep, history_concat, List.countP_cons, ih]
    split <;> simp [Counter.advance_succ]

theorem kindLeft_cons (x : Entry) (h : List Entry) : kindLeft (x :: h) =
    match x.call with
    | .start t => some t.kind
    | .stop => none
    | _ => if x.ending?.isSome then none else kindLeft h := by
  obtain ⟨e, a⟩ := x
  cases hx : (Entry.mk e a).ending? <;> cases e <;>
    simp [kindLeft, List.find?_cons, Entry.changesTask, hx]

theorem activeKind_run (es : List Event) :
    (({} : Runner).run es).2.activeKind = kindLeft (history {} es) := by
  induction es using List.reverseRecOn with
  | nil => rfl
  | append_singleton es e ih =>
    rw [run_concat, (recorded_step _ e).activeKind, history_concat, kindLeft_cons, ih]

theorem lastResult_run (es : List Event) :
    (({} : Runner).run es).2.lastResult = lastEnding (history {} es) := by
  induction es using List.reverseRecOn with
  | nil => rfl
  | append_singleton es e ih =>
    rw [run_concat, (recorded_step _ e).lastResult, history_concat, lastEnding, ih, activeKind_run]

/-! ## A runner without a task -/

theorem telemetry_of_activeKind {r : Runner} (h : r.activeKind = none) : r.telemetry = .zero := by
  rw [activeKind, Option.map_eq_none_iff] at h
  simp [telemetry, h]

theorem kindLeft_eq_none {h : List Entry}
    (hx : ∀ x t, h.find? Entry.changesTask = some x → x.call ≠ .start t) : kindLeft h = none := by
  unfold kindLeft
  split
  · rename_i t a hf
    exact absurd rfl (hx _ t hf)
  · rfl

/-- **The records of a runner are those of its history**, as long as the counts do not wrap around. A runner
without a task shows that it is idle. -/
theorem bookkeeping (es : List Event) (hes : es.length < 2 ^ 64) :
    let r := (({} : Runner).run es).2
    let h := history {} es
    r.pwmPeriods.count.toNat = es.countP Event.isPwm ∧
    r.mainChecks.count.toNat = h.countP (fun x => x.result?.isSome) ∧
    r.taskFailures.count.toNat = h.countP Entry.isFailure ∧
    r.lastResult = lastEnding h ∧
    (∀ e, (Entry.mk e (r.step e).1).ending? = none → (r.step e).2.lastResult = r.lastResult) ∧
    r.activeKind = kindLeft h ∧
    ((∀ x t, h.find? Entry.changesTask = some x → x.call ≠ .start t) →
      r.activeKind = none ∧ r.telemetry = .zero ∧ r.isIdle = true) := by
  intro r h
  have hcount (p : Entry → Bool) : (({} : Counter).advance (h.countP p)).count.toNat = h.countP p := by
    have hle : h.countP p ≤ h.length := List.countP_le_length
    rw [length_history] at hle
    exact Counter.toNat_advance (by omega)
  have hkind : r.activeKind = kindLeft h := activeKind_run es
  refine ⟨?_, ?_, ?_, lastResult_run es, fun e he => ?_, hkind, fun hx => ?_⟩
  · rw [counter_run pwmPeriods (fun x => x.call.isPwm) rfl (fun r e => (recorded_step r e).pwmPeriods),
      hcount, countP_isPwm_history]
  · rw [counter_run mainChecks (fun x => x.result?.isSome) rfl fun r e => (recorded_step r e).mainChecks,
      hcount]
  · rw [counter_run taskFailures Entry.isFailure rfl fun r e => (recorded_step r e).taskFailures, hcount]
  · rw [(recorded_step r e).lastResult, he]
  · have hn := hkind.trans (kindLeft_eq_none hx)
    exact ⟨hn, telemetry_of_activeKind hn, by simp [isIdle, hn]⟩

/-- A start of the motor that fails in its first check, and a check that finds no task any more. -/
theorem bookkeeping_of_failure :
    let es : List Event := [.start (.spinup (.make .ofDefaults)), .pwm ⟨0, 0⟩ 24, .check 0.001 ⟨false, 3⟩,
      .check 0.001 ⟨true, 24⟩]
    let r := (({} : Runner).run es).2
    es.length < 2 ^ 64 ∧ r.pwmPeriods.count.toNat = 1 ∧ r.mainChecks.count.toNat = 1 ∧
      r.taskFailures.count.toNat = 1 ∧ r.lastResult = some (.spinup, .failure .badPower) ∧
      r.activeKind = none ∧ r.telemetry = .zero ∧ r.isIdle = true := by
  intro es r
  have hes : es.length < 2 ^ 64 := by decide
  obtain ⟨hp, hm, hf, hl, -, -, hn⟩ := bookkeeping es hes
  refine ⟨hes, hp, hm, hf, hl, hn fun x t hx => ?_⟩
  cases hx
  exact Event.noConfusion

end Runner

end BrushlessDrive
