import BrushlessDrive.Counter
import BrushlessDrive.Task

/-!
# The task runner

A `Runner` holds at most one task. It passes every PWM period and every main check on to that task,
counts them, and drops the task in the very check that ends it. Without a task the driver stays
released.
-/

set_option autoImplicit false

namespace BrushlessDrive

/-- The task that is active, if any, and the history of the runner. -/
structure Runner where
  active : Option Task := none
  /-- The kind of the task that ended last, and how it ended. -/
  lastResult : Option (TaskKind × CheckResult) := none
  pwmPeriods : Counter := {}
  /-- The main checks that reached a task. -/
  mainChecks : Counter := {}
  taskFailures : Counter := {}

namespace Runner

/-- Makes a task the active one, and returns the task that it replaces. -/
def start (r : Runner) (t : Task) : Option Task × Runner := (r.active, { r with active := some t })

/-- Starts a task if there is one. -/
def startAny (r : Runner) (t : Option Task) : Runner :=
  match t with
  | none => r
  | some t => (r.start t).2

@[simp] theorem startAny_none (r : Runner) : r.startAny none = r := rfl

@[simp] theorem startAny_some (r : Runner) (t : Task) : r.startAny (some t) = (r.start t).2 := rfl

/-- Takes the active task away. -/
def stop (r : Runner) : Option Task × Runner := (r.active, { r with active := none })

/-- One PWM period, with the measured currents in amperes and the bus voltage in volts. -/
def pwmPeriod (r : Runner) (currents : PhasePair Scalar) (bus : Scalar) : Output × Runner :=
  let r := { r with pwmPeriods := r.pwmPeriods.increment }
  match r.active with
  | none => (.inactive, r)
  | some t =>
    let (output, t) := t.pwmPeriod currents bus
    (output, { r with active := some t })

/-- Drops the active task, of the given kind, because of a result. -/
def finish (r : Runner) (kind : TaskKind) (result : CheckResult) : Runner :=
  { r with
    active := none
    lastResult := some (kind, result)
    taskFailures :=
      match result with
      | .failure _ => r.taskFailures.increment
      | _ => r.taskFailures }

/-- One main check, `period` seconds after the last one; without a task there is no result. -/
def mainCheck (r : Runner) (period : Scalar) (power : PowerStatus) : Option CheckResult × Runner :=
  match r.active with
  | none => (none, r)
  | some t =>
    let r := { r with mainChecks := r.mainChecks.increment }
    let (result, t) := t.mainCheck period power
    if result.isTerminal then (some result, r.finish t.kind result)
    else (some result, { r with active := some t })

def activeKind (r : Runner) : Option TaskKind := r.active.map Task.kind

/-- Nothing drives the motor: there is no task, or an idle one. -/
def isIdle (r : Runner) : Bool :=
  match r.activeKind with
  | none | some .idle => true
  | some _ => false

def telemetry (r : Runner) : Telemetry := (r.active.map Task.telemetry).getD .zero

inductive Event where
  | start (t : Task)
  | stop
  | pwm (currents : PhasePair Scalar) (bus : Scalar)
  | check (period : Scalar) (power : PowerStatus)

inductive Answer where
  | previous (t : Option Task)
  | output (o : Output)
  | result (r : Option CheckResult)

def step (r : Runner) : Event → Answer × Runner
  | .start t => let (old, r) := r.start t; (.previous old, r)
  | .stop => let (old, r) := r.stop; (.previous old, r)
  | .pwm currents bus => let (o, r) := r.pwmPeriod currents bus; (.output o, r)
  | .check period power => let (result, r) := r.mainCheck period power; (.result result, r)

def run (r : Runner) (es : List Event) : List Answer × Runner := Machine.run step r es

end Runner

end BrushlessDrive
