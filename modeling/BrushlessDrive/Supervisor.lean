import BrushlessDrive.Runner

/-!
# The supervisor

After power-up the drive waits for the bus voltage, beeps, starts the motor if it is told to, and
then idles. The `Supervisor` goes through these stages by replacing the task of a runner: a main
check (`Supervisor.mainCheck`) starts the beep when the voltage is good, and gives the runner its
next task when there is none any more. A task that fails is always followed by the idle task.
-/

set_option autoImplicit false

namespace BrushlessDrive

/-- What to do after power-up. -/
structure BootSequence where
  /-- In hertz. -/
  beepFrequency : Scalar := 1000.0
  /-- In seconds. -/
  beepDuration : Scalar := 0.3
  /-- A beep that succeeds is followed by an open-loop start. -/
  spinupAfterBeep : Bool := false
deriving BEq

/-- How far the boot sequence has come. -/
inductive Stage where
  /-- Idle until the bus voltage is within its limits. -/
  | waitingForPower
  | beeping
  | spinningUp
  /-- The sequence is over. -/
  | running
deriving DecidableEq

/-- The policy that chooses the tasks. -/
structure Supervisor where
  /-- The context of the tasks to come. -/
  context : Context
  sequence : BootSequence
  stage : Stage := .waitingForPower

namespace Supervisor

/-- Starts the sequence, with an idle task. -/
def begin (s : Supervisor) (r : Runner) : Supervisor × Runner :=
  ({ s with stage := .waitingForPower }, (r.start (.idle s.context)).2)

def beep (s : Supervisor) : Task :=
  .beep (.make s.context s.sequence.beepFrequency s.sequence.beepDuration)

/-- Asks for the beep at the first check with good power. -/
def greet (s : Supervisor) (power : PowerStatus) : Option Task × Supervisor :=
  if s.stage = .waitingForPower ∧ power.powerOk then (some s.beep, { s with stage := .beeping })
  else (none, s)

/-- The stage and the task that follow a task that ended with a result, or is missing. -/
def next (s : Supervisor) (result : Option CheckResult) : Stage × Task :=
  match s.stage with
  | .waitingForPower => (.waitingForPower, .idle s.context)
  | .beeping =>
    if s.sequence.spinupAfterBeep ∧ result = some .success then
      (.spinningUp, .spinup (.make s.context))
    else (.running, .idle s.context)
  | .spinningUp | .running => (.running, .idle s.context)

/-- A check after which the runner needs a new task: its task has ended or is missing. -/
def needsTask (result : Option CheckResult) : Bool := result.all CheckResult.isTerminal

/-- Goes on to the next stage, and asks for its task, if the runner needs one. -/
def advance (s : Supervisor) (result : Option CheckResult) : Option Task × Supervisor :=
  if needsTask result then
    let (stage, task) := s.next result
    (some task, { s with stage })
  else (none, s)

/-- One main check of the runner, with its result. What is asked for before it and after it is
started. -/
def mainCheck (s : Supervisor) (r : Runner) (period : Scalar) (power : PowerStatus) :
    Option CheckResult × Supervisor × Runner :=
  let (beep, s) := s.greet power
  let (result, r) := (r.startAny beep).mainCheck period power
  let (task, s) := s.advance result
  (result, s, r.startAny task)

def setContext (s : Supervisor) (context : Context) : Supervisor := { s with context }

end Supervisor

/-- A supervisor and the runner that it steers. -/
structure Supervised where
  supervisor : Supervisor
  runner : Runner

namespace Supervised

/-- The boot sequence at its beginning, on a runner that has done nothing yet. -/
def begin (context : Context) (sequence : BootSequence) : Supervised :=
  let (supervisor, runner) := Supervisor.begin { context, sequence } {}
  ⟨supervisor, runner⟩

def pwmPeriod (x : Supervised) (currents : PhasePair Scalar) (bus : Scalar) :
    Output × Supervised :=
  let (output, runner) := x.runner.pwmPeriod currents bus
  (output, { x with runner })

def mainCheck (x : Supervised) (period : Scalar) (power : PowerStatus) :
    Option CheckResult × Supervised :=
  let (result, supervisor, runner) := x.supervisor.mainCheck x.runner period power
  (result, ⟨supervisor, runner⟩)

def setContext (x : Supervised) (context : Context) : Supervised :=
  { x with supervisor := x.supervisor.setContext context }

inductive Event where
  | pwm (currents : PhasePair Scalar) (bus : Scalar)
  | check (period : Scalar) (power : PowerStatus)
  | setContext (context : Context)
  | stop

inductive Answer where
  | output (o : Output)
  | result (r : Option CheckResult)
  | done

def step (x : Supervised) : Event → Answer × Supervised
  | .pwm currents bus => let (o, x) := x.pwmPeriod currents bus; (.output o, x)
  | .check period power => let (r, x) := x.mainCheck period power; (.result r, x)
  | .setContext context => (.done, x.setContext context)
  | .stop => (.done, { x with runner := x.runner.stop.2 })

def run (x : Supervised) (es : List Event) : List Answer × Supervised := Machine.run step x es

/-- One round of both loops: a number of PWM periods at the bus voltage, and one main check. -/
def round (x : Supervised) (periods : Nat) (currents : PhasePair Scalar) (period : Scalar)
    (power : PowerStatus) : Option CheckResult × Supervised :=
  let driven := periods.repeat (fun y : Supervised => (y.pwmPeriod currents power.busVoltage).2) x
  driven.mainCheck period power

/-- Rounds, `n` at most, until one needs a new task or leaves the given stage. Goes on from a number
of rounds, the result of the last one and what it led to. -/
def rounds (stage : Stage) (periods : Nat) (currents : PhasePair Scalar) (period : Scalar)
    (power : PowerStatus) : Nat → Nat × Option CheckResult × Supervised →
      Nat × Option CheckResult × Supervised
  | 0, last => last
  | n + 1, (done, _, x) =>
    let (result, y) := x.round periods currents period power
    if Supervisor.needsTask result || y.supervisor.stage ≠ stage then (done + 1, result, y)
    else rounds stage periods currents period power n (done + 1, result, y)

end Supervised

end BrushlessDrive
