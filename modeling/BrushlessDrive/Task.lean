import BrushlessDrive.Machine
import BrushlessDrive.Task.Beep
import BrushlessDrive.Task.Spinup

/-!
# Tasks

A `Task` decides what the driver does. It is asked in two ways: `Task.pwmPeriod` in every PWM period,
for an output, and `Task.mainCheck` at a slower pace, for how it is getting on. Both return the
answer together with the task as it is afterwards. `Task.Event` names the two ways, and `Task.run`
asks a task a whole list of them.
-/

set_option autoImplicit false

namespace BrushlessDrive

inductive TaskKind where
  | idle
  | beep
  | spinup
deriving DecidableEq

def TaskKind.name : TaskKind → String
  | idle => "idle"
  | beep => "beep"
  | spinup => "spinup"

/-- A task with its state. -/
inductive Task where
  /-- Keeps the driver released, and never ends. -/
  | idle (context : Context)
  | beep (t : Beep)
  | spinup (t : Spinup)
deriving BEq

namespace Task

def kind : Task → TaskKind
  | idle _ => .idle
  | beep _ => .beep
  | spinup _ => .spinup

/-- The parameters that the task was made with. -/
def context : Task → Context
  | idle c => c
  | beep t => t.context
  | spinup t => t.context

/-- One PWM period, with the measured currents in amperes and the bus voltage in volts. -/
def pwmPeriod (t : Task) (currents : PhasePair Scalar) (bus : Scalar) : Output × Task :=
  match t with
  | idle c => (.inactive, idle c)
  | beep t => let (o, t) := t.pwmPeriod; (o, beep t)
  | spinup t => let (o, t) := t.pwmPeriod currents bus; (o, spinup t)

/-- One main check, `period` seconds after the last one. -/
def mainCheck (t : Task) (period : Scalar) (power : PowerStatus) : CheckResult × Task :=
  match t with
  | idle c => (.inProgress, idle c)
  | beep t => (t.mainCheck power, beep t)
  | spinup t => let (r, t) := t.mainCheck period power; (r, spinup t)

/-- What the task shows of its state. -/
def telemetry : Task → Telemetry
  | idle _ => .zero
  | beep t => t.telemetry
  | spinup t => t.telemetry

inductive Event where
  | pwm (currents : PhasePair Scalar) (bus : Scalar)
  | check (period : Scalar) (power : PowerStatus)

inductive Answer where
  | output (o : Output)
  | result (r : CheckResult)

def step (t : Task) : Event → Answer × Task
  | .pwm currents bus => let (o, t) := t.pwmPeriod currents bus; (.output o, t)
  | .check period power => let (r, t) := t.mainCheck period power; (.result r, t)

def run (t : Task) (es : List Event) : List Answer × Task := Machine.run step t es

@[simp] theorem kind_pwmPeriod (t : Task) (i : PhasePair Scalar) (v : Scalar) :
    (t.pwmPeriod i v).2.kind = t.kind := by
  cases t <;> rfl

@[simp] theorem kind_mainCheck (t : Task) (p : Scalar) (s : PowerStatus) :
    (t.mainCheck p s).2.kind = t.kind := by
  cases t <;> rfl

end Task

end BrushlessDrive
