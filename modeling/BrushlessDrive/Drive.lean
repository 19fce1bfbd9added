import BrushlessDrive.Bridge
import BrushlessDrive.Supervisor

/-!
# The drive

Two loops share the runner. The fast loop (`Drive.pwmPeriod`) runs the active task and hands its
output to the bridge; the slow loop (`Drive.mainCheck`) runs the supervisor. New parameters are
staged and wait there (`Drive.stage`): after a check that asked for a new task the supervisor gets a
context with the staged configuration (`Drive.refresh`), for the tasks to come, and keeps the one it
has if the staged configuration is not valid. The board of a context stays the same throughout.

`Drive.Turn` names the turns of the two loops. The fast loop can interrupt the slow one between its
check and the refresh; `Drive.Event` names the pieces.
-/

set_option autoImplicit false

namespace BrushlessDrive

/-- The context of a staged configuration on the same board, or the old one if it is rejected. -/
def Context.refresh (old : Context) (staged : Config) : Context :=
  match make staged old.board with
  | .ok c => c
  | .error _ => old

/-- What the two loops work on. -/
structure Drive extends Supervised where
  bridge : Bridge
  /-- The configuration for the tasks to come. -/
  staged : Config

namespace Drive

/-- A drive at the beginning of its boot sequence, with the configuration of its context staged. -/
def begin (context : Context) (sequence : BootSequence) (bridge : Bridge) : Drive :=
  { toSupervised := .begin context sequence, bridge, staged := context.config }

/-- One turn of the fast loop, with the measured currents in amperes and the bus voltage in volts;
also the register operations of the bridge. -/
def pwmPeriod (d : Drive) (currents : PhasePair Scalar) (bus : Scalar) :
    List BridgeTimer.Op × Drive :=
  let (output, supervised) := d.toSupervised.pwmPeriod currents bus
  let (ops, bridge) := d.bridge.follow output
  (ops, { d with toSupervised := supervised, bridge })

def check (d : Drive) (period : Scalar) (power : PowerStatus) : Option CheckResult × Drive :=
  let (result, supervised) := d.toSupervised.mainCheck period power
  (result, { d with toSupervised := supervised })

/-- Lets the tasks to come have the staged configuration, if it is valid. -/
def refresh (d : Drive) : Drive :=
  { d with toSupervised := d.toSupervised.setContext (d.supervisor.context.refresh d.staged) }

/-- One turn of the slow loop, `period` seconds after the last one. -/
def mainCheck (d : Drive) (period : Scalar) (power : PowerStatus) : Option CheckResult × Drive :=
  let (result, d) := d.check period power
  (result, if Supervisor.needsTask result then d.refresh else d)

def stage (d : Drive) (config : Config) : Drive := { d with staged := config }

inductive Event where
  | pwm (currents : PhasePair Scalar) (bus : Scalar)
  | check (period : Scalar) (power : PowerStatus)
  | refresh
  | stage (config : Config)

def step (d : Drive) : Event → Drive
  | .pwm currents bus => (d.pwmPeriod currents bus).2
  | .check period power => (d.check period power).2
  | .refresh => d.refresh
  | .stage config => d.stage config

def run (d : Drive) (es : List Event) : Drive := es.foldl step d

/-- A turn of one of the loops, or a configuration that is staged between two turns. -/
inductive Turn where
  | fast (currents : PhasePair Scalar) (bus : Scalar)
  | slow (period : Scalar) (power : PowerStatus)
  | stage (config : Config)

def turn (d : Drive) : Turn → Drive
  | .fast currents bus => (d.pwmPeriod currents bus).2
  | .slow period power => (d.mainCheck period power).2
  | .stage config => d.stage config

def turns (d : Drive) (ts : List Turn) : Drive := ts.foldl turn d

end Drive

end BrushlessDrive
