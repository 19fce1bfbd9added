import BrushlessDrive.Interval
import BrushlessDrive.Modulation
import BrushlessDrive.Sensing.Power
import BrushlessDrive.Task.Context
import BrushlessDrive.Task.Report
import BrushlessDrive.Transform

/-!
# The open-loop start

A voltage of fixed length turns faster and faster, at a constant acceleration, until the target
speed. There is no rotor sensor, so whether the rotor follows is not known; a main check watches the
supply, the speed of the voltage, the time and the height of the bus voltage.
-/

set_option autoImplicit false

namespace BrushlessDrive

/-- An open-loop start that is under way. Speeds and angles are electrical, in radians. -/
structure Spinup where
  context : Context
  /-- The commanded voltage, a quarter turn ahead of the rotor. -/
  voltage : Scalar
  acceleration : Scalar
  targetVelocity : Scalar
  velocity : Scalar
  angle : Scalar
  /-- The time over all main checks, in seconds. -/
  elapsed : Scalar
  /-- The bus voltage of the last PWM period, if there was one. -/
  lastBus : Option Scalar
  lastCurrent : Stationary
deriving BEq

namespace Spinup

/-- A mechanical speed in RPM as an electrical one in radians per second, and 0 for an impossible
pole count. -/
def electricalVelocity (rpm : Scalar) (poles : UInt32) : Scalar :=
  (Units.electricalOfMechanical (Units.angularVelocityOfRpm rpm) poles).toOption.getD 0

/-- A start from standstill with the parameters of the context. -/
def make (context : Context) : Spinup :=
  let controller := context.config.controller
  let poles := context.config.motor.poles
  { context
    voltage := (Interval.mk 0 controller.maxVoltage).constrain controller.spinupVoltage
    acceleration := electricalVelocity controller.spinupAcceleration poles
    targetVelocity := electricalVelocity controller.spinupTarget poles
    velocity := 0
    angle := 0
    elapsed := 0
    lastBus := none
    lastCurrent := ⟨0, 0⟩ }

/-- The bus voltage from which on the commanded voltage is not clipped at any angle. -/
def minBusVoltage (t : Spinup) : Scalar := t.voltage * Scalar.sqrt3

/-- The state after one PWM period. -/
def advance (t : Spinup) (currents : PhasePair Scalar) (bus : Scalar) : Spinup :=
  let dt := t.context.board.pwm.period
  let velocity := Scalar.minNum (t.velocity + t.acceleration * dt) t.targetVelocity
  { t with
    lastCurrent := clarke currents
    lastBus := some bus
    velocity
    angle := normalizeAngle (t.angle + velocity * dt) }

/-- The output at the angle that is reached. -/
def output (t : Spinup) (bus : Scalar) : Output :=
  ⟨svpwm (inversePark 0 t.voltage t.angle) bus, true⟩

def pwmPeriod (t : Spinup) (currents : PhasePair Scalar) (bus : Scalar) : Output × Spinup :=
  let next := t.advance currents bus
  (next.output bus, next)

/-- The bus voltage of the last PWM period does not suffice. -/
def isBusLow (t : Spinup) : Bool := t.lastBus.any (· < t.minBusVoltage)

/-- What a main check finds in the state, the time of the check counted in. -/
def outcome (t : Spinup) (power : PowerStatus) : CheckResult :=
  if ¬ power.powerOk then .failure .badPower
  else if t.targetVelocity ≤ t.velocity then .success
  else if t.context.config.controller.spinupTimeout < t.elapsed then .failure .timeout
  else if t.isBusLow then .failure .lowBusVoltage
  else .inProgress

/-- One main check, `period` seconds after the last one. -/
def mainCheck (t : Spinup) (period : Scalar) (power : PowerStatus) : CheckResult × Spinup :=
  let next := { t with elapsed := t.elapsed + period }
  (next.outcome power, next)

/-- The turning voltage, and what was measured in the last PWM period. -/
def telemetry (t : Spinup) : Telemetry :=
  #v[t.angle, t.velocity, t.targetVelocity, t.voltage, t.lastBus.getD 0, t.lastCurrent.alpha,
    t.lastCurrent.beta]

end Spinup

end BrushlessDrive
