import BrushlessDrive.Drive
import BrushlessDrive.Schedule
import BrushlessDrive.Sensing.Current
import BrushlessDrive.Startup

/-!
# The whole device

`Device.boot` brings the board up, or stops it for good when the current sensors or the
configuration are unusable. From then on four tasks take turns (`Device.turn`): the fast loop in
every PWM period, the bus voltage monitor, the slow loop, and the indicator.
-/

set_option autoImplicit false

namespace BrushlessDrive

/-- What a board is brought up with. -/
structure Setup where
  config : Config
  board : Board
  sequence : BootSequence := {}
  /-- Readings of the current sensors while the driver is off. -/
  calibration : List (PhasePair UInt16) := []
  bootBus : UInt16
  bridgeMaxDuty : UInt16
  lampMaxDuty : UInt16

structure Device where
  drive : Drive
  currentSense : CurrentSense
  monitor : BusMonitor
  /-- The last raw reading of the bus voltage. -/
  busRaw : UInt16
  /-- What the monitor published last. -/
  bus : BusState
  services : Services

/-- A board that stopped while it was brought up. -/
structure Halt where
  reason : FatalError
  services : Services
  bridge : Bridge

/-- The readings of the converters. -/
structure Readings where
  currents : PhasePair UInt16
  bus : UInt16

namespace Device

/-- The time from one main check to the next, in milliseconds. -/
def mainCheckMillis : Nat := 1

/-- The time from one turn of the voltage monitor to the next, in milliseconds. -/
def monitorMillis : Nat := 10

/-- The time from one turn of the indicator to the next, in milliseconds. -/
def indicatorMillis : Nat := 50

/-- The main checks from one status log to the next. -/
def statusLogDecimation : Nat := 1000

/-- The time from one main check to the next, in seconds. -/
def mainCheckPeriod : Scalar := Scalar.ofNat mainCheckMillis / 1000

/-- The first steps of a boot, which cannot fail: services, a stopped bridge, its dead time. -/
def prepare (setup : Setup) : List BoardOp × Services × Bridge :=
  let (reset, services) := Services.resetCan ⟨true, { timer := ⟨setup.lampMaxDuty, ⟨0, 0, 0⟩,
    ⟨false, false, false⟩⟩ }, false⟩
  let (started, services) := services.start
  let (stopped, bridge) := Bridge.make { maxDuty := setup.bridgeMaxDuty }
  let (timed, bridge) := bridge.setDeadTime (deadTimeTicks setup.config.pwm.deadTime)
  (reset ++ started ++ (stopped ++ timed).map .bridge, services, bridge)

/-- The state of a board that is up: the boot sequence begins, with the bus voltage known. -/
def assemble (setup : Setup) (services : Services) (bridge : Bridge) (currentSense : CurrentSense)
    (context : Context) : Device :=
  let monitor := BusMonitor.preset {} setup.bootBus
  { drive := .begin context setup.sequence bridge
    currentSense
    monitor
    busRaw := setup.bootBus
    bus := monitor.state
    services }

/-- Brings a board up. The current sensors are judged before the configuration. -/
def boot (setup : Setup) : List BoardOp × Except Halt Device :=
  let (ops, services, bridge) := prepare setup
  let halt (reason : FatalError) : List BoardOp × Except Halt Device :=
    let (dying, services) := services.die
    (ops ++ dying, .error ⟨reason, services, bridge⟩)
  match (CurrentSense.ofConfig {}).calibrate setup.calibration with
  | (.error .offsetOutOfRange, _) => halt .hardwareInit
  | (.ok (), currentSense) =>
    match Context.make setup.config setup.board with
    | .error e => halt (.configInit e)
    | .ok context => (ops, .ok (assemble setup services bridge currentSense context))

/-- The tasks of a running board. -/
inductive Turn where
  | fastLoop
  | busMonitor
  | slowLoop
  | indicator
deriving DecidableEq

/-- The fast loop measures, runs the active task at the bus voltage of the moment, and leaves the
raw bus reading for the monitor. -/
def fastLoop (s : Device) (x : Readings) : Device :=
  let currents := s.currentSense.currents x.currents
  let (_, drive) := s.drive.pwmPeriod currents (s.monitor.config.voltage x.bus)
  { s with drive, busRaw := x.bus }

/-- The monitor filters the last raw reading and publishes the result. -/
def busMonitor (s : Device) : Device :=
  let monitor := s.monitor.update s.busRaw
  { s with monitor, bus := monitor.state }

/-- The slow loop checks the task against the published bus voltage. -/
def slowLoop (s : Device) : Device :=
  { s with drive := (s.drive.mainCheck mainCheckPeriod s.bus.status).2 }

/-- The indicator follows the published bus voltage and the runner. -/
def indicator (s : Device) : Device :=
  let (_, indicator) := s.services.indicator.refresh s.bus s.drive.runner
  { s with services := { s.services with indicator } }

def turn (s : Device) (x : Readings) : Turn → Device
  | .fastLoop => s.fastLoop x
  | .busMonitor => s.busMonitor
  | .slowLoop => s.slowLoop
  | .indicator => s.indicator

/-- When the tasks take their turns, for a PWM frequency in hertz. -/
def schedule (frequency : UInt32) : Schedule Turn :=
  [(.ofFrequency frequency.toNat, .fastLoop),
   (.ofMillis monitorMillis (by decide), .busMonitor),
   (.ofMillis mainCheckMillis (by decide), .slowLoop),
   (.ofMillis indicatorMillis (by decide), .indicator)]

end Device

end BrushlessDrive
