import BrushlessDrive.Bridge
import BrushlessDrive.Fatal
import BrushlessDrive.Indicator
import BrushlessDrive.Interrupt

/-!
# Services of the board

What happens to the peripherals beside the two loops: the reset of the CAN controller, which a boot
loader may have left on; the start of the watchdog and the indicator; and the fatal stop, which
turns the motor output off, shows red and resets the processor. Each service returns the operations
that it performs, in order.
-/

set_option autoImplicit false

namespace BrushlessDrive

/-- The two interrupt lines of the CAN controller. -/
inductive CanLine where
  | line0
  | line1
deriving DecidableEq

/-- An operation on a peripheral. Where interrupts matter, `irq` is the interrupt flag at that
moment. -/
inductive BoardOp where
  | canReset (asserted : Bool) (irq : Bool)
  | clearPending (line : CanLine) (irq : Bool)
  | clearResetCause (irq : Bool)
  /-- The timeout is in microseconds. -/
  | watchdogSetup (timeout : UInt32)
  | watchdogUnleash
  | disableInterrupts
  | mainOutput (on : Bool) (irq : Bool)
  | lamp (op : LampTimer.Op)
  | bridge (op : BridgeTimer.Op)
deriving DecidableEq

/-- The time after which the watchdog resets the processor, in milliseconds. -/
def watchdogTimeout : UInt32 := 500

/-- The part of the board that the services work on. -/
structure Services where
  interrupts : Bool := true
  indicator : Indicator
  /-- The processor has been reset and does nothing more. -/
  stopped : Bool := false
deriving DecidableEq

namespace Services

/-- Resets the CAN controller and forgets its pending interrupts, in a critical section. -/
def resetCan (s : Services) : List BoardOp × Services :=
  let (ops, interrupts) := Interrupt.enclosed s.interrupts fun irq =>
    [.canReset true irq, .canReset false irq, .clearPending .line0 irq, .clearPending .line1 irq]
  (ops, { s with interrupts })

def setColor (s : Services) (c : Color) : List BoardOp × Services :=
  let (ops, indicator) := s.indicator.setColor c
  (ops.map .lamp, { s with indicator })

/-- Sets up the indicator, forgets the cause of the last reset, starts the watchdog and shows that
the drive is booting. -/
def start (s : Services) : List BoardOp × Services :=
  let (setup, indicator) := s.indicator.setup
  let (shown, s) := { s with indicator }.setColor .boot
  (setup.map .lamp ++
    [.clearResetCause s.interrupts, .watchdogSetup (watchdogTimeout * 1000), .watchdogUnleash] ++ shown,
    s)

def restart (s : Services) : Services := { s with stopped := true }

/-- The fatal stop: interrupts off, motor output off, the indicator red, reset. It is the same for
every error. -/
def die (s : Services) : List BoardOp × Services :=
  let (shown, s) := { s with interrupts := false }.setColor .error
  ([.disableInterrupts, .mainOutput false s.interrupts] ++ shown, s.restart)

end Services

end BrushlessDrive
