import BrushlessDrive.Clock
import BrushlessDrive.Config

/-!
# The board

What a task may know of the board it runs on: the PWM timing that the timer was set to and the
hardware version.
-/

set_option autoImplicit false

namespace BrushlessDrive

structure HardwareVersion where
  major : UInt8
  minor : UInt8
deriving DecidableEq

namespace HardwareVersion

/-- Both numbers in decimal, with a point between them. -/
def text (v : HardwareVersion) : String := s!"{v.major.toNat}.{v.minor.toNat}"

/-- The revision that this firmware is made for. -/
def current : HardwareVersion := ⟨1, 0⟩

end HardwareVersion

/-- The timing that the PWM timer runs with, in seconds. -/
structure PwmTiming where
  period : Scalar
  deadTime : Scalar
deriving BEq

def PwmTiming.ofParams (p : PwmParams) : PwmTiming := ⟨p.period, p.deadTime⟩

theorem PwmTiming.period_default_pos : 0 < (ofParams {}).period := by decide +kernel

structure Board where
  pwm : PwmTiming
  version : HardwareVersion
deriving BEq

/-- A dead time in seconds as ticks of the timer clock, as near as 16 bits allow. -/
def deadTimeTicks (deadTime : Scalar) : UInt16 :=
  let ticks := Scalar.roundHalfAway (deadTime * timerClock.toFloat32)
  (Scalar.clamp ticks 0 65535).toUInt16

end BrushlessDrive
