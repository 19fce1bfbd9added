/-!
# Indicator colours

The indicator mixes three lamps. `Color.duties` gives the PWM duty of each lamp for a colour, a part
`level / 255` of the timer's maximum, rounded down.
-/

set_option autoImplicit false

namespace BrushlessDrive

/-- One value for each lamp of the indicator. -/
structure Rgb (α : Type) where
  red : α
  green : α
  blue : α
deriving DecidableEq

namespace Rgb

variable {α β : Type}

def map (f : α → β) (c : Rgb α) : Rgb β := ⟨f c.red, f c.green, f c.blue⟩

def toList (c : Rgb α) : List α := [c.red, c.green, c.blue]

end Rgb

abbrev Color := Rgb UInt8

/-- The duty of a lamp. The product has 40 bits at most, and a quotient by 255 fits in 32. -/
def indicatorDuty (level : UInt8) (maxDuty : UInt32) : UInt32 :=
  (level.toUInt64 * maxDuty.toUInt64 / 255).toUInt32

namespace Color

def off : Color := ⟨0, 0, 0⟩

/-- Shown until the first look at the bus voltage and the task. -/
def boot : Color := ⟨0, 0, 255⟩

/-- A task drives the motor. -/
def running : Color := ⟨255, 160, 0⟩

/-- Nothing is wrong and nothing runs. -/
def idle : Color := ⟨0, 64, 0⟩

/-- The bus voltage is out of its limits. -/
def voltageFault : Color := ⟨255, 64, 0⟩

/-- The drive has stopped for good. -/
def error : Color := ⟨255, 0, 0⟩

def duties (c : Color) (maxDuty : UInt32) : Rgb UInt32 := c.map (indicatorDuty · maxDuty)

end Color

end BrushlessDrive
