import BrushlessDrive.Scalar

/-!
# Power status

What the slow loop tells a task about the supply.
-/

set_option autoImplicit false

namespace BrushlessDrive

/-- The supply as seen at a main check. -/
structure PowerStatus where
  /-- The bus voltage is within its limits. -/
  powerOk : Bool
  /-- The filtered bus voltage, in volts. -/
  busVoltage : Scalar
deriving BEq

end BrushlessDrive
