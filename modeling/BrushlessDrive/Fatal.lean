import BrushlessDrive.Config

/-!
# Fatal errors

An error that the drive cannot go on after. It has a numeric code for the log, which is that of the
rejected parameter group where there is one.
-/

set_option autoImplicit false

namespace BrushlessDrive

/-- Why the drive stops for good. -/
inductive FatalError where
  /-- The configuration was rejected. -/
  | configInit (cause : ConfigError)
  /-- The current sensors could not be calibrated. -/
  | hardwareInit
deriving DecidableEq

namespace FatalError

def code : FatalError → Int
  | configInit e => e.code
  | hardwareInit => -100

def message : FatalError → String
  | configInit e => s!"config init failed ({e.code}): " ++ e.message
  | hardwareInit => "hardware init failed"

end FatalError

end BrushlessDrive
