import BrushlessDrive.Phases

/-!
# What tasks report

A task answers every PWM period with an `Output` for the driver and every main check with a
`CheckResult`. Anyone may look at its `Telemetry`.
-/

set_option autoImplicit false

namespace BrushlessDrive

/-- What the driver is to do during a PWM period. -/
structure Output where
  /-- The part of the period for which each phase is high. -/
  phases : Phases Scalar
  /-- Keeps the driver stage on. -/
  driverActive : Bool
deriving BEq

namespace Output

def inactive : Output := ⟨.uniform 0, false⟩

/-- The driver stage is on and drives no current. -/
def zeroActive : Output := ⟨.uniform 0, true⟩

/-- A pulse over a whole period on one phase. -/
def pulse (p : Phase) : Output := ⟨(Phases.uniform (0 : Scalar)).set p 1, true⟩

end Output

/-- Why a task gave up. -/
inductive TaskFailure where
  /-- The bus voltage is out of its limits. -/
  | badPower
  /-- The time for reaching the speed is over. -/
  | timeout
  /-- The bus voltage is too low for the commanded voltage. -/
  | lowBusVoltage
deriving DecidableEq

def TaskFailure.code : TaskFailure → UInt8
  | badPower => 1
  | timeout => 2
  | lowBusVoltage => 3

inductive CheckResult where
  | inProgress
  | success
  | failure (cause : TaskFailure)
deriving DecidableEq

/-- The task has come to its end. -/
def CheckResult.isTerminal : CheckResult → Bool
  | inProgress => false
  | success | failure _ => true

/-- The numbers that a task shows of its state. -/
abbrev Telemetry := Vector Scalar 7

/-- The telemetry of a task with nothing to show. -/
def Telemetry.zero : Telemetry := .replicate 7 0

end BrushlessDrive
