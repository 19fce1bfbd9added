import BrushlessDrive.Scalar

/-!
# Units

Conversions between flux linkage and the velocity constant KV, between radians per second and RPM,
and between electrical and mechanical rotation. A motor with `p` poles turns `p / 2` times slower
than its field, so a pole count is even and at least 2; the pole count is checked before the value.
-/

set_option autoImplicit false

namespace BrushlessDrive

/-- Why a conversion has no result. -/
inductive ConversionError where
  /-- A quantity that must be above zero is not. -/
  | nonPositiveInput
  /-- A pole count that is odd or below 2. -/
  | invalidPoleCount
deriving DecidableEq

def ConversionError.message : ConversionError → String
  | nonPositiveInput => "input must be strictly positive"
  | invalidPoleCount => "pole count must be even and at least 2"

namespace Units

/-- The pole counts that a motor can have. -/
def isPoleCount (poles : UInt32) : Bool := 2 ≤ poles && poles % 2 == 0

def checkPoles (poles : UInt32) : Except ConversionError Scalar :=
  if isPoleCount poles then .ok poles.toFloat32 else .error .invalidPoleCount

def checkPositive (x : Scalar) : Except ConversionError Scalar :=
  if 0 < x then .ok x else .error .nonPositiveInput

/-- The product of KV, flux linkage and pole count, `20 √3 / π`. -/
def kvFluxProduct : Scalar := 20 * Scalar.sqrt3 / Scalar.pi

/-- The velocity constant in mechanical RPM per volt, of a flux linkage in weber. -/
def kvOfFluxLinkage (flux : Scalar) (poles : UInt32) : Except ConversionError Scalar := do
  let p ← checkPoles poles
  let f ← checkPositive flux
  return kvFluxProduct / (f * p)

/-- The flux linkage in weber, of a velocity constant in mechanical RPM per volt. -/
def fluxLinkageOfKv (kv : Scalar) (poles : UInt32) : Except ConversionError Scalar := do
  let p ← checkPoles poles
  let k ← checkPositive kv
  return kvFluxProduct / (k * p)

def rpmOfAngularVelocity (w : Scalar) : Scalar := w * 60 / (2 * Scalar.pi)

def angularVelocityOfRpm (rpm : Scalar) : Scalar := rpm * 2 * Scalar.pi / 60

/-- The mechanical rate of an electrical one, in the same unit. -/
def mechanicalOfElectrical (rate : Scalar) (poles : UInt32) : Except ConversionError Scalar := do
  let p ← checkPoles poles
  return rate / (p / 2)

/-- The electrical rate of a mechanical one, in the same unit. -/
def electricalOfMechanical (rate : Scalar) (poles : UInt32) : Except ConversionError Scalar := do
  let p ← checkPoles poles
  return rate * (p / 2)

end Units

end BrushlessDrive
