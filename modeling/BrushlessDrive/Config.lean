import BrushlessDrive.Units

/-!
# Configuration

`Config` holds the four parameter groups of a drive; the default of each field is the default of the
drive. `Config.validate` names the first group, in the order controller, motor, observer, PWM, that
breaks its rules. No rule accepts a NaN or an infinity.
-/

set_option autoImplicit false

namespace BrushlessDrive

/-- The parameter group that a configuration is rejected for. -/
inductive ConfigError where
  | controller
  | motor
  | observer
  | pwm
deriving DecidableEq

namespace ConfigError

/-- The number that a log or a fatal stop gives. -/
def code : ConfigError → Int
  | controller => -1
  | motor => -2
  | observer => -3
  | pwm => -4

def group : ConfigError → String
  | controller => "controller"
  | motor => "motor"
  | observer => "observer"
  | pwm => "pwm"

def message (e : ConfigError) : String := "invalid " ++ e.group ++ " parameters"

end ConfigError

/-- Gains and limits of the speed controller and of the open-loop start. -/
structure ControllerParams where
  speedKp : Scalar := 0.8
  speedKi : Scalar := 0.1
  /-- Greatest output voltage, in volts. -/
  maxVoltage : Scalar := 24.0
  /-- Voltage of the open-loop start, in volts. -/
  spinupVoltage : Scalar := 2.0
  /-- Acceleration of the open-loop start, in mechanical RPM per second. -/
  spinupAcceleration : Scalar := 500.0
  /-- Speed that completes the open-loop start, in mechanical RPM. -/
  spinupTarget : Scalar := 500.0
  /-- Longest open-loop start, in seconds. -/
  spinupTimeout : Scalar := 5.0
deriving BEq

/-- Gains that are at least zero, and limits above zero with the voltage of the start within the
greatest one. -/
def ControllerParams.isValid (p : ControllerParams) : Bool :=
  0 ≤ p.speedKp && p.speedKp.isFinite && 0 ≤ p.speedKi && p.speedKi.isFinite
    && Scalar.isPositive p.maxVoltage && Scalar.isPositive p.spinupVoltage
    && p.spinupVoltage ≤ p.maxVoltage
    && Scalar.isPositive p.spinupAcceleration && Scalar.isPositive p.spinupTarget
    && Scalar.isPositive p.spinupTimeout

/-- The motor, in SI units. -/
structure MotorParams where
  poles : UInt32 := 12
  phaseResistance : Scalar := 0.1
  phaseInductance : Scalar := 50.0e-6
  fieldFlux : Scalar := 4.0e-3
  maxCurrent : Scalar := 10.0
deriving BEq

namespace MotorParams

/-- A pole count that a motor can have, and quantities above zero. -/
def isValid (p : MotorParams) : Bool :=
  Units.isPoleCount p.poles && Scalar.isPositive p.phaseResistance
    && Scalar.isPositive p.phaseInductance && Scalar.isPositive p.fieldFlux
    && Scalar.isPositive p.maxCurrent

/-- The velocity constant in mechanical RPM per volt. -/
def kv (p : MotorParams) : Except ConversionError Scalar :=
  Units.kvOfFluxLinkage p.fieldFlux p.poles

end MotorParams

/-- Noise covariances of the rotor observer, and its cross-coupling compensation. -/
structure ObserverParams where
  currentNoiseD : Scalar := 3.0e4
  currentNoiseQ : Scalar := 3.0e4
  speedNoise : Scalar := 1.0e6
  measurementNoiseAlpha : Scalar := 2.0
  measurementNoiseBeta : Scalar := 2.0
  /-- A part of the whole, from 0 to 1. -/
  crossCoupling : Scalar := 1.0
deriving BEq

/-- Covariances above zero, and a compensation between none and all. -/
def ObserverParams.isValid (p : ObserverParams) : Bool :=
  Scalar.isPositive p.currentNoiseD && Scalar.isPositive p.currentNoiseQ
    && Scalar.isPositive p.speedNoise && Scalar.isPositive p.measurementNoiseAlpha
    && Scalar.isPositive p.measurementNoiseBeta
    && 0 ≤ p.crossCoupling && p.crossCoupling ≤ 1

/-- Switching of the inverter. -/
structure PwmParams where
  /-- In hertz. -/
  frequency : UInt32 := 20000
  /-- In seconds. -/
  deadTime : Scalar := 500.0e-9
deriving BEq

namespace PwmParams

/-- The least frequency that is accepted, in hertz. -/
def minFrequency : UInt32 := 1000

/-- The greatest frequency that is accepted, in hertz. -/
def maxFrequency : UInt32 := 100000

/-- The period in seconds; infinite at frequency 0. -/
def period (p : PwmParams) : Scalar := 1 / p.frequency.toFloat32

/-- A frequency within the limits, and a dead time below a tenth of the period. -/
def isValid (p : PwmParams) : Bool :=
  minFrequency ≤ p.frequency && p.frequency ≤ maxFrequency
    && 0 ≤ p.deadTime && p.deadTime < p.period / 10

end PwmParams

structure Config where
  controller : ControllerParams := {}
  motor : MotorParams := {}
  observer : ObserverParams := {}
  pwm : PwmParams := {}
deriving BEq

/-- Accepts a configuration or names the first group that is not valid. -/
def Config.validate (c : Config) : Except ConfigError Unit :=
  if ¬ c.controller.isValid then .error .controller
  else if ¬ c.motor.isValid then .error .motor
  else if ¬ c.observer.isValid then .error .observer
  else if ¬ c.pwm.isValid then .error .pwm
  else .ok ()

theorem Config.validate_eq_ok_iff {c : Config} : c.validate = .ok () ↔
    c.controller.isValid = true ∧ c.motor.isValid = true ∧ c.observer.isValid = true ∧
      c.pwm.isValid = true := by
  cases hc : c.controller.isValid <;> cases hm : c.motor.isValid <;>
    cases ho : c.observer.isValid <;> cases hp : c.pwm.isValid <;> simp [validate, *]

theorem Config.validate_default : Config.validate {} = .ok () := rfl

end BrushlessDrive
