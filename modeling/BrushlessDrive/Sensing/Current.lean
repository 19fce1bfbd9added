import BrushlessDrive.Phases

/-!
# Phase currents

The amplifier of a shunt gives about half of the converter's scale at no current. `CurrentSense`
keeps that offset per phase; `CurrentSense.calibrate` takes it from samples of the resting driver
and refuses a mean that is too far from the middle.
-/

set_option autoImplicit false

namespace BrushlessDrive

/-- The amplifier, its shunt and its converter. -/
structure CurrentSenseConfig where
  gain : Scalar := 4.0
  /-- In ohms. -/
  shuntResistance : Scalar := 0.02
  /-- Reference of the converter, in volts. -/
  vref : Scalar := 3.3
  /-- Full scale of the converter, in counts. -/
  adcMax : UInt16 := 4096
deriving BEq

namespace CurrentSenseConfig

/-- The current of one count, in amperes. -/
def ampsPerCount (c : CurrentSenseConfig) : Scalar :=
  c.vref / c.adcMax.toFloat32 / (c.gain * c.shuntResistance)

/-- The reading at no current, of an ideal amplifier. -/
def midRail (c : CurrentSenseConfig) : Scalar := c.adcMax.toFloat32 / 2

end CurrentSenseConfig

/-- Why a calibration is refused. -/
inductive CurrentSenseError where
  /-- The mean reading at no current is too far from the middle of the scale. -/
  | offsetOutOfRange
deriving DecidableEq

/-- Measurement of the currents of phases `a` and `b`. -/
structure CurrentSense where
  config : CurrentSenseConfig
  ampsPerCount : Scalar
  /-- The readings at no current. -/
  offset : PhasePair Scalar
deriving BEq

namespace CurrentSense

/-- How far an offset may be from the middle, as a part of the full scale. -/
def maxOffsetDeviation : Scalar := 0.1

def ofConfig (c : CurrentSenseConfig) : CurrentSense :=
  ⟨c, c.ampsPerCount, ⟨c.midRail, c.midRail⟩⟩

def sums (samples : List (PhasePair UInt16)) : PhasePair UInt32 :=
  samples.foldl (fun s x => ⟨s.a + x.a.toUInt32, s.b + x.b.toUInt32⟩) ⟨0, 0⟩

def mean (samples : List (PhasePair UInt16)) : PhasePair Scalar :=
  let n := Scalar.ofNat samples.length
  let s := sums samples
  ⟨s.a.toFloat32 / n, s.b.toFloat32 / n⟩

/-- An offset that is too far from the middle. -/
def isOutOfRange (c : CurrentSenseConfig) (offset : Scalar) : Bool :=
  c.adcMax.toFloat32 * maxOffsetDeviation < (offset - c.midRail).abs

/-- Takes the offsets from samples at no current, unless there are none or their mean is refused. -/
def calibrate (s : CurrentSense) (samples : List (PhasePair UInt16)) :
    Except CurrentSenseError Unit × CurrentSense :=
  if samples.isEmpty then (.ok (), s)
  else
    let offset := mean samples
    if isOutOfRange s.config offset.a || isOutOfRange s.config offset.b then
      (.error .offsetOutOfRange, s)
    else (.ok (), { s with offset })

def current (s : CurrentSense) (raw : UInt16) (offset : Scalar) : Scalar :=
  (raw.toFloat32 - offset) * s.ampsPerCount

/-- The currents of a pair of readings, in amperes. -/
def currents (s : CurrentSense) (raw : PhasePair UInt16) : PhasePair Scalar :=
  ⟨s.current raw.a s.offset.a, s.current raw.b s.offset.b⟩

end CurrentSense

end BrushlessDrive
