import BrushlessDrive.Sensing.Power

/-!
# Bus voltage

The bus is measured through a divider (`BusSenseConfig.voltage`). `BusMonitor` runs the readings
through a first-order low-pass filter and compares the result with two thresholds; before the first
reading the bus counts as too low.
-/

set_option autoImplicit false

namespace BrushlessDrive

/-- The divider, its converter, the filter and the thresholds. -/
structure BusSenseConfig where
  /-- Upper resistor, in ohms. -/
  rUpper : Scalar := 33300.0
  /-- Lower resistor, in ohms. -/
  rLower : Scalar := 3300.0
  /-- Full scale of the converter, in counts. -/
  adcMax : UInt16 := 4096
  /-- Reference of the converter, in volts. -/
  vref : Scalar := 3.3
  /-- Weight of a new reading, from 0 to 1. -/
  filterAlpha : Scalar := 0.1
  /-- In volts. -/
  overvoltage : Scalar := 30.0
  /-- In volts. -/
  undervoltage : Scalar := 10.0
deriving BEq

/-- The bus voltage of a reading, unfiltered. -/
def BusSenseConfig.voltage (c : BusSenseConfig) (raw : UInt16) : Scalar :=
  raw.toFloat32 / c.adcMax.toFloat32 * c.vref * ((c.rUpper + c.rLower) / c.rLower)

/-- The filtered voltage and what the thresholds say of it. -/
structure BusState where
  voltage : Scalar := 0
  overvoltage : Bool := false
  undervoltage : Bool := true
deriving BEq

namespace BusState

/-- The voltage is within both thresholds. -/
def isOk (s : BusState) : Bool := !s.overvoltage && !s.undervoltage

/-- The state as a task sees it. -/
def status (s : BusState) : PowerStatus := ⟨s.isOk, s.voltage⟩

end BusState

/-- Supervision of the bus voltage. -/
structure BusMonitor where
  config : BusSenseConfig := {}
  state : BusState := {}
deriving BEq

namespace BusMonitor

/-- Stores a voltage together with what the thresholds say of it. -/
def setVoltage (m : BusMonitor) (v : Scalar) : BusMonitor :=
  { m with state := ⟨v, m.config.overvoltage < v, v < m.config.undervoltage⟩ }

/-- Takes a reading through the filter. -/
def update (m : BusMonitor) (raw : UInt16) : BusMonitor :=
  m.setVoltage (m.config.filterAlpha * m.config.voltage raw
    + (1 - m.config.filterAlpha) * m.state.voltage)

/-- Puts the filter at a reading at once. -/
def preset (m : BusMonitor) (raw : UInt16) : BusMonitor := m.setVoltage (m.config.voltage raw)

/-- A reading, and the way in which it is taken. -/
inductive Event where
  | update (raw : UInt16)
  | preset (raw : UInt16)

def step (m : BusMonitor) : Event → BusMonitor
  | .update raw => m.update raw
  | .preset raw => m.preset raw

def run (m : BusMonitor) (es : List Event) : BusMonitor := es.foldl step m

end BusMonitor

end BrushlessDrive
