/-!
# Clocks

The oscillator of the processor goes through a phase-locked loop, which divides it, multiplies the
quotient, and divides again for the system clock. The timers and the converters run from that.
-/

set_option autoImplicit false

namespace BrushlessDrive

inductive ClockSource where
  | oscillator
  | pll
  | system
deriving DecidableEq

structure ClockTree where
  /-- The internal oscillator is running. -/
  oscillatorOn : Bool := true
  /-- In hertz. -/
  oscillator : Nat := 16000000
  pllInput : ClockSource := .oscillator
  pllDivider : Nat := 4
  pllMultiplier : Nat := 85
  pllOutputDivider : Nat := 2
  system : ClockSource := .pll
  converters : ClockSource := .system
deriving DecidableEq

namespace ClockTree

/-- The output of the loop, in hertz. -/
def pllFrequency (c : ClockTree) : Nat :=
  c.oscillator / c.pllDivider * c.pllMultiplier / c.pllOutputDivider

end ClockTree

/-- The clock of the PWM timers, in hertz. -/
def timerClock : UInt32 := 170000000

theorem timerClock_eq_pllFrequency : timerClock.toNat = ({} : ClockTree).pllFrequency := by decide

end BrushlessDrive
