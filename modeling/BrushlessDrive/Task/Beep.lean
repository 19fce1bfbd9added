import BrushlessDrive.Interval
import BrushlessDrive.Sensing.Power
import BrushlessDrive.Task.Context
import BrushlessDrive.Task.Report

/-!
# The beep

Single pulses on one phase after the other make the windings sound. `Beep.make` brings the frequency
and the duration into safe limits, whatever was asked for. The driver is released in the first
period that begins with less than no time left.
-/

set_option autoImplicit false

namespace BrushlessDrive

/-- A beep that is under way; times in seconds. -/
structure Beep where
  context : Context
  /-- From one pulse to the next. -/
  excitationPeriod : Scalar
  remaining : Scalar
  untilPulse : Scalar
  /-- Counts the pulses; modulo 3 it is the phase of the next one. -/
  pulses : UInt32
deriving BEq

namespace Beep

/-- The safe durations, in seconds. -/
def durationLimits : Interval := ⟨0.0, 3.0⟩

/-- The safe frequencies, in hertz. -/
def frequencyLimits : Interval := ⟨100.0, 15000.0⟩

/-- A beep of the given frequency in hertz and duration in seconds, within the limits. -/
def make (context : Context) (frequency duration : Scalar) : Beep :=
  let excitationPeriod := 1 / frequencyLimits.constrain frequency
  ⟨context, excitationPeriod, durationLimits.constrain duration, excitationPeriod, 0⟩

/-- The phase of the pulse with the given number, counted from 0. -/
def pulsePhase (n : UInt32) : Phase :=
  match n % 3 with
  | 0 => .a
  | 1 => .b
  | _ => .c

def pwmPeriod (t : Beep) : Output × Beep :=
  if t.remaining < 0 then (.inactive, t)
  else
    let remaining := t.remaining - t.context.board.pwm.period
    let untilPulse := t.untilPulse - t.context.board.pwm.period
    if untilPulse ≤ 0 then
      (.pulse (pulsePhase t.pulses),
        { t with remaining, untilPulse := untilPulse + t.excitationPeriod, pulses := t.pulses + 1 })
    else (.zeroActive, { t with remaining, untilPulse })

def mainCheck (t : Beep) (power : PowerStatus) : CheckResult :=
  if ¬ power.powerOk then .failure .badPower
  else if t.remaining ≤ 0 then .success
  else .inProgress

@[simp] theorem context_pwmPeriod (t : Beep) : t.pwmPeriod.2.context = t.context := by
  unfold pwmPeriod
  split
  · rfl
  · dsimp only
    split <;> rfl

/-- The times and the phase of the next pulse, as a number from 0 to 2. -/
def telemetry (t : Beep) : Telemetry :=
  #v[t.remaining, t.untilPulse, t.excitationPeriod, (t.pulses % 3).toFloat32, 0, 0, 0]

end Beep

end BrushlessDrive
