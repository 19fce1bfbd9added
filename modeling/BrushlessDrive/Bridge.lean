import BrushlessDrive.Machine
import BrushlessDrive.Task.Report

/-!
# The bridge driver

The inverter has a timer with one channel for each phase. `BridgeTimer.Op` lists the operations on its
registers; `Bridge` turns the outputs of a task into such operations. It remembers whether it has
the channels on, and so enables and disables them only when that changes: a channel is enabled after
the duties of the output are in place, and disabled after all duties are 0.
-/

set_option autoImplicit false

namespace BrushlessDrive

/-- The registers of the PWM timer of the inverter. -/
structure BridgeTimer where
  /-- The duty of a phase that is high all the time. -/
  maxDuty : UInt16
  duty : Phases UInt16 := .uniform 0
  enabled : Phases Bool := .uniform false
  /-- In ticks of the timer clock. -/
  deadTime : UInt16 := 0
deriving BEq

namespace BridgeTimer

inductive Op where
  | duty (p : Phase) (value : UInt16)
  | enable (p : Phase)
  | disable (p : Phase)
  | deadTime (ticks : UInt16)
deriving DecidableEq

def apply (t : BridgeTimer) : Op → BridgeTimer
  | .duty p value => { t with duty := t.duty.set p value }
  | .enable p => { t with enabled := t.enabled.set p true }
  | .disable p => { t with enabled := t.enabled.set p false }
  | .deadTime ticks => { t with deadTime := ticks }

def applyAll (t : BridgeTimer) (ops : List Op) : BridgeTimer := ops.foldl apply t

/-- The duty for a modulation, which is a part of the greatest duty. -/
def dutyOf (t : BridgeTimer) (modulation : Scalar) : UInt16 :=
  (Scalar.clamp modulation 0 1 * t.maxDuty.toFloat32).toUInt16

end BridgeTimer

/-- The driver of the inverter: its timer, and whether it has the channels on. -/
structure Bridge where
  timer : BridgeTimer
  active : Bool
deriving BEq

namespace Bridge

open BridgeTimer (Op)

def dutyOps (duties : Phases UInt16) : List Op := Phase.all.map fun p => .duty p (duties.get p)

def stopOps (d : Bridge) : List Op :=
  dutyOps (.uniform 0) ++ if d.active then Phase.all.map .disable else []

def outputOps (d : Bridge) (o : Output) : List Op :=
  if o.driverActive then
    dutyOps (o.phases.map d.timer.dutyOf) ++ if d.active then [] else Phase.all.map .enable
  else d.stopOps

/-- Stops the driver, with all duties 0 and all channels off. -/
def stop (d : Bridge) : List Op × Bridge :=
  (d.stopOps, ⟨d.timer.applyAll d.stopOps, false⟩)

def follow (d : Bridge) (o : Output) : List Op × Bridge :=
  (d.outputOps o, ⟨d.timer.applyAll (d.outputOps o), o.driverActive⟩)

/-- Takes over a timer, in whatever state it is, and stops it. -/
def make (t : BridgeTimer) : List Op × Bridge := stop ⟨t, true⟩

inductive Event where
  | follow (o : Output)
  | stop

def step (d : Bridge) : Event → List Op × Bridge
  | .follow o => d.follow o
  | .stop => d.stop

def run (d : Bridge) (es : List Event) : List (List Op) × Bridge := Machine.run step d es

/-- Sets the dead time, in ticks of the timer clock. -/
def setDeadTime (d : Bridge) (ticks : UInt16) : List Op × Bridge :=
  ([.deadTime ticks], { d with timer := d.timer.apply (.deadTime ticks) })

end Bridge

end BrushlessDrive
