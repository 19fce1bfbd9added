import BrushlessDrive.Color
import BrushlessDrive.Runner
import BrushlessDrive.Sensing.Bus

/-!
# The indicator

The three lamps of the indicator hang on a timer of their own, which is inverted because a lamp
lights while its pin is low. `Indicator` keeps the colour that is shown, and `Indicator.refresh`
writes to the lamps only when the colour for the state of the drive is a new one.
-/

set_option autoImplicit false

namespace BrushlessDrive

/-- A lamp of the indicator, and with it a channel of its timer. -/
inductive Lamp where
  | red
  | green
  | blue
deriving DecidableEq

/-- The lamps in the order in which their registers are written. -/
def Lamp.all : List Lamp := [.red, .green, .blue]

namespace Rgb

variable {α : Type}

/-- The value of a lamp. -/
def get (c : Rgb α) : Lamp → α
  | .red => c.red
  | .green => c.green
  | .blue => c.blue

/-- Replaces the value of one lamp. -/
def set (c : Rgb α) (l : Lamp) (x : α) : Rgb α :=
  match l with
  | .red => { c with red := x }
  | .green => { c with green := x }
  | .blue => { c with blue := x }

@[simp] theorem get_map {β : Type} (f : α → β) (c : Rgb α) (l : Lamp) :
    (c.map f).get l = f (c.get l) := by
  cases l <;> rfl

end Rgb

/-- The registers of the timer of the lamps. -/
structure LampTimer where
  /-- The duty of a lamp that is lit all the time. -/
  maxDuty : UInt16
  duty : Rgb UInt16 := ⟨0, 0, 0⟩
  enabled : Rgb Bool := ⟨false, false, false⟩
deriving DecidableEq

namespace LampTimer

inductive Op where
  | activeLow (l : Lamp)
  | duty (l : Lamp) (value : UInt16)
  | enable (l : Lamp)
deriving DecidableEq

/-- The registers after an operation; the polarity is not read back. -/
def apply (t : LampTimer) : Op → LampTimer
  | .activeLow _ => t
  | .duty l value => { t with duty := t.duty.set l value }
  | .enable l => { t with enabled := t.enabled.set l true }

def applyAll (t : LampTimer) (ops : List Op) : LampTimer := ops.foldl apply t

/-- Inverts every lamp, turns it off and enables it. -/
def setupOps : List Op := Lamp.all.flatMap fun l => [.activeLow l, .duty l 0, .enable l]

def colorOps (t : LampTimer) (c : Color) : List Op :=
  let duties := (c.duties t.maxDuty.toUInt32).map UInt32.toUInt16
  Lamp.all.map fun l => .duty l (duties.get l)

end LampTimer

/-- The indicator: its timer, whether the timer is in use yet, and the colour that is shown. -/
structure Indicator where
  timer : LampTimer
  registered : Bool := false
  color : Color := Color.boot
deriving DecidableEq

namespace Indicator

open LampTimer (Op)

/-- Sets up the timer and puts it to use. The colour is still to be shown. -/
def setup (d : Indicator) : List Op × Indicator :=
  (LampTimer.setupOps,
    { d with timer := d.timer.applyAll LampTimer.setupOps, registered := true })

/-- Shows a colour. Until the timer is in use the colour is only remembered. -/
def setColor (d : Indicator) (c : Color) : List Op × Indicator :=
  let ops := if d.registered then d.timer.colorOps c else []
  (ops, { d with timer := d.timer.applyAll ops, color := c })

/-- The colour for the state of the drive. A voltage out of limits is shown before anything else. -/
def statusColor (bus : BusState) (runner : Runner) : Color :=
  if ¬ bus.isOk then .voltageFault
  else if runner.isIdle then .idle
  else .running

/-- Shows the colour for the state of the drive, unless it is shown already. -/
def refresh (d : Indicator) (bus : BusState) (runner : Runner) : List Op × Indicator :=
  let c := statusColor bus runner
  if c = d.color then ([], d) else d.setColor c

inductive Event where
  /-- The periodic look at the state of the drive. -/
  | refresh (bus : BusState) (runner : Runner)
  | setColor (c : Color)

def step (d : Indicator) : Event → Indicator
  | .refresh bus runner => (d.refresh bus runner).2
  | .setColor c => (d.setColor c).2

def run (d : Indicator) (es : List Event) : Indicator := es.foldl step d

end Indicator

end BrushlessDrive
