import BrushlessDrive.Device

/-!
# Timelines

A `Timeline` is a running device together with what could be seen of it from outside: the changes of
the bridge, of the active task and of the lamps, with their times, and the state of the bridge after
every PWM period as a list of runs. `Timeline.play` lets time pass with given readings.
-/

set_option autoImplicit false

namespace BrushlessDrive

/-- A list with equal neighbours counted instead of repeated, the last run first. -/
abbrev Runs (α : Type) := List (Nat × α)

namespace Runs

variable {α : Type} [BEq α]

/-- One element more. -/
def push (x : α) : Runs α → Runs α
  | [] => [(1, x)]
  | (n, y) :: rest => if y == x then (n + 1, y) :: rest else (1, x) :: (n, y) :: rest

end Runs

/-- A change that shows from outside. -/
inductive Change where
  /-- The bridge was turned on or off. -/
  | bridge (on : Bool)
  /-- Another task is active, or none. -/
  | task (kind : Option TaskKind)
  /-- The lamps have other duties. -/
  | lamps (duty : Rgb UInt16)
deriving DecidableEq

structure Appearance where
  bridgeOn : Bool
  task : Option TaskKind
  lamps : Rgb UInt16
deriving DecidableEq

namespace Appearance

def ofDevice (s : Device) : Appearance :=
  ⟨s.drive.bridge.timer.enabled.a, s.drive.runner.activeKind, s.services.indicator.timer.duty⟩

def changes (before after : Appearance) : List Change :=
  (if before.bridgeOn = after.bridgeOn then [] else [.bridge after.bridgeOn]) ++
  (if before.task = after.task then [] else [.task after.task]) ++
  (if before.lamps = after.lamps then [] else [.lamps after.lamps])

end Appearance

/-- A running device and its history. -/
structure Timeline where
  schedule : Schedule Device.Turn
  device : Device
  /-- In microseconds. -/
  time : Nat := 0
  /-- The changes with their times, the last one first. -/
  changes : List (Nat × Change) := []
  /-- The duties and enables of the bridge after each PWM period, the last one first. -/
  trace : Runs (Phases UInt16 × Phases Bool) := []

namespace Timeline

/-- One turn of a task at an instant. -/
def turn (x : Readings) (instant : Nat) (work : Device.Turn) (h : Timeline) : Timeline :=
  let device := h.device.turn x work
  let changes := (Appearance.ofDevice h.device).changes (Appearance.ofDevice device)
  let timer := device.drive.bridge.timer
  { h with
    device
    changes := (changes.map fun c => (instant, c)).reverse ++ h.changes
    trace := if work = .fastLoop then h.trace.push (timer.duty, timer.enabled) else h.trace }

/-- Lets time pass. What is due at the very end is done. -/
def play (h : Timeline) (x : Readings) (duration : Nat) : Timeline :=
  let stop := h.time + duration
  { h.schedule.run (turn x) h.time stop h with time := stop }

def stage (h : Timeline) (config : Config) : Timeline :=
  { h with device := { h.device with drive := h.device.drive.stage config } }

/-- The same device with an empty history. -/
def forget (h : Timeline) : Timeline := { h with changes := [], trace := [] }

end Timeline

end BrushlessDrive
