/-!
# Critical sections

Entering a critical section remembers whether interrupts were enabled and disables them; leaving it
enables them if they were (`Interrupt.enter`, `Interrupt.leave`). A section that encloses a piece of
work is `Interrupt.enclosed`. `Guards` is the machine in which each section is held by a guard:
guards are numbered as they are acquired, and may be released in any order.
-/

set_option autoImplicit false

namespace BrushlessDrive

namespace Interrupt

/-- Enters a section: the flag to remember, and the flag inside. -/
def enter (enabled : Bool) : Bool × Bool := (enabled, false)

/-- The flag after leaving a section that remembers `saved`. -/
def leave (saved enabled : Bool) : Bool := if saved then true else enabled

/-- What a piece of work makes of the flag inside a section, and the flag after it. The section is
left the same way wherever the work ends. -/
def enclosed {α : Type} (enabled : Bool) (work : Bool → α) : α × Bool :=
  let (saved, inside) := enter enabled
  (work inside, leave saved inside)

end Interrupt

/-- The interrupt flag and the guards that were acquired so far. A guard that is still live is the
flag that it remembers; a released one is `none`. -/
structure Guards where
  enabled : Bool := true
  saved : Array (Option Bool) := #[]
deriving DecidableEq

namespace Guards

/-- Acquires a guard, under the next number. -/
def acquire (g : Guards) : Guards :=
  let (saved, inside) := Interrupt.enter g.enabled
  ⟨inside, g.saved.push (some saved)⟩

/-- The flag that a guard remembers while it is live. -/
def live? (g : Guards) (i : Nat) : Option Bool := g.saved[i]?.join

/-- Releases a guard; a guard that is not live is left alone. -/
def release (g : Guards) (i : Nat) : Guards :=
  match g.live? i with
  | none => g
  | some before => ⟨Interrupt.leave before g.enabled, g.saved.setIfInBounds i none⟩

def liveCount (g : Guards) : Nat := g.saved.countP Option.isSome

/-- A section without a guard of its own, around the reading of the flag. -/
def observe (g : Guards) : Bool × Guards :=
  let (seen, enabled) := Interrupt.enclosed g.enabled id
  (seen, { g with enabled })

/-- Replaces the value of a protected cell, for the holder of a live guard only: the old value, if
it was given out, and the value after it. -/
def exchange {α : Type} (g : Guards) (i : Nat) (cell new : α) : Option α × α :=
  match g.live? i with
  | none => (none, cell)
  | some _ => (some cell, new)

inductive Event where
  | acquire
  | release (i : Nat)
  /-- A section without a guard of its own. -/
  | observe
deriving DecidableEq

def step (g : Guards) : Event → Guards
  | .acquire => g.acquire
  | .release i => g.release i
  | .observe => g.observe.2

def run (g : Guards) (es : List Event) : Guards := es.foldl step g

/-- Releases the live guards from the last one to the first. -/
def releaseAll (g : Guards) : Guards :=
  (List.range g.saved.size).reverse.foldl release g

end Guards

end BrushlessDrive
