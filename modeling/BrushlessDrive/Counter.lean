/-!
# Event counters

A 64-bit count that only ever goes up by one.
-/

set_option autoImplicit false

namespace BrushlessDrive

/-- How often something has happened, modulo `2 ^ 64`. -/
structure Counter where
  count : UInt64 := 0
deriving DecidableEq

namespace Counter

def increment (c : Counter) : Counter := ⟨c.count + 1⟩

def advance (c : Counter) (n : Nat) : Counter := ⟨c.count + UInt64.ofNat n⟩

def text (c : Counter) : String := toString c.count.toNat

@[simp] theorem advance_zero (c : Counter) : c.advance 0 = c := by
  simp [advance]

theorem advance_succ (c : Counter) (n : Nat) : c.advance (n + 1) = (c.advance n).increment := by
  simp [advance, increment, UInt64.ofNat_add, UInt64.add_assoc]

end Counter

end BrushlessDrive
