import BrushlessDrive.Scalar

/-!
# Motor phases and plane vectors

The three motor phases are called `a`, `b` and `c`. Only the currents of `a` and `b` are measured
(`PhasePair`); voltages and currents are also described in the stationary plane (`Stationary`).
-/

set_option autoImplicit false

namespace BrushlessDrive

/-- A phase of the motor, and with it a half-bridge of the inverter. -/
inductive Phase where
  | a
  | b
  | c
deriving DecidableEq

/-- The phases in the order in which their registers are written. -/
def Phase.all : List Phase := [.a, .b, .c]

/-- One value for each phase. -/
structure Phases (α : Type) where
  a : α
  b : α
  c : α
deriving BEq

namespace Phases

variable {α β : Type}

def uniform (x : α) : Phases α := ⟨x, x, x⟩

def get (v : Phases α) : Phase → α
  | .a => v.a
  | .b => v.b
  | .c => v.c

def set (v : Phases α) (p : Phase) (x : α) : Phases α :=
  match p with
  | .a => { v with a := x }
  | .b => { v with b := x }
  | .c => { v with c := x }

def map (f : α → β) (v : Phases α) : Phases β := ⟨f v.a, f v.b, f v.c⟩

/-- The values in the order of `Phase.all`. -/
def toList (v : Phases α) : List α := [v.a, v.b, v.c]

@[simp] theorem get_uniform (x : α) (p : Phase) : (uniform x).get p = x := by cases p <;> rfl

@[simp] theorem get_set (v : Phases α) (p q : Phase) (x : α) :
    (v.set p x).get q = if q = p then x else v.get q := by
  cases p <;> cases q <;> rfl

@[simp] theorem get_map (f : α → β) (v : Phases α) (p : Phase) :
    (v.map f).get p = f (v.get p) := by
  cases p <;> rfl

end Phases

/-- The two measured phases; the third current is what makes the sum of all three zero. -/
structure PhasePair (α : Type) where
  a : α
  b : α
deriving BEq

/-- A vector of the stationary plane: `alpha` points along phase `a`, `beta` a quarter turn
ahead. -/
structure Stationary where
  alpha : Scalar
  beta : Scalar
deriving BEq

end BrushlessDrive
