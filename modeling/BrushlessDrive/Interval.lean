import BrushlessDrive.Scalar

/-!
# Closed intervals

`Interval.constrain` brings a value from outside into an interval. A NaN goes to the lower end, so
that whatever arrives, a number of the interval leaves.
-/

set_option autoImplicit false

namespace BrushlessDrive

/-- The scalars from `lo` to `hi`, both included. -/
structure Interval where
  lo : Scalar
  hi : Scalar
deriving BEq

namespace Interval

/-- The point of the interval nearest to a value, and its lower end for a NaN. -/
def constrain (r : Interval) (x : Scalar) : Scalar :=
  if ¬ r.lo ≤ x then r.lo else if r.hi < x then r.hi else x

/-- Membership; no interval contains a NaN. -/
def contains (r : Interval) (x : Scalar) : Bool := r.lo ≤ x && x ≤ r.hi

end Interval

end BrushlessDrive
