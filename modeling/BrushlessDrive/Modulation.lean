import BrushlessDrive.Phases

/-!
# Space-vector modulation

`svpwm` finds the part of the PWM period for which each phase is switched to the supply so that the
motor sees a commanded voltage. The voltage, relative to the supply, is written in three coordinates
`x`, `y`, `z`; their signs name the sector of the plane, and in each sector the phase levels are sums
and differences of two of them.
-/

set_option autoImplicit false

namespace BrushlessDrive

/-- The six sectors of the stationary plane, counted from phase `a` on. -/
inductive Sector where
  | one
  | two
  | three
  | four
  | five
  | six
deriving DecidableEq

namespace Sector

/-- The sector of the signs of `x`, `y` and `z`, each `true` for a coordinate that is at least
zero. -/
def ofSigns : Bool → Bool → Bool → Sector
  | true, true, false => one
  | _, true, true => two
  | true, false, true => three
  | false, false, true => four
  | _, false, false => five
  | false, true, false => six

/-- The phase levels in `[-1, 1]`. Opposite sectors share their formulas. -/
def levels (s : Sector) (x y z : Scalar) : Phases Scalar :=
  match s with
  | one | four => ⟨x - z, x + z, -x + z⟩
  | two | five => ⟨y - z, y + z, -y - z⟩
  | three | six => ⟨y - x, -y + x, -y - x⟩

end Sector

/-- The modulation that puts no voltage between any two phases. -/
def midpoint : Phases Scalar := .uniform 0.5

/-- A level in `[-1, 1]` as a part of the period. -/
def dutyOfLevel (t : Scalar) : Scalar := Scalar.clamp ((t + 1) / 2) 0 1

/-- The modulation of each phase for the voltage `v` with the supply at `vdc` volts, and the
midpoint when the supply is not above zero. -/
def svpwm (v : Stationary) (vdc : Scalar) : Phases Scalar :=
  if ¬ 0 < vdc then midpoint
  else
    let alpha := v.alpha / vdc
    let beta := v.beta / vdc
    let scaled := Scalar.sqrt3 * alpha
    let x := beta
    let y := (beta + scaled) / 2
    let z := (beta - scaled) / 2
    let sector := Sector.ofSigns (0 ≤ x) (0 ≤ y) (0 ≤ z)
    (sector.levels x y z).map dutyOfLevel

end BrushlessDrive
