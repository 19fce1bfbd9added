import BrushlessDrive.Phases
import BrushlessDrive.Sinusoid

/-!
# Reference frames

`clarke` takes the measured phase currents to the stationary plane, `inversePark` takes a voltage of
the frame that turns with the rotor to the stationary plane, and `normalizeAngle` brings an angle
into `[0, 2π)`, the domain of `inversePark`.
-/

set_option autoImplicit false

namespace BrushlessDrive

/-- The currents in the stationary plane. The third phase carries what makes the sum zero, which
leaves `(a + 2 b) / √3` for the second axis. -/
def clarke (i : PhasePair Scalar) : Stationary :=
  ⟨i.a, (i.a + 2 * i.b) / Scalar.sqrt3⟩

/-- The phase word of an angle in radians: `π` becomes half of the words of a turn. Angles above
`π` are taken one turn back first; what is still beyond half a turn stops there. -/
def phaseWord (theta : Scalar) : UInt32 :=
  let centred := if Scalar.pi < theta then theta - Scalar.tau else theta
  (Scalar.toInt32 (centred * (2147483648 / Scalar.pi))).toUInt32

/-- Cosine and sine of an angle in radians. -/
def cosSin (theta : Scalar) : Scalar × Scalar :=
  let (cos, sin) := Sinusoid.cosSin (phaseWord theta)
  (Scalar.ofInt32 cos * (1 / 2147483648), Scalar.ofInt32 sin * (1 / 2147483648))

/-- The voltage `vd` along the rotor flux and `vq` a quarter turn ahead of it, in the stationary
plane, with the rotor at the electrical angle `theta`. -/
def inversePark (vd vq theta : Scalar) : Stationary :=
  let (cos, sin) := cosSin theta
  ⟨vd * cos - vq * sin, vd * sin + vq * cos⟩

/-- The angle in `[0, 2π)`. A small negative angle can round up to the full turn, which is 0. -/
def normalizeAngle (angle : Scalar) : Scalar :=
  let rest := Scalar.remainder angle Scalar.tau
  let turned := if rest < 0 then rest + Scalar.tau else rest
  if Scalar.tau ≤ turned then 0 else turned

end BrushlessDrive
