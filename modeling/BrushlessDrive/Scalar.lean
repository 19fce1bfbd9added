/-!
# Scalars

`Scalar` is the number type of the control loop: IEEE 754 binary32, each operation rounded once to
the nearest number, ties to the even one, subnormal numbers kept. Besides the arithmetic of the
type, the loop needs

* `minNum` and `clamp`, whose treatment of a NaN the tasks rely on,
* `ofNat`, `ofInt32` (rounded to nearest) and `toInt32` (truncated and saturating),
* `remainder`, the exact remainder of the truncated quotient, and `roundHalfAway`.

The last two are computed on the unpacked numbers `± m · 2 ^ e`, where both are exact.
-/

set_option autoImplicit false

namespace BrushlessDrive

open Float.Model (Format UnpackedFloat)

/-- The number type of the control loop: IEEE 754 binary32. -/
abbrev Scalar := Float32

namespace Scalar

/-- The binary32 number nearest to `π`. -/
def pi : Scalar := Float32.ofBits 0x40490fdb

/-- The binary32 number nearest to `2π`, a full turn in radians. -/
def tau : Scalar := Float32.ofBits 0x40c90fdb

/-- The binary32 number nearest to `√3`. -/
def sqrt3 : Scalar := Float32.ofBits 0x3fddb3d7

/-- The number that is no number. -/
def nan : Scalar := Float32.ofBits 0x7fc00000

/-- A finite number above zero. -/
def isPositive (x : Scalar) : Bool := 0 < x && x.isFinite

/-- The lesser of two numbers; a NaN gives way to the other one. -/
def minNum (x y : Scalar) : Scalar := if x.isNaN || y < x then y else x

/-- The point of `[lo, hi]` nearest to `x`; a NaN stays a NaN. -/
def clamp (x lo hi : Scalar) : Scalar := if x < lo then lo else if hi < x then hi else x

def ofNat (n : Nat) : Scalar := .ofModel (.ofNat n)

/-- The scalar nearest to a 32-bit integer. The magnitude is rounded and the sign goes on after. -/
def ofInt32 (n : Int32) : Scalar :=
  if n < 0 then -(-n).toUInt32.toFloat32 else n.toUInt32.toFloat32

/-- The integer part of `x`, toward zero; beyond the 32-bit range its nearest end, and 0 for a
NaN. -/
def toInt32 (x : Scalar) : Int32 :=
  Int32.ofIntClamp (if x < 0 then -((-x).toUInt32.toNat : Int) else x.toUInt32.toNat)

/-- The scalar of an unpacked number, rounded if it has too many bits. -/
def ofUnpacked (x : UnpackedFloat) : Scalar := .ofModel (.pack x)

/-- The unpacked form: a signed infinity, a NaN, a signed zero or `± m · 2 ^ e`. -/
def unpacked (x : Scalar) : UnpackedFloat := x.toModel.unpack

/-- The remainder `x - n * y`, with `n` the quotient `x / y` truncated toward zero. It is exact,
is less than `y` in magnitude and has the sign of `x`. There is none for an infinite `x` or a zero
`y`. -/
def remainder (x y : Scalar) : Scalar :=
  if x.abs < y.abs then x
  else
    match x.unpacked, y.unpacked with
    | .finite s m e _, .finite _ m' e' _ =>
      let low := min e e'
      let scaled := m <<< (e - low).toNat
      let scaled' := m' <<< (e' - low).toNat
      ofUnpacked (.normalize Format.binary32 (s.apply (scaled % scaled')) low s)
    | _, _ => nan

/-- The nearest integer, a half going away from zero; the sign stays, also on a zero. -/
def roundHalfAway (x : Scalar) : Scalar :=
  match x.unpacked with
  | .finite s m e _ =>
    if 0 ≤ e then x
    else
      let places := (-e).toNat
      let whole := (m + (1 <<< (places - 1))) >>> places
      ofUnpacked (.normalize Format.binary32 (s.apply whole) 0 s)
  | _ => x

end Scalar

end BrushlessDrive
