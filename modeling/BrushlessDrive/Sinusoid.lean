/-!
# Sine and cosine of a phase word

A 32-bit word holds an angle as a part of the turn: `2 ^ 32` words make a full turn. `cosSin` gives
both functions of such an angle as integers on the scale `2 ^ 31`. The angle is folded into the
first octant, where a table of 128 midpoints is interpolated to first order, each function with the
other one as its slope; the octant then says which of the two is which and with what sign.
-/

set_option autoImplicit false

namespace BrushlessDrive.Sinusoid

/-- The sine at the middle of each of 128 equal parts of the octant, on the scale 65535. -/
def sines : Array Nat :=
  #[201, 603, 1005, 1407, 1809, 2211, 2613, 3015, 3416, 3818,
    4219, 4621, 5022, 5422, 5823, 6223, 6624, 7024, 7423, 7823,
    8222, 8620, 9019, 9417, 9815, 10212, 10609, 11006, 11402, 11798,
    12193, 12588, 12982, 13376, 13770, 14163, 14555, 14947, 15338, 15729,
    16119, 16508, 16897, 17285, 17673, 18060, 18446, 18831, 19216, 19600,
    19984, 20366, 20748, 21129, 21509, 21889, 22267, 22645, 23022, 23398,
    23773, 24147, 24521, 24893, 25265, 25635, 26005, 26374, 26741, 27108,
    27473, 27838, 28201, 28564, 28925, 29286, 29645, 30003, 30360, 30716,
    31070, 31424, 31776, 32127, 32477, 32826, 33173, 33519, 33864, 34208,
    34550, 34891, 35231, 35569, 35906, 36242, 36576, 36909, 37241, 37571,
    37900, 38227, 38553, 38877, 39200, 39522, 39842, 40161, 40478, 40793,
    41107, 41419, 41730, 42039, 42347, 42653, 42958, 43261, 43562, 43861,
    44159, 44456, 44750, 45043, 45334, 45624, 45912, 46198]

/-- The cosine at the same places, as `(2 * cos - 1) * 65535 - 1`: over the octant a cosine is at
least a half, and this keeps one bit more of it. -/
def cosines : Array Nat :=
  #[65533, 65528, 65519, 65504, 65484, 65459, 65430, 65395, 65356, 65311,
    65262, 65208, 65149, 65085, 65016, 64942, 64863, 64779, 64690, 64597,
    64498, 64395, 64287, 64174, 64056, 63933, 63805, 63672, 63535, 63393,
    63245, 63093, 62936, 62775, 62608, 62437, 62261, 62080, 61894, 61703,
    61508, 61307, 61103, 60893, 60678, 60459, 60235, 60006, 59773, 59535,
    59292, 59044, 58792, 58535, 58273, 58007, 57736, 57461, 57180, 56896,
    56606, 56312, 56013, 55710, 55402, 55090, 54773, 54452, 54126, 53796,
    53461, 53121, 52777, 52429, 52076, 51719, 51358, 50992, 50621, 50246,
    49867, 49484, 49096, 48704, 48308, 47907, 47502, 47093, 46679, 46262,
    45840, 45414, 44983, 44549, 44110, 43668, 43221, 42770, 42315, 41856,
    41393, 40926, 40455, 39979, 39500, 39017, 38530, 38039, 37545, 37046,
    36543, 36037, 35527, 35013, 34495, 33974, 33448, 32919, 32386, 31850,
    31310, 30766, 30219, 29668, 29113, 28555, 27994, 27428]

/-- The angle folded into the first octant, as the part of the table (7 bits) and the distance from
its middle (15 bits, signed). -/
def position (phase : UInt32) : Nat × Int :=
  let folded := if phase &&& 0x20000000 = 0 then phase else ~~~phase
  let place := (folded <<< 3) >>> 10
  ((place >>> 15).toNat, (place &&& 0x7fff).toNat - 0x4000)

/-- Cosine and sine of the folded angle, on the scale `2 ^ 31`. -/
def octant (part : Nat) (offset : Int) : Int × Int :=
  let angle := (offset * 51471) >>> (16 : Nat)
  let cos : Int := cosines.getD part 0 + 65536
  let sin : Int := sines.getD part 0
  (cos * 16384 - (sin * angle) >>> (7 : Nat), sin * 32768 + (cos * angle) >>> (8 : Nat))

/-- Cosine and sine of a phase word, on the scale `2 ^ 31`, which they stay below. -/
def cosSin (phase : UInt32) : Int32 × Int32 :=
  let (part, offset) := position phase
  let (near, far) := octant part offset
  let turn := phase ^^^ (phase >>> 1)
  let (cos, sin) := if turn &&& 0x20000000 = 0 then (near, far) else (far, near)
  (.ofInt (if turn &&& 0x40000000 = 0 then cos else -cos),
   .ofInt (if turn &&& 0x80000000 = 0 then sin else -sin))

end BrushlessDrive.Sinusoid
