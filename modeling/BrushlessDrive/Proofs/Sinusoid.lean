import BrushlessDrive.Sinusoid
import Mathlib.Algebra.Order.Ring.Abs
import Mathlib.Data.Rat.Cast.Order
import Mathlib.Tactic.Linarith
import Mathlib.Tactic.NormNum
import Mathlib.Tactic.Positivity
import Mathlib.Tactic.Ring

/-!
# The length of the sinusoid

The point that `Sinusoid.cosSin` gives for a phase word is on the circle of radius `2 ^ 31`, up to a
20000th in the square of the radius, and inside it (`cosSin_length`): so no coordinate overflows.

The table has points on this circle (`table_length`). The interpolation moves such a point along the tangent
by a small angle, which leaves the circle by the square of the angle only (`turned_length`). What is cut off
behind the integers is next to nothing (`octant_length`), and to unfold the octant changes no length.
-/

set_option autoImplicit false

namespace BrushlessDrive

/-! ## Squares of lengths -/

theorem abs_sq_sub_sq_le {p q b ε : ℚ} (h : |p - q| ≤ ε) (hq : |q| ≤ b) :
    |p ^ 2 - q ^ 2| ≤ ε * (2 * b + ε) := by
  have hs : |p + q| ≤ 2 * b + ε := by
    calc |p + q| = |2 * q + (p - q)| := by ring_nf
      _ ≤ |2 * q| + |p - q| := abs_add_le _ _
      _ ≤ 2 * b + ε := by
        rw [abs_mul, abs_two]
        linarith
  calc |p ^ 2 - q ^ 2| = |p - q| * |p + q| := by rw [← abs_mul]; ring_nf
    _ ≤ ε * (2 * b + ε) := mul_le_mul h hs (abs_nonneg _) ((abs_nonneg _).trans h)

theorem abs_length_sub_le {x y p q b ε : ℚ} (hx : |x - p| ≤ ε) (hy : |y - q| ≤ ε) (hb : 0 ≤ b)
    (h : p ^ 2 + q ^ 2 ≤ b ^ 2) :
    |x ^ 2 + y ^ 2 - (p ^ 2 + q ^ 2)| ≤ 2 * (ε * (2 * b + ε)) := by
  have hp : |p| ≤ b := abs_le_of_sq_le_sq (by linarith [sq_nonneg q]) hb
  have hq : |q| ≤ b := abs_le_of_sq_le_sq (by linarith [sq_nonneg p]) hb
  calc |x ^ 2 + y ^ 2 - (p ^ 2 + q ^ 2)| = |(x ^ 2 - p ^ 2) + (y ^ 2 - q ^ 2)| := by ring_nf
    _ ≤ |x ^ 2 - p ^ 2| + |y ^ 2 - q ^ 2| := abs_add_le _ _
    _ ≤ 2 * (ε * (2 * b + ε)) := by linarith [abs_sq_sub_sq_le hx hp, abs_sq_sub_sq_le hy hq]

namespace Sinusoid

/-! ## The folded angle -/

theorem position_bounds (phase : UInt32) :
    (position phase).1 < 128 ∧ -2 ^ 14 ≤ (position phase).2 ∧ (position phase).2 < 2 ^ 14 := by
  unfold position
  generalize (if phase &&& 0x20000000 = 0 then phase else ~~~phase) = folded
  have hand := Nat.and_le_right (n := ((folded <<< 3) >>> 10 : UInt32).toNat) (m := 0x7fff)
  have hlt := (folded <<< 3).toNat_lt
  simp only [UInt32.toNat_shiftRight, UInt32.toNat_and, UInt32.reduceToNat, Nat.reduceMod,
    Nat.shiftRight_eq_div_pow] at hand ⊢
  omega

/-- The angle, on the scale `2 ^ 22`, is no more than the half of a part of the table. -/
theorem angle_bounds {offset : ℤ} (hlo : -2 ^ 14 ≤ offset) (hhi : offset < 2 ^ 14) :
    -12868 ≤ (offset * 51471) >>> (16 : ℕ) ∧ (offset * 51471) >>> (16 : ℕ) ≤ 12868 := by
  rw [Int.shiftRight_eq_div_pow]
  omega

/-! ## The table -/

/-- The cosines are on twice the scale of the sines. -/
theorem table_length : ∀ part < 128,
    2 ^ 34 ≤ (cosines.getD part 0 + 65536) ^ 2 + 4 * sines.getD part 0 ^ 2 + 770000 ∧
      (cosines.getD part 0 + 65536) ^ 2 + 4 * sines.getD part 0 ^ 2 + 300000 ≤ 2 ^ 34 := by
  decide +kernel

/-! ## The interpolation -/

/-- A point that is moved along the tangent, by `a / 2 ^ 22` of its length. -/
theorem turned_length (c s a : ℚ) :
    (c * 2 ^ 14 - s * a / 2 ^ 7) ^ 2 + (s * 2 ^ 15 + c * a / 2 ^ 8) ^ 2 =
      (c ^ 2 + 4 * s ^ 2) * (2 ^ 28 + a ^ 2 / 2 ^ 16) := by
  ring

theorem turned_length_bounds {c s a : ℚ} (hlo : 2 ^ 34 ≤ c ^ 2 + 4 * s ^ 2 + 770000)
    (hhi : c ^ 2 + 4 * s ^ 2 + 300000 ≤ 2 ^ 34) (ha : a ^ 2 ≤ 12868 ^ 2) :
    2 ^ 62 - 770000 * 2 ^ 28 ≤ (c * 2 ^ 14 - s * a / 2 ^ 7) ^ 2 + (s * 2 ^ 15 + c * a / 2 ^ 8) ^ 2 ∧
      (c * 2 ^ 14 - s * a / 2 ^ 7) ^ 2 + (s * 2 ^ 15 + c * a / 2 ^ 8) ^ 2 ≤ 2 ^ 62 - 2 ^ 45 := by
  rw [turned_length]
  constructor
  · calc (2 : ℚ) ^ 62 - 770000 * 2 ^ 28 = (2 ^ 34 - 770000) * 2 ^ 28 := by norm_num
      _ ≤ (c ^ 2 + 4 * s ^ 2) * (2 ^ 28 + a ^ 2 / 2 ^ 16) := by
        refine mul_le_mul (by linarith) ?_ (by norm_num) (by positivity)
        linarith [div_nonneg (sq_nonneg a) (by norm_num : (0 : ℚ) ≤ 2 ^ 16)]
  · calc (c ^ 2 + 4 * s ^ 2) * (2 ^ 28 + a ^ 2 / 2 ^ 16)
        ≤ (2 ^ 34 - 300000) * (2 ^ 28 + 12868 ^ 2 / 2 ^ 16) := by
          refine mul_le_mul (by linarith) ?_ (by positivity) (by norm_num)
          linarith [div_le_div_of_nonneg_right ha (by norm_num : (0 : ℚ) ≤ 2 ^ 16)]
      _ ≤ 2 ^ 62 - 2 ^ 45 := by norm_num

theorem abs_shiftRight_sub_le (n : ℤ) (k : ℕ) : |((n >>> k : ℤ) : ℚ) - n / 2 ^ k| ≤ 1 := by
  have hk : (0 : ℤ) < 2 ^ k := by positivity
  have hk' : (0 : ℚ) < 2 ^ k := by positivity
  have hlo : ((n / 2 ^ k : ℤ) : ℚ) * 2 ^ k ≤ n := by exact_mod_cast Int.ediv_mul_le n hk.ne'
  have hhi : (n : ℚ) ≤ ((n / 2 ^ k : ℤ) + 1) * 2 ^ k := by
    exact_mod_cast (Int.lt_ediv_add_one_mul_self n hk).le
  rw [Int.shiftRight_eq_div_pow, abs_le]
  push_cast
  constructor
  · linarith [(div_le_iff₀ hk').2 hhi]
  · linarith [(le_div_iff₀ hk').2 hlo]

theorem octant_length {part : ℕ} {offset : ℤ} (hp : part < 128) (hlo : -2 ^ 14 ≤ offset)
    (hhi : offset < 2 ^ 14) :
    19999 * 2 ^ 62 ≤ 20000 * ((octant part offset).1 ^ 2 + (octant part offset).2 ^ 2) ∧
      (octant part offset).1 ^ 2 + (octant part offset).2 ^ 2 < 2 ^ 62 := by
  obtain ⟨htlo, hthi⟩ := table_length part hp
  obtain ⟨halo, hahi⟩ := angle_bounds hlo hhi
  unfold octant
  dsimp only
  generalize (offset * 51471) >>> (16 : ℕ) = a at *
  generalize cosines.getD part 0 = n at *
  generalize sines.getD part 0 = m at *
  have hx := abs_shiftRight_sub_le (m * a) 7
  have hy := abs_shiftRight_sub_le ((n + 65536) * a) 8
  generalize (m * a : ℤ) >>> (7 : ℕ) = u at *
  generalize ((n + 65536) * a : ℤ) >>> (8 : ℕ) = v at *
  push_cast at hx hy
  have ha : (a : ℚ) ^ 2 ≤ 12868 ^ 2 := by exact_mod_cast sq_le_sq' halo hahi
  obtain ⟨hmin, hmax⟩ := turned_length_bounds (c := n + 65536) (s := m) (by exact_mod_cast htlo)
    (by exact_mod_cast hthi) ha
  have hnear := abs_le.1 (abs_length_sub_le (x := (n + 65536) * 16384 - u) (y := m * 32768 + v)
    (b := 2 ^ 31) (ε := 1) (by rw [← abs_neg]; convert hx using 2; ring)
    (by convert hy using 2; ring) (by norm_num) (hmax.trans (by norm_num)))
  constructor
  · have h : (19999 * 2 ^ 62 : ℚ) ≤ 20000 * (((n + 65536) * 16384 - u) ^ 2 + (m * 32768 + v) ^ 2) := by
      linarith [hnear.1]
    exact_mod_cast h
  · have h : (((n + 65536) * 16384 - u) ^ 2 + (m * 32768 + v) ^ 2 : ℚ) < 2 ^ 62 := by
      linarith [hnear.2]
    exact_mod_cast h

/-! ## The whole turn -/

/-- Within the circle a coordinate and its negative are 32-bit integers. -/
theorem toInt_ofInt_of_sq_lt {n : ℤ} (h : n ^ 2 < 2 ^ 62) : (Int32.ofInt n).toInt = n := by
  have hb : n ^ 2 < (2 ^ 31) ^ 2 := h.trans_eq (by norm_num)
  obtain ⟨hlo, hhi⟩ := abs_lt.1 (abs_lt_of_sq_lt_sq hb (by norm_num))
  exact Int32.toInt_ofInt_of_le hlo.le hhi

theorem sq_toInt_ofInt_ite {n : ℤ} (h : n ^ 2 < 2 ^ 62) (p : Prop) [Decidable p] :
    (Int32.ofInt (if p then n else -n)).toInt ^ 2 = n ^ 2 := by
  split
  · rw [toInt_ofInt_of_sq_lt h]
  · rw [toInt_ofInt_of_sq_lt (by rwa [neg_sq]), neg_sq]

theorem cosSin_length (phase : UInt32) :
    19999 * 2 ^ 62 ≤ 20000 * ((cosSin phase).1.toInt ^ 2 + (cosSin phase).2.toInt ^ 2) ∧
      (cosSin phase).1.toInt ^ 2 + (cosSin phase).2.toInt ^ 2 < 2 ^ 62 := by
  obtain ⟨hp, hlo, hhi⟩ := position_bounds phase
  have hlen := octant_length hp hlo hhi
  unfold cosSin
  dsimp only
  generalize octant (position phase).1 (position phase).2 = point at *
  obtain ⟨x, y⟩ := point
  have hx : x ^ 2 < 2 ^ 62 := by linarith [sq_nonneg y]
  have hy : y ^ 2 < 2 ^ 62 := by linarith [sq_nonneg x]
  by_cases hswap : (phase ^^^ (phase >>> 1)) &&& 0x20000000 = 0
  · simp only [hswap, if_true, sq_toInt_ofInt_ite hx, sq_toInt_ofInt_ite hy]
    exact hlen
  · simp only [hswap, if_false, sq_toInt_ofInt_ite hx, sq_toInt_ofInt_ite hy]
    rwa [add_comm]

end Sinusoid

end BrushlessDrive
