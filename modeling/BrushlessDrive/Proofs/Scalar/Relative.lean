import BrushlessDrive.Proofs.Scalar.Sum
import Mathlib.Data.Sign.Basic

/-!
# Relative errors

A result of full precision misses the exact one in proportion to it, whatever its exponent. So the errors of
a computation by products and quotients multiply, and what it makes of a number is that number times a factor
near 1 (`Drift`).
-/

set_option autoImplicit false

namespace BrushlessDrive

namespace Binary32

/-! ## The nearest number -/

theorem IsRounded.near_le {x : ℚ} {n : ℤ} (h : IsRounded x n) (k : ℤ) : |x - n| ≤ |x - k| := by
  by_cases hk : n = k
  · rw [hk]
  have hone : (1 : ℚ) ≤ |(n : ℚ) - k| := by exact_mod_cast Int.one_le_abs (sub_ne_zero.2 hk)
  have htri := abs_sub_le (n : ℚ) x k
  rw [abs_sub_comm (n : ℚ) x] at htri
  linarith [h.near]

theorem abs_nearest_sub_le_mul_ulp (q : ℚ) (k : ℤ) :
    |nearest q - q| ≤ |k * 2 ^ ulpExponent q - q| := by
  have hu := ulp_pos q
  have hscale (n : ℤ) : |(n : ℚ) * 2 ^ ulpExponent q - q| =
      |q / 2 ^ ulpExponent q - n| * 2 ^ ulpExponent q := by
    rw [← abs_of_pos hu, ← abs_mul, abs_of_pos hu, sub_mul, div_mul_cancel₀ _ hu.ne', abs_sub_comm]
  rw [nearest, hscale, hscale]
  exact mul_le_mul_of_nonneg_right ((isRounded_roundEven _).near_le k) hu.le

theorem abs_nearest_sub_le_of_representable {r : ℚ} (hr : Representable r) (q : ℚ) :
    |nearest q - q| ≤ |r - q| := by
  rcases lt_or_ge (ulpExponent r) (ulpExponent q) with hlt | hge
  · rcases eq_or_ne q 0 with rfl | hq
    · simp
    -- `r` has fewer places than `q`, so that a power of two, which is a multiple of the last place of `q`,
    -- lies between the two
    have hlow : -149 ≤ ulpExponent r := le_max_right _ _
    have hfull := ulp_le_abs hq (by omega)
    have hless := abs_lt_ulp r
    have hstep : (2 : ℚ) ^ (ulpExponent r + (1 : ℕ)) ≤ 2 ^ ulpExponent q :=
      zpow_le_zpow_right₀ (by norm_num) (by omega)
    rw [two_zpow_add] at hstep
    have hr' := abs_lt.1 (hless.trans_le (by linarith : _ ≤ 2 ^ 23 * (2 : ℚ) ^ ulpExponent q))
    rcases le_total 0 q with h0 | h0
    · rw [abs_of_nonneg h0] at hfull
      refine (abs_nearest_sub_le_mul_ulp q (2 ^ 23)).trans ?_
      push_cast
      rw [abs_of_nonpos (by linarith), abs_of_nonpos (by linarith)]
      linarith
    · rw [abs_of_nonpos h0] at hfull
      refine (abs_nearest_sub_le_mul_ulp q (-2 ^ 23)).trans ?_
      push_cast
      rw [abs_of_nonneg (by linarith), abs_of_nonneg (by linarith)]
      linarith
  · obtain ⟨n, hn⟩ := hr.ulp_mul
    obtain ⟨d, hd⟩ := Int.le.dest hge
    have hmul : r = ((n * 2 ^ d : ℤ) : ℚ) * 2 ^ ulpExponent q := by
      rw [hn, ← hd, two_zpow_add]
      push_cast
      ring
    rw [hmul]
    exact abs_nearest_sub_le_mul_ulp q _

/-! ## Errors in proportion to the result -/

theorem le_abs_nearest {b q : ℚ} (hb : Representable b) (h : b ≤ |q|) : b ≤ |nearest q| := by
  rcases abs_choice q with ha | ha <;> rw [ha] at h
  · exact (le_nearest hb h).trans (le_abs_self _)
  · have hn := le_nearest hb h
    rw [nearest_neg] at hn
    exact hn.trans (neg_le_abs _)

theorem abs_nearest_sub_le_result {q : ℚ} (h : 2 ^ (-126 : ℤ) ≤ |nearest q|) :
    |nearest q - q| ≤ |nearest q| / 2 ^ 24 := by
  have hfull : 2 ^ 23 * 2 ^ ulpExponent q ≤ |nearest q| := by
    have hlow : -149 ≤ ulpExponent q := le_max_right _ _
    rcases hlow.eq_or_lt with he | hlt
    · rw [← he, ← two_zpow_add]
      exact h
    · have hq : q ≠ 0 := by
        rintro rfl
        rw [nearest_zero, abs_zero] at h
        exact absurd h (not_le.2 (zpow_pos (by norm_num) _))
      refine le_abs_nearest ?_ (ulp_le_abs hq hlt)
      rw [← two_zpow_add]
      exact representable_two_zpow (by omega)
  have := abs_nearest_sub_le_ulp q
  rw [le_div_iff₀ (by norm_num)]
  linarith

/-! ## Factors -/

/-- The least part of a number that a rounding keeps. -/
def kept : ℚ := 1 - 1 / 2 ^ 24

theorem kept_pos : 0 < kept := by norm_num [kept]

/-- What `n` roundings can make of 1 when each of its results is multiplied or divided by. -/
structure Drift (n : ℕ) (u : ℚ) : Prop where
  lower : kept ^ n ≤ u
  upper : u * kept ^ n ≤ 1

namespace Drift

variable {m n : ℕ} {u v : ℚ}

protected theorem pos (h : Drift n u) : 0 < u := (pow_pos kept_pos n).trans_le h.lower

theorem mono (h : Drift m u) (hmn : m ≤ n) : Drift n u := by
  have hle : kept ^ n ≤ kept ^ m :=
    pow_le_pow_of_le_one kept_pos.le (by norm_num [kept]) hmn
  exact ⟨hle.trans h.lower, (mul_le_mul_of_nonneg_left hle h.pos.le).trans h.upper⟩

theorem mul (hu : Drift m u) (hv : Drift n v) : Drift (m + n) (u * v) := by
  have hm := pow_pos kept_pos m
  have hn := pow_pos kept_pos n
  refine ⟨?_, ?_⟩
  · rw [pow_add]
    exact mul_le_mul hu.lower hv.lower hn.le hu.pos.le
  · calc u * v * kept ^ (m + n) = (u * kept ^ m) * (v * kept ^ n) := by ring
      _ ≤ 1 := mul_le_one₀ hu.upper (mul_nonneg hv.pos.le hn.le) hv.upper

theorem inv (h : Drift n u) : Drift n u⁻¹ := by
  have hu := h.pos
  refine ⟨?_, ?_⟩
  · rw [le_inv_comm₀ (pow_pos kept_pos n) hu, ← one_div, le_div_iff₀ (pow_pos kept_pos n)]
    exact h.upper
  · rw [inv_mul_le_one₀ hu]
    exact h.lower

theorem of_abs_one_sub_le (h : |1 - u| ≤ 1 / 2 ^ 24) : Drift 1 u := by
  obtain ⟨hlo, hhi⟩ := abs_le.1 h
  constructor <;> norm_num [kept] at hlo hhi ⊢ <;> linarith

theorem abs_sub_one_le (h : Drift 4 u) : |u - 1| ≤ 1 / 2 ^ 21 := by
  have hlo := h.lower
  have hhi := h.upper
  rw [kept] at hlo hhi
  rw [abs_le]
  norm_num at hlo hhi ⊢
  constructor <;> linarith

theorem le_of_four (h : Drift 4 u) : u ≤ 1 + 1 / 2 ^ 21 :=
  sub_le_iff_le_add'.1 ((le_abs_self _).trans h.abs_sub_one_le)

end Drift

end Binary32

namespace Scalar

open Binary32
open Float.Model (Format UnpackedFloat)

variable {x y : Scalar} {q u : ℚ}

structure IsNormal (x : Scalar) : Prop where
  isFinite : x.isFinite = true
  full : 2 ^ (-126 : ℤ) ≤ |x.val|

instance (x : Scalar) : Decidable (IsNormal x) :=
  decidable_of_iff (x.isFinite = true ∧ 2 ^ (-126 : ℤ) ≤ |x.val|)
    ⟨fun h => ⟨h.1, h.2⟩, fun h => ⟨h.isFinite, h.full⟩⟩

theorem IsNormal.ne_zero (h : IsNormal x) : x.val ≠ 0 := by
  have hpos : (0 : ℚ) < 2 ^ (-126 : ℤ) := zpow_pos (by norm_num) _
  exact abs_pos.1 (hpos.trans_le h.full)

theorem IsNormal.pos (h : IsNormal x) (h0 : 0 ≤ x) : 0 < x :=
  (pos_iff (isNaN_of_isFinite h.isFinite)).2 ((val_nonneg h0).lt_of_ne' h.ne_zero)

theorem IsNearest.drift (h : IsNearest x q) (hx : IsNormal x) : ∃ u, Drift 1 u ∧ x.val = q * u := by
  have hv := h.val_of_isFinite hx.isFinite
  have hx0 := hx.ne_zero
  have herr : |x.val - q| ≤ |x.val| / 2 ^ 24 := by
    have hfull := hx.full
    rw [hv] at hfull ⊢
    exact abs_nearest_sub_le_result hfull
  -- the exact result over the rounded one is near 1
  have hdiv : |1 - q / x.val| ≤ 1 / 2 ^ 24 := by
    rw [one_sub_div hx0, abs_div, div_le_iff₀ (abs_pos.2 hx0), one_div_mul_eq_div]
    exact herr
  have hdrift : Drift 1 (q / x.val) := .of_abs_one_sub_le hdiv
  have hq0 : q ≠ 0 := by
    rintro rfl
    rw [zero_div] at hdrift
    exact hdrift.pos.false
  exact ⟨_, hdrift.inv, by rw [inv_div, mul_div_cancel₀ _ hq0]⟩

theorem IsNormal.mul_drift (h : IsNormal (x * y)) :
    ∃ u, Drift 1 u ∧ (x * y).val = x.val * y.val * u := by
  obtain ⟨hx, hy⟩ := isFinite_of_mul h.isFinite
  exact (isNearest_mul hx hy).drift h

/-- A dividend is finite where the quotient is: that of an infinity is an infinity, or no number. -/
theorem isFinite_of_div (h : (x / y).isFinite = true) : x.isFinite = true := by
  have hd : (UnpackedFloat.div Format.binary32 x.unpacked y.unpacked).isFinite = true :=
    isFinite_of_ofUnpacked h
  rw [isFinite_eq]
  cases hx : x.unpacked <;> cases hy : y.unpacked <;> rw [hx, hy] at hd <;> first | rfl | cases hd

theorem IsNormal.div_drift (h : IsNormal (x / y)) (hy : y.isFinite = true) (hy0 : y.val ≠ 0) :
    ∃ u, Drift 1 u ∧ (x / y).val = x.val / y.val * u :=
  (isNearest_div (isFinite_of_div h.isFinite) hy hy0).drift h

/-! ## Numbers that come back -/

/-- `y` is `x` again, up to `2 ^ -20` of it. -/
structure Recovers (y x : Scalar) : Prop where
  isFinite : y.isFinite = true
  near : |y.val - x.val| ≤ |x.val| / 2 ^ 20
  sign : SignType.sign y.val = SignType.sign x.val

theorem sign_eq_of_near {p q : ℚ} (h : |p - q| ≤ |q| / 2 ^ 20) :
    SignType.sign p = SignType.sign q := by
  obtain ⟨hlo, hhi⟩ := abs_le.1 h
  rcases lt_trichotomy q 0 with hq | rfl | hq
  · rw [abs_of_neg hq] at hhi
    rw [sign_neg hq, sign_neg (by linarith)]
  · rw [abs_zero] at hlo hhi
    rw [le_antisymm (by linarith) (by linarith : 0 ≤ p)]
  · rw [abs_of_pos hq] at hlo
    rw [sign_pos hq, sign_pos (by linarith)]

/-- The last rounding adds no more than the drift so far, as `x` itself is a number of the format. -/
theorem IsNearest.recovers (h : IsNearest y (x.val * u)) (hu : Drift 4 u) (hx : x.isFinite = true)
    (hy : y.isFinite = true) : Recovers y x := by
  have hv := h.val_of_isFinite hy
  have hround := abs_nearest_sub_le_of_representable (representable_val hx) (x.val * u)
  have hdrift : |x.val * u - x.val| ≤ |x.val| / 2 ^ 21 := by
    rw [← mul_sub_one, abs_mul, div_eq_mul_one_div]
    exact mul_le_mul_of_nonneg_left hu.abs_sub_one_le (abs_nonneg _)
  have htri := abs_sub_le y.val (x.val * u) x.val
  rw [← hv] at hround
  rw [abs_sub_comm x.val] at hround
  have hnear : |y.val - x.val| ≤ |x.val| / 2 ^ 20 := by linarith
  exact ⟨hy, hnear, sign_eq_of_near hnear⟩

theorem representable_kept : Representable (kept * 2 ^ 128) :=
  ⟨2 ^ 24 - 1, 104, by norm_num, by norm_num, by norm_num [kept]⟩

theorem IsNearest.isFinite_of_abs_le_kept (h : IsNearest y q) (hq : |q| ≤ kept * 2 ^ 128) :
    y.isFinite = true :=
  (h.abs_le representable_kept (by norm_num [kept]) hq).1

/-- A number that can be doubled does not come back as an infinity. -/
theorem IsNearest.recovers_of_double {a : Scalar} {c v : ℚ} (h : IsNearest y (x.val * u))
    (hu : Drift 4 u) (hx : x.isFinite = true) (ha : a.isFinite = true) (hav : a.val = x.val * c * v)
    (hc : 2 ≤ c) (hv : Drift 1 v) : Recovers y x := by
  have hx0 := abs_nonneg x.val
  have hdouble : |x.val| * 2 * kept ^ 1 < 2 ^ 128 :=
    calc |x.val| * 2 * kept ^ 1 ≤ |x.val| * c * v :=
          mul_le_mul (mul_le_mul_of_nonneg_left hc hx0) hv.lower (pow_pos kept_pos 1).le (by positivity)
      _ = |a.val| := by
          rw [hav, abs_mul, abs_mul, abs_of_pos (by linarith : 0 < c), abs_of_pos hv.pos]
      _ < 2 ^ 128 := abs_val_lt ha
  refine h.recovers hu hx (h.isFinite_of_abs_le_kept ?_)
  rw [abs_mul, abs_of_pos hu.pos]
  calc |x.val| * u ≤ |x.val| * (1 + 1 / 2 ^ 21) := mul_le_mul_of_nonneg_left hu.le_of_four hx0
    _ ≤ kept * 2 ^ 128 := by
        norm_num [kept] at hdouble ⊢
        linarith

/-- Nor does one that is not too near to the end of the range, if it was rounded once. -/
theorem IsNearest.isFinite_of_le (h : IsNearest y (x.val * u)) (hu : Drift 1 u)
    (hx : |x.val| ≤ (1 - 1 / 2 ^ 20) * 2 ^ 128) : y.isFinite = true := by
  refine h.isFinite_of_abs_le_kept ?_
  rw [abs_mul, abs_of_pos hu.pos]
  calc |x.val| * u ≤ kept * 2 ^ 128 * kept * u :=
        mul_le_mul_of_nonneg_right (hx.trans (by norm_num [kept])) hu.pos.le
    _ = kept * 2 ^ 128 * (u * kept ^ 1) := by ring
    _ ≤ kept * 2 ^ 128 := mul_le_of_le_one_right (by norm_num [kept]) hu.upper

end Scalar

end BrushlessDrive
