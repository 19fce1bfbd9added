import BrushlessDrive.Proofs.Scalar.Sum

/-!
# The upper end of the range

A result that is not below zero is an infinity from `overflowLimit` on, the midpoint between the greatest
number of the format and `2 ^ 128`: the tie goes to the even neighbour, which is out of the range.
-/

set_option autoImplicit false

namespace BrushlessDrive

open Float.Model (UnpackedFloat)
open Float.Model.UnpackedFloat (Sign)

namespace Binary32

def overflowLimit : ℚ := 2 ^ 128 - 2 ^ 103

theorem nearest_overflowLimit : nearest overflowLimit = 2 ^ 128 := by
  have hu : ulpExponent overflowLimit = 104 := by
    rw [ulpExponent_eq (k := 127)] <;> norm_num [overflowLimit]
  have hr : IsRounded (overflowLimit / 2 ^ (104 : ℤ)) (2 ^ 24) := by
    constructor <;> norm_num [overflowLimit]
  rw [nearest, hu, roundEven_eq hr]
  norm_num

theorem nearest_lt_iff {q : ℚ} (h : 0 ≤ q) : nearest q < 2 ^ 128 ↔ q < overflowLimit := by
  constructor
  · intro hn
    by_contra hq
    have := nearest_mono (not_lt.1 hq)
    rw [nearest_overflowLimit] at this
    linarith
  · intro hq
    unfold overflowLimit at hq
    have he : |nearest q - q| ≤ 2 ^ ((128 : ℤ) - 25) :=
      abs_nearest_sub_le (by norm_num) (by rw [abs_of_nonneg h]; norm_num at hq ⊢; linarith)
    have := (abs_le.1 he).2
    norm_num at this hq ⊢
    linarith

end Binary32

namespace Scalar

open Binary32

variable {x y : Scalar} {q : ℚ}

theorem IsNearest.isFinite_iff (h : IsNearest x q) (hq : 0 ≤ q) :
    x.isFinite = true ↔ q < overflowLimit := by
  rw [Scalar.isFinite_iff, and_iff_right h.not_nan, abs_of_nonneg (val_nonneg (h.nonneg hq)), h.val_eq,
    ← nearest_lt_iff hq, rounded, saturate]
  have := nearest_nonneg hq
  rw [max_eq_right (le_min (by linarith) (by norm_num)), min_lt_iff, or_iff_left (lt_irrefl _)]

protected theorem zero_lt_one : (0 : Scalar) < 1 := by decide +kernel

theorem one_le_val (h : 1 ≤ x) : 1 ≤ x.val := by
  rwa [le_iff rfl (isNaN_of_le h).2, val_one] at h

theorem isNearest_signed_infinity (s : Sign) (h : 2 ^ 128 ≤ q) :
    IsNearest (ofUnpacked (.infinity s)) (signum s * q) := by
  have hpos := isNearest_infinity h
  cases s with
  | positive => rwa [signum, one_mul]
  | negative =>
    refine ⟨isNaN_of_infinity (unpacked_infinity .negative), ?_⟩
    rw [signum, neg_one_mul, rounded_neg, ← hpos.val_eq, val_of_infinity (unpacked_infinity .positive),
      val, unpacked_infinity, value_infinity, signum, neg_one_mul]

/-- An infinity stands for the end of the range, and stays beyond it when it is not lessened. -/
theorem isNearest_mul_of_one_le (hx : x.isNaN = false) (hf : y.isFinite = true) (hy : 1 ≤ y) :
    IsNearest (x * y) (x.val * y.val) := by
  obtain hxf | ⟨s, hi⟩ := isFinite_or_infinity hx
  · exact isNearest_mul hxf hf
  obtain ⟨m, e, hm, hy'⟩ := finite_of_pos (Scalar.lt_of_lt_of_le Scalar.zero_lt_one hy) hf
  have hv : x.val = signum s * 2 ^ 128 := congrArg value hi
  have hs : s * .positive = s := by cases s <;> rfl
  have hp : x * y = ofUnpacked (.infinity s) := by
    rw [mul_eq, hi, hy']
    exact congrArg (fun s => ofUnpacked (.infinity s)) hs
  rw [hp, hv, mul_assoc]
  exact isNearest_signed_infinity s (by linarith [one_le_val hy])

section
variable (hx : 0 ≤ x) (hf : y.isFinite = true) (hy : 1 ≤ y)
include hx hf hy

theorem isFinite_mul_iff_of_one_le : (x * y).isFinite = true ↔ x.val * y.val < overflowLimit :=
  (isNearest_mul_of_one_le (isNaN_of_le hx).2 hf hy).isFinite_iff
    (mul_nonneg (val_nonneg hx) (by linarith [one_le_val hy]))

theorem pos_mul_iff_of_one_le : 0 < x * y ↔ 0 < x := by
  have hn := (isNaN_of_le hx).2
  have hm := isNearest_mul_of_one_le hn hf hy
  constructor
  · intro hpos
    by_contra h0
    have hv : x.val = 0 := le_antisymm ((le_iff hn rfl).1 ((le_iff_not_lt hn rfl).2 h0)) (val_nonneg hx)
    rw [hv, zero_mul] at hm
    exact (le_iff_not_lt hm.not_nan rfl).1 (hm.le rfl le_rfl) hpos
  · intro h
    exact Scalar.lt_of_lt_of_le h
      (hm.ge hn (le_mul_of_one_le_right (val_nonneg hx) (one_le_val hy)))

end

end Scalar

end BrushlessDrive
