import BrushlessDrive.Proofs.Scalar.Packing
import BrushlessDrive.Scalar

/-!
# The value of a scalar

`Scalar.val` is the rational number that a scalar stands for; infinities stand for `± 2 ^ 128`, the
first powers of two that are out of reach. With it the scalars are a part of the rational line:

* `Scalar.lt_iff`, `Scalar.le_iff`: comparisons are those of the values.
* `Scalar.IsNearest`: the scalar is the rounded form of a rational number, an infinity if that is too
  great. Sums, differences, products and quotients of finite scalars are that of the exact results
  (`isNearest_add` and so on), and the result is finite if it is small enough
  (`IsNearest.isFinite`).
-/

set_option autoImplicit false

namespace BrushlessDrive

open Float.Model (Format UnpackedFloat)
open Float.Model.UnpackedFloat (Sign)

namespace Binary32

/-! ## Order of unpacked numbers -/

/-- What a scalar can hold that is a number. -/
def Ordered (x : UnpackedFloat) : Prop :=
  (∃ s, x = .infinity s) ∨ Canonical x ∧ |value x| < 2 ^ 128

/-- Of two canonical numbers the one with the greater exponent is greater. -/
theorem magnitude_lt {s t : Sign} {m n : ℕ} {e f : ℤ} {hm : 0 < m} {hn : 0 < n}
    (hx : Canonical (.finite s m e hm)) (hy : Canonical (.finite t n f hn)) (h : e < f) :
    (m : ℚ) * 2 ^ e < n * 2 ^ f := by
  obtain ⟨hlt, hmin, -⟩ := hx
  obtain ⟨-, -, hbits⟩ := hy
  have hb : 2 ^ 23 ≤ n := hbits.resolve_right (by omega)
  have h1 : (m : ℚ) * 2 ^ e < 2 ^ 24 * 2 ^ e :=
    mul_lt_mul_of_pos_right (by exact_mod_cast hlt) (two_zpow_pos e)
  have h2 : (2 : ℚ) ^ 23 * 2 ^ f ≤ n * 2 ^ f :=
    mul_le_mul_of_nonneg_right (by exact_mod_cast hb) (two_zpow_pos f).le
  have h3 : (2 : ℚ) ^ (e + (1 : ℕ)) ≤ 2 ^ f := zpow_le_zpow_right₀ (by norm_num) (by omega)
  rw [two_zpow_add] at h3
  linarith

theorem compare_magnitude {s t : Sign} {m n : ℕ} {e f : ℤ} {hm : 0 < m} {hn : 0 < n}
    (hx : Canonical (.finite s m e hm)) (hy : Canonical (.finite t n f hn)) :
    (compare e f).then (compare m n) = compare ((m : ℚ) * 2 ^ e) (n * 2 ^ f) := by
  rcases lt_trichotomy e f with h | rfl | h
  · rw [compare_lt_iff_lt.2 h, compare_lt_iff_lt.2 (magnitude_lt hx hy h)]
    rfl
  · have he := two_zpow_pos e
    rw [compare_eq_iff_eq.2 (rfl : e = e)]
    rcases lt_trichotomy m n with h | rfl | h
    · have hq : (m : ℚ) * 2 ^ e < n * 2 ^ e := mul_lt_mul_of_pos_right (by exact_mod_cast h) he
      rw [compare_lt_iff_lt.2 hq]
      exact compare_lt_iff_lt.2 h
    · rw [compare_eq_iff_eq.2 (rfl : m = m), compare_eq_iff_eq.2 (rfl : (m : ℚ) * 2 ^ e = _)]
      rfl
    · have hq : (n : ℚ) * 2 ^ e < m * 2 ^ e := mul_lt_mul_of_pos_right (by exact_mod_cast h) he
      rw [compare_gt_iff_gt.2 hq]
      exact compare_gt_iff_gt.2 h
  · rw [compare_gt_iff_gt.2 h, compare_gt_iff_gt.2 (magnitude_lt hy hx h)]
    rfl

theorem compare_neg (p q : ℚ) : compare (-p) (-q) = (compare p q).swap := by
  rcases lt_trichotomy p q with h | rfl | h
  · rw [compare_lt_iff_lt.2 h, compare_gt_iff_gt.2 (neg_lt_neg h)]
    rfl
  · rw [compare_eq_iff_eq.2 (rfl : p = p), compare_eq_iff_eq.2 (rfl : -p = -p)]
    rfl
  · rw [compare_gt_iff_gt.2 h, compare_lt_iff_lt.2 (neg_lt_neg h)]
    rfl

theorem magnitude_pos (m : ℕ) (e : ℤ) (hm : 0 < m) : (0 : ℚ) < m * 2 ^ e :=
  mul_pos (by exact_mod_cast hm) (two_zpow_pos e)

private theorem some_compare_lt {p q : ℚ} (h : p < q) : some Ordering.lt = some (compare p q) :=
  congrArg some (compare_lt_iff_lt.2 h).symm

private theorem some_compare_gt {p q : ℚ} (h : q < p) : some Ordering.gt = some (compare p q) :=
  congrArg some (compare_gt_iff_gt.2 h).symm

theorem compare_canonical {x y : UnpackedFloat} (hx : Canonical x) (hy : Canonical y) :
    x.compare y = some (compare (value x) (value y)) := by
  cases x with
  | infinity s => exact hx.elim
  | notANumber => exact hx.elim
  | zero s =>
    cases y with
    | infinity t => exact hy.elim
    | notANumber => exact hy.elim
    | zero t => exact congrArg some (compare_eq_iff_eq.2 rfl).symm
    | finite t n f hn =>
      have := magnitude_pos n f hn
      cases t
      · exact some_compare_gt (by rw [value_finite, value_zero, signum]; linarith)
      · exact some_compare_lt (by rw [value_finite, value_zero, signum]; linarith)
  | finite s m e hm =>
    have hmp := magnitude_pos m e hm
    cases y with
    | infinity t => exact hy.elim
    | notANumber => exact hy.elim
    | zero t =>
      cases s
      · exact some_compare_lt (by rw [value_finite, value_zero, signum]; linarith)
      · exact some_compare_gt (by rw [value_finite, value_zero, signum]; linarith)
    | finite t n f hn =>
      have hnp := magnitude_pos n f hn
      cases s <;> cases t
      · show some ((compare e f).then (compare m n)).swap = _
        rw [compare_magnitude hx hy, ← compare_neg, value_finite, value_finite]
        simp only [signum, neg_mul, one_mul]
      · refine some_compare_lt ?_
        rw [value_finite, value_finite]
        simp only [signum]
        linarith
      · refine some_compare_gt ?_
        rw [value_finite, value_finite]
        simp only [signum]
        linarith
      · show some ((compare e f).then (compare m n)) = _
        rw [compare_magnitude hx hy, value_finite, value_finite]
        simp only [signum, one_mul]

theorem between_infinities {x : UnpackedFloat} (h : |value x| < 2 ^ 128) :
    value (.infinity .negative) < value x ∧ value x < value (.infinity .positive) := by
  obtain ⟨hlo, hhi⟩ := abs_lt.1 h
  rw [value_infinity, value_infinity, signum, signum, neg_one_mul, one_mul]
  exact ⟨hlo, hhi⟩

theorem compare_spec {x y : UnpackedFloat} (hx : Ordered x) (hy : Ordered y) :
    x.compare y = some (compare (value x) (value y)) := by
  obtain ⟨s, rfl⟩ | ⟨hx, hxv⟩ := hx
  · obtain ⟨t, rfl⟩ | ⟨hy, hyv⟩ := hy
    · cases s <;> cases t <;> simp only [value_infinity, signum]
      · exact congrArg some (compare_eq_iff_eq.2 rfl).symm
      · exact some_compare_lt (by norm_num)
      · exact some_compare_gt (by norm_num)
      · exact congrArg some (compare_eq_iff_eq.2 rfl).symm
    · obtain ⟨hlo, hhi⟩ := between_infinities hyv
      cases y with
      | infinity t => exact hy.elim
      | notANumber => exact hy.elim
      | _ =>
        cases s
        · exact some_compare_lt hlo
        · exact some_compare_gt hhi
  · obtain ⟨t, rfl⟩ | ⟨hy, -⟩ := hy
    · obtain ⟨hlo, hhi⟩ := between_infinities hxv
      cases x with
      | infinity s => exact hx.elim
      | notANumber => exact hx.elim
      | _ =>
        cases t
        · exact some_compare_gt hlo
        · exact some_compare_lt hhi
    · exact compare_canonical hx hy

/-! ## The ends of the format -/

/-- The part of the rational line that the format covers; the infinities stand at its ends. -/
def saturate (q : ℚ) : ℚ := max (-2 ^ 128) (min q (2 ^ 128))

/-- The value of the scalar nearest to `q`. -/
def rounded (q : ℚ) : ℚ := saturate (nearest q)

theorem saturate_of_abs_lt {q : ℚ} (h : |q| < 2 ^ 128) : saturate q = q := by
  obtain ⟨h1, h2⟩ := abs_lt.1 h
  rw [saturate, min_eq_left h2.le, max_eq_right h1.le]

theorem saturate_mono {p q : ℚ} (h : p ≤ q) : saturate p ≤ saturate q :=
  max_le_max_left _ (min_le_min_right _ h)

theorem rounded_mono {p q : ℚ} (h : p ≤ q) : rounded p ≤ rounded q := saturate_mono (nearest_mono h)

theorem saturate_neg (q : ℚ) : saturate (-q) = -saturate q := by
  unfold saturate
  grind

theorem rounded_neg (q : ℚ) : rounded (-q) = -rounded q := by
  rw [rounded, nearest_neg, saturate_neg, rounded]

/-- Below the last power of two nothing is cut off. -/
theorem abs_nearest_lt {q : ℚ} (h : |q| ≤ 2 ^ 127) : |nearest q| < 2 ^ 128 := by
  refine (abs_nearest_le (representable_two_pow 127) h).trans_lt ?_
  norm_num

theorem rounded_of_abs_le {q : ℚ} (h : |q| ≤ 2 ^ 127) : rounded q = nearest q :=
  saturate_of_abs_lt (abs_nearest_lt h)

end Binary32

namespace Scalar

open Binary32

variable {x y : Scalar}

/-! ## Values of scalars -/

def val (x : Scalar) : ℚ := value x.unpacked

theorem unpacked_cases (x : Scalar) : (∃ s, x.unpacked = .infinity s) ∨ x.unpacked = .notANumber ∨
    Canonical x.unpacked ∧ |x.val| < 2 ^ 128 := canonical_unpack _

theorem isNaN_eq (x : Scalar) : x.isNaN = x.unpacked.isNaN := rfl

theorem isFinite_eq (x : Scalar) : x.isFinite = x.unpacked.isFinite := rfl

theorem ordered (h : x.isNaN = false) : Ordered x.unpacked := by
  obtain hi | hn | hc := x.unpacked_cases
  · exact .inl hi
  · rw [isNaN_eq, hn] at h
    cases h
  · exact .inr hc

/-- The finite scalars are the numbers within the ends of the format. -/
theorem isFinite_iff : x.isFinite = true ↔ x.isNaN = false ∧ |x.val| < 2 ^ 128 := by
  rw [isFinite_eq, isNaN_eq]
  obtain ⟨s, hi⟩ | hn | ⟨hc, hv⟩ := x.unpacked_cases
  · rw [val, hi]
    refine iff_of_false Bool.false_ne_true fun h => ?_
    have := h.2
    cases s <;> norm_num [signum] at this
  · rw [hn]
    exact iff_of_false Bool.false_ne_true fun h => Bool.noConfusion h.1
  · rw [and_iff_left hv]
    cases hu : x.unpacked <;> rw [hu] at hc
    · exact hc.elim
    · exact hc.elim
    · exact iff_of_true rfl rfl
    · exact iff_of_true rfl rfl

theorem isNaN_of_isFinite (h : x.isFinite = true) : x.isNaN = false := (isFinite_iff.1 h).1

theorem abs_val_lt (h : x.isFinite = true) : |x.val| < 2 ^ 128 := (isFinite_iff.1 h).2

theorem canonical (h : x.isFinite = true) : Canonical x.unpacked := by
  rw [isFinite_eq] at h
  obtain ⟨s, hi⟩ | hn | ⟨hc, -⟩ := x.unpacked_cases
  · rw [hi] at h
    cases h
  · rw [hn] at h
    cases h
  · exact hc

theorem representable_val (h : x.isFinite = true) : Representable x.val :=
  (canonical h).representable

/-! ## Comparisons -/

theorem lt_iff (hx : x.isNaN = false) (hy : y.isNaN = false) : x < y ↔ x.val < y.val := by
  have h : x < y ↔ x.unpacked.lt y.unpacked = true := by
    show decide (x.unpacked.lt y.unpacked = true) = true ↔ _
    exact decide_eq_true_iff
  rw [h, UnpackedFloat.lt, compare_spec (ordered hx) (ordered hy), beq_iff_eq, Option.some_inj]
  exact compare_lt_iff_lt

theorem le_iff (hx : x.isNaN = false) (hy : y.isNaN = false) : x ≤ y ↔ x.val ≤ y.val := by
  have h : x ≤ y ↔ x.unpacked.le y.unpacked = true := by
    show decide (x.unpacked.le y.unpacked = true) = true ↔ _
    exact decide_eq_true_iff
  rw [h, UnpackedFloat.le, compare_spec (ordered hx) (ordered hy), Option.any_some,
    Ordering.isLE_iff_ne_gt]
  exact compare_le_iff_le

/-- A comparison that holds is not one with a NaN. -/
theorem isNaN_of_le (h : x ≤ y) : x.isNaN = false ∧ y.isNaN = false := by
  have h' : x.unpacked.le y.unpacked = true := of_decide_eq_true h
  rw [isNaN_eq, isNaN_eq]
  cases hx : x.unpacked <;> cases hy : y.unpacked <;> rw [hx, hy] at h' <;>
    first | exact ⟨rfl, rfl⟩ | cases h'

theorem isNaN_of_lt (h : x < y) : x.isNaN = false ∧ y.isNaN = false := by
  have h' : x.unpacked.lt y.unpacked = true := of_decide_eq_true h
  rw [isNaN_eq, isNaN_eq]
  cases hx : x.unpacked <;> cases hy : y.unpacked <;> rw [hx, hy] at h' <;>
    first | exact ⟨rfl, rfl⟩ | cases h'

theorem not_lt_of_isNaN (h : x.isNaN = true ∨ y.isNaN = true) : ¬ x < y := by
  intro hlt
  obtain ⟨hx, hy⟩ := isNaN_of_lt hlt
  rw [hx, hy] at h
  simp at h

theorem not_le_of_isNaN (h : x.isNaN = true ∨ y.isNaN = true) : ¬ x ≤ y := by
  intro hle
  obtain ⟨hx, hy⟩ := isNaN_of_le hle
  rw [hx, hy] at h
  simp at h

/-! ## What is no number -/

theorem unpacked_of_isNaN (h : x.isNaN = true) : x.unpacked = .notANumber := by
  rw [isNaN_eq] at h
  cases hu : x.unpacked <;> rw [hu] at h <;> first | rfl | cases h

theorem val_of_isNaN (h : x.isNaN = true) : x.val = 0 := by
  rw [val, unpacked_of_isNaN h]
  rfl

theorem isNaN_mul (h : x.isNaN = true) (y : Scalar) : (x * y).isNaN = true := by
  have hm : UnpackedFloat.mul Format.binary32 x.unpacked y.unpacked = .notANumber := by
    rw [unpacked_of_isNaN h]
    cases y.unpacked <;> rfl
  have hu : (x * y).unpacked = UnpackedFloat.unpack Format.binary32
      (UnpackedFloat.pack Format.binary32
        (UnpackedFloat.mul Format.binary32 x.unpacked y.unpacked)) := rfl
  rw [isNaN_eq, hu, hm]
  rfl

/-! ## Rounded results -/

/-- `x` is the scalar that a computation with the exact result `q` gives. -/
structure IsNearest (x : Scalar) (q : ℚ) : Prop where
  not_nan : x.isNaN = false
  val_eq : x.val = rounded q

theorem IsNearest.isFinite {q : ℚ} (h : IsNearest x q) (hq : |q| ≤ 2 ^ 127) :
    x.isFinite = true ∧ x.val = nearest q := by
  have hv : x.val = nearest q := by rw [h.val_eq, rounded_of_abs_le hq]
  refine ⟨isFinite_iff.2 ⟨h.not_nan, ?_⟩, hv⟩
  rw [hv]
  exact abs_nearest_lt hq

/-- Rounding does not go beyond a scalar. -/
theorem IsNearest.val_le {q r : ℚ} (h : IsNearest x q) (hr : Representable r) (hb : |r| ≤ 2 ^ 127)
    (hq : q ≤ r) : x.val ≤ r :=
  calc x.val = rounded q := h.val_eq
    _ ≤ rounded r := rounded_mono hq
    _ = r := (rounded_of_abs_le hb).trans (nearest_of_representable hr)

/-- A number of the format is not rounded. -/
theorem IsNearest.exact {q : ℚ} (h : IsNearest x q) (hr : Representable q) (hq : |q| < 2 ^ 128) :
    x.isFinite = true ∧ x.val = q := by
  have hv : x.val = q := by
    rw [h.val_eq, rounded, nearest_of_representable hr, saturate_of_abs_lt hq]
  exact ⟨isFinite_iff.2 ⟨h.not_nan, by rwa [hv]⟩, hv⟩

theorem isNearest_ofUnpacked {u : UnpackedFloat} {q : ℚ} (h : Canonical u ∧ value u = nearest q) :
    IsNearest (ofUnpacked u) q := by
  obtain ⟨hc, hv⟩ := h
  have hu : (ofUnpacked u).unpacked =
    UnpackedFloat.unpack Format.binary32 (UnpackedFloat.pack Format.binary32 u) := rfl
  cases u with
  | infinity s => exact hc.elim
  | notANumber => exact hc.elim
  | zero s =>
    rw [unpack_pack_zero] at hu
    refine ⟨by rw [isNaN_eq, hu]; rfl, ?_⟩
    rw [val, hu, rounded, ← hv]
    exact (saturate_of_abs_lt (by norm_num)).symm
  | finite s m e hm =>
    by_cases he : e ≤ 104
    · rw [unpack_pack_finite hc he] at hu
      refine ⟨by rw [isNaN_eq, hu]; rfl, ?_⟩
      rw [val, hu, rounded, ← hv, saturate_of_abs_lt ((abs_value_lt_iff hc).2 he)]
    · rw [unpack_pack_overflow s hm (by omega)] at hu
      refine ⟨by rw [isNaN_eq, hu]; rfl, ?_⟩
      have hb : ¬ |value (.finite s m e hm)| < 2 ^ 128 := fun h => he ((abs_value_lt_iff hc).1 h)
      rw [abs_value_finite, not_lt] at hb
      rw [val, hu, rounded, ← hv, saturate, value_finite]
      cases s
      · rw [signum, neg_one_mul, min_eq_left (by linarith), max_eq_left (by linarith)]
        exact neg_one_mul _
      · rw [signum, one_mul, min_eq_right hb, max_eq_right (by norm_num)]
        exact one_mul _

theorem isNearest_add (hx : x.isFinite = true) (hy : y.isFinite = true) :
    IsNearest (x + y) (x.val + y.val) := isNearest_ofUnpacked (add_spec (canonical hx) (canonical hy))

theorem isNearest_sub (hx : x.isFinite = true) (hy : y.isFinite = true) :
    IsNearest (x - y) (x.val - y.val) := isNearest_ofUnpacked (sub_spec (canonical hx) (canonical hy))

theorem isNearest_mul (hx : x.isFinite = true) (hy : y.isFinite = true) :
    IsNearest (x * y) (x.val * y.val) := isNearest_ofUnpacked (mul_spec (canonical hx) (canonical hy))

theorem isNearest_div (hx : x.isFinite = true) (hy : y.isFinite = true) (h0 : y.val ≠ 0) :
    IsNearest (x / y) (x.val / y.val) :=
  isNearest_ofUnpacked (div_spec (canonical hx) (canonical hy) h0)

/-- The sign of a number changes without rounding. -/
theorem neg_spec (hx : x.isFinite = true) : (-x).isFinite = true ∧ (-x).val = -x.val := by
  obtain ⟨hc, hv⟩ := Binary32.neg_spec (canonical hx)
  have hr := (representable_val hx).neg
  have hn : value x.unpacked.neg = nearest (-x.val) := by
    rw [hv, nearest_of_representable hr]
    rfl
  exact (isNearest_ofUnpacked ⟨hc, hn⟩ : IsNearest (-x) _).exact hr (by rw [abs_neg]; exact abs_val_lt hx)

end Scalar

end BrushlessDrive
