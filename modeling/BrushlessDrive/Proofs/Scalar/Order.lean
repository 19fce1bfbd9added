import BrushlessDrive.Proofs.Scalar.Error

/-!
# The order of the scalars

Comparisons of scalars are those of their values, the infinities included, and none holds of a NaN. So the
order facts of the rationals carry over, and with the monotone rounding the arithmetic respects them.
-/

set_option autoImplicit false

namespace BrushlessDrive

namespace Scalar

open Binary32

variable {x y z : Scalar}

/-! ## Order -/

protected theorem le_refl (h : x.isNaN = false) : x ≤ x := (le_iff h h).2 le_rfl

protected theorem le_trans (h : x ≤ y) (h' : y ≤ z) : x ≤ z := by
  obtain ⟨hx, hy⟩ := isNaN_of_le h
  have hz := (isNaN_of_le h').2
  rw [le_iff hx hy] at h
  rw [le_iff hy hz] at h'
  exact (le_iff hx hz).2 (h.trans h')

protected theorem le_of_lt (h : x < y) : x ≤ y := by
  obtain ⟨hx, hy⟩ := isNaN_of_lt h
  exact (le_iff hx hy).2 ((lt_iff hx hy).1 h).le

protected theorem lt_of_lt_of_le (h : x < y) (h' : y ≤ z) : x < z := by
  obtain ⟨hx, hy⟩ := isNaN_of_lt h
  have hz := (isNaN_of_le h').2
  rw [lt_iff hx hy] at h
  rw [le_iff hy hz] at h'
  exact (lt_iff hx hz).2 (h.trans_le h')

protected theorem lt_of_le_of_lt (h : x ≤ y) (h' : y < z) : x < z := by
  obtain ⟨hy, hz⟩ := isNaN_of_lt h'
  have hx := (isNaN_of_le h).1
  rw [le_iff hx hy] at h
  rw [lt_iff hy hz] at h'
  exact (lt_iff hx hz).2 (h.trans_lt h')

theorem lt_iff_not_le (hx : x.isNaN = false) (hy : y.isNaN = false) : x < y ↔ ¬ y ≤ x := by
  rw [lt_iff hx hy, le_iff hy hx, not_le]

theorem le_iff_not_lt (hx : x.isNaN = false) (hy : y.isNaN = false) : x ≤ y ↔ ¬ y < x := by
  rw [le_iff hx hy, lt_iff hy hx, not_lt]

theorem beq_iff (hx : x.isNaN = false) (hy : y.isNaN = false) : (x == y) = true ↔ x.val = y.val := by
  show (x.unpacked.compare y.unpacked == some .eq) = true ↔ _
  rw [compare_spec (ordered hx) (ordered hy), beq_iff_eq, Option.some_inj]
  exact compare_eq_iff_eq

/-- Scalars are the same if their bits are; there is one NaN, and a zero of either sign. -/
theorem toBits_inj : x.toBits = y.toBits ↔ x = y := by
  refine ⟨fun h => ?_, congrArg Float32.toBits⟩
  obtain ⟨⟨b, hb⟩⟩ := x
  obtain ⟨⟨c, hc⟩⟩ := y
  obtain rfl : b = c := h
  rfl

/-- An upper bound that is reached. -/
theorem le_iff_beq (h : x ≤ y) : y ≤ x ↔ (x == y) = true := by
  obtain ⟨hx, hy⟩ := isNaN_of_le h
  rw [le_iff hx hy] at h
  rw [le_iff hy hx, beq_iff hx hy]
  exact ⟨h.antisymm, fun he => he.ge⟩

/-- What lies between finite scalars is finite. -/
theorem isFinite_of_le_of_le (hx : x.isFinite = true) (hz : z.isFinite = true) (h : x ≤ y)
    (h' : y ≤ z) : y.isFinite = true := by
  have hy := (isNaN_of_le h).2
  rw [le_iff (isNaN_of_isFinite hx) hy] at h
  rw [le_iff hy (isNaN_of_isFinite hz)] at h'
  exact isFinite_iff.2 ⟨hy, abs_lt.2 ⟨(abs_lt.1 (abs_val_lt hx)).1.trans_le h,
    h'.trans_lt (abs_lt.1 (abs_val_lt hz)).2⟩⟩

/-! ## Rounded results -/

/-- A scalar is not rounded, and an infinity stays at its end. -/
theorem rounded_val (h : x.isNaN = false) : rounded x.val = x.val := by
  obtain ⟨s, hs⟩ | ⟨hc, hv⟩ := ordered h
  · have hx : x.val = signum s * 2 ^ 128 := congrArg value hs
    rw [hx, rounded, nearest_signum_mul, nearest_of_representable (representable_two_pow 128)]
    cases s <;> norm_num [saturate, signum]
  · change |x.val| < 2 ^ 128 at hv
    have hr : Representable x.val := hc.representable
    rw [rounded, nearest_of_representable hr, saturate_of_abs_lt hv]

theorem IsNearest.le {q : ℚ} (h : IsNearest x q) (hy : y.isNaN = false) (hq : q ≤ y.val) : x ≤ y := by
  rw [le_iff h.not_nan hy, h.val_eq, ← rounded_val hy]
  exact rounded_mono hq

theorem IsNearest.ge {q : ℚ} (h : IsNearest x q) (hy : y.isNaN = false) (hq : y.val ≤ q) : y ≤ x := by
  rw [le_iff hy h.not_nan, h.val_eq, ← rounded_val hy]
  exact rounded_mono hq

theorem IsNearest.mono {p q : ℚ} (hx : IsNearest x p) (hy : IsNearest y q) (h : p ≤ q) : x ≤ y := by
  rw [le_iff hx.not_nan hy.not_nan, hx.val_eq, hy.val_eq]
  exact rounded_mono h

theorem IsNearest.abs_le {q r : ℚ} (h : IsNearest x q) (hr : Representable r) (hb : r < 2 ^ 128)
    (hq : |q| ≤ r) : x.isFinite = true ∧ x.val = nearest q ∧ |x.val| ≤ r := by
  have hn := abs_nearest_le hr hq
  have hv : x.val = nearest q := by rw [h.val_eq, rounded, saturate_of_abs_lt (hn.trans_lt hb)]
  rw [isFinite_iff, hv]
  exact ⟨⟨h.not_nan, hn.trans_lt hb⟩, rfl, hn⟩

theorem IsNearest.val_of_isFinite {q : ℚ} (h : IsNearest x q) (hf : x.isFinite = true) :
    x.val = nearest q := by
  have hb := abs_lt.1 (abs_val_lt hf)
  rw [h.val_eq, rounded, saturate] at hb ⊢
  grind

/-- A factor of no more than one takes a number no further from zero. -/
theorem abs_mul_le (hx : x.isFinite = true) (hy : y.isFinite = true) (h : |y.val| ≤ 1) :
    (x * y).isFinite = true ∧ |(x * y).val| ≤ |x.val| := by
  have hb : |x.val * y.val| ≤ |x.val| := by
    rw [abs_mul]
    exact mul_le_of_le_one_right (abs_nonneg _) h
  obtain ⟨hf, -, hv⟩ := (isNearest_mul hx hy).abs_le (representable_val hx).abs (abs_val_lt hx) hb
  exact ⟨hf, hv⟩

theorem val_zero_mul (hx : x.isFinite = true) : (0 * x).isFinite = true ∧ (0 * x).val = 0 := by
  have h := isNearest_mul isFinite_zero hx
  rw [val_zero, zero_mul] at h
  exact h.exact ⟨0, 0, by norm_num, by norm_num, by simp⟩ (by norm_num)

theorem IsNearest.neg {q : ℚ} (h : IsNearest x q) (hf : x.isFinite = true) : IsNearest (-x) (-q) := by
  obtain ⟨hn, hv⟩ := neg_spec hf
  exact ⟨isNaN_of_isFinite hn, by rw [hv, h.val_eq, rounded_neg]⟩

/-- A finite scalar stays finite when less than half of the greatest last place is added. -/
theorem isFinite_add (hx : x.isFinite = true) (hy : y.isFinite = true) (h : |x.val| < 2 ^ 103) :
    (x + y).isFinite = true := by
  have hs := isNearest_add hx hy
  have hyv := (representable_val hy).abs_le (abs_val_lt hy)
  have hle := abs_add_le x.val y.val
  have hn : |nearest (x.val + y.val) - (x.val + y.val)| ≤ 2 ^ ((128 : ℤ) - 25) :=
    abs_nearest_sub_le (by norm_num) (by norm_num at h hyv ⊢; linarith)
  have ht := abs_sub_abs_le_abs_sub (nearest (x.val + y.val)) (x.val + y.val)
  have hlt : |nearest (x.val + y.val)| < 2 ^ 128 := by
    norm_num at h hyv hn ⊢
    linarith
  refine isFinite_iff.2 ⟨hs.not_nan, ?_⟩
  rwa [hs.val_eq, rounded, saturate_of_abs_lt hlt]

/-! ## Signs -/

theorem nonneg_iff (h : x.isNaN = false) : 0 ≤ x ↔ 0 ≤ x.val := le_iff rfl h

theorem pos_iff (h : x.isNaN = false) : 0 < x ↔ 0 < x.val := lt_iff rfl h

theorem val_le_val (h : x ≤ y) : x.val ≤ y.val :=
  (le_iff (isNaN_of_le h).1 (isNaN_of_le h).2).1 h

theorem val_pos (h : 0 < x) : 0 < x.val := (pos_iff (isNaN_of_lt h).2).1 h

theorem val_nonneg (h : 0 ≤ x) : 0 ≤ x.val := (nonneg_iff (isNaN_of_le h).2).1 h

theorem IsNearest.nonneg {q : ℚ} (h : IsNearest x q) (hq : 0 ≤ q) : 0 ≤ x := h.ge rfl hq

theorem isPositive_iff : isPositive x = true ↔ 0 < x ∧ x.isFinite = true := by
  simp [isPositive]

theorem sub_pos (hx : x.isFinite = true) (hy : y.isFinite = true) (h : y < x) : 0 < x - y := by
  have hd := isNearest_sub hx hy
  have hs : Representable (2 ^ (-149 : ℤ)) := representable_two_zpow le_rfl
  have hpos : (0 : ℚ) < 2 ^ (-149 : ℤ) := zpow_pos (by norm_num) _
  rw [lt_iff (isNaN_of_isFinite hy) (isNaN_of_isFinite hx)] at h
  rw [pos_iff hd.not_nan, hd.val_eq]
  calc (0 : ℚ) < 2 ^ (-149 : ℤ) := hpos
    _ = rounded (2 ^ (-149 : ℤ)) := by
      rw [rounded_of_abs_le (by norm_num [abs_of_pos hpos]), nearest_of_representable hs]
    _ ≤ rounded (x.val - y.val) :=
      rounded_mono ((representable_val hy).le_sub (representable_val hx) h)

/-! ## The lesser number -/

theorem minNum_le (hy : y.isNaN = false) : minNum x y ≤ y := by
  unfold minNum
  split
  · exact Scalar.le_refl hy
  · rename_i h
    rw [Bool.or_eq_true, decide_eq_true_eq, not_or, Bool.not_eq_true] at h
    exact (le_iff_not_lt h.1 hy).2 h.2

theorem val_minNum (hx : x.isNaN = false) (hy : y.isNaN = false) :
    (minNum x y).isNaN = false ∧ (minNum x y).val = min x.val y.val := by
  unfold minNum
  rw [hx, Bool.false_or]
  split
  · rename_i h
    rw [decide_eq_true_eq, lt_iff hy hx] at h
    exact ⟨hy, (min_eq_right h.le).symm⟩
  · rename_i h
    rw [decide_eq_true_eq, lt_iff hy hx, not_lt] at h
    exact ⟨hx, (min_eq_left h).symm⟩

/-- A bound of one number and, unless that is none, of the other one. -/
theorem le_minNum (hy : z ≤ y) (hx : x.isNaN = true ∨ z ≤ x) : z ≤ minNum x y := by
  unfold minNum
  split
  · exact hy
  · rename_i h
    rw [Bool.or_eq_true, not_or] at h
    exact hx.resolve_left h.1

end Scalar

end BrushlessDrive
