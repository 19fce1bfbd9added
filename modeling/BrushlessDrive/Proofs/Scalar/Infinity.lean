import BrushlessDrive.Proofs.Scalar.Order

/-!
# Infinities and NaNs in the arithmetic

An operation on infinities gives one, with the sign that the operands have, or no number at all. So the order
facts of the arithmetic hold of them too, up to results that are no numbers.
-/

set_option autoImplicit false

namespace BrushlessDrive

open Float.Model (Format UnpackedFloat)
open Float.Model.UnpackedFloat (Sign)

namespace Scalar

open Binary32

variable {x y z : Scalar}

/-! ## What a scalar can be -/

/-- What a scalar that is not below zero can be. -/
theorem unpacked_of_nonneg (h : 0 ≤ x) :
    x.unpacked = .infinity .positive ∨ (∃ s, x.unpacked = .zero s) ∨
      ∃ m e hm, x.unpacked = .finite .positive m e hm := by
  have hn := (isNaN_of_le h).2
  rw [nonneg_iff hn, val] at h
  rw [isNaN_eq] at hn
  cases hu : x.unpacked with
  | notANumber => rw [hu] at hn; cases hn
  | zero s => exact .inr (.inl ⟨s, rfl⟩)
  | infinity s =>
    cases s with
    | negative => rw [hu] at h; norm_num [signum] at h
    | positive => exact .inl rfl
  | finite s m e hm =>
    cases s with
    | negative =>
      have := magnitude_pos m e hm
      rw [hu, value_finite, signum] at h
      linarith
    | positive => exact .inr (.inr ⟨m, e, hm, rfl⟩)

theorem finite_of_pos (h : 0 < x) (hf : x.isFinite = true) :
    ∃ m e hm, x.unpacked = .finite .positive m e hm := by
  have hv := val_pos h
  rw [isFinite_eq] at hf
  obtain hi | ⟨s, hs⟩ | hu := unpacked_of_nonneg (Scalar.le_of_lt h)
  · rw [hi] at hf
    cases hf
  · rw [val, hs] at hv
    exact absurd hv (lt_irrefl 0)
  · exact hu

theorem infinity_or_finite (h : 0 ≤ x) :
    x.unpacked = .infinity .positive ∨ x.isFinite = true ∧ 0 ≤ x.val := by
  have hv := val_nonneg h
  rw [isFinite_eq]
  obtain hi | ⟨s, hs⟩ | ⟨m, e, hm, hu⟩ := unpacked_of_nonneg h
  · exact .inl hi
  · exact .inr ⟨by rw [hs]; rfl, hv⟩
  · exact .inr ⟨by rw [hu]; rfl, hv⟩

theorem nonneg_of_unpacked (h : x.unpacked = .infinity .positive) : 0 ≤ x := by
  rw [nonneg_iff (by rw [isNaN_eq, h]; rfl), val, h]
  norm_num [signum]

theorem val_of_infinity (h : x.unpacked = .infinity .positive) : x.val = 2 ^ 128 := by
  rw [val, h, value_infinity, signum, one_mul]

theorem unpacked_infinity (s : Sign) : (ofUnpacked (.infinity s)).unpacked = .infinity s :=
  unpack_pack_infinity s

theorem isNearest_infinity {q : ℚ} (h : 2 ^ 128 ≤ q) :
    IsNearest (ofUnpacked (.infinity .positive)) q := by
  have hn : (ofUnpacked (.infinity .positive)).isNaN = false := by
    rw [isNaN_eq, unpacked_infinity]
    rfl
  have hv := val_of_infinity (unpacked_infinity .positive)
  refine ⟨hn, le_antisymm ?_ ?_⟩
  · rw [← rounded_val hn, hv]
    exact rounded_mono h
  · rw [hv]
    exact max_le (by norm_num) (min_le_right _ _)

theorem nonneg_infinity : 0 ≤ ofUnpacked (.infinity .positive) :=
  nonneg_of_unpacked (unpacked_infinity .positive)

/-! ## Operations on unpacked numbers -/

theorem add_eq (x y : Scalar) :
    x + y = ofUnpacked (UnpackedFloat.add Format.binary32 x.unpacked y.unpacked) := rfl

theorem mul_eq (x y : Scalar) :
    x * y = ofUnpacked (UnpackedFloat.mul Format.binary32 x.unpacked y.unpacked) := rfl

theorem div_eq (x y : Scalar) :
    x / y = ofUnpacked (UnpackedFloat.div Format.binary32 x.unpacked y.unpacked) := rfl

theorem isFinite_of_ofUnpacked {u : UnpackedFloat} (h : (ofUnpacked u).isFinite = true) :
    u.isFinite = true := by
  rw [isFinite_eq] at h
  cases u with
  | infinity s => rwa [unpacked_infinity] at h
  | notANumber => exact h
  | _ => rfl

theorem isNaN_notANumber : (ofUnpacked .notANumber).isNaN = true := rfl

theorem isNaN_add_left (h : x.isNaN = true) (y : Scalar) : (x + y).isNaN = true := by
  have ha : UnpackedFloat.add Format.binary32 x.unpacked y.unpacked = .notANumber := by
    rw [unpacked_of_isNaN h]
    cases y.unpacked <;> rfl
  rw [add_eq, ha]
  exact isNaN_notANumber

theorem isNaN_add_right (x : Scalar) (h : y.isNaN = true) : (x + y).isNaN = true := by
  have ha : UnpackedFloat.add Format.binary32 x.unpacked y.unpacked = .notANumber := by
    rw [unpacked_of_isNaN h]
    cases x.unpacked <;> rfl
  rw [add_eq, ha]
  exact isNaN_notANumber

protected theorem mul_comm (x y : Scalar) : x * y = y * x := by
  have hs (s t : Sign) : s * t = t * s := by cases s <;> cases t <;> rfl
  rw [mul_eq, mul_eq]
  congr 1
  cases x.unpacked with
  | finite s m e hm =>
    cases y.unpacked with
    | finite t n f hn =>
      show UnpackedFloat.roundWithAccuracy _ (s * t) (m * n) (e + f) _ =
        UnpackedFloat.roundWithAccuracy _ (t * s) (n * m) (f + e) _
      rw [hs, Nat.mul_comm, Int.add_comm]
    | infinity t => exact congrArg UnpackedFloat.infinity (hs s t)
    | zero t => exact congrArg UnpackedFloat.zero (hs s t)
    | notANumber => rfl
  | _ =>
    cases y.unpacked <;>
      first
      | rfl
      | exact congrArg UnpackedFloat.zero (hs _ _)
      | exact congrArg UnpackedFloat.infinity (hs _ _)

theorem isFinite_of_mul (h : (x * y).isFinite = true) : x.isFinite = true ∧ y.isFinite = true := by
  have hm : (UnpackedFloat.mul Format.binary32 x.unpacked y.unpacked).isFinite = true :=
    isFinite_of_ofUnpacked h
  rw [isFinite_eq, isFinite_eq]
  cases hx : x.unpacked <;> cases hy : y.unpacked <;> rw [hx, hy] at hm <;>
    first | exact ⟨rfl, rfl⟩ | cases hm

theorem isFinite_mul_of_le (hx : 0 ≤ x) (hxy : x ≤ y) (hz : 0 ≤ z) (h : (y * z).isFinite = true) :
    (x * z).isFinite = true ∧ 0 ≤ x * z := by
  obtain ⟨hyf, hzf⟩ := isFinite_of_mul h
  have hxf := isFinite_of_le_of_le isFinite_zero hyf hx hxy
  have hm := isNearest_mul hxf hzf
  have hxv := val_nonneg hx
  have hzv := val_nonneg hz
  have h0 : 0 ≤ x * z := hm.nonneg (mul_nonneg hxv hzv)
  exact ⟨isFinite_of_le_of_le isFinite_zero h h0
    (hm.mono (isNearest_mul hyf hzf) (mul_le_mul_of_nonneg_right (val_le_val hxy) hzv)), h0⟩

theorem div_infinity (hx : x.isFinite = true) (hy : y.unpacked = .infinity .positive) :
    (x / y).isFinite = true ∧ (x / y).val = 0 := by
  have hc := canonical hx
  obtain ⟨s, hs⟩ : ∃ s, UnpackedFloat.div Format.binary32 x.unpacked y.unpacked = .zero s := by
    rw [hy]
    cases hu : x.unpacked with
    | zero s => exact ⟨_, rfl⟩
    | finite s m e hm => exact ⟨_, rfl⟩
    | infinity s => rw [hu] at hc; exact hc.elim
    | notANumber => rw [hu] at hc; exact hc.elim
  have hz : (x / y).unpacked = .zero s := by
    rw [div_eq, hs]
    exact unpack_pack_zero s
  rw [isFinite_eq, val, hz]
  exact ⟨rfl, rfl⟩

/-! ## Signs of results -/

/-- The product of zero and an infinity is no number; any other has the sign of its factors. -/
theorem isNaN_or_nonneg_mul (hx : 0 ≤ x) (hy : 0 ≤ y) : (x * y).isNaN = true ∨ 0 ≤ x * y := by
  obtain hx' | ⟨hxf, hxv⟩ := infinity_or_finite hx
  · rw [mul_eq, hx']
    obtain hy' | ⟨s, hy'⟩ | ⟨m, e, hm, hy'⟩ := unpacked_of_nonneg hy <;> rw [hy']
    · exact .inr nonneg_infinity
    · exact .inl isNaN_notANumber
    · exact .inr nonneg_infinity
  obtain hy' | ⟨hyf, hyv⟩ := infinity_or_finite hy
  · rw [mul_eq, hy']
    obtain hx' | ⟨s, hx'⟩ | ⟨m, e, hm, hx'⟩ := unpacked_of_nonneg hx <;> rw [hx']
    · exact .inr nonneg_infinity
    · exact .inl isNaN_notANumber
    · exact .inr nonneg_infinity
  · exact .inr ((isNearest_mul hxf hyf).nonneg (mul_nonneg hxv hyv))

theorem nonneg_mul_of_pos (hx : 0 ≤ x) (hy : 0 < y) (hf : y.isFinite = true) : 0 ≤ x * y := by
  obtain hx' | ⟨hxf, hxv⟩ := infinity_or_finite hx
  · obtain ⟨m, e, hm, hy'⟩ := finite_of_pos hy hf
    rw [mul_eq, hx', hy']
    exact nonneg_infinity
  · exact (isNearest_mul hxf hf).nonneg (mul_nonneg hxv (val_pos hy).le)

theorem nonneg_div_of_pos (hx : 0 ≤ x) (hy : 0 < y) (hf : y.isFinite = true) : 0 ≤ x / y := by
  obtain hx' | ⟨hxf, hxv⟩ := infinity_or_finite hx
  · obtain ⟨m, e, hm, hy'⟩ := finite_of_pos hy hf
    rw [div_eq, hx', hy']
    exact nonneg_infinity
  · exact (isNearest_div hxf hf (val_pos hy).ne').nonneg (div_nonneg hxv (val_pos hy).le)

/-! ## Order -/

theorem le_infinity (h : x.isNaN = false) : x ≤ ofUnpacked (.infinity .positive) :=
  (isNearest_infinity (le_max_left _ x.val)).ge h (le_max_right _ _)

theorem mul_le_mul_of_isFinite (hx : 0 ≤ x) (hxy : x ≤ y) (hy : y.isFinite = true) (hz : 0 ≤ z)
    (hf : z.isFinite = true) : x * z ≤ y * z := by
  have hxf := isFinite_of_le_of_le isFinite_zero hy hx hxy
  exact (isNearest_mul hxf hf).mono (isNearest_mul hy hf)
    (mul_le_mul_of_nonneg_right (val_le_val hxy) (val_nonneg hz))

theorem mul_le_mul_of_pos (hx : 0 ≤ x) (hxy : x ≤ y) (hz : 0 < z) (hf : z.isFinite = true) :
    x * z ≤ y * z := by
  obtain hi | ⟨hyf, -⟩ := infinity_or_finite (Scalar.le_trans hx hxy)
  · obtain ⟨m, e, hm, hu⟩ := finite_of_pos hz hf
    rw [mul_eq y, hi, hu]
    exact le_infinity (isNaN_of_le (nonneg_mul_of_pos hx hz hf)).2
  · exact mul_le_mul_of_isFinite hx hxy hyf (Scalar.le_of_lt hz) hf

theorem div_le_div_of_pos (hx : 0 ≤ x) (hxy : x ≤ y) (hz : 0 < z) (hf : z.isFinite = true) :
    x / z ≤ y / z := by
  have h0 := val_pos hz
  obtain hi | ⟨hyf, -⟩ := infinity_or_finite (Scalar.le_trans hx hxy)
  · obtain ⟨m, e, hm, hu⟩ := finite_of_pos hz hf
    rw [div_eq y, hi, hu]
    exact le_infinity (isNaN_of_le (nonneg_div_of_pos hx hz hf)).2
  · have hxf := isFinite_of_le_of_le isFinite_zero hyf hx hxy
    exact (isNearest_div hxf hf h0.ne').mono (isNearest_div hyf hf h0.ne')
      (div_le_div_of_nonneg_right (val_le_val hxy) h0.le)

/-- A greater divisor makes less of what is not below zero. -/
theorem div_le_div_left_of_pos (hx : 0 ≤ x) (hxf : x.isFinite = true) (hy : 0 < y) (hyz : y ≤ z)
    (hf : z.isFinite = true) : x / z ≤ x / y := by
  have hy0 := val_pos hy
  have hyf := isFinite_of_le_of_le isFinite_zero hf (Scalar.le_of_lt hy) hyz
  have hle := val_le_val hyz
  exact (isNearest_div hxf hf (hy0.trans_le hle).ne').mono (isNearest_div hxf hyf hy0.ne')
    (div_le_div_of_nonneg_left (val_nonneg hx) hy0 hle)

/-! ## Results that are no numbers -/

/-- The product of zero and an infinity. -/
theorem isNaN_mul_infinity (hx : x.val = 0) (hf : x.isFinite = true)
    (hy : y.unpacked = .infinity .positive) : (x * y).isNaN = true := by
  have hc := canonical hf
  rw [mul_eq, hy]
  rw [val] at hx
  cases hu : x.unpacked with
  | zero s => exact isNaN_notANumber
  | finite s m e hm =>
    have := magnitude_pos m e hm
    rw [hu, value_finite] at hx
    cases s <;> simp [signum, this.ne'] at hx
  | infinity s => rw [hu] at hc; exact hc.elim
  | notANumber => rw [hu] at hc; exact hc.elim

/-- A number above zero over zero is infinite. -/
theorem isNaN_or_nonneg_div_zero (hx : 0 ≤ x) : (x / 0).isNaN = true ∨ 0 ≤ x / 0 := by
  have h0 : (0 : Scalar).unpacked = .zero .positive := rfl
  rw [div_eq, h0]
  obtain hx' | ⟨s, hx'⟩ | ⟨m, e, hm, hx'⟩ := unpacked_of_nonneg hx <;> rw [hx']
  · exact .inr nonneg_infinity
  · exact .inl isNaN_notANumber
  · exact .inr nonneg_infinity

/-- An infinity stands for the end of the format, so a sum with one is rounded as any other. -/
theorem isNearest_add_of_nonneg (hx : 0 ≤ x) (hy : 0 ≤ y) : IsNearest (x + y) (x.val + y.val) := by
  have hxv := val_nonneg hx
  have hyv := val_nonneg hy
  obtain hx' | ⟨hxf, -⟩ := infinity_or_finite hx
  · rw [add_eq, hx', val_of_infinity hx']
    obtain hy' | ⟨s, hy'⟩ | ⟨m, e, hm, hy'⟩ := unpacked_of_nonneg hy <;> rw [hy'] <;>
      exact isNearest_infinity (by linarith)
  obtain hy' | ⟨hyf, -⟩ := infinity_or_finite hy
  · rw [add_eq, hy', val_of_infinity hy']
    obtain hx' | ⟨s, hx'⟩ | ⟨m, e, hm, hx'⟩ := unpacked_of_nonneg hx <;> rw [hx'] <;>
      exact isNearest_infinity (by linarith)
  · exact isNearest_add hxf hyf

theorem le_add_of_nonneg (hx : 0 ≤ x) (hy : 0 ≤ y) : x ≤ x + y := by
  have hn := (isNaN_of_le hx).2
  have hyv := val_nonneg hy
  exact (isNearest_add_of_nonneg hx hy).ge hn (by linarith)

theorem add_le_add_of_nonneg {u : Scalar} (hx : 0 ≤ x) (hxy : x ≤ y) (hz : 0 ≤ z) (hzu : z ≤ u) :
    x + z ≤ y + u :=
  (isNearest_add_of_nonneg hx hz).mono
    (isNearest_add_of_nonneg (Scalar.le_trans hx hxy) (Scalar.le_trans hz hzu))
    (add_le_add (val_le_val hxy) (val_le_val hzu))

end Scalar

end BrushlessDrive
