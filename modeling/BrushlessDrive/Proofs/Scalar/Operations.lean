import BrushlessDrive.Proofs.Scalar.Unpacked

/-!
# Arithmetic of unpacked numbers

Sums, differences, products and quotients of canonical numbers are canonical again, and have the
value of the exact result, rounded: `add_spec`, `sub_spec`, `mul_spec`, `div_spec`. A quotient is
computed with enough bits for the format, and its remainder decides the round bit and the sticky bit
(`residue_quotient`).
-/

set_option autoImplicit false

namespace BrushlessDrive.Binary32

open Float.Model (Format UnpackedFloat totalExponent)
open Float.Model.UnpackedFloat hiding round normalize

theorem two_zpow_pos (k : ℤ) : (0 : ℚ) < 2 ^ k := zpow_pos (by norm_num) k

/-- A canonical number is one of the format, apart from the upper end of the exponents. -/
theorem Canonical.representable {x : UnpackedFloat} (h : Canonical x) : Representable (value x) := by
  cases x with
  | infinity s => exact h.elim
  | notANumber => exact h.elim
  | zero s => exact ⟨0, 0, by norm_num, by norm_num, by simp⟩
  | finite s m e hm =>
    obtain ⟨hlt, he, -⟩ := h
    exact representable_signum_mul s hlt he

/-! ## Normalizing -/

theorem decreaseExponent_spec (m : ℕ) {e t : ℤ} (h : t ≤ e) :
    ((decreaseExponent m e t).1 : ℚ) * 2 ^ t = m * 2 ^ e ∧ (decreaseExponent m e t).2 = t := by
  obtain ⟨n, rfl⟩ := Int.le.dest h
  dsimp only [decreaseExponent]
  rw [show (t + n - t).toNat = n by omega, Nat.shiftLeft_eq, two_zpow_add]
  refine ⟨?_, by omega⟩
  push_cast
  ring

theorem log2_shiftLeft {m : ℕ} (hm : 0 < m) (n : ℕ) : (m <<< n).log2 = m.log2 + n := by
  rw [Nat.shiftLeft_eq, Nat.log2_eq_iff (by positivity), Nat.add_right_comm, pow_add, pow_add _ _ n]
  exact ⟨Nat.mul_le_mul_right _ (Nat.log2_self_le hm.ne'),
    Nat.mul_lt_mul_of_pos_right Nat.lt_log2_self (by positivity)⟩

theorem round_spec (s : Sign) {m : ℕ} (hm : 0 < m) (e : ℤ) :
    Canonical (UnpackedFloat.round Format.binary32 s m e) ∧
      value (UnpackedFloat.round Format.binary32 s m e) = signum s * nearest (m * 2 ^ e) := by
  unfold UnpackedFloat.round
  generalize ht : Format.binary32.targetExponent (totalExponent m e) = t
  dsimp only [decreaseExponent]
  generalize hn : (e - t).toNat = n
  -- the shift changes the exponent of the last bit only
  have hlog : totalExponent (m <<< n) (e - n) = totalExponent m e := by
    unfold totalExponent
    rw [log2_shiftLeft hm]
    omega
  have hval : ((m <<< n : ℕ) : ℚ) * 2 ^ (e - n) = m * 2 ^ e := by
    conv_rhs => rw [← sub_add_cancel e n, two_zpow_add]
    rw [Nat.shiftLeft_eq]
    push_cast
    ring
  have hpos : (0 : ℚ) < (m <<< n : ℕ) := by
    rw [Nat.shiftLeft_eq]
    exact_mod_cast (show 0 < m * 2 ^ n by positivity)
  rw [← hval]
  refine roundWithAccuracy_spec s (residue_exact _) hpos ?_
  rw [hlog, ht]
  omega

theorem normalize_spec (m : ℤ) (e : ℤ) (z : Sign) :
    Canonical (UnpackedFloat.normalize Format.binary32 m e z) ∧
      value (UnpackedFloat.normalize Format.binary32 m e z) = nearest (m * 2 ^ e) := by
  unfold UnpackedFloat.normalize
  rcases lt_trichotomy m 0 with hm | rfl | hm
  · rw [compare_lt_iff_lt.2 hm]
    obtain ⟨hc, hv⟩ := round_spec .negative (m := (-m).toNat) (by omega) e
    refine ⟨hc, hv.trans ?_⟩
    have hcast : (((-m).toNat : ℕ) : ℚ) = -m := by
      rw [← Int.cast_natCast, Int.toNat_of_nonneg (by omega)]
      push_cast
      rfl
    rw [hcast, neg_mul, nearest_neg, signum, neg_mul_neg, one_mul]
  · exact ⟨trivial, by simp⟩
  · rw [compare_gt_iff_gt.2 hm]
    obtain ⟨hc, hv⟩ := round_spec .positive (m := m.toNat) (by omega) e
    refine ⟨hc, hv.trans ?_⟩
    have hcast : ((m.toNat : ℕ) : ℚ) = m := by
      rw [← Int.cast_natCast, Int.toNat_of_nonneg hm.le]
    rw [hcast, signum, one_mul]

/-! ## The four operations -/

/-- Two mantissas on a common exponent. -/
theorem common_exponent (s t : Sign) (m n : ℕ) (e f : ℤ) (k : ℚ) :
    (signum s * (decreaseExponent m e (min e f)).1 + k * signum t *
      (decreaseExponent n f (min e f)).1) * 2 ^ min e f =
      signum s * (m * 2 ^ e) + k * (signum t * (n * 2 ^ f)) := by
  rw [← (decreaseExponent_spec m (min_le_left e f)).1, ← (decreaseExponent_spec n (min_le_right e f)).1]
  ring

theorem neg_spec {x : UnpackedFloat} (h : Canonical x) :
    Canonical x.neg ∧ value x.neg = -value x := by
  cases x with
  | infinity s => exact h.elim
  | notANumber => exact h.elim
  | zero s => exact ⟨trivial, neg_zero.symm⟩
  | finite s m e hm =>
    refine ⟨h, ?_⟩
    show signum (-s) * (m * 2 ^ e) = -(signum s * (m * 2 ^ e))
    rw [signum_neg, neg_mul]

theorem add_spec {x y : UnpackedFloat} (hx : Canonical x) (hy : Canonical y) :
    Canonical (add Format.binary32 x y) ∧
      value (add Format.binary32 x y) = nearest (value x + value y) := by
  have hrx := nearest_of_representable hx.representable
  have hry := nearest_of_representable hy.representable
  cases x with
  | infinity s => exact hx.elim
  | notANumber => exact hx.elim
  | zero s =>
    cases y with
    | infinity t => exact hy.elim
    | notANumber => exact hy.elim
    | zero t =>
      have hz : ∃ r, add Format.binary32 (.zero s) (.zero t) = .zero r := by
        cases s <;> cases t <;> exact ⟨_, rfl⟩
      obtain ⟨r, hr⟩ := hz
      rw [hr]
      exact ⟨trivial, by simp⟩
    | finite t n f hn => exact ⟨hy, by rw [value_zero, zero_add, hry]; rfl⟩
  | finite s m e hm =>
    cases y with
    | infinity t => exact hy.elim
    | notANumber => exact hy.elim
    | zero t => exact ⟨hx, by rw [value_zero, add_zero, hrx]; rfl⟩
    | finite t n f hn =>
      obtain ⟨hc, hv⟩ := normalize_spec (s.apply (decreaseExponent m e (min e f)).1 +
        t.apply (decreaseExponent n f (min e f)).1) (min e f) .positive
      refine ⟨hc, hv.trans (congrArg nearest ?_)⟩
      have := common_exponent s t m n e f 1
      rw [value_finite, value_finite]
      push_cast
      rw [signum_apply, signum_apply]
      push_cast
      linarith

theorem sub_eq_add {x y : UnpackedFloat} (hx : Canonical x) (hy : Canonical y) :
    sub Format.binary32 x y = add Format.binary32 x y.neg := by
  cases x with
  | infinity s => exact hx.elim
  | notANumber => exact hx.elim
  | zero s =>
    cases y with
    | infinity t => exact hy.elim
    | notANumber => exact hy.elim
    | zero t => cases s <;> cases t <;> rfl
    | finite t n f hn => rfl
  | finite s m e hm =>
    cases y with
    | infinity t => exact hy.elim
    | notANumber => exact hy.elim
    | zero t => rfl
    | finite t n f hn =>
      have ht (k : ℤ) : (-t).apply k = -t.apply k := by
        cases t
        · exact (neg_neg k).symm
        · rfl
      show UnpackedFloat.normalize _ (_ - _) _ _ = UnpackedFloat.normalize _ (_ + _) _ _
      rw [ht]
      rfl

theorem sub_spec {x y : UnpackedFloat} (hx : Canonical x) (hy : Canonical y) :
    Canonical (sub Format.binary32 x y) ∧
      value (sub Format.binary32 x y) = nearest (value x - value y) := by
  obtain ⟨hn, hv⟩ := neg_spec hy
  rw [sub_eq_add hx hy, sub_eq_add_neg, ← hv]
  exact add_spec hx hn

/-- A product of canonical numbers has the bits of the format, or reaches below its least place. -/
theorem product_bits {m n : ℕ} {e f : ℤ} (hm : 0 < m) (hn : 0 < n)
    (h : 2 ^ 23 ≤ m ∨ e = -149) (h' : 2 ^ 23 ≤ n ∨ f = -149) :
    e + f ≤ Format.binary32.targetExponent (totalExponent (m * n) (e + f)) := by
  rw [targetExponent_eq, totalExponent]
  by_cases hb : 2 ^ 23 ≤ m * n
  · have := (Nat.le_log2 (by positivity)).2 hb
    omega
  · have h1 : ¬ 2 ^ 23 ≤ m := fun h => hb (h.trans (Nat.le_mul_of_pos_right m hn))
    have h2 : ¬ 2 ^ 23 ≤ n := fun h => hb (h.trans (Nat.le_mul_of_pos_left n hm))
    omega

theorem mul_spec {x y : UnpackedFloat} (hx : Canonical x) (hy : Canonical y) :
    Canonical (mul Format.binary32 x y) ∧
      value (mul Format.binary32 x y) = nearest (value x * value y) := by
  cases x with
  | infinity s => exact hx.elim
  | notANumber => exact hx.elim
  | zero s =>
    cases y with
    | infinity t => exact hy.elim
    | notANumber => exact hy.elim
    | zero t => exact ⟨trivial, by rw [value_zero, zero_mul, nearest_zero]; rfl⟩
    | finite t n f hn => exact ⟨trivial, by rw [value_zero, zero_mul, nearest_zero]; rfl⟩
  | finite s m e hm =>
    cases y with
    | infinity t => exact hy.elim
    | notANumber => exact hy.elim
    | zero t => exact ⟨trivial, by rw [value_zero, mul_zero, nearest_zero]; rfl⟩
    | finite t n f hn =>
      obtain ⟨hc, hv⟩ := roundWithAccuracy_spec (s * t) (residue_exact (m * n))
        (by exact_mod_cast Nat.mul_pos hm hn) (product_bits hm hn hx.2.2 hy.2.2)
      refine ⟨hc, hv.trans ?_⟩
      rw [← nearest_signum_mul, signum_mul, zpow_add₀ (by norm_num), value_finite, value_finite]
      push_cast
      ring_nf

/-! ## Division -/

/-- The remainder of a division decides the two bits of the quotient. -/
theorem residue_quotient (m : ℕ) {n : ℕ} (hn : 0 < n) :
    Residue (.ofMantissaAndAccuracy (m / n) (accuracyOfFraction (m % n) n)) (m / n) := by
  have hn' : (0 : ℚ) < n := by exact_mod_cast hn
  have hr : m % n < n := Nat.mod_lt m hn
  have hx : (m : ℚ) / n = (m / n : ℕ) + (m % n : ℕ) / n := by
    rw [div_eq_iff hn'.ne', add_mul, div_mul_cancel₀ _ hn'.ne']
    exact_mod_cast (Nat.div_add_mod' m n).symm
  rw [hx]
  generalize m / n = q
  generalize m % n = r at *
  have hlt : (r : ℚ) / n < 1 := (div_lt_one hn').2 (by exact_mod_cast hr)
  unfold accuracyOfFraction
  split
  · rename_i h0
    rw [h0, Nat.cast_zero, zero_div, add_zero]
    exact residue_exact q
  · rename_i h0
    have hpos : (0 : ℚ) < r / n := div_pos (by exact_mod_cast Nat.pos_of_ne_zero h0) hn'
    rcases lt_trichotomy (2 * r) n with h | h | h
    · rw [compare_lt_iff_lt.2 h]
      have hh : (r : ℚ) / n < 1 / 2 := by
        rw [div_lt_div_iff₀ hn' two_pos]
        exact_mod_cast (by omega : r * 2 < 1 * n)
      refine ⟨?_, ?_, ⟨fun hf => ?_, fun hf => ?_⟩, ⟨fun _ => ⟨?_, ?_⟩, fun _ => rfl⟩⟩
      case refine_3 => cases hf
      all_goals
        simp only [ExtendedMantissa.ofMantissaAndAccuracy] at *
        linarith
    · rw [compare_eq_iff_eq.2 h]
      have hh : (r : ℚ) / n = 1 / 2 := by
        rw [div_eq_div_iff hn'.ne' two_ne_zero]
        exact_mod_cast (by omega : r * 2 = 1 * n)
      rw [hh]
      constructor <;> norm_num [ExtendedMantissa.ofMantissaAndAccuracy]
    · rw [compare_gt_iff_gt.2 h]
      have hh : 1 / 2 < (r : ℚ) / n := by
        rw [div_lt_div_iff₀ two_pos hn']
        exact_mod_cast (by omega : 1 * n < r * 2)
      refine ⟨?_, ?_, ⟨fun _ => ?_, fun _ => rfl⟩, ⟨fun _ => ⟨?_, ?_⟩, fun _ => rfl⟩⟩ <;>
        simp only [ExtendedMantissa.ofMantissaAndAccuracy] at * <;> linarith

/-- The dividend is shifted far enough for all bits of the format. -/
theorem quotient_bits {m n : ℕ} (hm : 0 < m) (hn : 0 < n) {e f t : ℤ}
    (ht : t = min (e - f)
      (Format.binary32.targetExponent (totalExponent m e - totalExponent n f))) :
    t ≤ Format.binary32.targetExponent
      (totalExponent ((m <<< (e - f - t).toNat) / n) t) := by
  rw [targetExponent_eq, totalExponent, totalExponent] at ht
  rw [targetExponent_eq, totalExponent]
  by_cases hsmall : t ≤ -149
  · omega
  generalize hk : (e - f - t).toNat = k
  have hk' : 24 + n.log2 ≤ m.log2 + k := by omega
  have hb : 2 ^ 23 ≤ (m <<< k) / n := by
    rw [Nat.shiftLeft_eq, Nat.le_div_iff_mul_le hn]
    calc 2 ^ 23 * n ≤ 2 ^ 23 * 2 ^ (n.log2 + 1) := Nat.mul_le_mul_left _ Nat.lt_log2_self.le
      _ = 2 ^ (24 + n.log2) := by ring
      _ ≤ 2 ^ (m.log2 + k) := Nat.pow_le_pow_right (by norm_num) hk'
      _ = 2 ^ m.log2 * 2 ^ k := pow_add _ _ _
      _ ≤ m * 2 ^ k := Nat.mul_le_mul_right _ (Nat.log2_self_le hm.ne')
  have hlog := (Nat.le_log2 (by omega)).2 hb
  omega

theorem div_finite (s t : Sign) {m n : ℕ} {e f k : ℤ} (hm : 0 < m) (hn : 0 < n)
    (hk : min (e - f)
      (Format.binary32.targetExponent (totalExponent m e - totalExponent n f)) = k) :
    div Format.binary32 (.finite s m e hm) (.finite t n f hn) =
      roundWithAccuracy Format.binary32 (s / t) ((m <<< (e - f - k).toNat) / n) k
        (accuracyOfFraction ((m <<< (e - f - k).toNat) % n) n) := by
  subst hk
  rfl

theorem div_spec {x y : UnpackedFloat} (hx : Canonical x) (hy : Canonical y) (h0 : value y ≠ 0) :
    Canonical (div Format.binary32 x y) ∧
      value (div Format.binary32 x y) = nearest (value x / value y) := by
  cases y with
  | infinity t => exact hy.elim
  | notANumber => exact hy.elim
  | zero t => exact absurd rfl h0
  | finite t n f hn =>
    cases x with
    | infinity s => exact hx.elim
    | notANumber => exact hx.elim
    | zero s => exact ⟨trivial, by rw [value_zero, zero_div, nearest_zero]; rfl⟩
    | finite s m e hm =>
      obtain ⟨k, ht⟩ : ∃ k, min (e - f)
        (Format.binary32.targetExponent (totalExponent m e - totalExponent n f)) = k := ⟨_, rfl⟩
      rw [div_finite s t hm hn ht]
      have hbits := quotient_bits hm hn ht.symm
      have hle : k ≤ e - f := ht ▸ min_le_left _ _
      have hshift : ((m <<< (e - f - k).toNat : ℕ) : ℚ) * 2 ^ k = m * 2 ^ (e - f) :=
        (decreaseExponent_spec m hle).1
      have hpos : (0 : ℚ) < (m <<< (e - f - k).toNat : ℕ) := by
        rw [Nat.shiftLeft_eq]
        exact_mod_cast (show 0 < m * 2 ^ (e - f - k).toNat by positivity)
      have hn' : (0 : ℚ) < n := by exact_mod_cast hn
      generalize m <<< (e - f - k).toNat = m' at *
      obtain ⟨hc, hv⟩ := roundWithAccuracy_spec (s / t) (residue_quotient m' hn)
        (div_pos hpos hn') hbits
      refine ⟨hc, hv.trans ?_⟩
      have hq : (m' : ℚ) / n * 2 ^ k = m * 2 ^ e / (n * 2 ^ f) := by
        rw [div_mul_eq_mul_div, hshift, zpow_sub₀ (by norm_num), mul_div_assoc', div_div,
          mul_comm (2 ^ f : ℚ)]
      rw [← nearest_signum_mul, signum_div, hq]
      exact congrArg nearest (mul_div_mul_comm _ _ _ _).symm

end BrushlessDrive.Binary32
