import BrushlessDrive.Proofs.Scalar.Order

/-!
# Scalars and integers

An integer becomes the nearest scalar (`Scalar.isNearest_ofNat`, `Scalar.isNearest_ofInt32`), which is exact
for all integers of 24 bits (`Scalar.val_ofNat`). The other way the fraction is cut off and the ends of the
range stand for what is beyond them, with 0 for what is no number (`Scalar.toNat_toUInt16`).
-/

set_option autoImplicit false

namespace BrushlessDrive

open Float.Model (Format UnpackedFloat)
open Float.Model.UnpackedFloat

namespace Binary32

theorem representable_natCast {n : ℕ} (h : n < 2 ^ 24) : Representable n :=
  ⟨n, 0, by rw [Nat.abs_cast]; exact_mod_cast h, by norm_num, by simp⟩

theorem abs_natCast_le {n : ℕ} (h : n < 2 ^ 24) : |(n : ℚ)| ≤ 2 ^ 127 := by
  rw [Nat.abs_cast]
  exact_mod_cast h.le.trans (by norm_num)

/-- The integer part is what is left of the mantissa when all places after the point are shifted
out. -/
theorem mantissa_shiftRight (m k : ℕ) :
    (ExtendedMantissa.ofMantissaAndAccuracy m .exact >>> k).mantissa = ⌊(m : ℚ) / 2 ^ k⌋₊ := by
  have h := (residue_exact m).shiftRight k
  exact ((Nat.floor_eq_iff (by positivity)).2 ⟨h.lower, h.upper⟩).symm

theorem roundToInt_eq (s : Sign) (m : ℕ) (e : ℤ) :
    roundToInt s m e = s.apply ⌊(m : ℚ) * 2 ^ e⌋₊ := by
  dsimp only [roundToInt, decreaseExponent, shiftToExponent]
  rw [mantissa_shiftRight]
  obtain ⟨n, rfl | rfl⟩ := e.eq_nat_or_neg
  · rw [show ((n : ℤ) - 0).toNat = n by omega, show (0 - ((n : ℤ) - n)).toNat = 0 by omega,
      Nat.shiftLeft_eq, pow_zero, div_one, zpow_natCast]
    push_cast
    rfl
  · rw [show (-(n : ℤ) - 0).toNat = 0 by omega, show (0 - (-(n : ℤ) - (0 : ℕ))).toNat = n by omega,
      zpow_neg, zpow_natCast, ← div_eq_mul_inv]
    rfl

/-- The integer part of a number, cut off at 0 and at `top`. -/
theorem toInt_spec (top : ℕ) (htop : top ≤ 2 ^ 128) (u : UnpackedFloat) :
    min (u.toInt 0 top).toNat top = min ⌊value u⌋₊ top := by
  cases u with
  | notANumber => rfl
  | zero s => rw [value_zero, Nat.floor_zero]; rfl
  | infinity s =>
    cases s with
    | negative => rw [Nat.floor_of_nonpos (by norm_num [signum])]; rfl
    | positive =>
      have hf : ⌊value (.infinity .positive)⌋₊ = 2 ^ 128 := by
        rw [value_infinity, signum, one_mul]
        exact_mod_cast Nat.floor_natCast (R := ℚ) (2 ^ 128)
      rw [hf, min_eq_right htop]
      exact min_self top
  | finite s m e hm =>
    show min (roundToInt s m e).toNat top = _
    rw [roundToInt_eq, value_finite]
    cases s with
    | negative =>
      have hz : signum .negative * ((m : ℚ) * 2 ^ e) ≤ 0 := by
        have := magnitude_pos m e hm
        rw [signum]
        linarith
      rw [Nat.floor_of_nonpos hz, Sign.apply, Int.toNat_neg_natCast]
    | positive => rw [signum, one_mul, Sign.apply, Int.toNat_natCast]

end Binary32

namespace Scalar

open Binary32

theorem isNearest_ofNat (n : ℕ) : IsNearest (ofNat n) n := by
  have h := normalize_spec n 0 .positive
  rw [zpow_zero, mul_one, Int.cast_natCast] at h
  exact isNearest_ofUnpacked h

theorem val_ofNat {n : ℕ} (h : n < 2 ^ 24) : (ofNat n).isFinite = true ∧ (ofNat n).val = n := by
  obtain ⟨hf, hv⟩ := (isNearest_ofNat n).isFinite (abs_natCast_le h)
  exact ⟨hf, hv.trans (nearest_of_representable (representable_natCast h))⟩

/-- The word of a number that is not below zero, and that of the magnitude of one that is. -/
theorem toNat_toUInt32_of_sign (n : Int32) :
    (¬ n < 0 → (n.toUInt32.toNat : ℤ) = n.toInt) ∧ (n < 0 → ((-n).toUInt32.toNat : ℤ) = -n.toInt) := by
  have hlt := n.toUInt32.toNat_lt
  have hn : n.toInt = if 2 * n.toUInt32.toNat < 2 ^ 32 then (n.toUInt32.toNat : ℤ)
      else n.toUInt32.toNat - (2 ^ 32 : ℕ) := BitVec.toInt_eq_toNat_cond n.toUInt32.toBitVec
  have hz : n < 0 ↔ n.toInt < 0 := Int32.lt_iff_toInt_lt
  rw [hz, hn, Int32.toUInt32_neg, UInt32.toNat_neg, show UInt32.size = 2 ^ 32 from rfl]
  split <;> omega

theorem isNearest_ofInt32 (n : Int32) : IsNearest (ofInt32 n) n.toInt := by
  obtain ⟨hpos, hneg⟩ := toNat_toUInt32_of_sign n
  unfold ofInt32
  split
  · rename_i h
    have hm : (n.toInt : ℚ) = -((-n).toUInt32.toNat : ℚ) := by
      rw [← Int.cast_natCast, hneg h, Int.cast_neg, neg_neg]
    have hw := isNearest_ofNat (-n).toUInt32.toNat
    have hb : |((-n).toUInt32.toNat : ℚ)| ≤ 2 ^ 127 := by
      rw [Nat.abs_cast]
      exact_mod_cast (-n).toUInt32.toNat_lt.le.trans (by norm_num)
    rw [hm]
    exact hw.neg (hw.isFinite hb).1
  · rename_i h
    have hm : (n.toInt : ℚ) = (n.toUInt32.toNat : ℚ) := by rw [← Int.cast_natCast, hpos h]
    rw [hm]
    exact isNearest_ofNat n.toUInt32.toNat

theorem val_toFloat32 (n : UInt16) :
    n.toFloat32.isFinite = true ∧ val n.toFloat32 = n.toNat :=
  val_ofNat (n.toNat_lt.trans (by norm_num))

theorem nonneg_toFloat32 (n : UInt16) : 0 ≤ n.toFloat32 := by
  obtain ⟨hf, hv⟩ := val_toFloat32 n
  rw [nonneg_iff (isNaN_of_isFinite hf), hv]
  exact Nat.cast_nonneg _

theorem pos_toFloat32 {n : UInt16} (h : n ≠ 0) : 0 < n.toFloat32 := by
  obtain ⟨hf, hv⟩ := val_toFloat32 n
  have hn : 0 < n.toNat := Nat.pos_of_ne_zero fun h0 => h (UInt16.toNat_inj.1 h0)
  rw [pos_iff (isNaN_of_isFinite hf), hv]
  exact Nat.cast_pos.2 hn

theorem toFloat32_mono {m n : UInt16} (h : m ≤ n) : m.toFloat32 ≤ n.toFloat32 := by
  obtain ⟨hm, hmv⟩ := val_toFloat32 m
  obtain ⟨hn, hnv⟩ := val_toFloat32 n
  rw [le_iff (isNaN_of_isFinite hm) (isNaN_of_isFinite hn), hmv, hnv]
  exact Nat.cast_le.2 (UInt16.le_iff_toNat_le.1 h)

theorem toNat_toUInt16 (x : Scalar) : x.toUInt16.toNat = min ⌊x.val⌋₊ 65535 := by
  have h := toInt_spec 65535 (by norm_num) x.unpacked
  show (UInt16.ofNatClamp (x.unpacked.toInt 0 65535).toNat).toNat = _
  refine Eq.trans ?_ h
  generalize (x.unpacked.toInt 0 65535).toNat = n
  rcases lt_or_ge n UInt16.size with hlt | hge
  · rw [UInt16.toNat_ofNatClamp_of_lt hlt]
    exact (min_eq_left (Nat.le_of_lt_succ hlt)).symm
  · rw [UInt16.toNat_ofNatClamp_of_le hge]
    exact (min_eq_right (le_trans (by decide) hge)).symm

end Scalar

end BrushlessDrive
