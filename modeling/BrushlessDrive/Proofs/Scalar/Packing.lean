import BrushlessDrive.Proofs.Scalar.Operations

/-!
# Packing of unpacked numbers

The 32 bits of a scalar hold every canonical number whose exponent is not too great, and turn the
others into infinities:

* `unpack_pack_finite`, `unpack_pack_overflow`: what comes back out of the bits.
* `canonical_unpack`: whatever the bits are, what they hold is canonical and below `2 ^ 128`, or an
  infinity, or no number.
-/

set_option autoImplicit false

namespace BrushlessDrive.Binary32

open Float.Model (Format UnpackedFloat)
open Float.Model.UnpackedFloat hiding round normalize

/-! ## The parts of the bits -/

theorem finite_congr {s : Sign} {m m' : ℕ} {e e' : ℤ} {h : 0 < m} {h' : 0 < m'} (hm : m = m')
    (he : e = e') : UnpackedFloat.finite s m e h = .finite s m' e' h' := by
  subst hm he
  rfl

theorem sign_packComponents (s : Sign) (e : BitVec Format.binary32.exponentBits)
    (m : BitVec Format.binary32.mantissaBitsWithoutImplicit) :
    Sign.ofBitVec (unpackSign (packComponents Format.binary32 s e m)) = s := by
  have hbit : unpackSign (packComponents Format.binary32 s e m) = s.toBitVec := by
    show BitVec.extractLsb' 31 1 (s.toBitVec ++ e ++ m) = s.toBitVec
    rw [BitVec.extractLsb'_append_eq_of_le (by decide)]
    exact BitVec.extractLsb'_append_eq_left
  rw [hbit]
  cases s <;> rfl

section

variable {b : BitVec Format.binary32.numBits}

theorem unpack_special (he : unpackExponent b = -1#_) :
    unpack Format.binary32 b =
      if unpackMantissa b = 0#_ then .infinity (Sign.ofBitVec (unpackSign b)) else .notANumber := by
  unfold unpack
  exact if_pos he

theorem unpack_zero (he : unpackExponent b = 0#_) (hm : unpackMantissa b = 0#_) :
    unpack Format.binary32 b = .zero (Sign.ofBitVec (unpackSign b)) := by
  have h1 : unpackExponent b ≠ -1#_ := by
    rw [he]
    decide
  unfold unpack
  dsimp only
  rw [if_neg h1, if_pos he, dif_pos hm]

theorem unpack_subnormal (he : unpackExponent b = 0#_) (hm : 0 < (unpackMantissa b).toNat) :
    unpack Format.binary32 b =
      .finite (Sign.ofBitVec (unpackSign b)) (unpackMantissa b).toNat (-149) hm := by
  have h1 : unpackExponent b ≠ -1#_ := by
    rw [he]
    decide
  have h0 : unpackMantissa b ≠ 0#_ := by
    intro h
    rw [h] at hm
    exact absurd hm (by decide)
  unfold unpack
  dsimp only
  rw [if_neg h1, if_pos he, dif_neg h0]
  refine finite_congr rfl ?_
  rw [he]
  rfl

theorem unpack_normal (h1 : unpackExponent b ≠ -1#_) (h0 : unpackExponent b ≠ 0#_) :
    unpack Format.binary32 b = .finite (Sign.ofBitVec (unpackSign b))
      (2 ^ 23 + (unpackMantissa b).toNat) ((unpackExponent b).toNat - 150)
      (Nat.add_pos_left (Nat.two_pow_pos 23) _) := by
  unfold unpack
  dsimp only
  rw [if_neg h1, if_neg h0]
  refine finite_congr ?_ rfl
  rw [BitVec.toNat_append, ← Nat.shiftLeft_add_eq_or_of_lt (BitVec.isLt _)]
  rfl

end

/-! ## Packing and unpacking -/

theorem unpack_pack_infinity (s : Sign) :
    unpack Format.binary32 (pack Format.binary32 (.infinity s)) = .infinity s := by
  cases s <;> rfl

theorem unpack_pack_zero (s : Sign) :
    unpack Format.binary32 (pack Format.binary32 (.zero s)) = .zero s := by
  cases s <;> rfl

/-- An exponent too great for the format makes an infinity. -/
theorem unpack_pack_overflow (s : Sign) {m : ℕ} {e : ℤ} (hm : 0 < m) (he : 105 ≤ e) :
    unpack Format.binary32 (pack Format.binary32 (.finite s m e hm)) = .infinity s := by
  have hp : pack Format.binary32 (.finite s m e hm) = pack Format.binary32 (.infinity s) := by
    unfold pack
    refine if_pos ?_
    show 256 ≤ (e + 127 + 23).toNat + 1
    omega
  rw [hp, unpack_pack_infinity]

section

variable {s : Sign} {m : ℕ} {e : ℤ} {hm : 0 < m}

theorem exponent_fits (he : e ≤ 104) : ¬ 2 ^ Format.binary32.exponentBits ≤
    (e + Format.binary32.exponentBias + Format.binary32.mantissaBitsWithoutImplicit).toNat + 1 := by
  show ¬ 256 ≤ (e + 127 + 23).toNat + 1
  omega

theorem unpack_pack_normal (hn : 2 ^ 23 ≤ m) (hlt : m < 2 ^ 24) (hmin : -149 ≤ e) (he : e ≤ 104) :
    unpack Format.binary32 (pack Format.binary32 (.finite s m e hm)) = .finite s m e hm := by
  have hl : m.log2 + 1 = Format.binary32.mantissaBits := by
    rw [(Nat.log2_eq_iff hm.ne').2 ⟨hn, hlt⟩]
    rfl
  have hp : pack Format.binary32 (.finite s m e hm) = packComponents Format.binary32 s
      (BitVec.ofNat _ (e + 127 + 23).toNat) (BitVec.ofNat _ m) := by
    unfold pack
    dsimp only
    rw [if_neg (exponent_fits he), if_pos hl]
    rfl
  have hE : (BitVec.ofNat Format.binary32.exponentBits (e + 127 + 23).toNat).toNat =
      (e + 127 + 23).toNat := by
    rw [BitVec.toNat_ofNat]
    refine Nat.mod_eq_of_lt ?_
    show (e + 127 + 23).toNat < 256
    omega
  have hM : 2 ^ 23 + (BitVec.ofNat Format.binary32.mantissaBitsWithoutImplicit m).toNat = m := by
    rw [BitVec.toNat_ofNat]
    show 2 ^ 23 + m % 2 ^ 23 = m
    omega
  rw [hp, unpack_normal]
  · rw [unpackExponent_packComponents]
    refine (finite_congr ?_ ?_).trans (congrArg (fun s => UnpackedFloat.finite s m e hm)
      (sign_packComponents s _ _))
    · rw [unpackMantissa_packComponents]
      exact hM
    · rw [hE]
      omega
  · rw [unpackExponent_packComponents]
    intro hc
    have := congrArg BitVec.toNat hc
    rw [hE] at this
    change (e + 127 + 23).toNat = 255 at this
    omega
  · rw [unpackExponent_packComponents]
    intro hc
    have := congrArg BitVec.toNat hc
    rw [hE] at this
    change (e + 127 + 23).toNat = 0 at this
    omega

theorem unpack_pack_subnormal (hlt : m < 2 ^ 23) :
    unpack Format.binary32 (pack Format.binary32 (.finite s m (-149) hm)) =
      .finite s m (-149) hm := by
  have hl : m.log2 + 1 ≠ Format.binary32.mantissaBits := by
    have := (Nat.log2_lt hm.ne').2 hlt
    show m.log2 + 1 ≠ 24
    omega
  have hp : pack Format.binary32 (.finite s m (-149) hm) =
      packComponents Format.binary32 s 0#_ (BitVec.ofNat _ m) := by
    unfold pack
    dsimp only
    rw [if_neg (exponent_fits (by norm_num)), if_neg hl]
  have hM : (BitVec.ofNat Format.binary32.mantissaBitsWithoutImplicit m).toNat = m := by
    rw [BitVec.toNat_ofNat]
    exact Nat.mod_eq_of_lt hlt
  rw [hp, unpack_subnormal (unpackExponent_packComponents)
    (by rw [unpackMantissa_packComponents, hM]; exact hm)]
  refine (finite_congr ?_ rfl).trans (congrArg (fun s => UnpackedFloat.finite s m (-149) hm)
    (sign_packComponents s _ _))
  rw [unpackMantissa_packComponents, hM]

/-- A canonical number within the range of the format comes back as it was. -/
theorem unpack_pack_finite (h : Canonical (.finite s m e hm)) (he : e ≤ 104) :
    unpack Format.binary32 (pack Format.binary32 (.finite s m e hm)) = .finite s m e hm := by
  obtain ⟨hlt, hmin, hbits⟩ := h
  by_cases hn : 2 ^ 23 ≤ m
  · exact unpack_pack_normal hn hlt hmin he
  · obtain rfl := hbits.resolve_left hn
    exact unpack_pack_subnormal (not_le.1 hn)

end

theorem abs_value_finite (s : Sign) (m : ℕ) (e : ℤ) (hm : 0 < m) :
    |value (.finite s m e hm)| = m * 2 ^ e := by
  have h : |signum s| = 1 := by cases s <;> norm_num [signum]
  rw [value_finite, abs_mul, h, one_mul, abs_of_nonneg]
  exact mul_nonneg (Nat.cast_nonneg m) (two_zpow_pos e).le

/-- The exponents within the format are those of the numbers below `2 ^ 128`. -/
theorem abs_value_lt_iff {s : Sign} {m : ℕ} {e : ℤ} {hm : 0 < m}
    (h : Canonical (.finite s m e hm)) : |value (.finite s m e hm)| < 2 ^ 128 ↔ e ≤ 104 := by
  obtain ⟨hlt, -, hbits⟩ := h
  rw [abs_value_finite]
  constructor
  · intro hv
    by_contra he
    have h1 : (2 : ℚ) ^ 23 ≤ m := by exact_mod_cast hbits.resolve_right (by omega)
    have h2 : (2 : ℚ) ^ (105 : ℤ) ≤ 2 ^ e := zpow_le_zpow_right₀ (by norm_num) (by omega)
    have h3 := mul_le_mul h1 h2 (two_zpow_pos _).le (Nat.cast_nonneg m)
    norm_num at h3 hv
    linarith
  · intro he
    have h1 : (m : ℚ) < 2 ^ 24 := by exact_mod_cast hlt
    have h2 : (2 : ℚ) ^ e ≤ 2 ^ (104 : ℤ) := zpow_le_zpow_right₀ (by norm_num) he
    have h3 := mul_lt_mul h1 h2 (two_zpow_pos e) (by norm_num)
    norm_num at h3 ⊢
    linarith

/-- Whatever 32 bits hold. -/
theorem canonical_unpack (b : BitVec Format.binary32.numBits) :
    (∃ s, unpack Format.binary32 b = .infinity s) ∨ unpack Format.binary32 b = .notANumber ∨
      Canonical (unpack Format.binary32 b) ∧ |value (unpack Format.binary32 b)| < 2 ^ 128 := by
  by_cases h1 : unpackExponent b = -1#_
  · rw [unpack_special h1]
    split
    · exact .inl ⟨_, rfl⟩
    · exact .inr (.inl rfl)
  refine .inr (.inr ?_)
  have hE := (unpackExponent b).isLt
  have hM := (unpackMantissa b).isLt
  by_cases h0 : unpackExponent b = 0#_
  · by_cases hm : unpackMantissa b = 0#_
    · rw [unpack_zero h0 hm]
      exact ⟨trivial, by simp⟩
    · have hpos : 0 < (unpackMantissa b).toNat := by
        rw [Nat.pos_iff_ne_zero]
        exact fun h => hm (BitVec.eq_of_toNat_eq h)
      have hc : Canonical (.finite (Sign.ofBitVec (unpackSign b)) _ (-149) hpos) :=
        ⟨hM.trans (by decide), le_rfl, .inr rfl⟩
      rw [unpack_subnormal h0 hpos]
      exact ⟨hc, (abs_value_lt_iff hc).2 (by norm_num)⟩
  · have hne1 : (unpackExponent b).toNat ≠ 255 := fun h => h1 (BitVec.eq_of_toNat_eq h)
    have hne0 : (unpackExponent b).toNat ≠ 0 := fun h => h0 (BitVec.eq_of_toNat_eq h)
    change (unpackExponent b).toNat < 256 at hE
    change (unpackMantissa b).toNat < 2 ^ 23 at hM
    rw [unpack_normal h1 h0]
    have hc : Canonical (.finite (Sign.ofBitVec (unpackSign b))
        (2 ^ 23 + (unpackMantissa b).toNat) ((unpackExponent b).toNat - 150)
        (Nat.add_pos_left (Nat.two_pow_pos 23) _)) :=
      ⟨by omega, by omega, .inl (Nat.le_add_right _ _)⟩
    exact ⟨hc, (abs_value_lt_iff hc).2 (by omega)⟩

end BrushlessDrive.Binary32
