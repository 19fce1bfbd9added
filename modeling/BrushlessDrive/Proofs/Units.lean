import BrushlessDrive.Proofs.Scalar.Integer
import BrushlessDrive.Proofs.Scalar.Range
import BrushlessDrive.Units

/-!
# Signs of converted quantities

A rate that is at least zero, be it infinite, is so in every unit: the factors of the conversions are
finite and above zero. But a speed in RPM that is above zero can have an angular velocity of zero
(`pos_angularVelocityOfRpm_iff`).
-/

set_option autoImplicit false

namespace BrushlessDrive.Units

open Scalar Binary32

variable {w rpm : Scalar} {poles : UInt32}

theorem isPoleCount_iff : isPoleCount poles = true ↔ 2 ≤ poles.toNat ∧ poles.toNat % 2 = 0 := by
  simp [isPoleCount, UInt32.le_iff_toNat_le, ← UInt32.toNat_inj]

theorem poles_spec (h : isPoleCount poles = true) :
    poles.toFloat32.isFinite = true ∧ 2 ≤ val poles.toFloat32 ∧ val poles.toFloat32 ≤ 2 ^ 32 := by
  have hn : IsNearest poles.toFloat32 poles.toNat := isNearest_ofNat poles.toNat
  have hlo : (2 : ℚ) ≤ poles.toNat := by exact_mod_cast (isPoleCount_iff.1 h).1
  have hhi : (poles.toNat : ℚ) ≤ 2 ^ 32 := by exact_mod_cast poles.toNat_lt.le
  obtain ⟨hf, hv⟩ := hn.isFinite (by rw [Nat.abs_cast]; exact hhi.trans (by norm_num))
  have h2 : Representable 2 := by simpa using representable_two_pow 1
  rw [hv]
  exact ⟨hf, le_nearest h2 hlo, nearest_le (representable_two_pow 32) hhi⟩

theorem polePairs_spec (h : isPoleCount poles = true) :
    (poles.toFloat32 / 2).isFinite = true ∧ 1 ≤ poles.toFloat32 / 2 := by
  obtain ⟨hf, hlo, hhi⟩ := poles_spec h
  have hd := isNearest_div hf isFinite_two (by rw [val_two]; norm_num)
  rw [val_two] at hd
  refine ⟨(hd.isFinite ?_).1, hd.ge (isNaN_of_isFinite isFinite_one) ?_⟩
  · rw [abs_of_nonneg (by linarith)]
    linarith
  · rw [val_one]
    linarith

theorem nonneg_angularVelocityOfRpm (h : 0 ≤ rpm) : 0 ≤ angularVelocityOfRpm rpm := by
  have h2 := nonneg_mul_of_pos h (y := 2) (by decide +kernel) (by rfl)
  have hp := nonneg_mul_of_pos h2 (y := pi) (by decide +kernel) (by rfl)
  exact nonneg_div_of_pos hp (by decide +kernel) (by rfl)

theorem nonneg_electricalOfMechanical (h : 0 ≤ w) {e : Scalar}
    (he : electricalOfMechanical w poles = .ok e) : 0 ≤ e := by
  unfold electricalOfMechanical checkPoles at he
  split at he
  · rename_i hp
    obtain ⟨hf, h1⟩ := polePairs_spec hp
    obtain rfl : w * (poles.toFloat32 / 2) = e := Except.ok.inj he
    exact nonneg_mul_of_pos h (Scalar.lt_of_lt_of_le (by decide +kernel) h1) hf
  · cases he

/-! ## Speeds that are lost -/

theorem angularVelocityOfRpm_mono {w : Scalar} (h : 0 ≤ rpm) (hw : rpm ≤ w) :
    angularVelocityOfRpm rpm ≤ angularVelocityOfRpm w := by
  have h2 := mul_le_mul_of_pos h hw (z := 2) (by decide +kernel) (by rfl)
  have h2' := nonneg_mul_of_pos h (y := 2) (by decide +kernel) (by rfl)
  have hp := mul_le_mul_of_pos h2' h2 (z := pi) (by decide +kernel) (by rfl)
  have hp' := nonneg_mul_of_pos h2' (y := pi) (by decide +kernel) (by rfl)
  exact div_le_div_of_pos hp' hp (by decide +kernel) (by rfl)

/-- The four least numbers above zero have an angular velocity of zero: it is rounded to a multiple of the
least number in each step, and only from the fifth one on does more than half of it remain. -/
theorem pos_angularVelocityOfRpm_iff (h : 0 ≤ rpm) (hf : rpm.isFinite = true) :
    0 < angularVelocityOfRpm rpm ↔ 5 * 2 ^ (-149 : ℤ) ≤ rpm.val := by
  have hn := isNaN_of_isFinite hf
  have h4 : val (.ofBits 4) = 4 * 2 ^ (-149 : ℤ) := by decide +kernel
  have h5 : val (.ofBits 5) = 5 * 2 ^ (-149 : ℤ) := by decide +kernel
  constructor
  · intro hpos
    by_contra hlt
    have hle : rpm ≤ .ofBits 4 := by
      obtain ⟨n, hv⟩ := (representable_val hf).exists_int
      have hu : (0 : ℚ) < 2 ^ (-149 : ℤ) := zpow_pos (by norm_num) _
      rw [hv, not_le] at hlt
      have hn5 : n < 5 := by exact_mod_cast lt_of_mul_lt_mul_right hlt hu.le
      rw [le_iff hn rfl, h4, hv]
      exact mul_le_mul_of_nonneg_right (by exact_mod_cast Int.le_of_lt_add_one hn5) hu.le
    have hzero : ¬ 0 < angularVelocityOfRpm (.ofBits 4) := by decide +kernel
    exact hzero (Scalar.lt_of_lt_of_le hpos (angularVelocityOfRpm_mono h hle))
  · intro hle
    rw [← h5, ← le_iff rfl hn] at hle
    have hpos : 0 < angularVelocityOfRpm (.ofBits 5) := by decide +kernel
    exact Scalar.lt_of_lt_of_le hpos (angularVelocityOfRpm_mono (by decide +kernel) hle)

theorem electricalOfMechanical_of_isPoleCount (h : isPoleCount poles = true) (w : Scalar) :
    electricalOfMechanical w poles = .ok (w * (poles.toFloat32 / 2)) := by
  unfold electricalOfMechanical checkPoles
  rw [if_pos h]
  rfl

/-! ## The conversions by cases -/

theorem mechanicalOfElectrical_eq (rate : Scalar) (poles : UInt32) : mechanicalOfElectrical rate poles =
    if isPoleCount poles then .ok (rate / (poles.toFloat32 / 2)) else .error .invalidPoleCount := by
  unfold mechanicalOfElectrical checkPoles
  split <;> rfl

theorem electricalOfMechanical_eq (rate : Scalar) (poles : UInt32) : electricalOfMechanical rate poles =
    if isPoleCount poles then .ok (rate * (poles.toFloat32 / 2)) else .error .invalidPoleCount := by
  unfold electricalOfMechanical checkPoles
  split <;> rfl

theorem kvOfFluxLinkage_eq (flux : Scalar) (poles : UInt32) : kvOfFluxLinkage flux poles =
    if isPoleCount poles then
      if 0 < flux then .ok (kvFluxProduct / (flux * poles.toFloat32)) else .error .nonPositiveInput
    else .error .invalidPoleCount := by
  unfold kvOfFluxLinkage checkPoles checkPositive
  split
  · split <;> rfl
  · rfl

/-- The two quantities have a constant product, so one formula converts either into the other. -/
theorem fluxLinkageOfKv_eq : fluxLinkageOfKv = kvOfFluxLinkage := rfl

end BrushlessDrive.Units
