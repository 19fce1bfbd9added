import BrushlessDrive.Board
import BrushlessDrive.Proofs.Scalar.Error
import BrushlessDrive.Proofs.Scalar.HalfAway
import BrushlessDrive.Proofs.Scalar.Integer
import BrushlessDrive.Proofs.Scalar.Range
import BrushlessDrive.Proofs.Task.Admission

/-!
# The dead time in ticks of the timer

The timer counts the dead time of the bridge in ticks of its clock, of which `deadTimeTicks` takes the
nearest whole number. The dead time of accepted parameters is below a tenth of the period, where the period
and its tenth are rounded (`PwmParams.tenth_le`). That is worth less than a four-hundredth of a tick, so that
the product is below `2 ^ 15`: there a rounding is by `2 ^ -10` at most, and 16 bits are more than enough.
-/

set_option autoImplicit false

namespace BrushlessDrive

open Binary32 Scalar

def roundedTicks (deadTime : Scalar) : Scalar := roundHalfAway (deadTime * timerClock.toFloat32)

theorem deadTimeTicks_eq (d : Scalar) : deadTimeTicks d = (Scalar.clamp (roundedTicks d) 0 65535).toUInt16 :=
  rfl

theorem val_clock : timerClock.toFloat32.isFinite = true ∧ Scalar.val timerClock.toFloat32 = 170000000 :=
  ⟨by decide +kernel, by decide +kernel⟩

theorem val_greatest : (65535 : Scalar).isFinite = true ∧ (65535 : Scalar).val = 65535 :=
  ⟨by decide +kernel, by decide +kernel⟩

section

variable {d : Scalar} (hd : d.isNaN = false)
include hd

/-- The clock is faster than a hertz, so that an infinite dead time has infinitely many ticks. -/
theorem isNearest_mul_clock : IsNearest (d * timerClock.toFloat32) (d.val * 170000000) := by
  have h := isNearest_mul_of_one_le hd val_clock.1 (by decide +kernel)
  rwa [val_clock.2] at h

theorem val_roundedTicks : (roundedTicks d).isNaN = false ∧
    (roundedTicks d).val = roundAway (d * timerClock.toFloat32).val :=
  val_roundHalfAway (isNearest_mul_clock hd).not_nan

theorem toNat_deadTimeTicks : ((deadTimeTicks d).toNat : ℤ) =
    max 0 (min (roundAway (d * timerClock.toFloat32).val) 65535) := by
  obtain ⟨hn, hv⟩ := val_roundedTicks hd
  obtain ⟨-, hc⟩ := val_clamp isFinite_zero val_greatest.1 (by rw [val_greatest.2, val_zero]; norm_num) hn
  obtain ⟨n, hr⟩ : ∃ n, roundAway (d * timerClock.toFloat32).val = n := ⟨_, rfl⟩
  have hcast : (Scalar.clamp (roundedTicks d) 0 65535).val = (max 0 (min n 65535) : ℤ) := by
    rw [hc, hv, hr, val_greatest.2, val_zero]
    push_cast
    rfl
  rw [hr, deadTimeTicks_eq, toNat_toUInt16, hcast, ← Int.floor_toNat, Int.floor_intCast]
  omega

end

theorem deadTimeTicks_mono {x y : Scalar} (h : x ≤ y) : deadTimeTicks x ≤ deadTimeTicks y := by
  obtain ⟨hx, hy⟩ := isNaN_of_le h
  have hprod : x * timerClock.toFloat32 ≤ y * timerClock.toFloat32 :=
    (isNearest_mul_clock hx).mono (isNearest_mul_clock hy)
      (mul_le_mul_of_nonneg_right (val_le_val h) (by norm_num))
  have hround := roundAway_mono (val_le_val hprod)
  have hxt := toNat_deadTimeTicks hx
  have hyt := toNat_deadTimeTicks hy
  rw [UInt16.le_iff_toNat_le]
  omega

namespace PwmParams

variable {p : PwmParams} (h : p.isValid = true)
include h

/-! ## Below a tenth of the period -/

/-- The tenth that a dead time is compared with is too long by two roundings at most. -/
theorem tenth_le : (p.period / 10).isNaN = false ∧
    (p.period / 10).val ≤ 1 / p.frequency.toNat / 10 + 1 / 2 ^ 36 := by
  obtain ⟨hpf, -, hp1⟩ := period_bounds h
  have hten : (10 : Scalar).isFinite = true ∧ (10 : Scalar).val = 10 :=
    ⟨by decide +kernel, by decide +kernel⟩
  have hlo : (1000 : ℚ) ≤ p.frequency.toNat := by exact_mod_cast (frequency_bounds h).1
  have hq : 1 / (p.frequency.toNat : ℚ) ≤ 1 / 1000 := one_div_le_one_div_of_le (by norm_num) hlo
  have hq0 : 0 ≤ 1 / (p.frequency.toNat : ℚ) := by positivity
  have hleast : (2 : ℚ) ^ (-150 : ℤ) ≤ 1 / 2 ^ 60 := by norm_num
  -- the period, and then its tenth
  have hpv := (isNearest_period h).val_of_isFinite hpf
  have hperiod := abs_nearest_sub_le_add (1 / p.frequency.toNat)
  rw [← hpv, abs_of_nonneg hq0] at hperiod
  have hp0 : 0 ≤ p.period.val := hpv ▸ nearest_nonneg hq0
  have hn := isNearest_div hpf hten.1 (by rw [hten.2]; norm_num)
  rw [hten.2] at hn
  have ht0 : 0 ≤ p.period.val / 10 := by positivity
  obtain ⟨hf, hv⟩ := hn.isFinite (by rw [abs_of_nonneg ht0]; linarith)
  have htenth := abs_nearest_sub_le_add (p.period.val / 10)
  rw [← hv, abs_of_nonneg ht0] at htenth
  refine ⟨isNaN_of_isFinite hf, ?_⟩
  linarith [(abs_le.1 hperiod).2, (abs_le.1 htenth).2]

theorem deadTime_mul_clock_le :
    p.deadTime.val * 170000000 ≤ 17000000 / p.frequency.toNat + 1 / 400 := by
  obtain ⟨hn, hle⟩ := tenth_le h
  have hlt := val_le_val (Scalar.le_of_lt (deadTime_lt_of_isValid h))
  have hdiv : (17000000 : ℚ) / p.frequency.toNat = 1 / p.frequency.toNat * 17000000 := by ring
  rw [hdiv]
  linarith

theorem tenth_mul_clock_le : (17000000 : ℚ) / p.frequency.toNat ≤ 17000 := by
  have hlo : (1000 : ℚ) ≤ p.frequency.toNat := by exact_mod_cast (frequency_bounds h).1
  rw [div_le_iff₀ (by linarith)]
  linarith

theorem abs_product_sub_le :
    |(p.deadTime * timerClock.toFloat32).val - p.deadTime.val * 170000000| ≤ 1 / 2 ^ 10 := by
  obtain ⟨h0, hf⟩ := isQuantity_deadTime h
  have hb : |p.deadTime.val * 170000000| ≤ 2 ^ (15 : ℤ) := by
    rw [abs_of_nonneg (mul_nonneg (val_nonneg h0) (by norm_num))]
    have := deadTime_mul_clock_le h
    have := tenth_mul_clock_le h
    norm_num
    linarith
  obtain ⟨-, hv⟩ := (isNearest_mul_clock (isNaN_of_isFinite hf)).isFinite (hb.trans (by norm_num))
  rw [hv]
  exact (abs_nearest_sub_le (by norm_num) hb).trans (by norm_num)

theorem abs_roundAway_product_sub_le :
    |roundAway (p.deadTime * timerClock.toFloat32).val - p.deadTime.val * 170000000| ≤ 501 / 1000 := by
  have hround := abs_roundAway_sub_le (p.deadTime * timerClock.toFloat32).val
  have hsum := (abs_sub_le _ _ _).trans (add_le_add hround (abs_product_sub_le h))
  exact hsum.trans (by norm_num)

theorem roundAway_product_bounds :
    0 ≤ roundAway (p.deadTime * timerClock.toFloat32).val ∧
      roundAway (p.deadTime * timerClock.toFloat32).val ≤ 65535 := by
  obtain ⟨h0, hf⟩ := isQuantity_deadTime h
  have hprod := (isNearest_mul_clock (isNaN_of_isFinite hf)).nonneg
    (mul_nonneg (val_nonneg h0) (by norm_num))
  refine ⟨roundAway_nonneg (val_nonneg hprod), ?_⟩
  have hnear := (abs_le.1 (abs_roundAway_product_sub_le h)).2
  have hle : (roundAway (p.deadTime * timerClock.toFloat32).val : ℚ) ≤ (65535 : ℤ) := by
    push_cast
    linarith [deadTime_mul_clock_le h, tenth_mul_clock_le h]
  exact Int.cast_le.1 hle

end PwmParams

/-! ## Accepted parameters -/

/-- The dead time of `p` survives: neither end of the 16 bits is in the way, what is lost is no more than the
rounding to a tick and that of the product, and a tenth of the period has room for all ticks but one. -/
structure PwmParams.DeadTimeKept (p : PwmParams) : Prop where
  clamp : Scalar.clamp (roundedTicks p.deadTime) 0 65535 = roundedTicks p.deadTime
  cast : (deadTimeTicks p.deadTime).toNat = (roundedTicks p.deadTime).val
  nearest : (deadTimeTicks p.deadTime).toNat = roundAway (p.deadTime * timerClock.toFloat32).val
  error : |(deadTimeTicks p.deadTime).toNat - p.deadTime.val * 170000000| ≤ 501 / 1000
  room : ((deadTimeTicks p.deadTime).toNat : ℚ) ≤ 17000000 / p.frequency.toNat + 1

theorem PwmParams.deadTimeKept {p : PwmParams} (h : p.isValid = true) : p.DeadTimeKept := by
  have hd := isNaN_of_isFinite (isQuantity_deadTime h).2
  obtain ⟨hn, hv⟩ := val_roundedTicks hd
  obtain ⟨h0, htop⟩ := roundAway_product_bounds h
  have herror := abs_roundAway_product_sub_le h
  have hticks : ((deadTimeTicks p.deadTime).toNat : ℤ) =
      roundAway (p.deadTime * timerClock.toFloat32).val := by
    rw [toNat_deadTimeTicks hd, min_eq_left htop, max_eq_right h0]
  have hcast : ((deadTimeTicks p.deadTime).toNat : ℚ) =
      roundAway (p.deadTime * timerClock.toFloat32).val := by
    rw [← hticks, Int.cast_natCast]
  constructor
  case clamp =>
    refine clamp_of_mem ((nonneg_iff hn).2 ?_) ((le_iff hn (isNaN_of_isFinite val_greatest.1)).2 ?_)
    · rw [hv]
      exact Int.cast_nonneg h0
    · rw [hv, val_greatest.2]
      exact_mod_cast htop
  case cast => rw [hcast, hv]
  case nearest => exact hticks
  case error => rwa [hcast]
  case room =>
    rw [hcast]
    linarith [(abs_le.1 herror).2, deadTime_mul_clock_le h]

/-- **The law of the dead time**: accepted parameters keep it up to the rounding to a tick, and a longer one, be
it valid or not, has no fewer ticks. No NaN is in `x ≤ y`, and everything else is, one way or the other. -/
theorem deadTimeTicks_law :
    (∀ p : PwmParams, p.isValid = true → p.DeadTimeKept) ∧
      ∀ x y : Scalar, x ≤ y → deadTimeTicks x ≤ deadTimeTicks y :=
  ⟨fun _ => PwmParams.deadTimeKept, fun _ _ => deadTimeTicks_mono⟩

/-- The greatest dead time at the least frequency. -/
theorem deadTimeTicks_law_of_longest :
    let p : PwmParams := { frequency := 1000, deadTime := .ofBits 0x38d1b716 }
    p.isValid = true ∧ deadTimeTicks p.deadTime = 17000 ∧ p.DeadTimeKept ∧
      (-1 : Scalar) ≤ .ofBits 0x7f800000 ∧
      deadTimeTicks (-1) ≤ deadTimeTicks (.ofBits 0x7f800000) := by
  intro p
  have hv : p.isValid = true := by decide +kernel
  have hle : (-1 : Scalar) ≤ .ofBits 0x7f800000 := by decide +kernel
  exact ⟨hv, by decide +kernel, deadTimeTicks_law.1 p hv, hle, deadTimeTicks_law.2 _ _ hle⟩

end BrushlessDrive
