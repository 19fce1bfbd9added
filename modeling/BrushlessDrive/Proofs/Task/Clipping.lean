import BrushlessDrive.Proofs.Modulation.Headroom
import BrushlessDrive.Proofs.Task.Parameters
import BrushlessDrive.Proofs.Transform.Rotation

/-!
# When the voltage of a start is not clipped

A start asks for a bus voltage of `√3` times its own. The product is rounded, and for the least voltages that
is no small part of it, but it never gets below three halves of the voltage (`le_nearest_mul_sqrt3`). So
neither component of the turning voltage is more than two thirds of such a bus (`abs_div_bus_le`), whatever
the angle, and such a voltage is within the hexagon with room to spare.
-/

set_option autoImplicit false

namespace BrushlessDrive

open Binary32

/-! ## The bound -/

/-- An integer that is no further than a half below `m √3` is `3 m / 2` at least. -/
theorem three_mul_le_two_mul {m n : ℤ} (hm : 0 ≤ m) (h : m * Scalar.sqrt3.val - n ≤ 1 / 2) :
    3 * m ≤ 2 * n := by
  rw [Scalar.val_sqrt3] at h
  have hmn : (2 * 14529495 * m - 8388608 : ℚ) ≤ 2 * 8388608 * n := by linarith
  have hmn' : 2 * 14529495 * m - 8388608 ≤ 2 * 8388608 * n := by exact_mod_cast hmn
  rcases hm.eq_or_lt with rfl | hm <;> omega

/-- A number times the rounded `√3` is three halves of it at least. Two of the least numbers come to just
that. -/
theorem le_nearest_mul_sqrt3 {q : ℚ} (hq : Representable q) (h0 : 0 ≤ q) :
    3 / 2 * q ≤ nearest (q * Scalar.sqrt3.val) := by
  have hs : 0 ≤ q * Scalar.sqrt3.val := mul_nonneg h0 (by norm_num [Scalar.val_sqrt3])
  rcases le_or_gt (2 ^ (-126 : ℤ)) |q * Scalar.sqrt3.val| with h | h
  · have he := abs_le.1 (abs_nearest_sub_le_rel h)
    rw [abs_of_nonneg hs, Scalar.val_sqrt3] at he
    rw [Scalar.val_sqrt3]
    linarith
  · -- both are multiples of the least number, and the error is half of that
    obtain ⟨m, rfl⟩ := hq.exists_int
    obtain ⟨n, hn⟩ := (representable_nearest (m * 2 ^ (-149 : ℤ) * Scalar.sqrt3.val)).exists_int
    have hu : (0 : ℚ) < 2 ^ (-149 : ℤ) := zpow_pos (by norm_num) _
    have he := abs_le.1 (abs_nearest_sub_le (k := -125) le_rfl (h.le.trans (by norm_num)))
    rw [hn, show (-125 : ℤ) - 25 = -149 - 1 by norm_num, zpow_sub_one₀ (by norm_num)] at he
    rw [hn]
    generalize (2 : ℚ) ^ (-149 : ℤ) = u at h0 he hu ⊢
    have hm : 0 ≤ m := by exact_mod_cast nonneg_of_mul_nonneg_left h0 hu
    have h32 : (3 * m : ℚ) ≤ 2 * n := by
      exact_mod_cast three_mul_le_two_mul hm (le_of_mul_le_mul_right (by linarith [he.1]) hu)
    linarith [mul_le_mul_of_nonneg_right h32 hu.le]

section

variable {v bus : Scalar} (hv : Scalar.isPositive v = true) (hb : v * Scalar.sqrt3 ≤ bus)
include hv hb

theorem pos_bus : 0 < bus := by
  have h0 := (Scalar.isPositive_iff.1 hv).1
  exact Scalar.lt_of_lt_of_le ((Scalar.pos_mul_iff_of_one_le (Scalar.le_of_lt h0) Scalar.isFinite_sqrt3
    (by decide +kernel)).2 h0) hb

theorem infinity_or_le_bus :
    bus.unpacked = .infinity .positive ∨ bus.isFinite = true ∧ 3 / 2 * v.val ≤ bus.val := by
  obtain ⟨h0, hf⟩ := Scalar.isPositive_iff.1 hv
  have hm := Scalar.isNearest_mul hf Scalar.isFinite_sqrt3
  refine (Scalar.infinity_or_finite (Scalar.le_of_lt (pos_bus hv hb))).imp_right fun ⟨hbf, _⟩ => ⟨hbf, ?_⟩
  have hmf := Scalar.isFinite_of_le_of_le Scalar.isFinite_zero hbf
    (hm.nonneg (mul_nonneg (Scalar.val_pos h0).le (by norm_num [Scalar.val_sqrt3]))) hb
  calc 3 / 2 * v.val ≤ nearest (v.val * Scalar.sqrt3.val) :=
        le_nearest_mul_sqrt3 (Scalar.representable_val hf) (Scalar.val_pos h0).le
    _ = (v * Scalar.sqrt3).val := (hm.val_of_isFinite hmf).symm
    _ ≤ bus.val := Scalar.val_le_val hb

/-- A component of the voltage is two thirds of the bus at most, and that is less than `11 / 16`. -/
theorem abs_div_bus_le {x : Scalar} (hx : x.isFinite = true) (hxv : |x.val| ≤ |v.val|) :
    (x / bus).isFinite = true ∧ |(x / bus).val| ≤ 11 / 16 := by
  have hv0 := Scalar.val_pos (Scalar.isPositive_iff.1 hv).1
  rw [abs_of_pos hv0] at hxv
  rcases infinity_or_le_bus hv hb with hi | ⟨hbf, hle⟩
  · obtain ⟨hf, h0⟩ := Scalar.div_infinity hx hi
    exact ⟨hf, by norm_num [h0]⟩
  · have hb0 : 0 < bus.val := by linarith
    have hr : Representable (11 / 16) := ⟨11, -4, by norm_num, by norm_num, by norm_num⟩
    obtain ⟨hf, -, hq⟩ := (Scalar.isNearest_div hx hbf hb0.ne').abs_le hr (by norm_num) (by
      rw [abs_div, abs_of_pos hb0, div_le_iff₀ hb0]
      linarith)
    exact ⟨hf, hq⟩

end

/-! ## Starts -/

/-- No phase is on one side of the supply for the whole period. -/
def Output.Unclipped (o : Output) : Prop := ∀ p, 0 < o.phases.get p ∧ o.phases.get p < 1

namespace Spinup

section

variable {t : Spinup} (hv : Scalar.isPositive t.voltage = true)
include hv

theorem unclipped_of_le {bus : Scalar} (hb : t.minBusVoltage ≤ bus) : (t.output bus).Unclipped := by
  obtain ⟨⟨ha, hav⟩, hβ, hβv⟩ := abs_inversePark_le (Scalar.isPositive_iff.1 hv).2 t.angle
  obtain ⟨fa, ba⟩ := abs_div_bus_le hv hb ha hav
  obtain ⟨fx, bx⟩ := abs_div_bus_le hv hb hβ hβv
  have h54 : Representable (5 / 4) := ⟨5, -2, by norm_num, by norm_num, by norm_num⟩
  obtain ⟨fr, -, br⟩ := (Scalar.isNearest_mul Scalar.isFinite_sqrt3 fa).abs_le h54 (by norm_num) (by
    rw [abs_mul, Scalar.val_sqrt3, abs_of_pos (by norm_num)]
    linarith)
  exact svpwm_interior _ (pos_bus hv hb) fx fr (h := 31 / 32) (by linarith) (by linarith) (by norm_num)

theorem isNaN_minBusVoltage : t.minBusVoltage.isNaN = false :=
  (Scalar.isNearest_mul (Scalar.isPositive_iff.1 hv).2 Scalar.isFinite_sqrt3).not_nan

theorem unclipped_of_not_lt {bus : Scalar} (hb : ¬ bus < t.minBusVoltage) : (t.output bus).Unclipped := by
  cases hn : bus.isNaN with
  | false => exact unclipped_of_le hv ((Scalar.le_iff_not_lt (isNaN_minBusVoltage hv) hn).2 hb)
  | true =>
    have h0 : ¬ 0 < bus := Scalar.not_lt_of_isNaN (.inr hn)
    intro p
    rw [output, svpwm_of_not_pos _ h0, Phases.get_uniform]
    decide +kernel

end

/-- **When a start is not clipped**: from the bound on that it has for the bus voltage, in every state that a
run leads to. Below the bound the main check does not let it go on. -/
theorem unclipped (c : Context) (es : List Task.Event) :
    ∃ u : Spinup, ((Task.spinup (make c)).run es).2 = .spinup u ∧ ∀ i bus,
      let period := (Task.spinup u).pwmPeriod i bus
      (u.minBusVoltage ≤ bus → ∀ p, 0 < period.1.phases.get p ∧ period.1.phases.get p < 1) ∧
        (∀ s power, (period.2.mainCheck s power).1 = .failure .lowBusVoltage → bus < u.minBusVoltage) ∧
        (∀ s power, (period.2.mainCheck s power).1 = .inProgress →
          ¬ bus < u.minBusVoltage ∧ period.1.Unclipped) := by
  obtain ⟨⟨hp, -⟩, -⟩ := c.start_valid
  have hv : Scalar.isPositive ((make c).after es).voltage = true := by
    rwa [voltage_after, voltage_make]
  refine ⟨(make c).after es, Task.run_spinup _ es, fun i bus => ⟨?_, ?_, ?_⟩⟩
  · exact unclipped_of_le (t := ((make c).after es).advance i bus) hv
  · intro s power h
    have hlow := isBusLow_of_failure (t := ((make c).after es).advance i bus) h
    rwa [isBusLow_advance, decide_eq_true_eq] at hlow
  · intro s power h
    have hlow := ((mainCheck_eq_inProgress_iff (((make c).after es).advance i bus) s power).1 h).2.2.2
    rw [isBusLow_advance, decide_eq_false_iff_not] at hlow
    exact ⟨hlow, unclipped_of_not_lt (t := ((make c).after es).advance i bus) hv hlow⟩

/-- The least voltage that is valid. The bound is twice as high, and with half of that the voltage is
clipped. -/
theorem unclipped_of_least_voltage :
    let c : Context := ⟨{ controller := { spinupVoltage := .ofBits 1 } }, ⟨.ofParams {}, .current⟩, rfl,
      PwmTiming.period_default_pos⟩
    let es : List Task.Event := [.pwm ⟨0, 0⟩ 24, .check 0.001 ⟨true, 24⟩]
    ∃ u : Spinup, ((Task.spinup (make c)).run es).2 = .spinup u ∧ u.minBusVoltage ≤ .ofBits 2 ∧
      ((Task.spinup u).pwmPeriod ⟨0, 0⟩ (.ofBits 2)).1.Unclipped ∧
      ¬ ((Task.spinup u).pwmPeriod ⟨0, 0⟩ (.ofBits 1)).1.Unclipped := by
  intro c es
  obtain ⟨u, hu, h⟩ := unclipped c es
  have hrun := hu
  cases hu
  have hb : ((make c).after es).minBusVoltage ≤ .ofBits 2 := by decide +kernel
  exact ⟨_, hrun, hb, (h ⟨0, 0⟩ (.ofBits 2)).1 hb, fun hc => absurd (hc .b) (by decide +kernel)⟩

end Spinup

end BrushlessDrive
