import BrushlessDrive.Proofs.Modulation.Levels

/-!
# The gain of the modulation

`recovered` is the voltage that the levels of a modulation put on the motor, taken back to the
stationary plane by the formulas of `clarke` and without rounding. Up to the voltage that the supply
can give, `svpwm` is linear, but the voltage on the motor is the command divided by `√3`, so both components
miss the command by `1 - 1 / √3` of it.
-/

set_option autoImplicit false

namespace BrushlessDrive

open Scalar

/-- The voltage on the motor for the levels of a modulation and a supply voltage. The mean of the
levels has no effect. -/
def recovered (p : Phases Scalar) (bus : ℚ) : ℚ × ℚ :=
  let n := (p.a.val + p.b.val + p.c.val) / 3
  let a := (p.a.val - n) * bus
  let b := (p.b.val - n) * bus
  (a, (a + 2 * b) / sqrt3.val)

/-- The modulation gives both components of the command, up to a hundredth of the supply. -/
def Realises (v : Stationary) (bus : Scalar) : Prop :=
  |(recovered (svpwm v bus) bus.val).1 - v.alpha.val| ≤ bus.val / 100 ∧
    |(recovered (svpwm v bus) bus.val).2 - v.beta.val| ≤ bus.val / 100

/-! ## The linear range -/

theorem val_thousand : val 1000 = 1000 := by decide +kernel

theorem isFinite_of_le_thousand {x : Scalar} (h1 : 1 ≤ x) (h2 : x ≤ 1000) :
    x.isFinite = true ∧ 1 ≤ x.val ∧ x.val ≤ 1000 := by
  obtain ⟨hn1, hn⟩ := isNaN_of_le h1
  have hlo := (le_iff hn1 hn).1 h1
  have hhi := (le_iff hn (isNaN_of_le h2).2).1 h2
  rw [val_one] at hlo
  rw [val_thousand] at hhi
  refine ⟨isFinite_iff.2 ⟨hn, abs_lt.2 ⟨?_, ?_⟩⟩, hlo, hhi⟩
  · linarith [show (0 : ℚ) < 2 ^ 128 by norm_num]
  · exact hhi.trans_lt (by norm_num)

/-- In the linear range no coordinate is above 3/5, and no level above 1. -/
theorem linear_range {x r : ℚ} (h : r ^ 2 + 3 * x ^ 2 ≤ 1) :
    (|x| ≤ 3 / 5 ∧ |(x + r) / 2| ≤ 3 / 5 ∧ |(x - r) / 2| ≤ 3 / 5) ∧
      |r| ≤ 1 ∧ |(3 * x + r) / 2| ≤ 1 ∧ |(3 * x - r) / 2| ≤ 1 := by
  have hx := sq_nonneg x
  have hr := sq_nonneg r
  refine ⟨⟨?_, ?_, ?_⟩, ?_, ?_, ?_⟩ <;> refine abs_le_of_sq_le_sq ?_ (by norm_num)
  · linarith
  · linarith [sq_nonneg (3 * x - r), show ((x + r) / 2) ^ 2 =
      (3 * x ^ 2 + r ^ 2) / 3 - (3 * x - r) ^ 2 / 12 by ring]
  · linarith [sq_nonneg (3 * x + r), show ((x - r) / 2) ^ 2 =
      (3 * x ^ 2 + r ^ 2) / 3 - (3 * x + r) ^ 2 / 12 by ring]
  · linarith
  · linarith [sq_nonneg (x - r), show ((3 * x + r) / 2) ^ 2 =
      3 * x ^ 2 + r ^ 2 - 3 * (x - r) ^ 2 / 4 by ring]
  · linarith [sq_nonneg (x + r), show ((3 * x - r) / 2) ^ 2 =
      3 * x ^ 2 + r ^ 2 - 3 * (x + r) ^ 2 / 4 by ring]

theorem exactLevels_abs_le (s : Sector) {x r : ℚ} (h : r ^ 2 + 3 * x ^ 2 ≤ 1) (i : Phase) :
    |(s.exactLevels x ((x + r) / 2) ((x - r) / 2)).get i| ≤ 1 := by
  obtain ⟨⟨h1, h2, h3⟩, h4, h5, h6⟩ := linear_range h
  rw [abs_le] at *
  cases s <;> cases i <;> simp only [Sector.exactLevels, Phases.get] <;> constructor <;> linarith

theorem coordinates_within {α β : Scalar} {a x : ℚ} (wa : Within α a (1 / 2 ^ 25))
    (wx : Within β x (1 / 2 ^ 25)) (h : (sqrt3.val * a) ^ 2 + 3 * x ^ 2 ≤ 1) :
    Within ((β + sqrt3 * α) / 2) ((x + sqrt3.val * a) / 2) (1 / 2 ^ 22) ∧
      Within ((β - sqrt3 * α) / 2) ((x - sqrt3.val * a) / 2) (1 / 2 ^ 22) := by
  obtain ⟨⟨bx, by', bz⟩, br, -, -⟩ := linear_range h
  have hs : |sqrt3.val| ≤ 7 / 4 := by rw [val_sqrt3]; norm_num [abs_of_pos]
  have ws : Within (sqrt3 * α) (sqrt3.val * a) (1 / 2 ^ 23) :=
    (wa.const_mul (k := 1) isFinite_sqrt3 (by norm_num) (by norm_num)
      (by rw [zpow_one]; linarith)).mono (by norm_num; linarith)
  have hadd : |x + sqrt3.val * a| ≤ 6 / 5 := by
    rw [abs_div, abs_two] at by'
    linarith
  have hsub : |x - sqrt3.val * a| ≤ 6 / 5 := by
    rw [abs_div, abs_two] at bz
    linarith
  obtain ⟨hy, hz⟩ := plane_coordinates_within (k := 1) wx ws (by norm_num) (by norm_num)
    (by norm_num; linarith) (by norm_num; linarith)
  exact ⟨hy.mono (by norm_num), hz.mono (by norm_num)⟩

section

variable {v : Stationary} {bus : Scalar}

theorem svpwm_within (ha : v.alpha.isFinite = true) (hb : v.beta.isFinite = true) (h1 : 1 ≤ bus)
    (h2 : bus ≤ 1000) (h : 3 * (v.alpha.val ^ 2 + v.beta.val ^ 2) ≤ bus.val ^ 2) :
    let a := v.alpha.val / bus.val
    let x := v.beta.val / bus.val
    ∃ s : Sector, ∀ i, Within ((svpwm v bus).get i)
      (((s.exactLevels x ((x + sqrt3.val * a) / 2) ((x - sqrt3.val * a) / 2)).get i + 1) / 2)
      (1 / 2 ^ 21) := by
  intro a x
  obtain ⟨hf, hd1, -⟩ := isFinite_of_le_thousand h1 h2
  have hd : 0 < bus.val := by linarith
  have hax : 3 * (a ^ 2 + x ^ 2) ≤ 1 := by
    rw [div_pow, div_pow, ← add_div, ← mul_div_assoc, div_le_one (by positivity)]
    exact h
  have hrange : (sqrt3.val * a) ^ 2 + 3 * x ^ 2 ≤ 1 := by
    have hr2 : sqrt3.val ^ 2 ≤ 3 := by rw [val_sqrt3]; norm_num
    have := mul_le_mul_of_nonneg_right hr2 (sq_nonneg a)
    rw [mul_pow]
    linarith
  obtain ⟨⟨bx, by', bz⟩, -⟩ := linear_range hrange
  have ba : |a| ≤ 3 / 5 :=
    abs_le_of_sq_le_sq (by linarith [sq_nonneg x, sq_nonneg a]) (by norm_num)
  have wa : Within (v.alpha / bus) a (1 / 2 ^ 25) :=
    ((isNearest_div ha hf hd.ne').within (k := 0) (ε := 0) (by simp [a]) (by norm_num)
      (by norm_num) (by norm_num; linarith)).mono (by norm_num)
  have wx : Within (v.beta / bus) x (1 / 2 ^ 25) :=
    ((isNearest_div hb hf hd.ne').within (k := 0) (ε := 0) (by simp [x]) (by norm_num)
      (by norm_num) (by norm_num; linarith)).mono (by norm_num)
  obtain ⟨wy, wz⟩ := coordinates_within wa wx hrange
  have hpos : 0 < bus :=
    (lt_iff (isNaN_of_isFinite isFinite_zero) (isNaN_of_isFinite hf)).2 (by rwa [val_zero])
  obtain ⟨s, hs⟩ := svpwm_of_pos v hpos
  refine ⟨s, fun i => ?_⟩
  rw [hs, Phases.get_map]
  have hl := exactLevels_abs_le s hrange i
  have wl := s.levels_within (k := 1) (wx.mono (by norm_num)) wy wz bx by' bz (by norm_num)
    (by norm_num) (by norm_num) i
  have wt := dutyOfLevel_within (k := 2) wl (by norm_num) (by norm_num) (by norm_num; linarith)
  rw [exactDuty_of_abs_le hl] at wt
  exact wt.mono (by norm_num)

/-! ## The voltage on the motor -/

/-- Without rounding, the duties of a sector give the two components of the voltage, the first one
short of a factor 3 and both short of the supply. -/
theorem recovered_near {p : Phases Scalar} {s : Sector} {x r d ε : ℚ} (hd : 0 ≤ d)
    (h : ∀ i, Within (p.get i)
      (((s.exactLevels x ((x + r) / 2) ((x - r) / 2)).get i + 1) / 2) ε) :
    |(recovered p d).1 - r * d / 3| ≤ 4 * ε / 3 * d ∧
      |(recovered p d).2 - x * d / sqrt3.val| ≤ 2 * ε * d / sqrt3.val := by
  have hs : 0 < sqrt3.val := by rw [val_sqrt3]; norm_num
  obtain ⟨ha, hb⟩ := s.exactLevels_differences x r
  generalize s.exactLevels x ((x + r) / 2) ((x - r) / 2) = t at *
  have na := abs_le.1 (h .a).near
  have nb := abs_le.1 (h .b).near
  have nc := abs_le.1 (h .c).near
  simp only [Phases.get] at na nb nc
  have e1 : (recovered p d).1 - r * d / 3 = (2 * p.a.val - p.b.val - p.c.val - r) / 3 * d := by
    simp only [recovered]
    ring
  have e2 : (recovered p d).2 - x * d / sqrt3.val = (p.b.val - p.c.val - x) * d / sqrt3.val := by
    simp only [recovered]
    ring
  constructor
  · rw [e1, abs_mul, abs_of_nonneg hd]
    exact mul_le_mul_of_nonneg_right (abs_le.2 ⟨by linarith, by linarith⟩) hd
  · rw [e2, abs_div, abs_of_pos hs, abs_mul, abs_of_nonneg hd]
    exact div_le_div_of_nonneg_right
      (mul_le_mul_of_nonneg_right (abs_le.2 ⟨by linarith, by linarith⟩) hd) hs.le

/-- A component that comes out divided by `√3` misses the command by the rest of it. -/
theorem abs_sub_of_gain {q u e : ℚ} (h : |u - q / sqrt3.val| ≤ e) :
    (1 - 1 / sqrt3.val) * |q| - e ≤ |u - q| ∧ |u - q| ≤ (1 - 1 / sqrt3.val) * |q| + e := by
  have hc : |(1 - 1 / sqrt3.val) * q| = (1 - 1 / sqrt3.val) * |q| := by
    rw [abs_mul, val_sqrt3]
    norm_num
  have e1 : u - q = (u - q / sqrt3.val) - (1 - 1 / sqrt3.val) * q := by ring
  rw [← hc, e1]
  have h1 := abs_sub (u - q / sqrt3.val) ((1 - 1 / sqrt3.val) * q)
  have h2 := abs_sub_abs_le_abs_sub ((1 - 1 / sqrt3.val) * q) (u - q / sqrt3.val)
  rw [abs_sub_comm ((1 - 1 / sqrt3.val) * q)] at h2
  constructor <;> linarith

/-- **The modulation gives the command divided by `√3`.** For a finite command within the linear
range and a supply from 1 to 1000 volts both components come out so, up to a part in a million of the
supply. So the command itself comes out, up to a hundredth of the supply, just when its greater
component is not more than about a fortieth of the supply. -/
theorem svpwm_gain (v : Stationary) (bus : Scalar) (ha : v.alpha.isFinite = true)
    (hb : v.beta.isFinite = true) (h1 : 1 ≤ bus) (h2 : bus ≤ 1000)
    (h : 3 * (v.alpha.val ^ 2 + v.beta.val ^ 2) ≤ bus.val ^ 2) :
    let u := recovered (svpwm v bus) bus.val
    let miss := (1 - 1 / sqrt3.val) * max |v.alpha.val| |v.beta.val|
    |u.1 - v.alpha.val / sqrt3.val| ≤ bus.val / 2 ^ 20 ∧
    |u.2 - v.beta.val / sqrt3.val| ≤ bus.val / 2 ^ 20 ∧
    (miss ≤ (1 / 100 - 1 / 2 ^ 20) * bus.val → Realises v bus) ∧
    ((1 / 100 + 1 / 2 ^ 20) * bus.val < miss → ¬ Realises v bus) := by
  intro u miss
  have hd : 0 < bus.val := by
    have := (isFinite_of_le_thousand h1 h2).2.1
    linarith
  obtain ⟨s, hs⟩ := svpwm_within ha hb h1 h2 h
  obtain ⟨r1, r2⟩ := recovered_near hd.le hs
  have u1 : |u.1 - v.alpha.val / sqrt3.val| ≤ bus.val / 2 ^ 20 := by
    have hα : |v.alpha.val| ≤ 3 / 5 * bus.val := by
      refine abs_le_of_sq_le_sq ?_ (by linarith)
      linarith [sq_nonneg v.alpha.val, sq_nonneg v.beta.val, mul_pow (3 / 5) bus.val 2]
    -- a third of `√3` is not quite one part in `√3` once `√3` is rounded
    have he : |sqrt3.val * (v.alpha.val / bus.val) * bus.val / 3 - v.alpha.val / sqrt3.val| ≤
        1 / 2 ^ 25 * |v.alpha.val| := by
      rw [mul_assoc, div_mul_cancel₀ _ hd.ne', show sqrt3.val * v.alpha.val / 3 -
        v.alpha.val / sqrt3.val = (sqrt3.val / 3 - 1 / sqrt3.val) * v.alpha.val by ring, abs_mul]
      refine mul_le_mul_of_nonneg_right ?_ (abs_nonneg _)
      rw [val_sqrt3, abs_le]
      norm_num
    have ht := abs_add_le (u.1 - sqrt3.val * (v.alpha.val / bus.val) * bus.val / 3)
      (sqrt3.val * (v.alpha.val / bus.val) * bus.val / 3 - v.alpha.val / sqrt3.val)
    rw [sub_add_sub_cancel] at ht
    linarith
  have u2 : |u.2 - v.beta.val / sqrt3.val| ≤ bus.val / 2 ^ 20 := by
    rw [div_mul_cancel₀ _ hd.ne'] at r2
    refine r2.trans ?_
    rw [val_sqrt3]
    linarith
  obtain ⟨lo1, hi1⟩ := abs_sub_of_gain u1
  obtain ⟨lo2, hi2⟩ := abs_sub_of_gain u2
  have hc : 0 ≤ 1 - 1 / sqrt3.val := by rw [val_sqrt3]; norm_num
  refine ⟨u1, u2, fun hm => ?_, fun hm hr => ?_⟩
  · have m1 := mul_le_mul_of_nonneg_left (le_max_left |v.alpha.val| |v.beta.val|) hc
    have m2 := mul_le_mul_of_nonneg_left (le_max_right |v.alpha.val| |v.beta.val|) hc
    exact ⟨by linarith, by linarith⟩
  · obtain ⟨c1, c2⟩ := hr
    change _ < (1 - 1 / sqrt3.val) * max |v.alpha.val| |v.beta.val| at hm
    change |u.1 - v.alpha.val| ≤ bus.val / 100 at c1
    change |u.2 - v.beta.val| ≤ bus.val / 100 at c2
    rcases max_choice |v.alpha.val| |v.beta.val| with hmax | hmax <;> rw [hmax] at hm <;> linarith

end

theorem realises_half_volt : Realises ⟨0.5, 0⟩ 24 := by
  have hv : val 0.5 = 1 / 2 := by decide +kernel
  have h24 : val 24 = 24 := by decide +kernel
  refine (svpwm_gain ⟨0.5, 0⟩ 24 (by rfl) (by rfl) (by decide +kernel) (by decide +kernel) ?_).2.2.1 ?_
  · rw [hv, h24, val_zero]
    norm_num
  · rw [hv, h24, val_zero, val_sqrt3]
    norm_num

/-- A command of half the supply is in the linear range, and only 6.9 volts of the 12 come out. -/
theorem not_realises_half_supply :
    (12 : Scalar).isFinite = true ∧ (0 : Scalar).isFinite = true ∧ (1 : Scalar) ≤ 24 ∧
      (24 : Scalar) ≤ 1000 ∧ 3 * (val 12 ^ 2 + val 0 ^ 2) ≤ val 24 ^ 2 ∧
      ¬ Realises ⟨12, 0⟩ 24 := by
  have h12 : val 12 = 12 := by decide +kernel
  have h24 : val 24 = 24 := by decide +kernel
  have ha : (svpwm ⟨12, 0⟩ 24).a.val = 12020982 / 2 ^ 24 := by decide +kernel
  have hb : (svpwm ⟨12, 0⟩ 24).b.val = 9512468 / 2 ^ 25 := by decide +kernel
  have hc : (svpwm ⟨12, 0⟩ 24).c.val = 9512468 / 2 ^ 25 := by decide +kernel
  refine ⟨by rfl, isFinite_zero, by decide +kernel, by decide +kernel, ?_, fun hr => ?_⟩
  · rw [h12, h24, val_zero]
    norm_num
  · have hmiss := (abs_le.1 hr.1).1
    rw [recovered, ha, hb, hc, h12, h24] at hmiss
    norm_num at hmiss

end BrushlessDrive
