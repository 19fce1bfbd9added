import BrushlessDrive.Proofs.Modulation.Levels
import BrushlessDrive.Proofs.Scalar.Remainder

/-!
# The modulation without sectors

Only the differences of the phase voltages matter to the motor, so all three may be moved together. Min-max
modulation moves them until the greatest one is as far above the middle of the supply as the least one is
below (`minMaxDuty`). The levels of a sector come to the same (`Sector.exactLevels_eq`), and a sector that is
found with rounded coordinates is a neighbour at worst, where that is still nearly so
(`Sector.extremes_near`).
-/

set_option autoImplicit false

namespace BrushlessDrive

open Scalar

/-- The phase voltages with no mean, for a voltage with the second component `x` and `√3` times the first one
`r`. -/
def phaseVoltages (x r : ℚ) : Phases ℚ := ⟨2 * r / 3, x - r / 3, -x - r / 3⟩

def midrange (u : Phases ℚ) : ℚ := (max (max u.a u.b) u.c + min (min u.a u.b) u.c) / 2

def minMaxDuty (u : Phases ℚ) (i : Phase) : ℚ := min 1 (max 0 ((u.get i - midrange u + 1) / 2))

/-- Two values that none of the others exceeds by much give the midrange up to half of that. -/
theorem abs_midrange_sub_le {u : Phases ℚ} {hi lo : Phase} {δ : ℚ}
    (h : ∀ i, u.get i ≤ u.get hi + δ ∧ u.get lo - δ ≤ u.get i) :
    |midrange u - (u.get hi + u.get lo) / 2| ≤ δ / 2 := by
  have hle (i : Phase) : u.get i ≤ max (max u.a u.b) u.c := by
    cases i <;> simp [Phases.get]
  have hge (i : Phase) : min (min u.a u.b) u.c ≤ u.get i := by
    cases i <;> simp [Phases.get]
  have hmax : max (max u.a u.b) u.c ≤ u.get hi + δ :=
    max_le (max_le (h .a).1 (h .b).1) (h .c).1
  have hmin : u.get lo - δ ≤ min (min u.a u.b) u.c :=
    le_min (le_min (h .a).2 (h .b).2) (h .c).2
  rw [midrange, abs_le]
  constructor <;> linarith [hle hi, hge lo]

namespace Sector

def highest : Sector → Phase
  | one | six => .a
  | two | three => .b
  | four | five => .c

def lowest : Sector → Phase
  | three | four => .a
  | five | six => .b
  | one | two => .c

theorem abs_exactLevels_le_two_mul (s : Sector) {p q r b : ℚ} (hp : |p| ≤ b) (hq : |q| ≤ b) (hr : |r| ≤ b)
    (i : Phase) : |(s.exactLevels p q r).get i| ≤ 2 * b := by
  rw [abs_le] at hp hq hr ⊢
  cases s <;> cases i <;> simp only [exactLevels, Phases.get] <;> constructor <;> linarith

theorem exactLevels_eq (s : Sector) (x r : ℚ) (i : Phase) :
    (s.exactLevels x ((x + r) / 2) ((x - r) / 2)).get i = (phaseVoltages x r).get i -
      ((phaseVoltages x r).get s.highest + (phaseVoltages x r).get s.lowest) / 2 := by
  cases s <;> cases i <;> simp only [exactLevels, phaseVoltages, highest, lowest, Phases.get] <;> ring

theorem extremes_near {x y z : Scalar} {p r ε : ℚ} (hx : Within x p ε)
    (hy : Within y ((p + r) / 2) ε) (hz : Within z ((p - r) / 2) ε) (i : Phase) :
    let s := ofSigns (0 ≤ x) (0 ≤ y) (0 ≤ z)
    let u := phaseVoltages p r
    u.get i ≤ u.get s.highest + 4 * ε ∧ u.get s.lowest - 4 * ε ≤ u.get i := by
  -- the sign of a computed coordinate is that of the exact one, unless it is small
  have sign {u : Scalar} {q : ℚ} (hu : Within u q ε) : (0 ≤ u ∧ -ε ≤ q) ∨ (¬ 0 ≤ u ∧ q ≤ ε) := by
    have hn := abs_le.1 hu.near
    rw [nonneg_iff (isNaN_of_isFinite hu.isFinite)]
    rcases le_or_gt 0 u.val with h | h
    · exact .inl ⟨h, by linarith⟩
    · exact .inr ⟨not_le.2 h, by linarith⟩
  have hε : 0 ≤ ε := (abs_nonneg _).trans hx.near
  -- the voltages differ by twice a coordinate
  rcases sign hx with ⟨h1, e1⟩ | ⟨h1, e1⟩ <;> rcases sign hy with ⟨h2, e2⟩ | ⟨h2, e2⟩ <;>
    rcases sign hz with ⟨h3, e3⟩ | ⟨h3, e3⟩ <;>
    simp only [h1, h2, h3, decide_true, decide_false, ofSigns, highest, lowest] <;>
    cases i <;> simp only [phaseVoltages, Phases.get] <;> constructor <;> linarith

theorem abs_exactLevels_sub_le {x y z : Scalar} {p r ε : ℚ} (hx : Within x p ε)
    (hy : Within y ((p + r) / 2) ε) (hz : Within z ((p - r) / 2) ε) (i : Phase) :
    |((ofSigns (0 ≤ x) (0 ≤ y) (0 ≤ z)).exactLevels p ((p + r) / 2) ((p - r) / 2)).get i -
      ((phaseVoltages p r).get i - midrange (phaseVoltages p r))| ≤ 2 * ε := by
  have hm := abs_midrange_sub_le (extremes_near hx hy hz)
  rw [exactLevels_eq, sub_sub_sub_cancel_left]
  linarith

end Sector

/-! ## The computed duties -/

theorem exactDuty_eq (t : ℚ) : exactDuty t = min 1 (max 0 ((t + 1) / 2)) := by
  rw [exactDuty, max_min_distrib_left, max_eq_right zero_le_one, min_comm]

theorem abs_exactDuty_sub_le (p q : ℚ) : |exactDuty p - exactDuty q| ≤ |p - q| / 2 := by
  have h := abs_clamp_sub_le 0 1 ((p + 1) / 2) ((q + 1) / 2)
  rwa [← sub_div, add_sub_add_right_eq_sub, abs_div, abs_two] at h

theorem dutyOfLevel_planeLevels_within {x r : Scalar} (hx : x.isFinite = true) (hr : r.isFinite = true)
    (bx : |x.val| ≤ 4) (br : |r.val| ≤ 4) (i : Phase) :
    Within (dutyOfLevel ((planeLevels x r).get i)) (minMaxDuty (phaseVoltages x.val r.val) i)
      (1 / 2 ^ 18) := by
  have hadd : |x.val + r.val| ≤ 8 := by linarith [abs_add_le x.val r.val]
  have hsub : |x.val - r.val| ≤ 8 := by linarith [abs_sub x.val r.val]
  have by2 : |(x.val + r.val) / 2| ≤ 4 := by rw [abs_div, abs_two]; linarith
  have bz2 : |(x.val - r.val) / 2| ≤ 4 := by rw [abs_div, abs_two]; linarith
  -- the coordinates, all with the greatest of their errors
  obtain ⟨hy, hz⟩ := plane_coordinates_within (k := 4) (within_val hx) (within_val hr) (by norm_num)
    (by norm_num) (by norm_num; linarith) (by norm_num; linarith)
  have wx : Within x x.val (1 / 2 ^ 20) := (within_val hx).mono (by norm_num)
  have wy : Within ((x + r) / 2) ((x.val + r.val) / 2) (1 / 2 ^ 20) := hy.mono (by norm_num)
  have wz : Within ((x - r) / 2) ((x.val - r.val) / 2) (1 / 2 ^ 20) := hz.mono (by norm_num)
  have hlev := Sector.abs_exactLevels_sub_le wx wy wz i
  dsimp only [planeLevels]
  generalize Sector.ofSigns (0 ≤ x) (0 ≤ (x + r) / 2) (0 ≤ (x - r) / 2) = s at hlev ⊢
  have hb := s.abs_exactLevels_le_two_mul bx by2 bz2 i
  have hw := s.levels_within (k := 4) wx wy wz bx by2 bz2 (by norm_num) (by norm_num) (by norm_num) i
  generalize (s.exactLevels x.val ((x.val + r.val) / 2) ((x.val - r.val) / 2)).get i = q at hlev hb hw
  have hd := dutyOfLevel_within (k := 4) hw (by norm_num) (by norm_num) (by norm_num; linarith)
  have hmove := abs_exactDuty_sub_le q
    ((phaseVoltages x.val r.val).get i - midrange (phaseVoltages x.val r.val))
  refine ⟨hd.isFinite, ?_⟩
  rw [minMaxDuty, ← exactDuty_eq]
  calc
    _ ≤ _ := abs_sub_le _ (exactDuty q) _
    _ ≤ (1 / 2 ^ 20 + 1 / 2 ^ 20 + 2 ^ ((4 : ℤ) - 25) + 2 ^ ((4 : ℤ) - 25)) / 2
        + 2 ^ ((4 : ℤ) - 1 - 25) + 2 * (1 / 2 ^ 20) / 2 := by linarith [hd.near]
    _ ≤ 1 / 2 ^ 18 := by norm_num

/-- **The modulation is min-max modulation**, for voltages of up to four times the supply. The rounding may
put a voltage into a neighbouring sector, but not the duties elsewhere. -/
theorem svpwm_minMax (v : Stationary) {bus : Scalar} (hbus : 0 < bus) (hx : (v.beta / bus).abs ≤ 4)
    (hr : (sqrt3 * (v.alpha / bus)).abs ≤ 4) (i : Phase) :
    Within ((svpwm v bus).get i) (minMaxDuty
      (phaseVoltages (v.beta / bus).val (sqrt3 * (v.alpha / bus)).val) i) (1 / 2 ^ 18) := by
  have hfour : val 4 = 4 := by decide +kernel
  obtain ⟨fx, bx⟩ := isFinite_of_abs_le hx (by decide +kernel)
  obtain ⟨fr, br⟩ := isFinite_of_abs_le hr (by decide +kernel)
  rw [hfour] at bx br
  rw [svpwm_eq_map v hbus, Phases.get_map]
  exact dutyOfLevel_planeLevels_within fx fr bx br i

/-- Two components of the size of the least number above zero: the exact second coordinate is below zero and
the computed one is not, so the sector is the second one in place of the third. -/
theorem svpwm_minMax_of_least :
    let x : Scalar := Float32.ofBits 1 / 1
    let r : Scalar := sqrt3 * (Float32.ofBits 0x80000001 / 1)
    (x.val + r.val) / 2 < 0 ∧ 0 ≤ (x + r) / 2 ∧
      ∀ i, Within ((svpwm ⟨Float32.ofBits 0x80000001, Float32.ofBits 1⟩ 1).get i)
        (minMaxDuty (phaseVoltages x.val r.val) i) (1 / 2 ^ 18) :=
  ⟨by decide +kernel, by decide +kernel,
    svpwm_minMax ⟨Float32.ofBits 0x80000001, Float32.ofBits 1⟩ (by decide +kernel) (by decide +kernel)
      (by decide +kernel)⟩

end BrushlessDrive
