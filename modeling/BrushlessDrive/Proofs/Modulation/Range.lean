import BrushlessDrive.Proofs.Modulation.Levels
import BrushlessDrive.Proofs.Scalar.Sum

/-!
# Where the duties are numbers

The duties are cut off at 0 and 1, but a level that is no number passes. Whether there is one depends on the
two components of the voltage relative to the supply. An infinite first component does no harm, as the sector
is then one in which the two infinite coordinates do not meet.
-/

set_option autoImplicit false

namespace BrushlessDrive

open Scalar
open Float.Model.UnpackedFloat (Sign)

/-! ## Levels that are no numbers -/

namespace Sector

/-- The sectors that use the second and the third coordinate are those in which the two have one sign. -/
theorem ofSigns_two_or_five {p q r : Bool} :
    ofSigns p q r = .two ∨ ofSigns p q r = .five ↔ q = r := by
  cases p <;> cases q <;> cases r <;> decide

theorem isNaN_levels_a (s : Sector) {x y z : Scalar} (hxz : (x - z).isNaN = true)
    (hyz : (y - z).isNaN = true) (hyx : (y - x).isNaN = true) :
    ((s.levels x y z).get .a).isNaN = true := by
  cases s
  case one | four => exact hxz
  case two | five => exact hyz
  case three | six => exact hyx

/-- A level is a number if its two coordinates are and one of them is finite. -/
theorem isNaN_levels (s : Sector) {x y z : Scalar} (hx : x.isFinite = true) (hy : y.isNaN = false)
    (hz : z.isNaN = false) (h : s = .two ∨ s = .five → y.isFinite = true ∨ z.isFinite = true)
    (i : Phase) : ((s.levels x y z).get i).isNaN = false := by
  have hxn := isNaN_of_isFinite hx
  have hneg {u : Scalar} (hu : u.isNaN = false) : (-u).isNaN = false := (isNaN_neg u).trans hu
  have xz := isNaN_add_of_isFinite hxn hz (.inl hx)
  have xz' := isNaN_add_of_isFinite (hneg hxn) hz (.inl (neg_spec hx).1)
  have yx := isNaN_add_of_isFinite hy hxn (.inr hx)
  have yx' := isNaN_add_of_isFinite (hneg hy) hxn (.inr hx)
  have yz (h : y.isFinite = true ∨ z.isFinite = true) := isNaN_add_of_isFinite hy hz h
  have yz' (h : y.isFinite = true ∨ z.isFinite = true) :=
    isNaN_add_of_isFinite (hneg hy) hz (h.imp_left fun h => (neg_spec h).1)
  cases s <;> cases i
  case one.a | four.a => exact xz.2
  case one.b | four.b => exact xz.1
  case one.c | four.c => exact xz'.1
  case two.a | five.a => exact (yz (h (by simp))).2
  case two.b | five.b => exact (yz (h (by simp))).1
  case two.c | five.c => exact (yz' (h (by simp))).2
  case three.a | six.a => exact yx.2
  case three.b | six.b => exact yx'.1
  case three.c | six.c => exact yx'.2

end Sector

/-! ## The coordinates of a voltage -/

section

variable {x r : Scalar}

/-- The second and the third coordinate are not both infinite in the sectors that use them. -/
theorem isFinite_coordinate (hx : x.isFinite = true) (hr : r.isNaN = false)
    (h : 0 ≤ (x + r) / 2 ↔ 0 ≤ (x - r) / 2) :
    ((x + r) / 2).isFinite = true ∨ ((x - r) / 2).isFinite = true := by
  obtain hf | ⟨s, hs⟩ := isFinite_or_infinity hr
  · exact (isFinite_add_or_sub hx hf).imp isFinite_half isFinite_half
  · -- they are infinities of different signs
    have hy := half_infinity (unpacked_infinity_add hx hs)
    have hz : ((x - r) / 2).unpacked = .infinity (-s) := by
      rw [Scalar.sub_eq_add_neg]
      refine half_infinity (unpacked_infinity_add hx ?_)
      rw [neg_infinity_iff, sign_neg_neg, hs]
    rw [nonneg_iff_of_infinity hy, nonneg_iff_of_infinity hz] at h
    cases s
    · exact absurd (h.2 rfl) Sign.noConfusion
    · exact absurd (h.1 rfl) Sign.noConfusion

/-- No level can tell the coordinates of such a voltage apart. -/
theorem isNaN_coordinates (h : r.isNaN = true ∨ x.isFinite = false) :
    (x - (x - r) / 2).isNaN = true ∧ ((x + r) / 2 - (x - r) / 2).isNaN = true ∧
      ((x + r) / 2 - x).isNaN = true := by
  obtain hn | ⟨s, hs⟩ : (r.isNaN = true ∨ x.isNaN = true) ∨ ∃ s, x.unpacked = .infinity s := by
    rw [or_assoc]
    exact h.imp_right isNaN_or_infinity
  · have hy : ((x + r) / 2).isNaN = true := by
      rw [isNaN_half, isNaN_add_iff]
      tauto
    have hz : ((x - r) / 2).isNaN = true := by
      rw [isNaN_half, isNaN_sub_iff]
      tauto
    exact ⟨isNaN_sub_iff.2 (.inr (.inl hz)), isNaN_sub_iff.2 (.inl hy), isNaN_sub_iff.2 (.inl hy)⟩
  · have half {u : Scalar} (hu : u.isNaN = true ∨ u.unpacked = .infinity s) :
        (u / 2).isNaN = true ∨ (u / 2).unpacked = .infinity s :=
      hu.imp (isNaN_half u).trans half_infinity
    have hy := half (add_infinity hs r)
    have hz := half (sub_infinity hs r)
    exact ⟨isNaN_sub_of_infinity (.inr hs) hz, isNaN_sub_of_infinity hy hz,
      isNaN_sub_of_infinity hy (.inr hs)⟩

theorem isNaN_planeLevels_iff : (∃ i, ((planeLevels x r).get i).isNaN = true) ↔
    r.isNaN = true ∨ x.isFinite = false := by
  constructor
  · rintro ⟨i, h⟩
    by_contra hc
    rw [not_or, Bool.not_eq_true, Bool.not_eq_false] at hc
    obtain ⟨hr, hx⟩ := hc
    obtain ⟨hadd, hsub⟩ := isNaN_add_of_isFinite (isNaN_of_isFinite hx) hr (.inl hx)
    dsimp only [planeLevels] at h
    generalize hs : Sector.ofSigns (0 ≤ x) (0 ≤ (x + r) / 2) (0 ≤ (x - r) / 2) = s at h
    have hl := s.isNaN_levels hx ((isNaN_half _).trans hadd) ((isNaN_half _).trans hsub)
      (fun h25 => isFinite_coordinate hx hr
        (by rwa [← hs, Sector.ofSigns_two_or_five, decide_eq_decide] at h25)) i
    rw [hl] at h
    cases h
  · intro h
    obtain ⟨hxz, hyz, hyx⟩ := isNaN_coordinates h
    exact ⟨.a, Sector.isNaN_levels_a _ hxz hyz hyx⟩

end

/-! ## Duties -/

theorem isNaN_dutyOfLevel {t : Scalar} (h : t.isNaN = true) : (dutyOfLevel t).isNaN = true := by
  have hn : ((t + 1) / 2).isNaN = true := (isNaN_half _).trans (isNaN_add_left h 1)
  rw [dutyOfLevel, clamp_of_isNaN hn]
  exact hn

theorem dutyOfLevel_mem {t : Scalar} (h : t.isNaN = false) : 0 ≤ dutyOfLevel t ∧ dutyOfLevel t ≤ 1 := by
  have hn : ((t + 1) / 2).isNaN = false :=
    (isNaN_half _).trans (isNaN_add_of_isFinite h rfl (.inr isFinite_one)).1
  obtain ⟨hf, h0, h1⟩ := val_clamp_unit hn
  exact ⟨(nonneg_iff (isNaN_of_isFinite hf)).2 h0, (le_iff (isNaN_of_isFinite hf) rfl).2 (by rwa [val_one])⟩

theorem isNaN_dutyOfLevel_iff {t : Scalar} : (dutyOfLevel t).isNaN = true ↔ t.isNaN = true := by
  refine ⟨fun h => ?_, isNaN_dutyOfLevel⟩
  by_contra hn
  rw [Bool.not_eq_true] at hn
  rw [(isNaN_of_le (dutyOfLevel_mem hn).1).2] at h
  cases h

theorem isNaN_svpwm_iff (v : Stationary) {bus : Scalar} (h : 0 < bus) :
    (∃ i, ((svpwm v bus).get i).isNaN = true) ↔
      (v.alpha / bus).isNaN = true ∨ (v.beta / bus).isFinite = false := by
  have hr := isNaN_mul_of_pos (y := sqrt3) (by decide +kernel) isFinite_sqrt3 (v.alpha / bus)
  simp only [svpwm_eq_map v h, Phases.get_map, isNaN_dutyOfLevel_iff, isNaN_planeLevels_iff, hr]

theorem svpwm_mem (v : Stationary) (bus : Scalar) {i : Phase}
    (h : ((svpwm v bus).get i).isNaN = false) :
    0 ≤ (svpwm v bus).get i ∧ (svpwm v bus).get i ≤ 1 := by
  by_cases hb : 0 < bus
  · rw [svpwm_eq_map v hb, Phases.get_map] at h ⊢
    refine dutyOfLevel_mem ?_
    rwa [← Bool.not_eq_true, isNaN_dutyOfLevel_iff, Bool.not_eq_true] at h
  · rw [svpwm_of_not_pos v hb, Phases.get_uniform]
    decide +kernel

/-- **Which voltages the modulation can express**: all whose second component, relative to the supply, is finite
and whose first one is a number. Without a supply above zero every phase gets one half. -/
theorem svpwm_range (v : Stationary) (bus : Scalar) :
    (¬ 0 < bus → svpwm v bus = ⟨0.5, 0.5, 0.5⟩) ∧
    (0 < bus → ((∃ i, ((svpwm v bus).get i).isNaN = true) ↔ (v.alpha / bus).isNaN = true ∨
      (v.beta / bus).isNaN = true ∨ (v.beta / bus).isInf = true)) ∧
    (¬ (0 < bus ∧ ((v.alpha / bus).isNaN = true ∨
      (v.beta / bus).isNaN = true ∨ (v.beta / bus).isInf = true)) →
        ∀ i, 0 ≤ (svpwm v bus).get i ∧ (svpwm v bus).get i ≤ 1) := by
  have hnan (h : 0 < bus) : (∃ i, ((svpwm v bus).get i).isNaN = true) ↔ (v.alpha / bus).isNaN = true ∨
      (v.beta / bus).isNaN = true ∨ (v.beta / bus).isInf = true := by
    rw [isNaN_svpwm_iff v h, isFinite_eq_false_iff]
  refine ⟨svpwm_of_not_pos v, hnan, fun hc i => svpwm_mem v bus ?_⟩
  by_contra hi
  rw [Bool.not_eq_false] at hi
  by_cases hb : 0 < bus
  · exact hc ⟨hb, (hnan hb).1 ⟨i, hi⟩⟩
  · rw [svpwm_of_not_pos v hb, Phases.get_uniform] at hi
    exact absurd hi (by decide +kernel)

/-- The greatest number as the first component overflows on the way to the levels and is cut off. As the
second one, with a supply of half a volt, it overflows before, and there is no modulation. -/
theorem svpwm_range_of_greatest :
    let top : Scalar := Float32.ofBits 0x7f7fffff
    (∀ i, 0 ≤ (svpwm ⟨top, 1⟩ 1).get i ∧ (svpwm ⟨top, 1⟩ 1).get i ≤ 1) ∧
      ∃ i, ((svpwm ⟨1, top⟩ 0.5).get i).isNaN = true :=
  ⟨(svpwm_range _ _).2.2 (by decide +kernel),
    ((svpwm_range _ _).2.1 (by decide +kernel)).2 (by decide +kernel)⟩

end BrushlessDrive
