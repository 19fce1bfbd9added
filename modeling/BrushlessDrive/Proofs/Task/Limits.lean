import BrushlessDrive.Proofs.Interval
import BrushlessDrive.Proofs.Scalar.Infinity
import BrushlessDrive.Proofs.Task.Beep

/-!
# The limits of a beep

A beep is made of whatever frequency and duration were asked for, and nothing checks its times again. Both
are brought into their limits by `Interval.constrain`, which projects to an interval (`Interval.Projects`).
-/

set_option autoImplicit false

namespace BrushlessDrive.Beep

theorem frequencyLimits_le : frequencyLimits.lo ≤ frequencyLimits.hi := by decide +kernel

theorem durationLimits_le : durationLimits.lo ≤ durationLimits.hi := by decide +kernel

section

variable (context : Context) (frequency duration : Scalar)

theorem exists_frequency :
    ∃ f, 100 ≤ f ∧ f ≤ 15000 ∧ (make context frequency duration).excitationPeriod = 1 / f := by
  obtain ⟨hlo, hhi⟩ := Interval.constrain_between frequencyLimits_le frequency
  exact ⟨_, hlo, hhi, rfl⟩

theorem remaining_make_mem : 0 ≤ (make context frequency duration).remaining ∧
    (make context frequency duration).remaining ≤ 3 :=
  Interval.constrain_between durationLimits_le duration

end

theorem excitationPeriod_antitone (context : Context) (duration : Scalar) {f g : Scalar} (h : f ≤ g) :
    (make context g duration).excitationPeriod ≤ (make context f duration).excitationPeriod := by
  have hpos : 0 < frequencyLimits.constrain f :=
    Scalar.lt_of_lt_of_le (by decide +kernel) (Interval.constrain_between frequencyLimits_le f).1
  have hfin := Interval.isFinite_constrain (r := frequencyLimits) (by rfl) (by rfl) frequencyLimits_le g
  exact Scalar.div_le_div_left_of_pos (by decide +kernel) Scalar.isFinite_one hpos
    (Interval.constrain_mono frequencyLimits_le h) hfin

/-- **The limits of a beep**, whatever is asked for, with the projection that they rest on. -/
theorem limits_law :
    (∀ r : Interval, r.lo ≤ r.hi → r.Projects) ∧
    (∀ context frequency duration, let t := make context frequency duration
      (∃ f, 100 ≤ f ∧ f ≤ 15000 ∧ t.excitationPeriod = 1 / f) ∧ 0 ≤ t.remaining ∧ t.remaining ≤ 3) ∧
    (∀ context f g duration, f ≤ g →
      (make context g duration).excitationPeriod ≤ (make context f duration).excitationPeriod) := by
  refine ⟨fun r hr => Interval.projects hr, fun context frequency duration => ?_,
    fun context f g duration hfg => excitationPeriod_antitone context duration hfg⟩
  exact ⟨exists_frequency context frequency duration, remaining_make_mem context frequency duration⟩

/-- A beep of no frequency and no duration, and beeps of the two infinite ones. -/
theorem limits_law_of_nan :
    let c := Context.ofDefaults
    let t := make c Scalar.nan Scalar.nan
    frequencyLimits.Projects ∧ (∃ f, 100 ≤ f ∧ f ≤ 15000 ∧ t.excitationPeriod = 1 / f) ∧
      0 ≤ t.remaining ∧ t.remaining ≤ 3 ∧
      (make c (1 / 0) 1).excitationPeriod ≤ (make c (-1 / 0) 1).excitationPeriod := by
  intro c t
  obtain ⟨hproj, htimes, hanti⟩ := limits_law
  obtain ⟨hf, h0, h3⟩ := htimes c Scalar.nan Scalar.nan
  exact ⟨hproj _ frequencyLimits_le, hf, h0, h3, hanti c _ _ 1 (by decide +kernel)⟩

end BrushlessDrive.Beep
