import BrushlessDrive.Proofs.Scalar.Accumulation
import BrushlessDrive.Proofs.Scalar.Integer
import BrushlessDrive.Proofs.Task.Beep

/-!
# The release of a beep

A beep drives its phases for a number of PWM periods, and is released for good (`Beep.DrivenFor`). The number
is that of the periods that its time is made of, but the time that is left is rounded in every period. It
stays within 3 seconds (`remaining_bounds`), where the rounding is by `2 ^ -23` seconds at most
(`remaining_step`), which is less than a sixty-fourth of the shortest period (`PwmParams.period_bounds`).
-/

set_option autoImplicit false

namespace BrushlessDrive

open Binary32

namespace PwmParams

variable {p : PwmParams} (h : p.isValid = true)
include h

theorem frequency_bounds : 1000 ≤ p.frequency.toNat ∧ p.frequency.toNat ≤ 100000 := by
  simp only [isValid, Bool.and_eq_true, decide_eq_true_eq] at h
  exact ⟨UInt32.le_iff_toNat_le.1 h.1.1.1, UInt32.le_iff_toNat_le.1 h.1.1.2⟩

theorem isNearest_period : Scalar.IsNearest p.period (1 / p.frequency.toNat) := by
  obtain ⟨hlo, hhi⟩ := frequency_bounds h
  obtain ⟨hf, hv⟩ : p.frequency.toFloat32.isFinite = true ∧
      Scalar.val p.frequency.toFloat32 = p.frequency.toNat :=
    Scalar.val_ofNat (n := p.frequency.toNat) (by omega)
  have hn := Scalar.isNearest_div Scalar.isFinite_one hf (by rw [hv]; exact_mod_cast (by omega))
  rwa [hv, Scalar.val_one] at hn

theorem period_bounds : p.period.isFinite = true ∧ 1 / 2 ^ 17 ≤ p.period.val ∧ p.period.val ≤ 1 := by
  obtain ⟨hlo, hhi⟩ := frequency_bounds h
  have hlo' : (1000 : ℚ) ≤ p.frequency.toNat := by exact_mod_cast hlo
  have hhi' : (p.frequency.toNat : ℚ) ≤ 100000 := by exact_mod_cast hhi
  have h1 : (1 : ℚ) / p.frequency.toNat ≤ 1 := (div_le_one (by linarith)).2 (by linarith)
  have h17 : (1 : ℚ) / 2 ^ 17 ≤ 1 / p.frequency.toNat :=
    one_div_le_one_div_of_le (by linarith) (by linarith)
  have hr17 : Representable (1 / 2 ^ 17) := by
    have := representable_two_zpow (k := -17) (by norm_num)
    rwa [zpow_neg, ← one_div] at this
  obtain ⟨hpf, hpv⟩ :=
    (isNearest_period h).isFinite (by rw [abs_of_nonneg (by positivity)]; linarith)
  rw [hpv]
  exact ⟨hpf, le_nearest hr17 h17, nearest_le representable_one h1⟩

end PwmParams

namespace Beep

/-- In every run the first `n` PWM periods are driven, and none is from then on. -/
def DrivenFor (t : Beep) (n : ℕ) : Prop :=
  ∀ es k o, ((Task.beep t).outputs es)[k]? = some o →
    (o.driverActive = true ↔ k < n) ∧ (n ≤ k → o = .inactive)

theorem drivenFor_of_first {t : Beep} {n : ℕ} (hn : (t.after n).remaining < 0)
    (h : ∀ k < n, ¬ (t.after k).remaining < 0) : t.DrivenFor n := by
  intro es k o ho
  rw [Task.outputs_beep, firstOutputs, List.getElem?_map, Option.map_eq_some_iff] at ho
  obtain ⟨j, hj, rfl⟩ := ho
  obtain ⟨-, rfl⟩ := List.getElem?_eq_some_iff.1 hj
  rw [List.getElem_range]
  rcases lt_or_ge k n with hk | hk
  · exact ⟨iff_of_true (driverActive_of_not_released (h k hk)) hk, fun hnk => absurd hk hnk.not_gt⟩
  · obtain ⟨m, rfl⟩ := Nat.exists_eq_add_of_le hk
    rw [after_add, after_of_released hn, pwmPeriod_of_released hn]
    exact ⟨iff_of_false Bool.false_ne_true hk.not_gt, fun _ => rfl⟩

/-! ## The time that is left -/

theorem remaining_pwmPeriod {t : Beep} (h : ¬ t.remaining < 0) :
    t.pwmPeriod.2.remaining = t.remaining - t.context.board.pwm.period := by
  obtain ⟨hr, -⟩ | ⟨-, ⟨-, he⟩ | ⟨-, he⟩⟩ := t.pwmPeriod_cases
  · exact absurd hr h
  · rw [he]
  · rw [he]

section

variable {t : Beep} {p : Scalar} (ht : t.context.board.pwm.period = p) (hp : p.isFinite = true)
  (hp1 : p.val ≤ 1) (hf : t.remaining.isFinite = true) (h3 : t.remaining.val ≤ 3)
include ht hp hp1 hf h3

theorem remaining_step (h : ¬ t.remaining < 0) :
    t.pwmPeriod.2.remaining.isFinite = true ∧ t.pwmPeriod.2.remaining.val ≤ 3 ∧
      |t.pwmPeriod.2.remaining.val - (t.remaining.val - p.val)| ≤ 1 / 2 ^ 23 := by
  have hfn := Scalar.isNaN_of_isFinite hf
  have hp0 : 0 < p.val := ht ▸ Scalar.val_pos t.context.period_pos
  have h0 : 0 ≤ t.remaining.val := (Scalar.nonneg_iff hfn).1 ((Scalar.le_iff_not_lt rfl hfn).2 h)
  have hb : |t.remaining.val - p.val| ≤ 3 := by
    rw [abs_le]
    constructor <;> linarith
  have hn := Scalar.isNearest_sub hf hp
  obtain ⟨hf', hv⟩ := hn.isFinite (hb.trans (by norm_num))
  have hle : t.remaining - p ≤ t.remaining := hn.le hfn (by linarith)
  have he := abs_nearest_sub_le (k := 2) (by norm_num) (hb.trans (by norm_num))
  rw [remaining_pwmPeriod h, ht]
  refine ⟨hf', (Scalar.val_le_val hle).trans h3, ?_⟩
  rw [hv]
  exact he.trans (by norm_num)

theorem remaining_bounds (n : ℕ) :
    (t.after n).remaining.isFinite = true ∧ (t.after n).remaining.val ≤ 3 := by
  induction n with
  | zero => exact ⟨hf, h3⟩
  | succ n ih =>
    rw [after_succ]
    by_cases h : (t.after n).remaining < 0
    · rwa [pwmPeriod_of_released h]
    · obtain ⟨hf', h3', -⟩ := remaining_step (by rwa [context_after]) hp hp1 ih.1 ih.2 h
      exact ⟨hf', h3'⟩

/-- The time that is left arrives below zero, in a number of steps that are each a period up to the
rounding. -/
theorem exists_drivenFor (hp23 : 1 / 2 ^ 23 < p.val) (h0 : 0 ≤ t.remaining.val) :
    ∃ n : ℕ, t.DrivenFor n ∧ n * (p.val - 1 / 2 ^ 23) ≤ t.remaining.val + (p.val - 1 / 2 ^ 23) ∧
      t.remaining.val ≤ n * (p.val + 1 / 2 ^ 23) := by
  have hbounds := remaining_bounds ht hp hp1 hf h3
  have hreleased (k : ℕ) : (t.after k).remaining < 0 ↔ (t.after k).remaining.val < 0 :=
    Scalar.lt_iff (Scalar.isNaN_of_isFinite (hbounds k).1) rfl
  have hstep (k : ℕ) (h : ¬ (t.after k).remaining < 0) :
      |(t.after (k + 1)).remaining.val - ((t.after k).remaining.val - p.val)| ≤ 1 / 2 ^ 23 := by
    rw [after_succ]
    exact (remaining_step (by rwa [context_after]) hp hp1 (hbounds k).1 (hbounds k).2 h).2.2
  obtain ⟨n, hn, hfirst, hlo, hhi⟩ := exists_arrival (fun k => -(t.after k).remaining.val)
    (fun k => (t.after k).remaining < 0) (b := 0) (l := p.val - 1 / 2 ^ 23)
    (u := p.val + 1 / 2 ^ 23) (by linarith) (neg_nonpos.2 h0)
    (fun k h => neg_nonpos.2 (not_lt.1 fun hv => h ((hreleased k).2 hv)))
    (fun k h _ => by linarith [(abs_le.1 (hstep k h)).2])
    (fun k h => by linarith [(abs_le.1 (hstep k h)).1])
  have hneg := (hreleased n).1 hn
  rw [after_zero] at hlo hhi
  exact ⟨n, drivenFor_of_first hn hfirst, by linarith, by linarith⟩

end

/-- **The time box of a beep** on a board that runs with accepted PWM parameters: the first `n` periods are
driven and no later one is, for an `n` within a fiftieth, and up to two periods more, of the number of periods
in the duration within its limits. -/
theorem time_boxed {context : Context} {params : PwmParams} (hv : params.isValid = true)
    (hb : context.board.pwm = .ofParams params) (frequency duration : Scalar) :
    let d := (durationLimits.constrain duration).val
    let p := params.period.val
    ∃ n : ℕ, (make context frequency duration).DrivenFor n ∧
      98 / 100 * (d / p) ≤ n ∧ n ≤ 102 / 100 * (d / p) + 2 := by
  intro d p
  obtain ⟨hpf, hp17, hp1⟩ := params.period_bounds hv
  have hle : durationLimits.lo ≤ durationLimits.hi := by decide +kernel
  obtain ⟨hlo, hhi⟩ := Interval.constrain_between hle duration
  have hdf := Interval.isFinite_constrain (r := durationLimits) (by rfl) (by rfl) hle duration
  have h3 : Scalar.val durationLimits.hi = 3 := by decide +kernel
  obtain ⟨n, hn, hn1, hn2⟩ := exists_drivenFor (t := make context frequency duration)
    (congrArg PwmTiming.period hb) hpf hp1 hdf (h3 ▸ Scalar.val_le_val hhi)
    (lt_of_lt_of_le (by norm_num) hp17) (Scalar.val_nonneg hlo)
  change n * (p - 1 / 2 ^ 23) ≤ d + (p - 1 / 2 ^ 23) at hn1
  change d ≤ n * (p + 1 / 2 ^ 23) at hn2
  change 1 / 2 ^ 17 ≤ p at hp17
  have hp0 : 0 < p := lt_of_lt_of_le (by norm_num) hp17
  -- the rounding of a step is a sixty-fourth of it at most
  have hround : (n : ℚ) * (1 / 2 ^ 23) ≤ n * (p / 64) :=
    mul_le_mul_of_nonneg_left (by linarith) n.cast_nonneg
  refine ⟨n, hn, ?_, ?_⟩
  · rw [← mul_div_assoc, div_le_iff₀ hp0]
    linarith
  · rw [← mul_div_assoc, div_add' _ _ _ hp0.ne', le_div_iff₀ hp0]
    linarith

/-- The longest beep with the shortest period, where the rounding is greatest against it. -/
theorem time_boxed_at_100_kilohertz :
    let context : Context := ⟨{ pwm := { frequency := 100000 } },
      ⟨.ofParams { frequency := 100000 }, .current⟩, rfl, by decide +kernel⟩
    let d := (durationLimits.constrain 3).val
    let p := (PwmParams.period { frequency := 100000 }).val
    PwmParams.isValid { frequency := 100000 } = true ∧
      ∃ n : ℕ, (make context 1000 3).DrivenFor n ∧
        98 / 100 * (d / p) ≤ n ∧ n ≤ 102 / 100 * (d / p) + 2 :=
  ⟨rfl, time_boxed rfl rfl 1000 3⟩

end Beep

end BrushlessDrive
