import BrushlessDrive.Proofs.Task.Release

/-!
# The exact schedule of a beep

If the PWM period, the time between two pulses and the duration are multiples of one power of two, and not
too many (`Beep.OnGrid`), then nothing that a beep computes is rounded. A beep that is asked for more pulses
than there are periods falls behind, by ever more.
-/

set_option autoImplicit false

namespace BrushlessDrive

/-- The number of pulses in `n` periods of `a` ticks, with one pulse to every `c` ticks, but one to a period
at most. -/
def pulseCount (a c n : ℕ) : ℕ := min n (n * a / c)

section

variable {a c : ℕ} (hc : 0 < c) (n : ℕ)

theorem pulseCount_mul_le : pulseCount a c n * c ≤ n * a :=
  (Nat.mul_le_mul_right c (min_le_right _ _)).trans (Nat.div_mul_le_self _ _)

include hc in
theorem pulseCount_succ : pulseCount a c (n + 1) =
    if (pulseCount a c n + 1) * c ≤ (n + 1) * a then pulseCount a c n + 1 else pulseCount a c n := by
  have hdiv (m q : ℕ) : q ≤ m * a / c ↔ q * c ≤ m * a := Nat.le_div_iff_mul_le hc
  rcases le_or_gt c a with hca | hac
  · -- a pulse in every period
    have hall (m : ℕ) : pulseCount a c m = m :=
      min_eq_left ((hdiv m m).2 (Nat.mul_le_mul_left m hca))
    rw [hall, hall, if_pos (Nat.mul_le_mul_left _ hca)]
  · -- the periods leave room for every pulse
    have hfloor (m : ℕ) : pulseCount a c m = m * a / c :=
      min_eq_right (Nat.div_le_of_le_mul (by rw [mul_comm c]; exact Nat.mul_le_mul_left m hac.le))
    have hle : n * a / c ≤ (n + 1) * a / c := Nat.div_le_div_right (Nat.mul_le_mul_right a n.le_succ)
    have hlt : (n + 1) * a / c < n * a / c + 2 := by
      have := Nat.lt_div_mul_add (a := n * a) hc
      rw [Nat.div_lt_iff_lt_mul hc, Nat.add_mul, Nat.add_mul]
      omega
    rw [hfloor, hfloor]
    split
    · rename_i h
      have := (hdiv _ _).2 h
      omega
    · rename_i h
      rw [← hdiv, not_le] at h
      omega

end

namespace Beep

open Scalar

/-- The PWM period is `a` ticks of `2 ^ k` seconds, the time that is left is `b` of them and the time between
two pulses is `c`. -/
structure OnGrid (t : Beep) (k : ℤ) (a b c : ℕ) : Prop where
  le_tick : -126 ≤ k
  tick_le : k ≤ 0
  period : Ticks k t.context.board.pwm.period a
  remaining : Ticks k t.remaining b
  excitationPeriod : Ticks k t.excitationPeriod c
  period_pos : 1 ≤ a
  excitationPeriod_pos : 1 ≤ c
  fits : a + b + c < 2 ^ 24

/-- Where a beep is after `n` periods. -/
structure OnSchedule (t : Beep) (k : ℤ) (a b c n : ℕ) : Prop where
  remaining : Ticks k (t.after n).remaining (b - n * a)
  untilPulse : Ticks k (t.after n).untilPulse ((pulseCount a c n + 1) * c - n * a)
  pulses : ((t.firstOutputs n).filterMap Output.pulsed).length = pulseCount a c n

section

variable {t : Beep} {k : ℤ} {a b c : ℕ} (h : t.OnGrid k a b c)
include h

theorem OnGrid.exponent_bounds : -149 ≤ k ∧ k ≤ 104 :=
  ⟨by linarith [h.le_tick], by linarith [h.tick_le]⟩

theorem OnGrid.onSchedule_zero (ht : t.untilPulse = t.excitationPeriod) : t.OnSchedule k a b c 0 where
  remaining := by simpa using h.remaining
  untilPulse := by simpa [pulseCount, ht] using h.excitationPeriod
  pulses := by simp [pulseCount, firstOutputs]

section

variable {n : ℕ} (hs : t.OnSchedule k a b c n) (hn : n * a ≤ b)
include hs hn

omit h in
theorem OnSchedule.not_released : ¬ (t.after n).remaining < 0 := by
  have hn' : (n : ℤ) * a ≤ b := by exact_mod_cast hn
  rw [hs.remaining.neg_iff]
  linarith

theorem OnGrid.remaining_succ : Ticks k (t.after (n + 1)).remaining (b - (n + 1 : ℕ) * a) := by
  obtain ⟨hk, hk'⟩ := h.exponent_bounds
  have hfits : (a : ℤ) + b + c < 2 ^ 24 := by exact_mod_cast h.fits
  have hn' : (n : ℤ) * a ≤ b := by exact_mod_cast hn
  have hn0 : 0 ≤ (n : ℤ) * a := by positivity
  rw [after_succ, remaining_pwmPeriod (hs.not_released hn), context_after]
  convert hs.remaining.sub h.period hk hk' (by rw [abs_lt]; constructor <;> linarith) using 1
  push_cast
  ring

/-- The time to the next pulse at the end of the period, and once a pulse that is due has been put out. -/
theorem OnGrid.untilPulse_succ :
    let u := (t.after n).untilPulse - t.context.board.pwm.period
    Ticks k u ((pulseCount a c n + 1) * c - (n + 1 : ℕ) * a) ∧
      ((pulseCount a c n + 1) * c ≤ (n + 1) * a →
        Ticks k (u + t.excitationPeriod) ((pulseCount a c n + 1 + 1) * c - (n + 1 : ℕ) * a)) := by
  obtain ⟨hk, hk'⟩ := h.exponent_bounds
  have hfits : (a : ℤ) + b + c < 2 ^ 24 := by exact_mod_cast h.fits
  have hn' : (n : ℤ) * a ≤ b := by exact_mod_cast hn
  have hP : (pulseCount a c n : ℤ) * c ≤ n * a := by exact_mod_cast pulseCount_mul_le n
  have hP0 : 0 ≤ (pulseCount a c n : ℤ) * c := by positivity
  have hu := hs.untilPulse.sub h.period hk hk' (by rw [abs_lt]; constructor <;> linarith)
  refine ⟨?_, fun hdue => ?_⟩
  · convert hu using 1
    push_cast
    ring
  · have hdue' : (pulseCount a c n + 1 : ℤ) * c ≤ (n + 1) * a := by exact_mod_cast hdue
    convert hu.add h.excitationPeriod hk hk' (by rw [abs_lt]; constructor <;> linarith) using 1
    push_cast
    ring

theorem OnGrid.onSchedule_succ : t.OnSchedule k a b c (n + 1) := by
  have hrem := h.remaining_succ hs hn
  obtain ⟨hunt, hnext⟩ := h.untilPulse_succ hs hn
  -- the computed time is over exactly if a pulse is due by the end of the period
  have hdue : (t.after n).untilPulse - t.context.board.pwm.period ≤ 0 ↔
      (pulseCount a c n + 1) * c ≤ (n + 1) * a := by
    rw [hunt.nonpos_iff, sub_nonpos]
    exact_mod_cast Iff.rfl
  have hsucc := pulseCount_succ (a := a) h.excitationPeriod_pos n
  obtain ⟨hr, -⟩ | ⟨-, ⟨hu, he⟩ | ⟨hu, he⟩⟩ := (t.after n).pwmPeriod_cases
  · exact absurd hr (hs.not_released hn)
  · dsimp only at hu he
    rw [context_after] at hu he
    rw [if_pos (hdue.1 hu)] at hsucc
    refine ⟨hrem, ?_, ?_⟩
    · rw [after_succ, he, hsucc, excitationPeriod_after]
      exact_mod_cast hnext (hdue.1 hu)
    · rw [firstOutputs_succ, List.filterMap_append, List.length_append, hs.pulses, hsucc, he]
      simp [Output.pulsed_pulse]
  · dsimp only at hu he
    rw [context_after] at hu he
    rw [if_neg fun hle => hu (hdue.2 hle)] at hsucc
    refine ⟨hrem, ?_, ?_⟩
    · rw [after_succ, he, hsucc]
      exact hunt
    · rw [firstOutputs_succ, List.filterMap_append, List.length_append, hs.pulses, hsucc, he]
      simp [Output.pulsed_zeroActive]

end

theorem OnGrid.onSchedule (ht : t.untilPulse = t.excitationPeriod) {n : ℕ} (hn : n ≤ b / a + 1) :
    t.OnSchedule k a b c n := by
  induction n with
  | zero => exact h.onSchedule_zero ht
  | succ n ih =>
    refine h.onSchedule_succ (ih (by omega)) ?_
    exact (Nat.le_div_iff_mul_le h.period_pos).1 (by omega)

end

/-- **The exact schedule of a beep** whose times are `a`, `c` and `b` ticks of a power of two of seconds: it is
driven for `b / a + 1` periods, with a pulse for every `c` ticks that have passed, but one in a period at
most. -/
theorem exact_schedule {context : Context} {frequency duration : Scalar} {k : ℤ} {a b c : ℕ}
    (h : (make context frequency duration).OnGrid k a b c) :
    let t := make context frequency duration
    t.DrivenFor (b / a + 1) ∧
      ∀ es n, es.countP Task.Event.isPwm = n → n ≤ b / a + 1 →
        (((Task.beep t).outputs es).filterMap Output.pulsed).length = min n (n * a / c) := by
  intro t
  have hs {n : ℕ} (hn : n ≤ b / a + 1) : t.OnSchedule k a b c n := h.onSchedule rfl hn
  refine ⟨drivenFor_of_first ?_ fun n hn => ?_, fun es n hes hn => ?_⟩
  · rw [(hs le_rfl).remaining.neg_iff]
    have := Nat.lt_div_mul_add (a := b) h.period_pos
    rw [← add_one_mul] at this
    have : (b : ℤ) < (b / a + 1 : ℕ) * a := by exact_mod_cast this
    linarith
  · rw [(hs hn.le).remaining.neg_iff, not_lt, sub_nonneg]
    exact_mod_cast (Nat.le_div_iff_mul_le h.period_pos).1 (Nat.le_of_lt_succ hn)
  · rw [Task.outputs_beep, hes]
    exact (hs hn).pulses

/-- Three pulses to every four periods, in a beep of a second, which is no whole number of periods. -/
theorem exact_schedule_of_fourths :
    let context : Context := ⟨{}, ⟨⟨3 / 4096, 0⟩, .current⟩, rfl, by decide +kernel⟩
    let t := make context 1024 1
    t.OnGrid (-12) 3 4096 4 ∧ t.DrivenFor 1366 ∧
      ∀ es n, es.countP Task.Event.isPwm = n → n ≤ 1366 →
        (((Task.beep t).outputs es).filterMap Output.pulsed).length = min n (n * 3 / 4) := by
  intro context t
  have h : t.OnGrid (-12) 3 4096 4 := {
    le_tick := by norm_num
    tick_le := by norm_num
    period := ⟨by decide +kernel, by decide +kernel⟩
    remaining := ⟨by decide +kernel, by decide +kernel⟩
    excitationPeriod := ⟨by decide +kernel, by decide +kernel⟩
    period_pos := by norm_num
    excitationPeriod_pos := by norm_num
    fits := by norm_num }
  exact ⟨h, exact_schedule h⟩

end Beep

end BrushlessDrive
