import BrushlessDrive.Proofs.Scalar.Accumulation
import BrushlessDrive.Proofs.Task.Spinup

/-!
# The ramp of a start

The velocity of a start is raised by one amount in every PWM period, up to the target, and by nothing else.
Every sum is rounded, by a 256th of the amount at most as long as the target is no more than `2 ^ 16` amounts
(`ramp_step`). Past that limit a sum may be rounded back to what it was, short of the target.
-/

set_option autoImplicit false

namespace BrushlessDrive

open Binary32

namespace Spinup

/-- The velocity `v` after `n` periods that each raise it by `s`, up to the target. -/
def ramp (s target v : Scalar) (n : ℕ) : Scalar := (fun v => Scalar.minNum (v + s) target)^[n] v

@[simp] theorem ramp_zero (s target v : Scalar) : ramp s target v 0 = v := rfl

theorem ramp_succ (s target v : Scalar) (n : ℕ) :
    ramp s target v (n + 1) = Scalar.minNum (ramp s target v n + s) target :=
  Function.iterate_succ_apply' _ n v

theorem velocity_after (t : Spinup) (es : List Task.Event) :
    (t.after es).velocity = ramp (t.acceleration * t.context.board.pwm.period) t.targetVelocity t.velocity
      (es.countP Task.Event.isPwm) := by
  induction es generalizing t with
  | nil => rfl
  | cons e es ih =>
    cases e with
    | pwm i v =>
      rw [List.countP_cons_of_pos rfl]
      exact ih (t.advance i v)
    | check p s =>
      rw [List.countP_cons_of_neg Bool.false_ne_true]
      exact ih (t.mainCheck p s).2

section

variable {s target v : Scalar} (hs : s.isFinite = true) (hs0 : 0 < s.val) (ht : target.isFinite = true)
  (hle : target.val ≤ 2 ^ 16 * s.val)
include hs hs0 ht

theorem abs_add_sub_le (hv : v.isFinite = true) (h0 : 0 ≤ v.val) (hlt : v.val + s.val < target.val) :
    |(v + s).val - (v.val + s.val)| ≤ target.val / 2 ^ 24 := by
  obtain ⟨-, hn, -⟩ := (Scalar.isNearest_add hv hs).abs_le (Scalar.representable_val ht)
    (abs_lt.1 (Scalar.abs_val_lt ht)).2 (by rw [abs_of_nonneg (by linarith)]; exact hlt.le)
  rw [hn]
  refine (abs_nearest_add_sub_le (Scalar.representable_val hv) (Scalar.representable_val hs)).trans ?_
  rw [abs_of_nonneg (by linarith)]
  exact div_le_div_of_nonneg_right hlt.le (by norm_num)

include hle in
/-- The velocity goes up by `s`, up to the rounding, unless it arrives. -/
theorem ramp_step (hv : v.isFinite = true) (h0 : 0 ≤ v.val) (hvt : v.val ≤ target.val) :
    let w := Scalar.minNum (v + s) target
    w.isFinite = true ∧ v.val ≤ w.val ∧ w.val ≤ target.val ∧ w.val ≤ v.val + (s.val + s.val / 256) ∧
      (w.val ≠ target.val → v.val + (s.val - s.val / 256) ≤ w.val) := by
  intro w
  have hn := Scalar.isNearest_add hv hs
  have hvn := Scalar.isNaN_of_isFinite hv
  obtain ⟨hwn, hw⟩ := Scalar.val_minNum hn.not_nan (Scalar.isNaN_of_isFinite ht)
  have hgrow : v.val ≤ (v + s).val := Scalar.val_le_val (hn.ge hvn (by linarith))
  have hvw : v.val ≤ w.val := hw ▸ le_min hgrow hvt
  have hwt : w.val ≤ target.val := hw ▸ min_le_right _ _
  have hwf : w.isFinite = true := Scalar.isFinite_iff.2 ⟨hwn, abs_lt.2
    ⟨by linarith [show (0 : ℚ) < 2 ^ 128 by norm_num], hwt.trans_lt (abs_lt.1 (Scalar.abs_val_lt ht)).2⟩⟩
  refine ⟨hwf, hvw, hwt, ?_⟩
  rcases le_or_gt target.val (v.val + s.val) with hq | hq
  · have hge := Scalar.val_le_val (hn.ge (Scalar.isNaN_of_isFinite ht) hq)
    exact ⟨by linarith, fun hne => absurd (hw.trans (min_eq_right hge)) hne⟩
  · have hsum := Scalar.val_le_val (hn.le (Scalar.isNaN_of_isFinite ht) hq.le)
    have hws : w.val = (v + s).val := hw.trans (min_eq_left hsum)
    have he := abs_le.1 (abs_add_sub_le hs hs0 ht hv h0 hq)
    rw [hws]
    exact ⟨by linarith, fun _ => by linarith⟩

include hle in
theorem ramp_bounds (hv : v.isFinite = true) (h0 : 0 ≤ v.val) (hvt : v.val ≤ target.val) (n : ℕ) :
    (ramp s target v n).isFinite = true ∧ 0 ≤ (ramp s target v n).val ∧
      (ramp s target v n).val ≤ target.val := by
  induction n with
  | zero => exact ⟨hv, h0, hvt⟩
  | succ n ih =>
    obtain ⟨hf, h0, hvt⟩ := ih
    obtain ⟨hwf, hvw, hwt, -⟩ := ramp_step hs hs0 ht hle hf h0 hvt
    rw [ramp_succ]
    exact ⟨hwf, h0.trans hvw, hwt⟩

include hle in
theorem exists_ramp_eq_target (ht0 : 0 ≤ target.val) :
    ∃ n : ℕ, (∀ k, (ramp s target 0 k).val = target.val ↔ n ≤ k) ∧
      n * (s.val - s.val / 256) ≤ target.val + (s.val - s.val / 256) ∧
      target.val ≤ n * (s.val + s.val / 256) := by
  have hbounds := ramp_bounds hs hs0 ht hle Scalar.isFinite_zero le_rfl ht0
  have hstep (k : ℕ) := ramp_step hs hs0 ht hle (hbounds k).1 (hbounds k).2.1 (hbounds k).2.2
  simp only [← ramp_succ] at hstep
  obtain ⟨n, hn, hfirst, hlo, hhi⟩ := exists_arrival (fun k => (ramp s target 0 k).val)
    (fun k => (ramp s target 0 k).val = target.val) (b := target.val) (l := s.val - s.val / 256)
    (u := s.val + s.val / 256) (by linarith) (by simpa using ht0) (fun k _ => (hbounds k).2.2)
    (fun k _ h => (hstep k).2.2.2.2 h) (fun k _ => (hstep k).2.2.2.1)
  rw [ramp_zero, Scalar.val_zero, sub_zero] at hlo hhi
  rw [hn] at hhi
  refine ⟨n, fun k => ⟨fun hk => not_lt.1 fun hlt => hfirst k hlt hk, fun hk => ?_⟩, hlo, hhi⟩
  induction k, hk using Nat.le_induction with
  | base => exact hn
  | succ k _ ih => exact le_antisymm (hstep k).2.2.1 (ih ▸ (hstep k).2.1)

end

/-- **The time of the ramp.** With a target of `2 ^ 16` amounts at most the velocity arrives, and the number of
PWM periods that it takes is that of the amounts in the target, up to a hundredth and one period more. -/
theorem ramp_time (c : Context) :
    let target := (make c).targetVelocity
    let s := (make c).acceleration * c.board.pwm.period
    target.isFinite = true → s.isFinite = true → 0 < s → target.val ≤ 2 ^ 16 * s.val →
      ∃ n : ℕ, 99 / 100 * (target.val / s.val) ≤ n ∧ n ≤ 101 / 100 * (target.val / s.val) + 1 ∧
        ∀ es, ∃ u : Spinup, ((Task.spinup (make c)).run es).2 = .spinup u ∧
          ((u.velocity == target) = true ↔ n ≤ es.countP Task.Event.isPwm) := by
  intro target s ht hs h0 hle
  have hs0 := Scalar.val_pos h0
  have hr := ramped_make c
  have ht0 : 0 ≤ target.val := Scalar.val_nonneg (Scalar.le_trans hr.nonneg hr.le)
  obtain ⟨n, hn, hlo, hhi⟩ := exists_ramp_eq_target hs hs0 ht hle ht0
  refine ⟨n, ?_, ?_, fun es => ⟨_, Task.run_spinup _ es, ?_⟩⟩
  · rw [← mul_div_assoc, div_le_iff₀ hs0]
    linarith [mul_nonneg n.cast_nonneg hs0.le]
  · rw [← mul_div_assoc, div_add' _ _ _ hs0.ne', le_div_iff₀ hs0]
    linarith
  · have hv := (ramped_after hr es).isNaN
    rw [Scalar.beq_iff hv (Scalar.isNaN_of_isFinite ht), velocity_after, ← hn]
    rfl

/-- A start that is given 1600 RPM to reach with 500 RPM per second: 64000 amounts, where `2 ^ 16` is the
limit. -/
theorem ramp_time_of_64000_periods :
    let c : Context := ⟨{ controller := { spinupTarget := 1600 } }, ⟨.ofParams {}, .current⟩, rfl,
      PwmTiming.period_default_pos⟩
    let target := (make c).targetVelocity
    let s := (make c).acceleration * c.board.pwm.period
    (target.isFinite = true ∧ s.isFinite = true ∧ 0 < s ∧ target.val ≤ 2 ^ 16 * s.val) ∧
      ∃ n : ℕ, 99 / 100 * (target.val / s.val) ≤ n ∧ n ≤ 101 / 100 * (target.val / s.val) + 1 ∧
        ∀ es, ∃ u : Spinup, ((Task.spinup (make c)).run es).2 = .spinup u ∧
          ((u.velocity == target) = true ↔ n ≤ es.countP Task.Event.isPwm) := by
  intro c target s
  have ht : target.isFinite = true := by decide +kernel
  have hs : s.isFinite = true := by decide +kernel
  have h0 : 0 < s := by decide +kernel
  have hle : target.val ≤ 2 ^ 16 * s.val := by decide +kernel
  exact ⟨⟨ht, hs, h0, hle⟩, ramp_time c ht hs h0 hle⟩

end Spinup

end BrushlessDrive
