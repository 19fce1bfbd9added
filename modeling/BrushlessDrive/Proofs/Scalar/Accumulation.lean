import BrushlessDrive.Proofs.Scalar.Error
import Mathlib.Algebra.Order.Archimedean.Basic

/-!
# Accumulated steps

A quantity that is moved by one amount in every step does not stay at the multiples of it: each step is
rounded. The errors of the steps add up, and what counts is how large one can be against the step. Multiples
of a power of two, as long as they are not too many, are not rounded (`Scalar.Ticks`).
-/

set_option autoImplicit false

namespace BrushlessDrive

namespace Binary32

/-- Small sums are multiples of the least number, as their terms are, and so are not rounded at all. -/
theorem abs_nearest_add_sub_le {p q : ℚ} (hp : Representable p) (hq : Representable q) :
    |nearest (p + q) - (p + q)| ≤ |p + q| / 2 ^ 24 := by
  rcases le_or_gt (2 ^ (-126 : ℤ)) |p + q| with h | h
  · exact abs_nearest_sub_le_rel h
  obtain ⟨m, rfl⟩ := hp.exists_int
  obtain ⟨n, rfl⟩ := hq.exists_int
  have hu : (0 : ℚ) < 2 ^ (-149 : ℤ) := zpow_pos (by norm_num) _
  have hr : Representable (m * 2 ^ (-149 : ℤ) + n * 2 ^ (-149 : ℤ)) := by
    refine ⟨m + n, -149, ?_, le_rfl, by push_cast; ring⟩
    rw [← add_mul, abs_mul, abs_of_pos hu, show (-126 : ℤ) = -149 + (23 : ℕ) by norm_num, two_zpow_add]
      at h
    have hlt : |(m : ℚ) + n| < 2 ^ 23 := lt_of_mul_lt_mul_right h hu.le
    have hlt' : |m + n| < 2 ^ 23 := by exact_mod_cast hlt
    omega
  rw [nearest_of_representable hr, sub_self, abs_zero]
  positivity

/-- Of the steps of `x` before it has arrived, each one goes up by `u` at most, and by `l` at least unless
it is the last one. Until then `x` is within `b`. So it does arrive, and the number of steps it takes is
bounded by the way that is to go. -/
theorem exists_arrival (x : ℕ → ℚ) (Arrived : ℕ → Prop) {b l u : ℚ} (hl : 0 < l) (h0 : x 0 ≤ b)
    (hb : ∀ k, ¬ Arrived k → x k ≤ b)
    (hlo : ∀ k, ¬ Arrived k → ¬ Arrived (k + 1) → x k + l ≤ x (k + 1))
    (hhi : ∀ k, ¬ Arrived k → x (k + 1) ≤ x k + u) :
    ∃ n : ℕ, Arrived n ∧ (∀ k < n, ¬ Arrived k) ∧ n * l ≤ b - x 0 + l ∧ x n - x 0 ≤ n * u := by
  classical
  have low (n : ℕ) (h : ∀ k ≤ n, ¬ Arrived k) : n * l ≤ b - x 0 := by
    suffices hn : x 0 + n * l ≤ x n by linarith [hb n (h n le_rfl)]
    induction n with
    | zero => simp
    | succ n ih =>
      have hs := hlo n (h n n.le_succ) (h (n + 1) le_rfl)
      have hn := ih fun k hk => h k (hk.trans n.le_succ)
      push_cast
      linarith
  have hex : ∃ n, Arrived n := by
    by_contra! hnone
    obtain ⟨n, hn⟩ := exists_nat_gt ((b - x 0) / l)
    rw [div_lt_iff₀ hl] at hn
    exact (low n fun k _ => hnone k).not_gt hn
  have hbefore (k : ℕ) (hk : k < Nat.find hex) : ¬ Arrived k := Nat.find_min hex hk
  refine ⟨Nat.find hex, Nat.find_spec hex, hbefore, ?_, ?_⟩
  · generalize Nat.find hex = n at hbefore
    cases n with
    | zero =>
      push_cast
      linarith
    | succ n =>
      have hn := low n fun k hk => hbefore k (Nat.lt_succ_of_le hk)
      push_cast
      linarith
  · generalize Nat.find hex = n at hbefore
    induction n with
    | zero => simp
    | succ n ih =>
      have hs := hhi n (hbefore n n.lt_succ_self)
      have hn := ih fun k hk => hbefore k (hk.trans n.lt_succ_self)
      push_cast
      linarith

end Binary32

namespace Scalar

open Binary32

structure Ticks (k : ℤ) (x : Scalar) (m : ℤ) : Prop where
  isFinite : x.isFinite = true
  val_eq : x.val = m * 2 ^ k

variable {k m n : ℤ} {x y : Scalar}

theorem IsNearest.ticks (h : IsNearest x (m * 2 ^ k)) (hk : -149 ≤ k) (hk' : k ≤ 104)
    (hm : |m| < 2 ^ 24) : Ticks k x m := by
  have hp : (0 : ℚ) < 2 ^ k := zpow_pos (by norm_num) _
  obtain ⟨hf, hv⟩ := h.exact ⟨m, k, hm, hk, rfl⟩ (by
    have hm' : |(m : ℚ)| < 2 ^ 24 := by exact_mod_cast hm
    rw [abs_mul, abs_of_pos hp]
    calc |(m : ℚ)| * 2 ^ k < 2 ^ 24 * 2 ^ k := mul_lt_mul_of_pos_right hm' hp
      _ ≤ 2 ^ 24 * 2 ^ (104 : ℤ) :=
        mul_le_mul_of_nonneg_left (zpow_le_zpow_right₀ (by norm_num) hk') (by norm_num)
      _ = 2 ^ 128 := by norm_num)
  exact ⟨hf, hv⟩

theorem Ticks.add (hx : Ticks k x m) (hy : Ticks k y n) (hk : -149 ≤ k) (hk' : k ≤ 104)
    (h : |m + n| < 2 ^ 24) : Ticks k (x + y) (m + n) := by
  have hs := isNearest_add hx.isFinite hy.isFinite
  rw [hx.val_eq, hy.val_eq, ← add_mul] at hs
  exact IsNearest.ticks (by exact_mod_cast hs) hk hk' h

theorem Ticks.sub (hx : Ticks k x m) (hy : Ticks k y n) (hk : -149 ≤ k) (hk' : k ≤ 104)
    (h : |m - n| < 2 ^ 24) : Ticks k (x - y) (m - n) := by
  have hs := isNearest_sub hx.isFinite hy.isFinite
  rw [hx.val_eq, hy.val_eq, ← sub_mul] at hs
  exact IsNearest.ticks (by exact_mod_cast hs) hk hk' h

theorem Ticks.neg_iff (hx : Ticks k x m) : x < 0 ↔ m < 0 := by
  have hp : (0 : ℚ) < 2 ^ k := zpow_pos (by norm_num) _
  rw [lt_iff (isNaN_of_isFinite hx.isFinite) rfl, hx.val_eq, val_zero, ← neg_pos, ← neg_mul,
    mul_pos_iff_of_pos_right hp, neg_pos, Int.cast_lt_zero]

theorem Ticks.nonpos_iff (hx : Ticks k x m) : x ≤ 0 ↔ m ≤ 0 := by
  have hp : (0 : ℚ) < 2 ^ k := zpow_pos (by norm_num) _
  rw [le_iff (isNaN_of_isFinite hx.isFinite) rfl, hx.val_eq, val_zero, ← neg_nonneg, ← neg_mul,
    mul_nonneg_iff_of_pos_right hp, neg_nonneg, Int.cast_nonpos]

end Scalar

end BrushlessDrive
