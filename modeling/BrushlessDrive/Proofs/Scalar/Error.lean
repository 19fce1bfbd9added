import BrushlessDrive.Proofs.Scalar.Value

/-!
# Errors of a computation

`Scalar.Within x q ε` says that the scalar `x` is finite and misses the rational number `q` by `ε` at
most. The arithmetic adds up the errors of its arguments, and half a last place of a power of two
that bounds the result: `Within.add`, `Within.sub`, `Within.const_mul`, `Within.div_const`. Negation
and `clamp` add nothing.
-/

set_option autoImplicit false

namespace BrushlessDrive.Scalar

open Binary32

/-! ## Constants -/

@[simp] theorem val_zero : val 0 = 0 := rfl

theorem val_one : val 1 = 1 := by decide +kernel

theorem val_two : val 2 = 2 := by decide +kernel

theorem val_sqrt3 : val sqrt3 = 14529495 / 8388608 := by decide +kernel

theorem isFinite_zero : (0 : Scalar).isFinite = true := by rfl

theorem isFinite_one : (1 : Scalar).isFinite = true := by rfl

theorem isFinite_two : (2 : Scalar).isFinite = true := by rfl

theorem isFinite_sqrt3 : sqrt3.isFinite = true := by rfl

/-! ## Errors -/

structure Within (x : Scalar) (q ε : ℚ) : Prop where
  isFinite : x.isFinite = true
  near : |x.val - q| ≤ ε

variable {x y : Scalar} {p q ε δ : ℚ} {k : ℤ}

theorem within_val (h : x.isFinite = true) : Within x x.val 0 := ⟨h, by simp⟩

theorem within_one : Within 1 1 0 := val_one ▸ within_val isFinite_one

theorem Within.mono (h : Within x q ε) (hε : ε ≤ δ) : Within x q δ := ⟨h.isFinite, h.near.trans hε⟩

theorem IsNearest.within (h : IsNearest x p) (hpq : |p - q| ≤ ε) (hk : -125 ≤ k) (hk' : k ≤ 127)
    (hb : |q| + ε ≤ 2 ^ k) : Within x q (ε + 2 ^ (k - 25)) := by
  have hp : |p| ≤ 2 ^ k := by
    have := abs_sub_abs_le_abs_sub p q
    linarith
  have hmax : |p| ≤ 2 ^ 127 := hp.trans (by
    exact_mod_cast (zpow_le_zpow_right₀ (by norm_num) hk' : (2 : ℚ) ^ k ≤ 2 ^ (127 : ℤ)))
  obtain ⟨hf, hv⟩ := h.isFinite hmax
  refine ⟨hf, ?_⟩
  have he := abs_nearest_sub_le hk hp
  have ht := abs_add_le (nearest p - p) (p - q)
  rw [sub_add_sub_cancel] at ht
  rw [hv]
  linarith

theorem Within.add (hx : Within x p ε) (hy : Within y q δ) (hk : -125 ≤ k) (hk' : k ≤ 127)
    (hb : |p + q| + (ε + δ) ≤ 2 ^ k) : Within (x + y) (p + q) (ε + δ + 2 ^ (k - 25)) := by
  refine (isNearest_add hx.isFinite hy.isFinite).within ?_ hk hk' hb
  rw [add_sub_add_comm]
  exact (abs_add_le _ _).trans (add_le_add hx.near hy.near)

theorem Within.neg (hx : Within x p ε) : Within (-x) (-p) ε := by
  obtain ⟨hf, hv⟩ := neg_spec hx.isFinite
  refine ⟨hf, ?_⟩
  rw [hv, neg_sub_neg, abs_sub_comm]
  exact hx.near

theorem Within.sub (hx : Within x p ε) (hy : Within y q δ) (hk : -125 ≤ k) (hk' : k ≤ 127)
    (hb : |p - q| + (ε + δ) ≤ 2 ^ k) : Within (x - y) (p - q) (ε + δ + 2 ^ (k - 25)) := by
  refine (isNearest_sub hx.isFinite hy.isFinite).within ?_ hk hk' hb
  rw [sub_sub_sub_comm]
  exact (abs_sub _ _).trans (add_le_add hx.near hy.near)

theorem Within.const_mul {c : Scalar} (hc : c.isFinite = true) (hx : Within x p ε) (hk : -125 ≤ k)
    (hk' : k ≤ 127) (hb : |c.val * p| + |c.val| * ε ≤ 2 ^ k) :
    Within (c * x) (c.val * p) (|c.val| * ε + 2 ^ (k - 25)) := by
  refine (isNearest_mul hc hx.isFinite).within ?_ hk hk' hb
  rw [← mul_sub, abs_mul]
  exact mul_le_mul_of_nonneg_left hx.near (abs_nonneg _)

theorem Within.div_const {c : Scalar} (hc : c.isFinite = true) (h0 : c.val ≠ 0) (hx : Within x p ε)
    (hk : -125 ≤ k) (hk' : k ≤ 127) (hb : |p / c.val| + ε / |c.val| ≤ 2 ^ k) :
    Within (x / c) (p / c.val) (ε / |c.val| + 2 ^ (k - 25)) := by
  refine (isNearest_div hx.isFinite hc h0).within ?_ hk hk' hb
  rw [← sub_div, abs_div]
  exact div_le_div_of_nonneg_right hx.near (abs_nonneg _)

/-- A half has half the error, and that of the rounding. -/
theorem Within.half (hx : Within x p ε) (hk : -124 ≤ k) (hk' : k ≤ 127) (hb : |p| + ε ≤ 2 ^ k) :
    Within (x / 2) (p / 2) (ε / 2 + 2 ^ (k - 1 - 25)) := by
  have hhalf : (2 : ℚ) ^ (k - 1) = 2 ^ k / 2 := by rw [zpow_sub_one₀ (by norm_num)]; ring
  have h := hx.div_const (k := k - 1) isFinite_two (by norm_num [val_two]) (by omega) (by omega)
    (by
      rw [val_two, abs_div, abs_two, hhalf]
      linarith)
  rwa [val_two, abs_two] at h

theorem val_clamp {lo hi : Scalar} (hlo : lo.isFinite = true) (hhi : hi.isFinite = true)
    (hle : lo.val ≤ hi.val) (hn : x.isNaN = false) :
    (clamp x lo hi).isFinite = true ∧ (clamp x lo hi).val = max lo.val (min x.val hi.val) := by
  unfold Scalar.clamp
  split
  · rename_i h
    rw [lt_iff hn (isNaN_of_isFinite hlo)] at h
    exact ⟨hlo, (max_eq_left ((min_le_left _ _).trans h.le)).symm⟩
  rename_i hge
  rw [lt_iff hn (isNaN_of_isFinite hlo), not_lt] at hge
  split
  · rename_i h
    rw [lt_iff (isNaN_of_isFinite hhi) hn] at h
    exact ⟨hhi, by rw [min_eq_right h.le, max_eq_right hle]⟩
  · rename_i h
    rw [lt_iff (isNaN_of_isFinite hhi) hn, not_lt] at h
    have hb := abs_lt.2 ⟨(abs_lt.1 (abs_val_lt hlo)).1.trans_le hge,
      h.trans_lt (abs_lt.1 (abs_val_lt hhi)).2⟩
    exact ⟨isFinite_iff.2 ⟨hn, hb⟩, by rw [min_eq_left h, max_eq_right hge]⟩

theorem val_clamp_unit (hn : x.isNaN = false) :
    (clamp x 0 1).isFinite = true ∧ 0 ≤ (clamp x 0 1).val ∧ (clamp x 0 1).val ≤ 1 := by
  obtain ⟨hf, hv⟩ := val_clamp isFinite_zero isFinite_one (by rw [val_one]; exact zero_le_one) hn
  rw [val_zero, val_one] at hv
  exact ⟨hf, hv ▸ le_max_left _ _, hv ▸ max_le zero_le_one (min_le_right _ _)⟩

theorem clamp_of_isNaN (h : x.isNaN = true) (lo hi : Scalar) : clamp x lo hi = x := by
  have hlo : ¬ x < lo := not_lt_of_isNaN (.inl h)
  have hhi : ¬ hi < x := not_lt_of_isNaN (.inr h)
  unfold Scalar.clamp
  rw [if_neg hlo, if_neg hhi]

theorem clamp_of_mem {lo hi : Scalar} (hlo : lo ≤ x) (hhi : x ≤ hi) : clamp x lo hi = x := by
  obtain ⟨hl, hx⟩ := isNaN_of_le hlo
  have hh := (isNaN_of_le hhi).2
  unfold Scalar.clamp
  rw [if_neg (by rw [lt_iff hx hl]; exact ((le_iff hl hx).1 hlo).not_gt),
    if_neg (by rw [lt_iff hh hx]; exact ((le_iff hx hh).1 hhi).not_gt)]

/-- Values that are cut off at the same ends come nearer to each other. -/
theorem abs_clamp_sub_le (lo hi p q : ℚ) : |max lo (min p hi) - max lo (min q hi)| ≤ |p - q| := by
  rw [max_comm lo, max_comm lo]
  exact (abs_sup_sub_sup_le_abs (min p hi) (min q hi) lo).trans (abs_inf_sub_inf_le_abs p q hi)

theorem Within.clamp {lo hi : Scalar} (hlo : lo.isFinite = true) (hhi : hi.isFinite = true)
    (hle : lo.val ≤ hi.val) (hx : Within x q ε) :
    Within (clamp x lo hi) (max lo.val (min q hi.val)) ε := by
  obtain ⟨hf, hv⟩ := val_clamp hlo hhi hle (isNaN_of_isFinite hx.isFinite)
  refine ⟨hf, ?_⟩
  rw [hv]
  exact (abs_clamp_sub_le _ _ _ _).trans hx.near

end BrushlessDrive.Scalar
