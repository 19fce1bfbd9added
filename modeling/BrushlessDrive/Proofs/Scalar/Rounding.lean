import Mathlib.Algebra.Order.Floor.Ring
import Mathlib.Algebra.Order.Round
import Mathlib.Data.Int.Log
import Mathlib.Data.Rat.Floor
import Mathlib.Tactic.Linarith
import Mathlib.Tactic.NormNum
import Mathlib.Tactic.Push
import Mathlib.Tactic.Ring

/-!
# Rounding to binary32

The arithmetic of the scalars rounds exact rational results. `Binary32.nearest` is the rounding to
24 significant bits, and to a multiple of `2 ^ -149` for small numbers, ties to even; the exponents
have no upper end here. It keeps the order and the sign, and is the identity on its own range.
-/

set_option autoImplicit false

namespace BrushlessDrive.Binary32

/-! ## The nearest integer -/

structure IsRounded (x : ℚ) (n : ℤ) : Prop where
  near : |x - n| ≤ 1 / 2
  even : |x - n| = 1 / 2 → n % 2 = 0

/-- A number that is at most another one is not rounded to a greater integer. -/
theorem IsRounded.le {x y : ℚ} {m n : ℤ} (hx : IsRounded x m) (hy : IsRounded y n) (h : x ≤ y) :
    m ≤ n := by
  by_contra hlt
  have hmn : (n : ℚ) + 1 ≤ m := by exact_mod_cast (show n + 1 ≤ m by omega)
  have hx' := abs_le.1 hx.near
  have hy' := abs_le.1 hy.near
  -- there is room for this only if both numbers are the midpoint of `n` and `m = n + 1`
  have hm : m % 2 = 0 := hx.even (by rw [abs_of_nonpos] <;> linarith)
  have hn : n % 2 = 0 := hy.even (by rw [abs_of_nonneg] <;> linarith)
  have hle : (m : ℚ) ≤ n + 1 := by linarith
  have hle' : m ≤ n + 1 := by exact_mod_cast hle
  omega

theorem IsRounded.unique {x : ℚ} {m n : ℤ} (hm : IsRounded x m) (hn : IsRounded x n) : m = n :=
  le_antisymm (hm.le hn le_rfl) (hn.le hm le_rfl)

theorem IsRounded.neg {x : ℚ} {n : ℤ} (h : IsRounded x n) : IsRounded (-x) (-n) := by
  have he : |-x - ((-n : ℤ) : ℚ)| = |x - n| := by
    rw [← abs_neg]
    push_cast
    ring_nf
  refine ⟨he.le.trans h.near, fun ht => ?_⟩
  have := h.even (he.symm.trans ht)
  omega

/-- Off the midpoints the nearer integer is the rounded one. -/
theorem IsRounded.of_abs_lt {x : ℚ} {n : ℤ} (h : |x - n| < 1 / 2) : IsRounded x n :=
  ⟨h.le, fun he => absurd he h.ne⟩

theorem isRounded_intCast (n : ℤ) : IsRounded n n := by
  constructor <;> norm_num

def roundEven (x : ℚ) : ℤ :=
  let n := ⌊x + 1 / 2⌋
  if x + 1 / 2 = n ∧ n % 2 = 1 then n - 1 else n

theorem isRounded_roundEven (x : ℚ) : IsRounded x (roundEven x) := by
  have hlo := Int.floor_le (x + 1 / 2)
  have hhi := Int.lt_floor_add_one (x + 1 / 2)
  unfold roundEven
  generalize ⌊x + 1 / 2⌋ = n at *
  dsimp only
  split
  · rename_i ht
    have he : x - ((n - 1 : ℤ) : ℚ) = 1 / 2 := by
      push_cast
      linarith [ht.1]
    refine ⟨by rw [he]; norm_num, fun _ => ?_⟩
    omega
  · rename_i ht
    refine ⟨abs_le.2 ⟨by linarith, by linarith⟩, fun he => ?_⟩
    rcases abs_eq (by norm_num) |>.1 he with he | he
    · linarith
    · have : n % 2 ≠ 1 := fun h1 => ht ⟨by linarith, h1⟩
      omega

theorem roundEven_eq {x : ℚ} {n : ℤ} (h : IsRounded x n) : roundEven x = n :=
  (isRounded_roundEven x).unique h

theorem roundEven_mono {x y : ℚ} (h : x ≤ y) : roundEven x ≤ roundEven y :=
  (isRounded_roundEven x).le (isRounded_roundEven y) h

@[simp] theorem roundEven_intCast (n : ℤ) : roundEven n = n := roundEven_eq (isRounded_intCast n)

@[simp] theorem roundEven_zero : roundEven 0 = 0 := by
  simpa using roundEven_intCast 0

theorem roundEven_neg (x : ℚ) : roundEven (-x) = -roundEven x :=
  roundEven_eq (isRounded_roundEven x).neg

/-! ## The nearest number of the format -/

/-- The exponent of the last place of a number: 24 significant bits, as far as `2 ^ -149`. -/
def ulpExponent (q : ℚ) : ℤ := max (Int.log 2 |q| - 23) (-149)

/-- The number of the format nearest to `q`. -/
def nearest (q : ℚ) : ℚ := roundEven (q / 2 ^ ulpExponent q) * 2 ^ ulpExponent q

/-- A number with 24 significant bits at most and no bit below `2 ^ -149`. -/
def Representable (q : ℚ) : Prop := ∃ (m e : ℤ), |m| < 2 ^ 24 ∧ -149 ≤ e ∧ q = m * 2 ^ e

theorem ulp_pos (q : ℚ) : (0 : ℚ) < 2 ^ ulpExponent q := zpow_pos (by norm_num) _

theorem ulpExponent_neg (q : ℚ) : ulpExponent (-q) = ulpExponent q := by
  rw [ulpExponent, abs_neg, ulpExponent]

theorem two_zpow_add (k : ℤ) (n : ℕ) : (2 : ℚ) ^ (k + n) = 2 ^ n * 2 ^ k := by
  rw [zpow_add₀ (by norm_num), zpow_natCast, mul_comm]

/-- A bound of a number bounds its last place. -/
theorem ulpExponent_le {q : ℚ} (hq : q ≠ 0) {k : ℤ} (hk : -149 ≤ k) (h : |q| < 2 ^ 24 * 2 ^ k) :
    ulpExponent q ≤ k := by
  have hl : Int.log 2 |q| < k + (24 : ℕ) := by
    rw [← two_zpow_add] at h
    exact (Int.lt_zpow_iff_log_lt (by norm_num) (abs_pos.2 hq)).1 (by exact_mod_cast h)
  unfold ulpExponent
  omega

theorem ulpExponent_mono {p q : ℚ} (hp : p ≠ 0) (h : |p| ≤ |q|) :
    ulpExponent p ≤ ulpExponent q := by
  have := Int.log_mono_right (b := 2) (abs_pos.2 hp) h
  unfold ulpExponent
  omega

theorem ulpExponent_eq {q : ℚ} {k : ℤ} (hlo : 2 ^ k ≤ |q|) (hhi : |q| < 2 ^ (k + 1)) :
    ulpExponent q = max (k - 23) (-149) := by
  have hq : 0 < |q| := (zpow_pos (by norm_num) k).trans_le hlo
  have h1 := (Int.zpow_le_iff_le_log (b := 2) (by norm_num) hq).1 (by exact_mod_cast hlo)
  have h2 := (Int.lt_zpow_iff_log_lt (b := 2) (by norm_num) hq).1 (by exact_mod_cast hhi)
  unfold ulpExponent
  omega

/-- A number has at most 24 bits before its last place. -/
theorem abs_lt_ulp (q : ℚ) : |q| < 2 ^ 24 * 2 ^ ulpExponent q := by
  have h := Int.lt_zpow_succ_log_self (b := 2) (by norm_num) |q|
  rw [← two_zpow_add]
  refine lt_of_lt_of_le (by exact_mod_cast h) (zpow_le_zpow_right₀ (by norm_num) ?_)
  unfold ulpExponent
  omega

/-- A number that is not a small one has all of its 24 bits. -/
theorem ulp_le_abs {q : ℚ} (hq : q ≠ 0) (h : -149 < ulpExponent q) :
    2 ^ 23 * 2 ^ ulpExponent q ≤ |q| := by
  have hl := Int.zpow_log_le_self (b := 2) (by norm_num) (abs_pos.2 hq)
  have he : ulpExponent q + (23 : ℕ) = Int.log 2 |q| := by
    unfold ulpExponent at h ⊢
    omega
  rw [← two_zpow_add, he]
  exact_mod_cast hl

@[simp] theorem nearest_zero : nearest 0 = 0 := by simp [nearest]

theorem nearest_neg (q : ℚ) : nearest (-q) = -nearest q := by
  rw [nearest, ulpExponent_neg, neg_div, roundEven_neg, nearest]
  push_cast
  ring

theorem nearest_nonneg {q : ℚ} (h : 0 ≤ q) : 0 ≤ nearest q := by
  have hr : roundEven 0 ≤ roundEven (q / 2 ^ ulpExponent q) :=
    roundEven_mono (div_nonneg h (ulp_pos q).le)
  rw [roundEven_zero] at hr
  exact mul_nonneg (by exact_mod_cast hr) (ulp_pos q).le

theorem abs_roundEven_le (q : ℚ) : |roundEven (q / 2 ^ ulpExponent q)| ≤ 2 ^ 24 := by
  have hd : |q / 2 ^ ulpExponent q| < 2 ^ 24 := by
    rw [abs_div, abs_of_pos (ulp_pos q), div_lt_iff₀ (ulp_pos q)]
    exact abs_lt_ulp q
  have hb := abs_lt.1 hd
  have h1 := roundEven_mono (y := ((2 ^ 24 : ℤ) : ℚ)) (by push_cast; exact hb.2.le)
  have h2 := roundEven_mono (x := ((-2 ^ 24 : ℤ) : ℚ)) (by push_cast; exact hb.1.le)
  rw [roundEven_intCast] at h1 h2
  exact abs_le.2 ⟨h2, h1⟩

/-- Rounding takes no bits from a number that has all of them. -/
theorem le_roundEven {q : ℚ} (hq : 0 < q) (h : -149 < ulpExponent q) :
    2 ^ 23 ≤ roundEven (q / 2 ^ ulpExponent q) := by
  have hg := ulp_le_abs hq.ne' h
  rw [abs_of_pos hq, ← le_div_iff₀ (ulp_pos q)] at hg
  have hr := roundEven_mono (x := ((2 ^ 23 : ℤ) : ℚ)) (by exact_mod_cast hg)
  rwa [roundEven_intCast] at hr

theorem representable_two_zpow {k : ℤ} (hk : -149 ≤ k) : Representable (2 ^ k) :=
  ⟨1, k, by norm_num, hk, by simp⟩

theorem representable_two_pow (n : ℕ) : Representable (2 ^ n) := by
  exact_mod_cast representable_two_zpow (k := n) (by omega)

theorem representable_one : Representable 1 := by
  simpa using representable_two_pow 0

theorem Representable.neg {q : ℚ} (h : Representable q) : Representable (-q) := by
  obtain ⟨m, e, hm, he, rfl⟩ := h
  exact ⟨-m, e, by rwa [abs_neg], he, by push_cast; ring⟩

theorem Representable.abs {q : ℚ} (h : Representable q) : Representable |q| := by
  rcases abs_choice q with ha | ha <;> rw [ha]
  · exact h
  · exact h.neg

theorem representable_nearest (q : ℚ) : Representable (nearest q) := by
  have he : -149 ≤ ulpExponent q := le_max_right _ _
  rcases lt_or_eq_of_le (abs_roundEven_le q) with hm | hm
  · exact ⟨_, _, hm, he, rfl⟩
  -- 24 bits that are all rounded up carry into the next place
  have ht : Representable (2 ^ 24 * 2 ^ ulpExponent q) := by
    rw [← two_zpow_add]
    exact representable_two_zpow (by omega)
  unfold nearest
  rcases abs_eq (by norm_num) |>.1 hm with h | h <;> rw [h]
  · exact_mod_cast ht
  · have := ht.neg
    push_cast
    rwa [neg_mul]

theorem Representable.ulp_mul {q : ℚ} (h : Representable q) : ∃ n : ℤ, q = n * 2 ^ ulpExponent q := by
  obtain ⟨m, e, hm, he, rfl⟩ := h
  by_cases h0 : (m : ℚ) * 2 ^ e = 0
  · exact ⟨0, by rw [h0]; simp⟩
  have hle : ulpExponent (m * 2 ^ e) ≤ e := by
    refine ulpExponent_le h0 he ?_
    rw [abs_mul, abs_of_pos (zpow_pos (by norm_num) _ : (0 : ℚ) < 2 ^ e)]
    exact mul_lt_mul_of_pos_right (by exact_mod_cast hm) (zpow_pos (by norm_num) _)
  obtain ⟨d, hd⟩ := Int.le.dest hle
  refine ⟨m * 2 ^ d, ?_⟩
  generalize ulpExponent (m * 2 ^ e) = k at *
  rw [← hd, two_zpow_add]
  push_cast
  ring

theorem nearest_of_representable {q : ℚ} (h : Representable q) : nearest q = q := by
  obtain ⟨n, hn⟩ := h.ulp_mul
  have hd : q / 2 ^ ulpExponent q = n := by
    rw [div_eq_iff (ulp_pos q).ne']
    exact hn
  rw [nearest, hd, roundEven_intCast, ← hn]

/-! ## Order -/

private theorem nearest_mono_pos {p q : ℚ} (hp : 0 < p) (h : p ≤ q) : nearest p ≤ nearest q := by
  have hq : 0 < q := hp.trans_le h
  have hle : ulpExponent p ≤ ulpExponent q :=
    ulpExponent_mono hp.ne' (by rwa [abs_of_pos hp, abs_of_pos hq])
  rcases hle.eq_or_lt with he | hlt
  · unfold nearest
    rw [he]
    have hd : p / 2 ^ ulpExponent q ≤ q / 2 ^ ulpExponent q :=
      div_le_div_of_nonneg_right h (ulp_pos q).le
    exact mul_le_mul_of_nonneg_right (by exact_mod_cast roundEven_mono hd) (ulp_pos q).le
  · -- a power of two lies between the two numbers, and neither of them is rounded past it
    have hlo : -149 ≤ ulpExponent p := le_max_right _ _
    have h1 : (2 : ℚ) ^ 23 * 2 ^ ulpExponent q ≤ nearest q := by
      refine mul_le_mul_of_nonneg_right ?_ (ulp_pos q).le
      exact_mod_cast le_roundEven hq (by omega)
    have h2 : nearest p ≤ 2 ^ 24 * 2 ^ ulpExponent p := by
      refine mul_le_mul_of_nonneg_right ?_ (ulp_pos p).le
      exact_mod_cast (abs_le.1 (abs_roundEven_le p)).2
    have h3 : (2 : ℚ) ^ (ulpExponent p + (1 : ℕ)) ≤ 2 ^ ulpExponent q :=
      zpow_le_zpow_right₀ (by norm_num) (by omega)
    rw [two_zpow_add] at h3
    linarith

theorem nearest_mono {p q : ℚ} (h : p ≤ q) : nearest p ≤ nearest q := by
  rcases lt_or_ge 0 p with hp | hp
  · exact nearest_mono_pos hp h
  rcases le_or_gt 0 q with hq | hq
  · have hn := nearest_nonneg (neg_nonneg.2 hp)
    rw [nearest_neg] at hn
    exact (neg_nonneg.1 hn).trans (nearest_nonneg hq)
  · have hn := nearest_mono_pos (neg_pos.2 hq) (neg_le_neg h)
    rw [nearest_neg, nearest_neg] at hn
    exact neg_le_neg_iff.1 hn

/-- No number is rounded past a number of the format. -/
theorem nearest_le {p q : ℚ} (hq : Representable q) (h : p ≤ q) : nearest p ≤ q :=
  (nearest_mono h).trans_eq (nearest_of_representable hq)

theorem le_nearest {p q : ℚ} (hp : Representable p) (h : p ≤ q) : p ≤ nearest q :=
  (nearest_of_representable hp).symm.trans_le (nearest_mono h)

theorem abs_nearest_le {q b : ℚ} (hb : Representable b) (h : |q| ≤ b) : |nearest q| ≤ b := by
  obtain ⟨h1, h2⟩ := abs_le.1 h
  exact abs_le.2 ⟨le_nearest hb.neg h1, nearest_le hb h2⟩

/-- Below `2 ^ 128` the numbers of the format end one last place before it. -/
theorem Representable.abs_le {q : ℚ} (h : Representable q) (hq : |q| < 2 ^ 128) :
    |q| ≤ 2 ^ 128 - 2 ^ 104 := by
  by_cases h0 : q = 0
  · rw [h0]
    norm_num
  have hu : ulpExponent q ≤ 104 := ulpExponent_le h0 (by norm_num) (by norm_num at hq ⊢; exact hq)
  rcases hu.lt_or_eq with hlt | he
  · have hp : (2 : ℚ) ^ ulpExponent q ≤ 2 ^ (103 : ℤ) :=
      zpow_le_zpow_right₀ (by norm_num) (by omega)
    have := abs_lt_ulp q
    norm_num at hp ⊢
    linarith
  · obtain ⟨n, hn⟩ := h.ulp_mul
    have hp : (2 : ℚ) ^ (104 : ℤ) = 2 ^ 104 := by norm_num
    rw [he, hp] at hn
    rw [hn, abs_mul, abs_of_pos (by positivity : (0 : ℚ) < 2 ^ 104)] at hq ⊢
    have hlt : |n| < 2 ^ 24 := by
      have : (|n| : ℚ) < 2 ^ 24 := by linarith
      exact_mod_cast this
    have hle : (|n| : ℚ) ≤ 2 ^ 24 - 1 := by exact_mod_cast Int.le_sub_one_of_lt hlt
    linarith

theorem Representable.exists_int {q : ℚ} (h : Representable q) : ∃ n : ℤ, q = n * 2 ^ (-149 : ℤ) := by
  obtain ⟨m, e, -, he, rfl⟩ := h
  obtain ⟨d, hd⟩ := Int.le.dest he
  refine ⟨m * 2 ^ d, ?_⟩
  rw [← hd, two_zpow_add]
  push_cast
  ring

/-- Two numbers of the format that differ do so by the least of them at least. -/
theorem Representable.le_sub {p q : ℚ} (hp : Representable p) (hq : Representable q) (h : p < q) :
    2 ^ (-149 : ℤ) ≤ q - p := by
  obtain ⟨m, rfl⟩ := hp.exists_int
  obtain ⟨n, rfl⟩ := hq.exists_int
  have hpos : (0 : ℚ) < 2 ^ (-149 : ℤ) := zpow_pos (by norm_num) _
  have hlt : m < n := by exact_mod_cast lt_of_mul_lt_mul_right h hpos.le
  have hle : (m : ℚ) + 1 ≤ n := by exact_mod_cast hlt
  have := mul_le_mul_of_nonneg_right hle hpos.le
  linarith

/-! ## Error -/

theorem abs_nearest_sub_le_ulp (q : ℚ) : |nearest q - q| ≤ 2 ^ ulpExponent q / 2 := by
  have he : nearest q - q =
      -(q / 2 ^ ulpExponent q - roundEven (q / 2 ^ ulpExponent q)) * 2 ^ ulpExponent q := by
    have := (ulp_pos q).ne'
    unfold nearest
    field_simp
    ring
  rw [he, abs_mul, abs_neg, abs_of_pos (ulp_pos q)]
  have := mul_le_mul_of_nonneg_right (isRounded_roundEven (q / 2 ^ ulpExponent q)).near
    (ulp_pos q).le
  linarith

theorem abs_nearest_sub_le {q : ℚ} {k : ℤ} (hk : -125 ≤ k) (h : |q| ≤ 2 ^ k) :
    |nearest q - q| ≤ 2 ^ (k - 25) := by
  have h25 : (2 : ℚ) ^ (k - 25) = 2 ^ (k - 24) / 2 := by
    rw [show k - 24 = k - 25 + 1 by ring, zpow_add_one₀ (by norm_num)]
    ring
  rcases h.lt_or_eq with hlt | he
  · by_cases h0 : q = 0
    · rw [h0]
      simpa using (zpow_pos (by norm_num : (0 : ℚ) < 2) _).le
    have hu : ulpExponent q ≤ k - 24 := by
      refine ulpExponent_le h0 (by omega) ?_
      rw [← two_zpow_add]
      simpa using hlt
    have hp : (2 : ℚ) ^ ulpExponent q ≤ 2 ^ (k - 24) := zpow_le_zpow_right₀ (by norm_num) hu
    have := abs_nearest_sub_le_ulp q
    rw [h25]
    linarith
  · have hr : Representable q := by
      rcases abs_eq (zpow_pos (by norm_num) _).le |>.1 he with h | h <;> rw [h]
      · exact representable_two_zpow (by omega)
      · exact (representable_two_zpow (by omega)).neg
    rw [nearest_of_representable hr, sub_self, abs_zero]
    exact (zpow_pos (by norm_num) _).le

/-- The error in proportion to the number, unless that is too small. -/
theorem abs_nearest_sub_le_rel {q : ℚ} (h : 2 ^ (-126 : ℤ) ≤ |q|) :
    |nearest q - q| ≤ |q| / 2 ^ 24 := by
  have h0 : q ≠ 0 := by
    rintro rfl
    rw [abs_zero] at h
    exact absurd h (not_le.2 (zpow_pos (by norm_num) _))
  have hl : -126 ≤ Int.log 2 |q| :=
    (Int.zpow_le_iff_le_log (by norm_num) (abs_pos.2 h0)).1 (by exact_mod_cast h)
  have hs := Int.zpow_log_le_self (b := 2) (by norm_num) (abs_pos.2 h0)
  have he : ulpExponent q = Int.log 2 |q| - 23 := by
    unfold ulpExponent
    omega
  have hu : (2 : ℚ) ^ 23 * 2 ^ ulpExponent q ≤ |q| := by
    rw [← two_zpow_add, he]
    simpa using hs
  have := abs_nearest_sub_le_ulp q
  rw [le_div_iff₀ (by norm_num)]
  linarith

/-- The error of any number: in proportion to it, and half of the least number. -/
theorem abs_nearest_sub_le_add (q : ℚ) : |nearest q - q| ≤ |q| / 2 ^ 24 + 2 ^ (-150 : ℤ) := by
  have hpos : (0 : ℚ) < 2 ^ (-150 : ℤ) := zpow_pos (by norm_num) _
  rcases le_or_gt (2 ^ (-126 : ℤ)) |q| with h | h
  · linarith [abs_nearest_sub_le_rel h]
  · have hq : |q| ≤ 2 ^ (-125 : ℤ) := h.le.trans (zpow_le_zpow_right₀ (by norm_num) (by norm_num))
    have he := abs_nearest_sub_le le_rfl hq
    rw [show (-125 : ℤ) - 25 = -150 by norm_num] at he
    exact he.trans (le_add_of_nonneg_left (div_nonneg (abs_nonneg q) (by norm_num)))

end BrushlessDrive.Binary32
