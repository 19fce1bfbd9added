import BrushlessDrive.Device
import BrushlessDrive.Proofs.Task.Parameters

/-!
# The time limit of a start

A start adds up the time of its main checks and gives up after its timeout. At the pace of the device the sum
grows by `2 ^ -10` seconds with every check at least, as long as it is less than `2 ^ 15` seconds, and there
it stays: the time of a check is less than half of the last place.
-/

set_option autoImplicit false

namespace BrushlessDrive

open Binary32

theorem Device.val_mainCheckPeriod : mainCheckPeriod.val = 8589935 / 2 ^ 33 := by decide +kernel

theorem Device.isFinite_mainCheckPeriod : mainCheckPeriod.isFinite = true := by rfl

namespace Spinup

/-! ## The clock -/

def clock : ℕ → Scalar
  | 0 => 0
  | n + 1 => clock n + Device.mainCheckPeriod

/-- At `2 ^ 15` the time of a check is 0.256 of the last place. -/
theorem nearest_add_period_stays : nearest (2 ^ 15 + 8589935 / 2 ^ 33) = 2 ^ 15 := by
  have hu : ulpExponent (2 ^ 15 + 8589935 / 2 ^ 33) = -8 := by
    rw [ulpExponent_eq (k := 15)] <;> norm_num
  have hr : IsRounded ((2 ^ 15 + 8589935 / 2 ^ 33) / 2 ^ (-8 : ℤ)) (2 ^ 23) :=
    .of_abs_lt (by norm_num)
  rw [nearest, hu, roundEven_eq hr]
  norm_num

/-- From `2 ^ 14` on the time of a check is 0.512 of the last place. -/
theorem nearest_add_period_grows {m : ℕ} (hlo : 2 ^ 23 ≤ m) (hhi : m < 2 ^ 24) :
    nearest (m / 2 ^ 9 + 8589935 / 2 ^ 33) = (m + 1) / 2 ^ 9 := by
  have hlo' : (2 : ℚ) ^ 23 ≤ m := by exact_mod_cast hlo
  have hhi' : (m : ℚ) + 1 ≤ 2 ^ 24 := by exact_mod_cast hhi
  have hu : ulpExponent (m / 2 ^ 9 + 8589935 / 2 ^ 33) = -9 := by
    rw [ulpExponent_eq (k := 14)]
    · norm_num
    · rw [abs_of_nonneg (by positivity)]
      norm_num
      linarith
    · rw [abs_of_nonneg (by positivity)]
      norm_num
      linarith
  have hr : IsRounded ((m / 2 ^ 9 + 8589935 / 2 ^ 33) / 2 ^ (-9 : ℤ)) (m + 1) := by
    refine .of_abs_lt ?_
    rw [abs_lt]
    push_cast
    constructor <;> norm_num <;> linarith
  rw [nearest, hu, roundEven_eq hr]
  push_cast
  norm_num
  ring

theorem representable_div_two_pow {n : ℕ} (h : n ≤ 2 ^ 24) {k : ℕ} (hk : k ≤ 149) :
    Representable (n / 2 ^ k) := by
  rw [div_eq_mul_inv, ← zpow_natCast, ← zpow_neg]
  rcases h.lt_or_eq with hlt | rfl
  · exact ⟨n, -k, by rw [Nat.abs_cast]; exact_mod_cast hlt, by omega, by push_cast; ring⟩
  · refine ⟨2 ^ 23, -k + 1, by norm_num, by omega, ?_⟩
    rw [zpow_add_one₀ (by norm_num)]
    push_cast
    ring

theorem tick_le_nearest {n : ℕ} (hn : n < 2 ^ 25) {q : ℚ} (hq : n / 2 ^ 10 ≤ q) :
    ((n + 1 : ℕ) : ℚ) / 2 ^ 10 ≤ nearest (q + 8589935 / 2 ^ 33) := by
  have hle : ((n + 1 : ℕ) : ℚ) / 2 ^ 10 ≤ q + 8589935 / 2 ^ 33 := by
    push_cast
    linarith
  rcases le_or_gt (n + 1) (2 ^ 24) with h | h
  · exact le_nearest (representable_div_two_pow h (by norm_num)) hle
  obtain ⟨m, rfl | rfl⟩ := n.even_or_odd'
  · -- the number of ticks after the check has a bit too many, but the next greater one does not
    have hm : ((2 * m : ℕ) : ℚ) / 2 ^ 10 = m / 2 ^ 9 := by
      push_cast
      ring
    rw [hm] at hq
    calc ((2 * m + 1 : ℕ) : ℚ) / 2 ^ 10
      _ ≤ (m + 1) / 2 ^ 9 := by push_cast; linarith
      _ = nearest (m / 2 ^ 9 + 8589935 / 2 ^ 33) :=
        (nearest_add_period_grows (by omega) (by omega)).symm
      _ ≤ nearest (q + 8589935 / 2 ^ 33) := nearest_mono (by linarith)
  · have hm : ((2 * m + 1 + 1 : ℕ) : ℚ) / 2 ^ 10 = (m + 1 : ℕ) / 2 ^ 9 := by
      push_cast
      ring
    rw [hm] at hle ⊢
    exact le_nearest (representable_div_two_pow (by omega) (by norm_num)) hle

theorem add_period_spec {x : Scalar} (hf : x.isFinite = true) (h0 : 0 ≤ x.val) (h : x.val ≤ 2 ^ 15) :
    (x + Device.mainCheckPeriod).isFinite = true ∧
      (x + Device.mainCheckPeriod).val = nearest (x.val + 8589935 / 2 ^ 33) := by
  have hn := Scalar.isNearest_add hf Device.isFinite_mainCheckPeriod
  rw [Device.val_mainCheckPeriod] at hn
  refine hn.isFinite ?_
  rw [abs_of_nonneg (by linarith)]
  linarith

theorem clock_bounds (n : ℕ) :
    (clock n).isFinite = true ∧ 0 ≤ (clock n).val ∧ (clock n).val ≤ 2 ^ 15 := by
  induction n with
  | zero => exact ⟨Scalar.isFinite_zero, le_rfl, by norm_num [clock]⟩
  | succ n ih =>
    obtain ⟨hf, h0, h15⟩ := ih
    obtain ⟨hf', hv⟩ := add_period_spec hf h0 h15
    rw [clock, hv]
    refine ⟨hf', nearest_nonneg (by linarith), ?_⟩
    rw [← nearest_add_period_stays]
    exact nearest_mono (by linarith)

theorem le_clock {n : ℕ} (h : n ≤ 2 ^ 25) : (n : ℚ) / 2 ^ 10 ≤ (clock n).val := by
  induction n with
  | zero => norm_num [clock]
  | succ n ih =>
    obtain ⟨hf, h0, h15⟩ := clock_bounds n
    rw [clock, (add_period_spec hf h0 h15).2]
    exact tick_le_nearest h (ih (by omega))

theorem lt_clock_iff {timeout : Scalar} (h : Scalar.isPositive timeout = true) {n : ℕ} :
    timeout < clock n ↔ timeout.val < (clock n).val :=
  Scalar.lt_iff (Scalar.isNaN_of_isFinite (Scalar.isPositive_iff.1 h).2)
    (Scalar.isNaN_of_isFinite (clock_bounds n).1)

/-! ## Runs at the pace of the device -/

/-- A PWM period, or a main check of the device that finds the power good. -/
def OnPace : Task.Event → Prop
  | .pwm _ _ => True
  | .check p s => p = Device.mainCheckPeriod ∧ s.powerOk = true

/-- Of the first `n` main checks of every run at the pace of the device one finds an end. -/
def EndsWithin (c : Context) (n : ℕ) : Prop :=
  ∀ es : List Task.Event, (∀ e ∈ es, OnPace e) → n ≤ es.countP (fun e => !e.isPwm) →
    ∃ r ∈ ((Task.spinup (make c)).results es).take n, r.isTerminal = true

/-- A bound of the checks that a start has left before the one that finds an end. -/
structure Countdown (left : ℕ → Spinup → Prop) : Prop where
  advance : ∀ {n t}, left n t → ∀ i v, left n (t.advance i v)
  check : ∀ {n t s}, s.powerOk = true → left (n + 1) t →
    left n (t.mainCheck Device.mainCheckPeriod s).2
  last : ∀ {t s}, s.powerOk = true → left 0 t →
    (t.mainCheck Device.mainCheckPeriod s).1.isTerminal = true

theorem Countdown.exists_terminal {left : ℕ → Spinup → Prop} (hl : Countdown left) {n : ℕ} {t : Spinup}
    (ht : left n t) {es : List Task.Event} (hes : ∀ e ∈ es, OnPace e)
    (hn : n + 1 ≤ es.countP fun e => !e.isPwm) :
    ∃ r ∈ ((Task.spinup t).results es).take (n + 1), r.isTerminal = true := by
  induction es generalizing n t with
  | nil => simp at hn
  | cons e es ih =>
    rw [List.forall_mem_cons] at hes
    cases e with
    | pwm i v => exact ih (hl.advance ht i v) hes.2 (by simpa [Task.Event.isPwm] using hn)
    | check p s =>
      obtain ⟨⟨rfl, hs⟩, hes⟩ := hes
      rw [Task.results_check, List.take_succ_cons]
      cases n with
      | zero => exact ⟨_, List.mem_cons_self, hl.last hs ht⟩
      | succ n =>
        have hn' : n + 1 ≤ es.countP fun e => !e.isPwm := by simpa [Task.Event.isPwm] using hn
        obtain ⟨r, hr, hterm⟩ := ih (hl.check hs ht) hes hn'
        exact ⟨r, List.mem_cons_of_mem _ hr, hterm⟩

theorem endsWithin_of_countdown {left : ℕ → Spinup → Prop} (hl : Countdown left) {c : Context} {n : ℕ}
    (h : left n (make c)) : EndsWithin c (n + 1) :=
  fun _ hes hn => hl.exists_terminal h hes hn

/-! ## Starts that end -/

/-- The clock has passed the timeout when the checks that are left are done. -/
def Expiring (timeout : Scalar) (n : ℕ) (t : Spinup) : Prop :=
  t.context.config.controller.spinupTimeout = timeout ∧
    ∃ k, t.elapsed = clock k ∧ timeout < clock (k + n + 1)

theorem countdown_expiring (timeout : Scalar) : Countdown (Expiring timeout) where
  advance h _ _ := h
  check _ := by
    rintro ⟨hc, k, hk, hlt⟩
    refine ⟨hc, k + 1, congrArg (· + Device.mainCheckPeriod) hk, ?_⟩
    rwa [Nat.add_right_comm k 1]
  last {t s} _ := by
    rintro ⟨rfl, k, hk, hlt⟩
    rw [CheckResult.isTerminal_iff, Ne, mainCheck_eq_inProgress_iff, hk]
    rintro ⟨-, -, hn, -⟩
    exact hn hlt

/-- The target is zero, and a velocity is never less. -/
theorem countdown_of_target : Countdown fun _ t => t.Ramped ∧ ¬ 0 < t.targetVelocity where
  advance h i v := ⟨ramped_advance h.1 i v, h.2⟩
  check {n t s} _ h := ⟨ramped_next h.1 (.check _ s), h.2⟩
  last {t s} hs h := by
    obtain ⟨hr, h0⟩ := h
    have hn := (Scalar.isNaN_of_le hr.le).2
    have hle := Scalar.le_trans ((Scalar.le_iff_not_lt hn rfl).2 h0) hr.nonneg
    rw [CheckResult.isTerminal_iff, (t.mainCheck_eq_success_iff _ s).2 ⟨hs, hle⟩]
    exact CheckResult.noConfusion

section
variable {c : Context}

theorem endsWithin_of_timeout_lt (h : c.config.controller.spinupTimeout.val < 2 ^ 15) :
    EndsWithin c (⌊c.config.controller.spinupTimeout.val * 2 ^ 10⌋₊ + 1) := by
  obtain ⟨-, -, -, ht, -⟩ := c.start_valid
  refine endsWithin_of_countdown (countdown_expiring _) ⟨rfl, 0, rfl, (lt_clock_iff ht).2 ?_⟩
  generalize c.config.controller.spinupTimeout.val = timeout at *
  have hn : ⌊timeout * 2 ^ 10⌋₊ < 2 ^ 25 := by
    refine (Nat.floor_lt' (by norm_num)).2 ?_
    norm_num at h ⊢
    linarith
  rw [Nat.zero_add]
  refine lt_of_lt_of_le ?_ (le_clock hn)
  rw [lt_div_iff₀ (by norm_num)]
  push_cast
  exact Nat.lt_floor_add_one _

theorem endsWithin_of_target_lt (h : c.config.controller.spinupTarget.val < 5 * 2 ^ (-149 : ℤ)) :
    EndsWithin c 1 := by
  obtain ⟨-, -, ht, -, hp⟩ := c.start_valid
  rw [← not_le, ← pos_electricalVelocity_iff hp ht] at h
  exact endsWithin_of_countdown countdown_of_target ⟨ramped_make c, h⟩

/-! ## Starts that wait for ever -/

/-- Without a PWM period a start has nothing but its timeout to end it. -/
theorem results_of_late {t : Spinup} {k : ℕ} (hk : t.elapsed = clock k) (hb : t.lastBus = none)
    (hv : ¬ t.targetVelocity ≤ t.velocity)
    (hlate : ∀ k, ¬ t.context.config.controller.spinupTimeout < clock k) {s : PowerStatus}
    (hs : s.powerOk = true) (n : ℕ) :
    (Task.spinup t).results (.replicate n (.check Device.mainCheckPeriod s)) =
      .replicate n .inProgress := by
  induction n generalizing t k with
  | zero => rfl
  | succ n ih =>
    have hk' : t.elapsed + Device.mainCheckPeriod = clock (k + 1) := by rw [hk, clock]
    have hr : (t.mainCheck Device.mainCheckPeriod s).1 = .inProgress := by
      rw [mainCheck_eq_inProgress_iff, hk']
      exact ⟨hs, hv, hlate _, isBusLow_of_lastBus hb⟩
    rw [List.replicate_succ, List.replicate_succ, Task.results_check]
    exact congrArg₂ _ hr (ih (t := (t.mainCheck _ s).2) hk' hb hv hlate)

theorem not_endsWithin (ht : 2 ^ 15 ≤ c.config.controller.spinupTimeout.val)
    (hv : 5 * 2 ^ (-149 : ℤ) ≤ c.config.controller.spinupTarget.val) (n : ℕ) : ¬ EndsWithin c n := by
  obtain ⟨-, -, htarget, htime, hp⟩ := c.start_valid
  rw [← pos_electricalVelocity_iff hp htarget] at hv
  intro h
  have hrun := results_of_late (t := make c) (k := 0) rfl rfl
    ((Scalar.lt_iff_not_le (Scalar.isNaN_of_lt hv).1 (Scalar.isNaN_of_lt hv).2).1 hv)
    (fun k hlt => ((clock_bounds k).2.2.trans ht).not_gt ((lt_clock_iff htime).1 hlt))
    (s := ⟨true, 24⟩) rfl n
  have hpace : ∀ e ∈ List.replicate n (Task.Event.check Device.mainCheckPeriod ⟨true, 24⟩), OnPace e := by
    intro e he
    rw [List.eq_of_mem_replicate he]
    exact ⟨rfl, rfl⟩
  obtain ⟨r, hr, hterm⟩ := h _ hpace (by simp [List.countP_replicate, Task.Event.isPwm])
  rw [hrun] at hr
  rw [List.eq_of_mem_replicate (List.mem_of_mem_take hr)] at hterm
  cases hterm

/-- **The time limit of a start** that is checked at the pace of the device, with good power: there is one
exactly if the timeout is less than `2 ^ 15` seconds, or the target less than the fifth number above zero. -/
theorem time_box (c : Context) :
    let timeout := c.config.controller.spinupTimeout.val
    let target := c.config.controller.spinupTarget.val
    (timeout < 2 ^ 15 → EndsWithin c (⌊timeout * 2 ^ 10⌋₊ + 1)) ∧
    (target < 5 * 2 ^ (-149 : ℤ) → EndsWithin c 1) ∧
    ((∃ n, EndsWithin c n) ↔ timeout < 2 ^ 15 ∨ target < 5 * 2 ^ (-149 : ℤ)) := by
  refine ⟨endsWithin_of_timeout_lt, endsWithin_of_target_lt, fun ⟨n, hn⟩ => ?_, fun h => ?_⟩
  · by_contra hcon
    rw [not_or, not_lt, not_lt] at hcon
    exact not_endsWithin hcon.1 hcon.2 n hn
  · rcases h with h | h
    · exact ⟨_, endsWithin_of_timeout_lt h⟩
    · exact ⟨_, endsWithin_of_target_lt h⟩

end

/-- A limit of nine hours and six minutes, which is never reached. -/
theorem not_endsWithin_of_long_timeout :
    let c : Context := ⟨{ controller := { spinupTimeout := 32768 } }, ⟨.ofParams {}, .current⟩, rfl,
      PwmTiming.period_default_pos⟩
    ∀ n, ¬ EndsWithin c n := by
  intro c
  refine not_endsWithin ?_ ?_
  · decide +kernel
  · decide +kernel

end Spinup

end BrushlessDrive
