import BrushlessDrive.Proofs.Interval
import BrushlessDrive.Proofs.Task.Run
import Mathlib.Logic.Function.Iterate
import Mathlib.Tactic.IntervalCases

/-!
# The run of a beep

Main checks leave a beep as it is, so a run of one is given by the number of its PWM periods
(`Beep.after`). What a period can do is one of three things (`Beep.pwmPeriod_cases`): nothing any more,
a pulse, or a pause.
-/

set_option autoImplicit false

namespace BrushlessDrive

/-- The phase that carries a pulse, if one does. -/
def Output.pulsed (o : Output) : Option Phase :=
  Phase.all.find? fun p => o.phases == (Phases.uniform 0).set p 1

theorem Output.pulsed_pulse (p : Phase) : (Output.pulse p).pulsed = some p := by
  cases p <;> decide +kernel

theorem Output.pulsed_zeroActive : Output.zeroActive.pulsed = none := by decide +kernel

theorem Output.pulsed_inactive : Output.inactive.pulsed = none := by decide +kernel

namespace Beep

def after (t : Beep) (n : ℕ) : Beep := (fun u : Beep => u.pwmPeriod.2)^[n] t

@[simp] theorem after_zero (t : Beep) : t.after 0 = t := rfl

theorem after_succ (t : Beep) (n : ℕ) : t.after (n + 1) = (t.after n).pwmPeriod.2 :=
  Function.iterate_succ_apply' _ n t

theorem after_succ' (t : Beep) (n : ℕ) : t.after (n + 1) = t.pwmPeriod.2.after n := rfl

def firstOutputs (t : Beep) (n : ℕ) : List Output :=
  (List.range n).map fun k => (t.after k).pwmPeriod.1

theorem firstOutputs_succ (t : Beep) (n : ℕ) :
    t.firstOutputs (n + 1) = t.firstOutputs n ++ [(t.after n).pwmPeriod.1] := by
  simp [firstOutputs, List.range_succ]

theorem firstOutputs_succ' (t : Beep) (n : ℕ) :
    t.firstOutputs (n + 1) = t.pwmPeriod.1 :: t.pwmPeriod.2.firstOutputs n := by
  rw [firstOutputs, List.range_succ_eq_map, List.map_cons, List.map_map]
  rfl

end Beep

namespace Task

theorem run_beep (t : Beep) (es : List Event) :
    ((beep t).run es).2 = .beep (t.after (es.countP Event.isPwm)) := by
  induction es generalizing t with
  | nil => rfl
  | cons e es ih =>
    cases e with
    | pwm i v =>
      rw [List.countP_cons_of_pos rfl, Beep.after_succ']
      exact ih t.pwmPeriod.2
    | check p s =>
      rw [List.countP_cons_of_neg Bool.false_ne_true]
      exact ih t

theorem outputs_beep (t : Beep) (es : List Event) :
    (beep t).outputs es = t.firstOutputs (es.countP Event.isPwm) := by
  induction es generalizing t with
  | nil => rfl
  | cons e es ih =>
    cases e with
    | pwm i v =>
      rw [List.countP_cons_of_pos rfl, Beep.firstOutputs_succ']
      exact congrArg (t.pwmPeriod.1 :: ·) (ih t.pwmPeriod.2)
    | check p s =>
      rw [List.countP_cons_of_neg Bool.false_ne_true]
      exact ih t

end Task

namespace Beep

theorem pwmPeriod_cases (t : Beep) :
    (t.remaining < 0 ∧ t.pwmPeriod = (.inactive, t)) ∨
    (¬ t.remaining < 0 ∧
      let u := { t with
        remaining := t.remaining - t.context.board.pwm.period
        untilPulse := t.untilPulse - t.context.board.pwm.period }
      (u.untilPulse ≤ 0 ∧ t.pwmPeriod = (.pulse (pulsePhase t.pulses),
        { u with untilPulse := u.untilPulse + t.excitationPeriod, pulses := t.pulses + 1 })) ∨
      (¬ u.untilPulse ≤ 0 ∧ t.pwmPeriod = (.zeroActive, u))) := by
  unfold pwmPeriod
  split
  · rename_i h
    exact .inl ⟨h, rfl⟩
  rename_i h
  refine .inr ⟨h, ?_⟩
  dsimp only
  split
  · rename_i hu
    exact .inl ⟨hu, rfl⟩
  · rename_i hu
    exact .inr ⟨hu, rfl⟩

/-! ## Release -/

theorem pwmPeriod_of_released {t : Beep} (h : t.remaining < 0) : t.pwmPeriod = (.inactive, t) :=
  if_pos h

theorem released_of_inactive {t : Beep} (h : t.pwmPeriod.1 = .inactive) : t.remaining < 0 := by
  obtain ⟨hr, -⟩ | ⟨-, ⟨-, he⟩ | ⟨-, he⟩⟩ := t.pwmPeriod_cases
  · exact hr
  · rw [he] at h
    exact absurd (congrArg Output.driverActive h) (by simp [Output.pulse, Output.inactive])
  · rw [he] at h
    exact absurd (congrArg Output.driverActive h) (by simp [Output.zeroActive, Output.inactive])

theorem driverActive_of_not_released {t : Beep} (h : ¬ t.remaining < 0) :
    t.pwmPeriod.1.driverActive = true := by
  obtain ⟨hr, -⟩ | ⟨-, ⟨-, he⟩ | ⟨-, he⟩⟩ := t.pwmPeriod_cases
  · exact absurd hr h
  · rw [he]
    rfl
  · rw [he]
    rfl

theorem after_of_released {t : Beep} (h : t.remaining < 0) (n : ℕ) : t.after n = t :=
  Function.iterate_fixed (congrArg Prod.snd (pwmPeriod_of_released h)) n

theorem after_add (t : Beep) (m n : ℕ) : t.after (m + n) = (t.after m).after n := by
  rw [Nat.add_comm]
  exact Function.iterate_add_apply _ n m t

theorem released_of_mem {t : Beep} {n : ℕ} (h : .inactive ∈ t.firstOutputs n) :
    (t.after n).remaining < 0 := by
  obtain ⟨k, hk, he⟩ := List.mem_map.1 h
  have hr := released_of_inactive he
  obtain ⟨m, rfl⟩ := Nat.exists_eq_add_of_le (List.mem_range.1 hk).le
  rwa [after_add, after_of_released hr]

/-- A run that has put out a released period ends in a released beep, however it goes on. -/
theorem run_of_inactive_mem {t : Beep} {es : List Task.Event}
    (h : .inactive ∈ (Task.beep t).outputs es) (fs : List Task.Event) :
    ∃ u : Beep, u.remaining < 0 ∧ ((Task.beep t).run (es ++ fs)).2 = .beep u := by
  rw [Task.outputs_beep] at h
  have hr := released_of_mem h
  refine ⟨_, hr, ?_⟩
  rw [Task.run_beep, List.countP_append, after_add, after_of_released hr]

theorem mainCheck_of_released {t : Beep} (h : t.remaining < 0) {s : PowerStatus}
    (hs : s.powerOk = true) : t.mainCheck s = .success := by
  simp [mainCheck, hs, Scalar.le_of_lt h]

/-! ## Pulses -/

theorem phases_of_mem {t : Beep} {n : ℕ} {o : Output} (h : o ∈ t.firstOutputs n)
    (hd : o.driverActive = true) : o.phases = .uniform 0 ∨
      ∃ q, o.phases.get q = 1 ∧ ∀ q', q' ≠ q → o.phases.get q' = 0 := by
  obtain ⟨k, -, rfl⟩ := List.mem_map.1 h
  obtain ⟨-, he⟩ | ⟨-, ⟨-, he⟩ | ⟨-, he⟩⟩ := (t.after k).pwmPeriod_cases <;> rw [he] at hd ⊢
  · cases hd
  · refine .inr ⟨pulsePhase (t.after k).pulses, ?_, fun q' hq => ?_⟩
    · simp [Output.pulse]
    · simp [Output.pulse, hq]
  · exact .inl rfl

theorem getElem?_all_pulsePhase (n : UInt32) : Phase.all[n.toNat % 3]? = some (pulsePhase n) := by
  have hn : (n % 3).toNat = n.toNat % 3 := UInt32.toNat_mod n 3
  have hlt : n.toNat % 3 < 3 := Nat.mod_lt _ (by norm_num)
  unfold pulsePhase
  generalize n.toNat % 3 = k at *
  generalize n % 3 = r at *
  interval_cases k
  · obtain rfl : r = 0 := UInt32.toNat_inj.1 hn
    rfl
  · obtain rfl : r = 1 := UInt32.toNat_inj.1 hn
    rfl
  · obtain rfl : r = 2 := UInt32.toNat_inj.1 hn
    rfl

theorem exists_pulses (t : Beep) (n : ℕ) :
    ∃ m : ℕ, (t.after n).pulses = t.pulses + .ofNat m ∧
      (t.firstOutputs n).filterMap Output.pulsed =
        (List.range m).map fun k => pulsePhase (t.pulses + .ofNat k) := by
  induction n with
  | zero => exact ⟨0, by simp, rfl⟩
  | succ n ih =>
    obtain ⟨m, hp, ho⟩ := ih
    rw [after_succ, firstOutputs_succ, List.filterMap_append, ho]
    obtain ⟨-, he⟩ | ⟨-, ⟨-, he⟩ | ⟨-, he⟩⟩ := (t.after n).pwmPeriod_cases
    · exact ⟨m, by rw [he, hp], by simp [he, Output.pulsed_inactive]⟩
    · refine ⟨m + 1, ?_, ?_⟩
      · simp [he, hp, UInt32.ofNat_add, UInt32.add_assoc]
      · simp [he, hp, Output.pulsed_pulse, List.range_succ]
    · exact ⟨m, by rw [he]; exact hp, by simp [he, Output.pulsed_zeroActive]⟩

/-- The pulses from the first one on, as far as the counter has not come round to zero again. -/
theorem phase_of_pulse {t : Beep} (h0 : t.pulses = 0) {n k : ℕ} {q : Phase} (hk : k < 2 ^ 32)
    (hq : ((t.firstOutputs n).filterMap Output.pulsed)[k]? = some q) :
    Phase.all[k % 3]? = some q := by
  obtain ⟨m, -, hm⟩ := t.exists_pulses n
  rw [hm, List.getElem?_map, Option.map_eq_some_iff] at hq
  obtain ⟨j, hj, rfl⟩ := hq
  obtain ⟨-, rfl⟩ := List.getElem?_eq_some_iff.1 hj
  have hn : (t.pulses + UInt32.ofNat k).toNat = k := by
    rw [h0, UInt32.zero_add, UInt32.toNat_ofNat_of_lt' hk]
  have hall := getElem?_all_pulsePhase (t.pulses + .ofNat k)
  rw [hn] at hall
  rwa [List.getElem_range]

/-! ## The time to the next pulse -/

/-- The time to the next pulse is between now and the time from one pulse to the next. -/
structure OnTime (t : Beep) : Prop where
  nonneg : 0 ≤ t.untilPulse
  le : t.untilPulse ≤ t.excitationPeriod

/-- What is left of a time `u` within `e` after `p`, where `e` is added if nothing is left. -/
theorem countdown_step {u p e : Scalar} (hp : 0 < p) (hpe : p ≤ e) (he : e.isFinite = true)
    (hu : 0 ≤ u) (hue : u ≤ e) :
    (u - p ≤ 0 → 0 ≤ u - p + e ∧ u - p + e ≤ e) ∧ (¬ u - p ≤ 0 → 0 ≤ u - p ∧ u - p ≤ e) := by
  have hpf := Scalar.isFinite_of_le_of_le Scalar.isFinite_zero he (Scalar.le_of_lt hp) hpe
  have huf := Scalar.isFinite_of_le_of_le Scalar.isFinite_zero he hu hue
  have hun := Scalar.isNaN_of_isFinite huf
  have hen := Scalar.isNaN_of_isFinite he
  have hp0 := Scalar.val_pos hp
  rw [Scalar.le_iff (Scalar.isNaN_of_lt hp).2 hen] at hpe
  rw [Scalar.nonneg_iff hun] at hu
  -- the rounded difference is within `e` of zero on either side
  have hd := Scalar.isNearest_sub huf hpf
  obtain ⟨hef, hev⟩ := Scalar.neg_spec he
  have hlo : -e ≤ u - p := hd.ge (Scalar.isNaN_of_isFinite hef) (by linarith)
  have hhi : u - p ≤ u := hd.le hun (by linarith)
  constructor
  · intro h
    have hdf := Scalar.isFinite_of_le_of_le hef Scalar.isFinite_zero hlo h
    have hs := Scalar.isNearest_add hdf he
    rw [Scalar.le_iff (Scalar.isNaN_of_isFinite hef) hd.not_nan, hev] at hlo
    rw [Scalar.le_iff hd.not_nan rfl, Scalar.val_zero] at h
    exact ⟨hs.nonneg (by linarith), hs.le hen (by linarith)⟩
  · intro h
    rw [← Scalar.lt_iff_not_le rfl hd.not_nan] at h
    exact ⟨Scalar.le_of_lt h, Scalar.le_trans hhi hue⟩

@[simp] theorem excitationPeriod_pwmPeriod (t : Beep) :
    t.pwmPeriod.2.excitationPeriod = t.excitationPeriod := by
  obtain ⟨-, he⟩ | ⟨-, ⟨-, he⟩ | ⟨-, he⟩⟩ := t.pwmPeriod_cases <;> rw [he]

@[simp] theorem excitationPeriod_after (t : Beep) (n : ℕ) :
    (t.after n).excitationPeriod = t.excitationPeriod := by
  induction n with
  | zero => rfl
  | succ n ih => rw [after_succ, excitationPeriod_pwmPeriod, ih]

@[simp] theorem context_after (t : Beep) (n : ℕ) : (t.after n).context = t.context := by
  induction n with
  | zero => rfl
  | succ n ih => rw [after_succ, context_pwmPeriod, ih]

theorem onTime_pwmPeriod {t : Beep} (h : t.OnTime) (hf : t.excitationPeriod.isFinite = true)
    (hp : t.context.board.pwm.period ≤ t.excitationPeriod) : t.pwmPeriod.2.OnTime := by
  obtain ⟨hpulse, hpause⟩ := countdown_step t.context.period_pos hp hf h.nonneg h.le
  obtain ⟨-, he⟩ | ⟨-, ⟨hu, he⟩ | ⟨hu, he⟩⟩ := t.pwmPeriod_cases <;> rw [he]
  · exact h
  · exact ⟨(hpulse hu).1, (hpulse hu).2⟩
  · exact ⟨(hpause hu).1, (hpause hu).2⟩

theorem onTime_after {t : Beep} (h : t.OnTime) (hf : t.excitationPeriod.isFinite = true)
    (hp : t.context.board.pwm.period ≤ t.excitationPeriod) (n : ℕ) : (t.after n).OnTime := by
  induction n with
  | zero => exact h
  | succ n ih =>
    rw [after_succ]
    exact onTime_pwmPeriod ih (by simpa using hf) (by simpa using hp)

/-! ## A beep from its beginning -/

section

variable (context : Context) (frequency duration : Scalar)

theorem remaining_make : ¬ (make context frequency duration).remaining < 0 := by
  obtain ⟨h, -⟩ := Interval.constrain_between (r := durationLimits) (by decide +kernel) duration
  exact (Scalar.le_iff_not_lt rfl (Scalar.isNaN_of_le h).2).1 h

/-- The time from one pulse to the next is the rounded inverse of a frequency of 100 Hz at least. -/
theorem isNearest_excitationPeriod : ∃ f : ℚ, 100 ≤ f ∧
    Scalar.IsNearest (make context frequency duration).excitationPeriod (1 / f) := by
  have hle : frequencyLimits.lo ≤ frequencyLimits.hi := by decide +kernel
  have hlo := (Interval.constrain_between hle frequency).1
  have hf := Interval.isFinite_constrain (r := frequencyLimits) (by rfl) (by rfl) hle frequency
  have h100 : Scalar.val frequencyLimits.lo = 100 := by decide +kernel
  have hv : 100 ≤ (frequencyLimits.constrain frequency).val := by
    rw [← h100]
    exact (Scalar.le_iff rfl (Scalar.isNaN_of_isFinite hf)).1 hlo
  refine ⟨_, hv, ?_⟩
  rw [← Scalar.val_one]
  exact Scalar.isNearest_div Scalar.isFinite_one hf (by linarith)

theorem isFinite_excitationPeriod :
    (make context frequency duration).excitationPeriod.isFinite = true := by
  obtain ⟨f, hf, hn⟩ := isNearest_excitationPeriod context frequency duration
  refine (hn.isFinite ?_).1
  have h1 : 1 / f ≤ 1 := (div_le_one (by linarith)).2 (by linarith)
  rw [abs_of_nonneg (by positivity)]
  linarith

theorem onTime_make : (make context frequency duration).OnTime := by
  obtain ⟨f, hf, hn⟩ := isNearest_excitationPeriod context frequency duration
  exact ⟨hn.nonneg (by positivity), Scalar.le_refl hn.not_nan⟩

end

/-- **The law of the beep**, from its beginning and with whatever frequency and duration were asked for: it
drives at first, is released for good, and its pulses go round the phases, each for a whole period. -/
theorem tone_law (context : Context) (frequency duration : Scalar) :
    let b := make context frequency duration
    let t := Task.beep b
    (∀ es o, (t.outputs es).head? = some o → o.driverActive = true) ∧
    (∀ es, .inactive ∈ t.outputs es → ∀ fs, let u := (t.run (es ++ fs)).2
      (∀ i v, (u.pwmPeriod i v).1 = .inactive) ∧
        ∀ p s, s.powerOk = true → (u.mainCheck p s).1 = .success) ∧
    (∀ es, ∀ o ∈ t.outputs es, o.driverActive = true → o.phases = .uniform 0 ∨
      ∃ q, o.phases.get q = 1 ∧ ∀ q', q' ≠ q → o.phases.get q' = 0) ∧
    (∀ es k q, k < 2 ^ 32 → ((t.outputs es).filterMap Output.pulsed)[k]? = some q →
      Phase.all[k % 3]? = some q) ∧
    (context.board.pwm.period ≤ b.excitationPeriod → ∀ es, ∃ u : Beep, (t.run es).2 = .beep u ∧
      0 ≤ u.untilPulse ∧ u.untilPulse ≤ b.excitationPeriod) := by
  intro b t
  refine ⟨fun es o ho => ?_, fun es hes fs => ?_, fun es o ho hd => ?_, fun es k q hk hq => ?_,
    fun hp es => ?_⟩
  · rw [Task.outputs_beep] at ho
    cases hn : es.countP Task.Event.isPwm with
    | zero => simp [hn, firstOutputs] at ho
    | succ n =>
      rw [hn, firstOutputs_succ', List.head?_cons, Option.some_inj] at ho
      rw [← ho]
      exact driverActive_of_not_released (remaining_make context frequency duration)
  · obtain ⟨u, hr, hu⟩ := run_of_inactive_mem hes fs
    dsimp only
    rw [hu]
    exact ⟨fun _ _ => congrArg Prod.fst (pwmPeriod_of_released hr),
      fun _ _ hs => mainCheck_of_released hr hs⟩
  · rw [Task.outputs_beep] at ho
    exact phases_of_mem ho hd
  · rw [Task.outputs_beep] at hq
    exact phase_of_pulse rfl hk hq
  · rw [Task.run_beep]
    have h := onTime_after (onTime_make context frequency duration)
      (isFinite_excitationPeriod context frequency duration) hp (es.countP Task.Event.isPwm)
    refine ⟨_, rfl, h.nonneg, ?_⟩
    have hle := h.le
    rwa [excitationPeriod_after] at hle

end Beep

end BrushlessDrive
