import BrushlessDrive.Runner

/-!
# One call of a task, one call of the runner

An idle task goes on and never drives, so a task that ends is not an idle one; every other task fails at once
when the power is bad.
-/

set_option autoImplicit false

namespace BrushlessDrive

namespace Task

variable {t : Task}

theorem mainCheck_of_idle (h : t.kind = .idle) (p : Scalar) (s : PowerStatus) :
    (t.mainCheck p s).1 = .inProgress := by
  cases t with
  | idle c => rfl
  | beep t => cases h
  | spinup t => cases h

theorem kind_ne_idle {p : Scalar} {s : PowerStatus} (h : (t.mainCheck p s).1.isTerminal = true) :
    t.kind ≠ .idle := by
  intro hk
  rw [mainCheck_of_idle hk] at h
  cases h

theorem pwmPeriod_of_idle (h : t.kind = .idle) (i : PhasePair Scalar) (v : Scalar) :
    (t.pwmPeriod i v).1 = .inactive := by
  cases t with
  | idle c => rfl
  | beep t => cases h
  | spinup t => cases h

theorem mainCheck_of_badPower (h : t.kind ≠ .idle) (p : Scalar) {s : PowerStatus}
    (hs : s.powerOk = false) : (t.mainCheck p s).1 = .failure .badPower := by
  cases t with
  | idle c => exact absurd rfl h
  | beep t => simp [mainCheck, Beep.mainCheck, hs]
  | spinup t => simp [mainCheck, Spinup.mainCheck, Spinup.outcome, hs]

end Task

namespace Runner

theorem isIdle_of_activeKind {r : Runner} (h : r.activeKind = some .idle) : r.isIdle = true := by
  simp [isIdle, h]

theorem isIdle_congr {r r' : Runner} (h : r.activeKind = r'.activeKind) : r.isIdle = r'.isIdle := by
  simp [isIdle, h]

@[simp] theorem activeKind_pwmPeriod (r : Runner) (i : PhasePair Scalar) (v : Scalar) :
    (r.pwmPeriod i v).2.activeKind = r.activeKind := by
  unfold pwmPeriod
  cases h : r.active <;> simp [activeKind, h]

@[simp] theorem taskFailures_pwmPeriod (r : Runner) (i : PhasePair Scalar) (v : Scalar) :
    (r.pwmPeriod i v).2.taskFailures = r.taskFailures := by
  unfold pwmPeriod
  cases r.active <;> rfl

theorem mainCheck_cases (r : Runner) (p : Scalar) (s : PowerStatus) :
    (r.active = none ∧ r.mainCheck p s = (none, r)) ∨
    ∃ t, r.active = some t ∧
      (((t.mainCheck p s).1 = .inProgress ∧ r.mainCheck p s =
          (some .inProgress,
            { r with mainChecks := r.mainChecks.increment, active := some (t.mainCheck p s).2 })) ∨
        ((t.mainCheck p s).1.isTerminal = true ∧ r.mainCheck p s =
          (some (t.mainCheck p s).1,
            { r with mainChecks := r.mainChecks.increment }.finish t.kind (t.mainCheck p s).1))) := by
  unfold mainCheck
  cases h : r.active with
  | none => exact .inl ⟨rfl, rfl⟩
  | some t =>
    refine .inr ⟨t, rfl, ?_⟩
    cases hr : (t.mainCheck p s).1 with
    | inProgress => exact .inl ⟨rfl, by simp [hr, CheckResult.isTerminal]⟩
    | success => exact .inr ⟨rfl, by simp [hr, CheckResult.isTerminal]⟩
    | failure c => exact .inr ⟨rfl, by simp [hr, CheckResult.isTerminal]⟩

theorem pwmPeriod_of_isIdle {r : Runner} (h : r.isIdle = true) (i : PhasePair Scalar)
    (v : Scalar) : (r.pwmPeriod i v).1 = .inactive := by
  unfold pwmPeriod
  cases ht : r.active with
  | none => rfl
  | some t =>
    have hk : t.kind = .idle := by
      cases t <;> simp_all [isIdle, activeKind, Task.kind]
    exact Task.pwmPeriod_of_idle hk i v

end Runner

end BrushlessDrive
