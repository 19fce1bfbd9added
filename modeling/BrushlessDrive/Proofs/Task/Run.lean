import BrushlessDrive.Task

/-!
# Runs of a task

The PWM periods of a run belong to the fast path (`Task.outputs` are its answers), the main checks to the
slow one (`Task.results`).
-/

set_option autoImplicit false

namespace BrushlessDrive

theorem CheckResult.isTerminal_iff {r : CheckResult} : r.isTerminal = true ↔ r ≠ .inProgress := by
  cases r <;> simp [isTerminal]

namespace Task

def Event.isPwm : Event → Bool
  | .pwm _ _ => true
  | .check _ _ => false

def Answer.output? : Answer → Option Output
  | .output o => some o
  | .result _ => none

def outputs (t : Task) (es : List Event) : List Output := (t.run es).1.filterMap Answer.output?

def Answer.result? : Answer → Option CheckResult
  | .output _ => none
  | .result r => some r

def results (t : Task) (es : List Event) : List CheckResult := (t.run es).1.filterMap Answer.result?

theorem run_append (t : Task) (es fs : List Event) :
    (t.run (es ++ fs)).2 = ((t.run es).2.run fs).2 := by
  unfold run
  rw [Machine.run_append]

@[simp] theorem outputs_pwm (t : Task) (i : PhasePair Scalar) (v : Scalar) (es : List Event) :
    t.outputs (.pwm i v :: es) = (t.pwmPeriod i v).1 :: (t.pwmPeriod i v).2.outputs es := rfl

@[simp] theorem outputs_check (t : Task) (p : Scalar) (s : PowerStatus) (es : List Event) :
    t.outputs (.check p s :: es) = (t.mainCheck p s).2.outputs es := rfl

@[simp] theorem results_pwm (t : Task) (i : PhasePair Scalar) (v : Scalar) (es : List Event) :
    t.results (.pwm i v :: es) = (t.pwmPeriod i v).2.results es := rfl

@[simp] theorem results_check (t : Task) (p : Scalar) (s : PowerStatus) (es : List Event) :
    t.results (.check p s :: es) = (t.mainCheck p s).1 :: (t.mainCheck p s).2.results es := rfl

end Task

end BrushlessDrive
