import BrushlessDrive.Proofs.Task.Run

/-!
# The fast path on its own

A main check may change one thing in a task, the time that a start has been counting, and no PWM period
and no telemetry reads that. So `Task.untimed`, the task with its time at zero, is all that the fast path
has to do with.
-/

set_option autoImplicit false

namespace BrushlessDrive.Task

def untimed : Task → Task
  | spinup t => .spinup { t with elapsed := 0 }
  | t => t

/-- What a run shows in its PWM periods: the output of each one, and the telemetry after it. -/
def periods (t : Task) : List Event → List (Output × Telemetry)
  | [] => []
  | .pwm i v :: es =>
    ((t.pwmPeriod i v).1, (t.pwmPeriod i v).2.telemetry) :: (t.pwmPeriod i v).2.periods es
  | .check p s :: es => (t.mainCheck p s).2.periods es

theorem map_fst_periods (t : Task) (es : List Event) :
    (t.periods es).map Prod.fst = t.outputs es := by
  induction es generalizing t with
  | nil => rfl
  | cons e es ih => cases e <;> simp [periods, ih]

/-! ## What a call reads and writes -/

@[simp] theorem untimed_mainCheck (t : Task) (p : Scalar) (s : PowerStatus) :
    (t.mainCheck p s).2.untimed = t.untimed := by
  cases t <;> rfl

theorem pwmPeriod_untimed (t : Task) (i : PhasePair Scalar) (v : Scalar) :
    t.untimed.pwmPeriod i v = ((t.pwmPeriod i v).1, (t.pwmPeriod i v).2.untimed) := by
  cases t <;> rfl

@[simp] theorem telemetry_untimed (t : Task) : t.untimed.telemetry = t.telemetry := by
  cases t <;> rfl

/-! ## Runs -/

@[simp] theorem periods_untimed (t : Task) (es : List Event) : t.untimed.periods es = t.periods es := by
  induction es generalizing t with
  | nil => rfl
  | cons e es ih =>
    cases e with
    | pwm i v => simp [periods, pwmPeriod_untimed, ih]
    | check p s =>
      -- both checks leave a task that is the same but for its time
      rw [periods, periods, ← ih, ← ih (t.mainCheck p s).2, untimed_mainCheck, untimed_mainCheck]
      cases t <;> rfl

theorem periods_filter (t : Task) (es : List Event) :
    t.periods (es.filter Event.isPwm) = t.periods es := by
  induction es generalizing t with
  | nil => rfl
  | cons e es ih =>
    cases e with
    | pwm i v =>
      rw [List.filter_cons_of_pos rfl]
      simp [periods, ih]
    | check p s =>
      calc t.periods (es.filter Event.isPwm)
        _ = (t.mainCheck p s).2.untimed.periods (es.filter Event.isPwm) := by simp
        _ = (t.mainCheck p s).2.periods es := by rw [periods_untimed, ih]

/-- **Main checks do not disturb the fast path**, however many there are and wherever they stand. -/
theorem undisturbed (t : Task) {es fs : List Event}
    (h : es.filter Event.isPwm = fs.filter Event.isPwm) :
    t.outputs es = t.outputs fs ∧ t.periods es = t.periods fs := by
  have hp : t.periods es = t.periods fs := by
    rw [← periods_filter t es, h, periods_filter]
  refine ⟨?_, hp⟩
  rw [← map_fst_periods, hp, map_fst_periods]

/-- A start that runs out of time before its first period goes on as one that loses its power between
two periods. -/
theorem undisturbed_by_failures :
    let late : List Event := [.check 10 ⟨true, 24⟩, .pwm ⟨0, 0⟩ 24, .pwm ⟨1, 2⟩ 3]
    let unpowered : List Event := [.pwm ⟨0, 0⟩ 24, .check 0.001 ⟨false, 3⟩, .pwm ⟨1, 2⟩ 3]
    let start : Task := .spinup (.make .ofDefaults)
    late.filter Event.isPwm = unpowered.filter Event.isPwm ∧
      start.outputs late = start.outputs unpowered ∧ start.periods late = start.periods unpowered :=
  ⟨rfl, undisturbed _ rfl⟩

end BrushlessDrive.Task
