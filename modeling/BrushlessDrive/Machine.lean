/-!
# Machines

A machine answers an event and goes to another state: `step : σ → ε → α × σ`. `Machine.run` feeds it
a list of events. What it answers to a list in two parts is what it answers to the first part and
then, from where that left it, to the second (`run_append`).
-/

set_option autoImplicit false

namespace BrushlessDrive.Machine

variable {σ ε α : Type}

/-- Feeds events to a machine in turn: its answers, and the state that it ends in. -/
def run (step : σ → ε → α × σ) (s : σ) : List ε → List α × σ
  | [] => ([], s)
  | e :: es =>
    let (answer, s) := step s e
    let (answers, s) := run step s es
    (answer :: answers, s)

@[simp] theorem run_nil (step : σ → ε → α × σ) (s : σ) : run step s [] = ([], s) := rfl

theorem run_cons (step : σ → ε → α × σ) (s : σ) (e : ε) (es : List ε) :
    run step s (e :: es) =
      ((step s e).1 :: (run step (step s e).2 es).1, (run step (step s e).2 es).2) := rfl

theorem run_append (step : σ → ε → α × σ) (s : σ) (es fs : List ε) :
    run step s (es ++ fs) =
      ((run step s es).1 ++ (run step (run step s es).2 fs).1,
        (run step (run step s es).2 fs).2) := by
  induction es generalizing s with
  | nil => rfl
  | cons e es ih => simp [run_cons, ih]

/-- What every step keeps holds after a run. -/
theorem run_induction {P : σ → Prop} {step : σ → ε → α × σ} (hP : ∀ s e, P s → P (step s e).2)
    {s : σ} (h : P s) (es : List ε) : P (run step s es).2 := by
  induction es generalizing s with
  | nil => exact h
  | cons e es ih => exact ih (hP s e h)

/-- There is one answer for each event. -/
@[simp] theorem length_answers (step : σ → ε → α × σ) (s : σ) (es : List ε) :
    (run step s es).1.length = es.length := by
  induction es generalizing s with
  | nil => rfl
  | cons e es ih => simp [run_cons, ih]

end BrushlessDrive.Machine
