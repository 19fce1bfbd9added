/-!
# Schedules

A `Ticker` is due at every multiple of its period, counted from time 0; times are whole microseconds.
A schedule is a list of tickers, each with its work: at equal times the earlier entry goes first
(`Schedule.run`).
-/

set_option autoImplicit false

namespace BrushlessDrive

structure Ticker where
  /-- In microseconds. -/
  period : Nat
  period_pos : 0 < period

namespace Ticker

/-- The alarm with a period in milliseconds. -/
def ofMillis (n : Nat) (h : 0 < n) : Ticker := ⟨1000 * n, Nat.mul_pos (by decide) h⟩

/-- The alarm with a frequency in hertz, its period rounded to the nearest microsecond and at least
one. -/
def ofFrequency (f : Nat) : Ticker := ⟨max 1 ((1000000 + f / 2) / f), by omega⟩

def isDue (k : Ticker) (t : Nat) : Bool := t % k.period == 0

/-- The first instant after `t` at which the alarm is due. -/
def next (k : Ticker) (t : Nat) : Nat := t - t % k.period + k.period

theorem lt_next (k : Ticker) (t : Nat) : t < k.next t := by
  have := Nat.mod_lt t k.period_pos
  have := Nat.mod_le t k.period
  unfold next
  omega

end Ticker

/-- Periodic work, the more urgent first. -/
abbrev Schedule (α : Type) := List (Ticker × α)

namespace Schedule

variable {α σ : Type}

/-- The work that is due at an instant. -/
def due (s : Schedule α) (t : Nat) : List α :=
  s.filterMap fun (k, work) => if k.isDue t then some work else none

/-- The first instant after `t` at which any work is due, and `t + 1` if there is no work. -/
def next (s : Schedule α) (t : Nat) : Nat :=
  (s.map fun (k, _) => k.next t).min?.getD (t + 1)

theorem lt_next (s : Schedule α) (t : Nat) : t < s.next t := by
  unfold next
  cases h : (s.map fun (k, _) => k.next t).min? with
  | none => simp
  | some u =>
    obtain ⟨p, -, hp⟩ := List.mem_map.1 (List.min?_mem h)
    simpa [← hp] using p.1.lt_next t

/-- Does all work that is due after `t`, up to and including `stop`, in order of time. -/
def run (s : Schedule α) (work : Nat → α → σ → σ) (t stop : Nat) (state : σ) : σ :=
  let u := s.next t
  if u ≤ stop then
    s.run work u stop ((s.due u).foldl (fun x a => work u a x) state)
  else state
termination_by stop - t
decreasing_by
  have := s.lt_next t
  omega

end Schedule

end BrushlessDrive
