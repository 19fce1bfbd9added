import BrushlessDrive.Drive
import BrushlessDrive.Proofs.Supervision.Orders
import Mathlib.Data.List.Induction

/-!
# The configuration that a new task gets

A check starts its tasks with the context that the supervisor has before it
(`Supervised.context_of_mem_started`), and the drive gives the supervisor the staged configuration
only after the check. So what is staged reaches the task after the next one.
-/

set_option autoImplicit false

namespace BrushlessDrive

namespace Drive

def started (d : Drive) (p : Scalar) (s : PowerStatus) : List Task := d.toSupervised.started p s

/-! ## Refreshes of the context -/

theorem turns_append (d : Drive) (ts us : List Turn) :
    d.turns (ts ++ us) = (d.turns ts).turns us := List.foldl_append

theorem turns_concat (d : Drive) (ts : List Turn) (t : Turn) :
    d.turns (ts ++ [t]) = (d.turns ts).turn t := turns_append d ts [t]

/-- The drive after a turn of the slow loop is the one after its check, apart from the refresh. -/
theorem mainCheck_snd (d : Drive) (p : Scalar) (s : PowerStatus) :
    (d.mainCheck p s).2 = if Supervisor.needsTask (d.toSupervised.mainCheck p s).1
      then (d.check p s).2.refresh else (d.check p s).2 := rfl

theorem runner_slow (d : Drive) (p : Scalar) (s : PowerStatus) :
    (d.turn (.slow p s)).runner = (d.toSupervised.mainCheck p s).2.runner := by
  show (d.mainCheck p s).2.runner = _
  rw [mainCheck_snd]
  split <;> rfl

theorem stage_slow (d : Drive) (p : Scalar) (s : PowerStatus) :
    (d.turn (.slow p s)).supervisor.stage = (d.toSupervised.mainCheck p s).2.supervisor.stage := by
  show (d.mainCheck p s).2.supervisor.stage = _
  rw [mainCheck_snd]
  split <;> rfl

theorem context_slow (d : Drive) (p : Scalar) (s : PowerStatus) :
    (d.turn (.slow p s)).supervisor.context =
      if Supervisor.needsTask (d.toSupervised.mainCheck p s).1
      then d.supervisor.context.refresh d.staged else d.supervisor.context := by
  show (d.mainCheck p s).2.supervisor.context = _
  have h := d.toSupervised.context_mainCheck p s
  rw [mainCheck_snd]
  split
  · exact congrArg (Context.refresh · d.staged) h
  · exact h

theorem slow_cases {d : Drive} (h : d.runner.activeKind = some d.supervisor.stage.kind)
    (p : Scalar) (s : PowerStatus) :
    ((d.turn (.slow p s)).supervisor.context = d.supervisor.context ∧
      ((d.turn (.slow p s)).supervisor.stage = d.supervisor.stage ∨
        d.supervisor.stage = .waitingForPower ∧
          (d.turn (.slow p s)).supervisor.stage = .beeping)) ∨
    ((d.turn (.slow p s)).supervisor.context = d.supervisor.context.refresh d.staged ∧
      (d.supervisor.stage = .waitingForPower ∨ d.supervisor.stage = .beeping) ∧
      (d.turn (.slow p s)).supervisor.stage = .spinningUp) ∨
    (d.turn (.slow p s)).supervisor.stage = .running := by
  have hg := Supervised.activeKind_greet h s
  rw [context_slow, stage_slow, Supervised.mainCheck_eq]
  obtain ⟨hn, hs⟩ | ⟨hn, ⟨hb, hs⟩ | ⟨-, hs⟩⟩ := Supervised.settle_of_activeKind hg p s
  · refine .inl ⟨if_neg (by rw [hn]; exact Bool.false_ne_true), ?_⟩
    rw [hs]
    obtain ⟨hw, -, he⟩ | ⟨-, he⟩ := d.toSupervised.greet_cases s <;> rw [he]
    · exact .inr ⟨hw, rfl⟩
    · exact .inl rfl
  · refine .inr (.inl ⟨if_pos hn, ?_, hs⟩)
    obtain ⟨hw, -, -⟩ | ⟨-, he⟩ := d.toSupervised.greet_cases s
    · exact .inl hw
    · rw [he] at hb
      exact .inr hb
  · exact .inr (.inr hs)

def StartsAfter (d : Drive) (ts us : List Turn) : Prop :=
  ∃ p s vs, ts = us ++ .slow p s :: vs ∧ (d.turns us).supervisor.stage ≠ .spinningUp ∧
    ((d.turns us).turn (.slow p s)).supervisor.stage = .spinningUp

theorem StartsAfter.concat {d : Drive} {ts us : List Turn} (h : d.StartsAfter ts us) (t : Turn) :
    d.StartsAfter (ts ++ [t]) us := by
  obtain ⟨p, s, vs, rfl, hn, hy⟩ := h
  exact ⟨p, s, vs ++ [t], by simp, hn, hy⟩

/-- The context of the supervisor after turns: up to the end of the beep it is the first one, and
while the motor starts it has what was staged when the start began. -/
structure Lagging (d : Drive) (ts : List Turn) : Prop where
  active : (d.turns ts).runner.activeKind = some (d.turns ts).supervisor.stage.kind
  boot : (d.turns ts).supervisor.stage = .waitingForPower ∨
    (d.turns ts).supervisor.stage = .beeping →
      (d.turns ts).supervisor.context = d.supervisor.context
  start : (d.turns ts).supervisor.stage = .spinningUp → ∃ us, d.StartsAfter ts us ∧
    (d.turns ts).supervisor.context = d.supervisor.context.refresh (d.turns us).staged

theorem lagging_begin (context : Context) (sequence : BootSequence) (bridge : Bridge) :
    (begin context sequence bridge).Lagging [] :=
  ⟨rfl, fun _ => rfl, fun h => Stage.noConfusion h⟩

theorem lagging_slow {d : Drive} {ts : List Turn} (h : d.Lagging ts) (p : Scalar)
    (s : PowerStatus) : d.Lagging (ts ++ [.slow p s]) := by
  have ha : ((d.turns ts).turn (.slow p s)).runner.activeKind =
      some ((d.turns ts).turn (.slow p s)).supervisor.stage.kind := by
    rw [runner_slow, stage_slow]
    exact Supervised.activeKind_mainCheck (Supervised.coupled_of_activeKind h.active) p s
  refine ⟨by rwa [turns_concat], fun hs => ?_, fun hs => ?_⟩ <;> rw [turns_concat] at hs ⊢
  · obtain ⟨hc, he⟩ | ⟨-, -, he⟩ | he := slow_cases h.active p s
    · rw [hc]
      refine h.boot ?_
      obtain he | ⟨hw, -⟩ := he
      · rwa [he] at hs
      · exact .inl hw
    · rw [he] at hs
      simp at hs
    · rw [he] at hs
      simp at hs
  · obtain ⟨hc, he | ⟨-, he⟩⟩ | ⟨hc, hb, -⟩ | he := slow_cases h.active p s
    · rw [he] at hs
      obtain ⟨us, hu, hx⟩ := h.start hs
      exact ⟨us, hu.concat _, hc.trans hx⟩
    · rw [he] at hs
      cases hs
    · refine ⟨ts, ⟨p, s, [], rfl, ?_, hs⟩, ?_⟩
      · obtain hb | hb := hb <;> rw [hb] <;> exact Stage.noConfusion
      · rw [hc, h.boot hb]
    · rw [he] at hs
      cases hs

theorem Lagging.concat {d : Drive} {ts : List Turn} {t : Turn} (h : d.Lagging ts)
    (hs : ((d.turns ts).turn t).supervisor = (d.turns ts).supervisor)
    (hk : ((d.turns ts).turn t).runner.activeKind = (d.turns ts).runner.activeKind) :
    d.Lagging (ts ++ [t]) := by
  refine ⟨?_, ?_, ?_⟩ <;> rw [turns_concat, hs]
  · exact hk.trans h.active
  · exact h.boot
  · intro hy
    obtain ⟨us, hu, hx⟩ := h.start hy
    exact ⟨us, hu.concat _, hx⟩

theorem lagging_concat {d : Drive} {ts : List Turn} (h : d.Lagging ts) (t : Turn) :
    d.Lagging (ts ++ [t]) := by
  cases t with
  | slow p s => exact lagging_slow h p s
  | fast i v => exact h.concat rfl (Runner.activeKind_pwmPeriod _ i v)
  | stage c => exact h.concat rfl rfl

theorem lagging_turns (context : Context) (sequence : BootSequence) (bridge : Bridge)
    (ts : List Turn) : (begin context sequence bridge).Lagging ts := by
  induction ts using List.reverseRecOn with
  | nil => exact lagging_begin context sequence bridge
  | append_singleton ts t ih => exact lagging_concat ih t

/-! ## What the tasks hold -/

/-- **What is staged reaches the task after the next one.** Until the motor starts, a task that a turn
starts holds the staged configuration exactly when the drive was begun with that one. A task that
follows the start of the motor holds it exactly when it is what the refresh at the beginning of that
start left. -/
theorem start_freshness (context : Context) (sequence : BootSequence) (bridge : Bridge)
    (ts : List Turn) (p : Scalar) (s : PowerStatus) :
    let d₀ := begin context sequence bridge
    let d := d₀.turns ts
    (d.supervisor.stage ≠ .spinningUp → ∀ t ∈ d.started p s,
      (t.context.config = d.staged ↔ context.config = d.staged)) ∧
    (d.supervisor.stage = .spinningUp → ∃ us, d₀.StartsAfter ts us ∧ ∀ t ∈ d.started p s,
      (t.context.config = d.staged ↔
        (context.refresh (d₀.turns us).staged).config = d.staged)) := by
  intro d₀ d
  have hd : d₀.Lagging ts := lagging_turns context sequence bridge ts
  constructor
  · intro hs t ht
    have hc := Supervised.context_of_mem_started ht
    have hr : d.supervisor.stage ≠ .running := fun hr =>
      Supervised.started_of_running hd.active hr p s ht
    have hb : d.supervisor.context = context := by
      refine hd.boot ?_
      show d.supervisor.stage = .waitingForPower ∨ d.supervisor.stage = .beeping
      cases he : d.supervisor.stage <;> simp_all
    rw [hc, hb]
  · intro hs
    obtain ⟨us, hu, hx⟩ := hd.start hs
    refine ⟨us, hu, fun t ht => ?_⟩
    rw [Supervised.context_of_mem_started ht, hx]
    rfl

/-- A drive with the default configuration that is about to start the motor without a beep. -/
def readyToStart : Drive :=
  begin ⟨{}, ⟨.ofParams {}, .current⟩, rfl, by decide +kernel⟩
    { beepDuration := 0, spinupAfterBeep := true } (Bridge.make { maxDuty := 8500 }).2

def twiceTheSpeed : Config := { controller := { spinupTarget := 1000 } }

/-- What is staged before the first check is valid, and does not reach the start of the motor in that
check. -/
theorem stale_start :
    let d := readyToStart.turns [.stage twiceTheSpeed]
    d.staged = twiceTheSpeed ∧ twiceTheSpeed.validate = .ok () ∧
      ∃ t ∈ d.started 0.001 ⟨true, 24⟩, t.kind = .spinup ∧ t.context.config ≠ twiceTheSpeed := by
  have hc : Supervisor.needsTask (readyToStart.toSupervised.mainCheck 0.001 ⟨true, 24⟩).1 = true ∧
      ((readyToStart.toSupervised.greet ⟨true, 24⟩).supervisor.next
        (readyToStart.toSupervised.mainCheck 0.001 ⟨true, 24⟩).1).1 = .spinningUp := by
    decide +kernel
  refine ⟨rfl, by rfl, _, Supervised.mem_started.2 (.inr ⟨hc.1, rfl⟩), ?_, fun h => ?_⟩
  · rw [Supervisor.kind_next]
    exact congrArg Stage.kind hc.2
  · rw [Supervisor.context_next] at h
    have ht : (500.0 : Scalar) = 1000 := congrArg (fun c => c.controller.spinupTarget) h
    exact absurd ht (by decide +kernel)

end Drive

end BrushlessDrive
