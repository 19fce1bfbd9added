import BrushlessDrive.Device
import BrushlessDrive.Proofs.Color

/-!
# The indicator is never stale

The indicator writes to its lamps only when the state of the drive asks for another colour than the one
that it remembers. That is enough as long as the lamps show the remembered colour (`Indicator.Shows`), since
to write the colour once more then changes nothing. Whatever shows a colour writes it to the lamps and
remembers it. A `Panel` is the indicator among what it looks at, which others change at any time.
-/

set_option autoImplicit false

namespace BrushlessDrive

/-! ## Lamps -/

theorem Rgb.ext_get {α : Type} {c d : Rgb α} (h : ∀ l, c.get l = d.get l) : c = d := by
  cases c
  cases d
  exact (Rgb.mk.injEq ..).mpr ⟨h .red, h .green, h .blue⟩

namespace LampTimer

theorem map_map_duties (c : Color) (m : UInt16) :
    ((c.duties m.toUInt32).map UInt32.toUInt16).map UInt16.toUInt32 = c.duties m.toUInt32 := by
  refine Rgb.ext_get fun l => ?_
  rw [Rgb.get_map, Rgb.get_map, toUInt32_toUInt16_get_duties]

theorem applyAll_colorOps (t : LampTimer) (c : Color) :
    t.applyAll (t.colorOps c) =
      { t with duty := (c.duties t.maxDuty.toUInt32).map UInt32.toUInt16 } := rfl

end LampTimer

/-! ## The indicator -/

namespace Indicator

open LampTimer (Op)

/-- A timer with maximum `m` is in use, and its registers have the duties of the colour that is
remembered, as they were before they were cut to 16 bits. -/
structure Shows (m : UInt16) (d : Indicator) : Prop where
  registered : d.registered = true
  maxDuty : d.timer.maxDuty = m
  enabled : d.timer.enabled = ⟨true, true, true⟩
  duty : d.timer.duty.map UInt16.toUInt32 = d.color.duties m.toUInt32

def repaint (d : Indicator) (bus : BusState) (runner : Runner) : List Op × Indicator :=
  d.setColor (statusColor bus runner)

variable {d : Indicator} {m : UInt16}

theorem setColor_of_registered (h : d.registered = true) (c : Color) :
    (d.setColor c).2 = { d with
      timer := { d.timer with
        duty := (c.duties d.timer.maxDuty.toUInt32).map UInt32.toUInt16 }
      color := c } := by
  simp only [setColor, if_pos h, LampTimer.applyAll_colorOps]

theorem shows_setColor (hr : d.registered = true) (hm : d.timer.maxDuty = m)
    (he : d.timer.enabled = ⟨true, true, true⟩) (c : Color) : (d.setColor c).2.Shows m := by
  subst hm
  rw [setColor_of_registered hr]
  exact ⟨hr, rfl, he, LampTimer.map_map_duties c _⟩

theorem Shows.setColor (h : d.Shows m) (c : Color) : (d.setColor c).2.Shows m :=
  shows_setColor h.registered h.maxDuty h.enabled c

theorem Shows.setColor_color (h : d.Shows m) : (d.setColor d.color).2 = d := by
  have hcut : (d.timer.duty.map UInt16.toUInt32).map UInt32.toUInt16 = d.timer.duty := by
    simp [Rgb.map]
  rw [setColor_of_registered h.registered, h.maxDuty, ← h.duty, hcut]

theorem Shows.refresh_eq_repaint (h : d.Shows m) (bus : BusState) (runner : Runner) :
    (d.refresh bus runner).2 = (d.repaint bus runner).2 := by
  unfold refresh repaint
  by_cases hc : statusColor bus runner = d.color
  · simp only [if_pos hc]
    rw [hc, h.setColor_color]
  · simp only [if_neg hc]

theorem Shows.refresh (h : d.Shows m) (bus : BusState) (runner : Runner) :
    (d.refresh bus runner).2.Shows m := by
  rw [h.refresh_eq_repaint]
  exact h.setColor _

theorem color_refresh (d : Indicator) (bus : BusState) (runner : Runner) :
    (d.refresh bus runner).2.color = statusColor bus runner := by
  unfold Indicator.refresh
  by_cases hc : statusColor bus runner = d.color
  · simp only [if_pos hc]
    exact hc.symm
  · simp only [if_neg hc]
    rfl

end Indicator

theorem Services.shows_start (s : Services) :
    s.start.2.indicator.Shows s.indicator.timer.maxDuty :=
  Indicator.shows_setColor (d := s.indicator.setup.2) rfl rfl rfl .boot

/-! ## Among what it looks at -/

structure Panel where
  indicator : Indicator
  bus : BusState
  runner : Runner

namespace Panel

/-- What happens to the three of them, in any order. -/
inductive Event where
  /-- The periodic look at the state of the drive. -/
  | look
  | setColor (c : Color)
  /-- The bus monitor publishes a new state. -/
  | publish (bus : BusState)
  | runner (e : Runner.Event)

abbrev Look := Indicator → BusState → Runner → List LampTimer.Op × Indicator

def step (look : Look) (x : Panel) : Event → Panel
  | .look => { x with indicator := (look x.indicator x.bus x.runner).2 }
  | .setColor c => { x with indicator := (x.indicator.setColor c).2 }
  | .publish bus => { x with bus }
  | .runner e => { x with runner := (x.runner.step e).2 }

def run (look : Look) (x : Panel) (es : List Event) : Panel := es.foldl (step look) x

variable {x : Panel} {m : UInt16}

theorem shows_step (h : x.indicator.Shows m) (e : Event) :
    (x.step Indicator.refresh e).indicator.Shows m := by
  cases e with
  | look => exact h.refresh x.bus x.runner
  | setColor c => exact h.setColor c
  | publish => exact h
  | runner => exact h

theorem step_repaint (h : x.indicator.Shows m) (e : Event) :
    x.step Indicator.repaint e = x.step Indicator.refresh e := by
  cases e with
  | look =>
    unfold step
    simp only [h.refresh_eq_repaint]
  | setColor => rfl
  | publish => rfl
  | runner => rfl

theorem shows_run (h : x.indicator.Shows m) (es : List Event) :
    (x.run Indicator.refresh es).indicator.Shows m := by
  induction es generalizing x with
  | nil => exact h
  | cons e es ih => exact ih (shows_step h e)

theorem run_repaint (h : x.indicator.Shows m) (es : List Event) :
    x.run Indicator.repaint es = x.run Indicator.refresh es := by
  induction es generalizing x with
  | nil => rfl
  | cons e es ih =>
    show (x.step Indicator.repaint e).run Indicator.repaint es = _
    rw [step_repaint h]
    exact ih (shows_step h e)

/-- **The indicator is never stale**, whatever comes in whatever order: the lamps show the colour that is
remembered, a look makes it the current one, and writing it on every look would make no difference. -/
theorem never_stale (s : Services) (bus : BusState) (runner : Runner) (es : List Event) :
    let m := s.indicator.timer.maxDuty
    let start : Panel := ⟨s.start.2.indicator, bus, runner⟩
    let x := start.run Indicator.refresh es
    let next := x.step Indicator.refresh .look
    x.indicator.Shows m ∧
      (next.indicator.Shows m ∧ next.indicator.color = Indicator.statusColor x.bus x.runner) ∧
      start.run Indicator.repaint es = x := by
  intro m start x next
  have hstart : start.indicator.Shows m := s.shows_start
  have hx : x.indicator.Shows m := shows_run hstart es
  exact ⟨hx, ⟨shows_step hx .look, x.indicator.color_refresh x.bus x.runner⟩, run_repaint hstart es⟩

end Panel

/-! ## On a board -/

namespace Device

theorem shows_boot {setup : Setup} {s : Device} (h : (boot setup).2 = .ok s) :
    s.services.indicator.Shows setup.lampMaxDuty := by
  have hprepared : (prepare setup).2.1.indicator.Shows setup.lampMaxDuty :=
    Services.shows_start
      (Services.resetCan ⟨true, { timer := { maxDuty := setup.lampMaxDuty } }, false⟩).2
  unfold boot at h
  obtain ⟨ops, services, bridge⟩ := prepare setup
  dsimp only at h hprepared
  split at h
  · cases h
  · split at h
    · cases h
    · cases h
      exact hprepared

theorem shows_turn {s : Device} {m : UInt16} (h : s.services.indicator.Shows m) (x : Readings)
    (t : Turn) : (s.turn x t).services.indicator.Shows m := by
  cases t with
  | fastLoop => exact h
  | busMonitor => exact h
  | slowLoop => exact h
  | indicator => exact h.refresh s.bus s.drive.runner

/-- Whenever the tasks of a board take their turns, its lamps show the colour that is remembered. -/
theorem shows_run {setup : Setup} {s : Device} (h : (boot setup).2 = .ok s)
    (ts : List (Readings × Turn)) :
    (ts.foldl (fun s (x, t) => s.turn x t) s).services.indicator.Shows setup.lampMaxDuty := by
  have hs := shows_boot h
  clear h
  induction ts generalizing s with
  | nil => exact hs
  | cons xt ts ih => exact ih (shows_turn hs xt.1 xt.2)

theorem color_indicator (s : Device) :
    s.indicator.services.indicator.color = Indicator.statusColor s.bus s.drive.runner :=
  s.services.indicator.color_refresh s.bus s.drive.runner

end Device

end BrushlessDrive
