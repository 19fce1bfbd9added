import BrushlessDrive.Bridge

/-!
# The state of the bridge

`Bridge.Consistent`: the driver remembers rightly whether the channels are on. Following an output keeps it
so, and an output that does not keep the driver active leaves the channels off, with no duty.
-/

set_option autoImplicit false

namespace BrushlessDrive.Bridge

def IsOff (d : Bridge) : Prop :=
  d.timer.duty = .uniform 0 ∧ d.timer.enabled = .uniform false

/-- All channels are on, or all are off, as the driver remembers. -/
def Consistent (d : Bridge) : Prop := d.timer.enabled = .uniform d.active

variable {d : Bridge} {o : Output}

/-- Stopping clears every duty, and every channel that was on. -/
theorem timer_stopOps (d : Bridge) : d.timer.applyAll d.stopOps =
    { d.timer with
      duty := .uniform 0
      enabled := if d.active then .uniform false else d.timer.enabled } := by
  obtain ⟨timer, active⟩ := d
  cases active <;> rfl

/-- An output that keeps the driver active sets every duty, and every channel that was off. -/
theorem timer_outputOps (d : Bridge) {o : Output} (h : o.driverActive = true) :
    d.timer.applyAll (d.outputOps o) =
      { d.timer with
        duty := o.phases.map d.timer.dutyOf
        enabled := if d.active then d.timer.enabled else .uniform true } := by
  obtain ⟨timer, active⟩ := d
  unfold outputOps
  rw [if_pos h]
  cases active <;> rfl

theorem isOff_stop (h : d.Consistent) : d.stop.2.IsOff := by
  obtain ⟨timer, active⟩ := d
  unfold IsOff stop
  rw [timer_stopOps]
  cases active with
  | true => exact ⟨rfl, rfl⟩
  | false => exact ⟨rfl, h⟩

theorem enabled_follow (h : d.Consistent) (o : Output) :
    (d.follow o).2.timer.enabled = .uniform o.driverActive := by
  unfold follow
  cases ho : o.driverActive with
  | true =>
    rw [timer_outputOps d ho]
    split
    · rename_i ha
      exact h.trans (by rw [ha])
    · rfl
  | false =>
    show (d.timer.applyAll (d.outputOps o)).enabled = _
    rw [outputOps, if_neg (by simp [ho])]
    exact (isOff_stop h).2

theorem consistent_follow (h : d.Consistent) (o : Output) : (d.follow o).2.Consistent :=
  enabled_follow h o

theorem isOff_follow (h : d.Consistent) (ho : o.driverActive = false) : (d.follow o).2.IsOff := by
  refine ⟨?_, (enabled_follow h o).trans (by rw [ho])⟩
  show (d.timer.applyAll (d.outputOps o)).duty = _
  rw [outputOps, if_neg (by simp [ho])]
  exact (isOff_stop h).1

theorem isOff_make (t : BridgeTimer) : (make t).2.IsOff := by
  unfold make stop IsOff
  rw [timer_stopOps]
  exact ⟨rfl, rfl⟩

theorem consistent_make (t : BridgeTimer) : (make t).2.Consistent := (isOff_make t).2

end BrushlessDrive.Bridge
