import BrushlessDrive.Proofs.Bridge
import BrushlessDrive.Proofs.Scalar.Error
import BrushlessDrive.Proofs.Scalar.Integer

/-!
# The register operations of the bridge

Every call of the driver first writes a duty to all channels and then switches them, if that is needed.
The duties are those of the output, none is above the greatest one, whatever the modulation, and switches
leave them alone.
-/

set_option autoImplicit false

namespace BrushlessDrive

open Scalar in
/-- A modulation that is no number gives no duty, and all others are brought into range first. -/
theorem BridgeTimer.toNat_dutyOf_le (t : BridgeTimer) (m : Scalar) :
    (t.dutyOf m).toNat ≤ t.maxDuty.toNat := by
  unfold dutyOf
  rw [toNat_toUInt16]
  refine (min_le_left _ _).trans ?_
  cases hm : m.isNaN with
  | true =>
    rw [clamp_of_isNaN hm, val_of_isNaN (isNaN_mul hm _), Nat.floor_zero]
    exact Nat.zero_le _
  | false =>
    obtain ⟨hc, -, hle⟩ := val_clamp_unit hm
    obtain ⟨hd, hn⟩ := val_toFloat32 t.maxDuty
    have hlt : t.maxDuty.toNat < 2 ^ 24 := t.maxDuty.toNat_lt.trans (by norm_num)
    have hp := isNearest_mul hc hd
    rw [hn] at hp
    exact Nat.floor_le_of_le (hp.val_le (Binary32.representable_natCast hlt)
      (Binary32.abs_natCast_le hlt) (mul_le_of_le_one_left (Nat.cast_nonneg _) hle))

namespace Bridge

open BridgeTimer (Op)

/-! ## What a call asks for -/

/-- Whether a call keeps the driver active. -/
def Event.drives : Event → Bool
  | .follow o => o.driverActive
  | .stop => false

def Event.duties (t : BridgeTimer) : Event → Phases UInt16
  | .follow o => if o.driverActive then o.phases.map t.dutyOf else .uniform 0
  | .stop => .uniform 0

/-- The operations that switch the channels, if they are not as wanted. -/
def switchOps (d : Bridge) (active : Bool) : List Op :=
  if d.active = active then [] else Phase.all.map (if active then Op.enable else Op.disable)

def IsSwitch (op : Op) : Prop := ∃ p, op = .enable p ∨ op = .disable p

variable {d : Bridge}

theorem duties_follow (t : BridgeTimer) (o : Output) : (Event.follow o).duties t =
    if o.driverActive then o.phases.map t.dutyOf else .uniform 0 := rfl

theorem toNat_duties_le (t : BridgeTimer) (e : Event) (p : Phase) :
    ((e.duties t).get p).toNat ≤ t.maxDuty.toNat := by
  have hz : ((Phases.uniform (0 : UInt16)).get p).toNat ≤ t.maxDuty.toNat := by
    rw [Phases.get_uniform]
    exact Nat.zero_le _
  cases e with
  | stop => exact hz
  | follow o =>
    rw [duties_follow]
    split
    · rw [Phases.get_map]
      exact t.toNat_dutyOf_le _
    · exact hz

theorem duties_of_not_drives (t : BridgeTimer) {e : Event} (h : e.drives = false) :
    e.duties t = .uniform 0 := by
  cases e with
  | stop => rfl
  | follow o => exact if_neg (Bool.eq_false_iff.1 h)

theorem duties_congr {t t' : BridgeTimer} (h : t.maxDuty = t'.maxDuty) (e : Event) :
    e.duties t = e.duties t' := by
  have hd : t.dutyOf = t'.dutyOf := by
    funext m
    unfold BridgeTimer.dutyOf
    rw [h]
  cases e with
  | stop => rfl
  | follow o => rw [duties_follow, duties_follow, hd]

/-! ## One call -/

theorem stopOps_eq (d : Bridge) : d.stopOps = dutyOps (.uniform 0) ++ d.switchOps false := by
  unfold stopOps switchOps
  cases d.active <;> rfl

theorem ops_step (d : Bridge) (e : Event) :
    (d.step e).1 = dutyOps (e.duties d.timer) ++ d.switchOps e.drives := by
  cases e with
  | stop => exact d.stopOps_eq
  | follow o =>
    show d.outputOps o = _ ++ d.switchOps o.driverActive
    rw [duties_follow, outputOps]
    cases o.driverActive with
    | false => exact d.stopOps_eq
    | true =>
      unfold switchOps
      cases d.active <;> rfl

theorem active_step (d : Bridge) (e : Event) : (d.step e).2.active = e.drives := by
  cases e <;> rfl

theorem timer_step (d : Bridge) (e : Event) :
    (d.step e).2.timer = d.timer.applyAll (d.step e).1 := by
  cases e <;> rfl

theorem applyAll_append (t : BridgeTimer) (ops ops' : List Op) :
    t.applyAll (ops ++ ops') = (t.applyAll ops).applyAll ops' := List.foldl_append

theorem duty_applyAll (t : BridgeTimer) {ops : List Op} (h : ∀ op ∈ ops, IsSwitch op) :
    (t.applyAll ops).duty = t.duty := by
  induction ops generalizing t with
  | nil => rfl
  | cons op ops ih =>
    obtain ⟨hop, hops⟩ := List.forall_mem_cons.1 h
    refine (ih (t.apply op) hops).trans ?_
    obtain ⟨p, rfl | rfl⟩ := hop <;> rfl

theorem maxDuty_applyAll (t : BridgeTimer) (ops : List Op) :
    (t.applyAll ops).maxDuty = t.maxDuty := by
  induction ops generalizing t with
  | nil => rfl
  | cons op ops ih =>
    refine (ih (t.apply op)).trans ?_
    cases op <;> rfl

theorem isSwitch_of_mem_switchOps {active : Bool} {op : Op} (h : op ∈ d.switchOps active) :
    IsSwitch op := by
  unfold switchOps at h
  split at h
  · cases h
  · obtain ⟨p, -, rfl⟩ := List.mem_map.1 h
    cases active
    · exact ⟨p, .inr rfl⟩
    · exact ⟨p, .inl rfl⟩

theorem not_isSwitch_of_mem_dutyOps {duties : Phases UInt16} {op : Op} (h : op ∈ dutyOps duties) :
    ¬ IsSwitch op := by
  obtain ⟨q, -, rfl⟩ := List.mem_map.1 h
  rintro ⟨p, hp | hp⟩ <;> cases hp

theorem duty_dutyOps (t : BridgeTimer) (duties : Phases UInt16) :
    (t.applyAll (dutyOps duties)).duty = duties := rfl

theorem duty_mem_dutyOps (duties : Phases UInt16) (p : Phase) :
    .duty p (duties.get p) ∈ dutyOps duties :=
  List.mem_map.2 ⟨p, by cases p <;> decide, rfl⟩

/-- The operations of a call switch channels only if the call makes the driver active or inactive, all
of them then, and only after the duties of the call have been written. -/
structure Orderly (d : Bridge) (e : Event) (ops : List Op) : Prop where
  enable_iff : ∀ p, .enable p ∈ ops ↔ d.active = false ∧ e.drives = true
  disable_iff : ∀ p, .disable p ∈ ops ↔ d.active = true ∧ e.drives = false
  duties_first : ∀ before op after, ops = before ++ op :: after → IsSwitch op →
    (∀ p, .duty p ((e.duties d.timer).get p) ∈ before) ∧
      (d.timer.applyAll before).duty = e.duties d.timer

theorem dutyOps_first {duties : Phases UInt16} {switches before after : List Op} {op : Op}
    (h : dutyOps duties ++ switches = before ++ op :: after) (hop : IsSwitch op) :
    ∃ done, before = dutyOps duties ++ done ∧ switches = done ++ op :: after := by
  obtain ⟨done, hb, hs⟩ | ⟨rest, hd, hr⟩ := List.append_eq_append_iff.1 h
  · exact ⟨done, hb, hs⟩
  · cases rest with
    | nil => exact ⟨[], by simpa using hd.symm, by simpa using hr.symm⟩
    | cons op' rest =>
      -- the switch would be one of the writes
      obtain ⟨rfl, -⟩ := List.cons_eq_cons.1 hr
      have hm : op ∈ dutyOps duties := by
        rw [hd]
        exact List.mem_append_right _ List.mem_cons_self
      exact absurd hop (not_isSwitch_of_mem_dutyOps hm)

theorem mem_ops_iff {e : Event} {op : Op} (hop : IsSwitch op) :
    op ∈ (d.step e).1 ↔ op ∈ d.switchOps e.drives := by
  rw [ops_step, List.mem_append]
  exact or_iff_right fun h => not_isSwitch_of_mem_dutyOps h hop

theorem orderly_step (d : Bridge) (e : Event) : Orderly d e (d.step e).1 := by
  refine ⟨fun p => ?_, fun p => ?_, fun before op after h hop => ?_⟩
  · rw [mem_ops_iff ⟨p, .inl rfl⟩, switchOps]
    cases d.active <;> cases e.drives <;> cases p <;> decide
  · rw [mem_ops_iff ⟨p, .inr rfl⟩, switchOps]
    cases d.active <;> cases e.drives <;> cases p <;> decide
  · rw [ops_step] at h
    obtain ⟨done, rfl, hs⟩ := dutyOps_first h hop
    refine ⟨fun p => List.mem_append_left _ (duty_mem_dutyOps _ p), ?_⟩
    rw [applyAll_append, duty_applyAll]
    · exact duty_dutyOps _ _
    · intro op' hm
      have hm' : op' ∈ d.switchOps e.drives := by
        rw [hs]
        exact List.mem_append_left _ hm
      exact isSwitch_of_mem_switchOps hm'

/-! ## Runs -/

structure Follows (t : BridgeTimer) (e : Event) (d : Bridge) : Prop where
  active : d.active = e.drives
  consistent : d.Consistent
  duty : d.timer.duty = e.duties t
  maxDuty : d.timer.maxDuty = t.maxDuty

theorem follows_make (t : BridgeTimer) : Follows t .stop (make t).2 := by
  obtain ⟨hd, -⟩ := isOff_make t
  exact ⟨rfl, consistent_make t, hd, maxDuty_applyAll t _⟩

theorem follows_step {t : BridgeTimer} (hc : d.Consistent) (hm : d.timer.maxDuty = t.maxDuty)
    (e : Event) : Follows t e (d.step e).2 := by
  refine ⟨active_step d e, ?_, ?_, ?_⟩
  · cases e with
    | follow o => exact consistent_follow hc o
    | stop => exact (isOff_stop hc).2
  · rw [timer_step, ops_step, applyAll_append, duty_applyAll _ fun _ => isSwitch_of_mem_switchOps,
      duty_dutyOps]
    exact duties_congr hm e
  · rw [timer_step, maxDuty_applyAll, hm]

theorem follows_run (t : BridgeTimer) (es : List Event) :
    Follows t (es.getLast?.getD .stop) ((make t).2.run es).2 := by
  induction es using List.reverseRecOn with
  | nil => exact follows_make t
  | append_singleton es e ih =>
    unfold run at ih ⊢
    rw [Machine.run_append, List.getLast?_append]
    exact follows_step ih.consistent ih.maxDuty e

/-- **The bridge after any calls.** Channels and duties are as the last call asked for, and every call, from
the one that takes over the timer on, was `Orderly`. -/
theorem orderly_run (t : BridgeTimer) (es : List Event) (e : Event) :
    let d := ((make t).2.run es).2
    let last := es.getLast?.getD .stop
    (d.active = last.drives ∧ d.timer.enabled = .uniform d.active ∧
      d.timer.duty = last.duties t ∧ (∀ p, (d.timer.duty.get p).toNat ≤ t.maxDuty.toNat) ∧
      (d.active = false → d.timer.duty = .uniform 0)) ∧
    Orderly ⟨t, true⟩ .stop (make t).1 ∧ Orderly d e (d.step e).1 := by
  intro d last
  have h : Follows t last d := follows_run t es
  refine ⟨⟨h.active, h.consistent, h.duty, fun p => ?_, fun ha => ?_⟩, orderly_step ⟨t, true⟩ .stop,
    orderly_step d e⟩
  · rw [h.duty]
    exact toNat_duties_le t last p
  · rw [h.duty]
    exact duties_of_not_drives t (h.active ▸ ha)

end Bridge

end BrushlessDrive
