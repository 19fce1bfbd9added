import BrushlessDrive.Interrupt
import Mathlib.Data.List.Induction

/-!
# Live guards and the interrupt flag

The right to enable interrupts (`Guards.rights`) is held by the flag while interrupts are enabled, and
by a guard that remembers them as enabled until it is released. Acquiring moves the right from the
flag to the new guard and releasing moves it back, so there is always exactly one if interrupts were
enabled in the beginning, and none if they were not (`rights_begin`).
-/

set_option autoImplicit false

namespace BrushlessDrive.Guards

variable {g : Guards} {i j : Nat} {before : Bool}

/-! ## Live guards -/

theorem live?_eq_some : g.live? i = some before ↔ g.saved[i]? = some (some before) :=
  Option.join_eq_some_iff

theorem lt_size_of_live (h : (g.live? i).isSome = true) : i < g.saved.size := by
  obtain ⟨before, hb⟩ := Option.isSome_iff_exists.1 h
  exact (Array.getElem?_eq_some_iff.1 (live?_eq_some.1 hb)).1

theorem live?_size (g : Guards) : g.live? g.saved.size = none := by
  show g.saved[g.saved.size]?.join = none
  rw [Array.getElem?_eq_none (Nat.le_refl _)]
  rfl

theorem live?_acquire (g : Guards) (i : Nat) :
    g.acquire.live? i = if i = g.saved.size then some g.enabled else g.live? i := by
  show (g.saved.push (some g.enabled))[i]?.join = _
  rw [Array.getElem?_push]
  split <;> rfl

theorem release_of_none (h : g.live? i = none) : g.release i = g := by
  unfold release
  rw [h]

theorem release_of_some (h : g.live? i = some before) :
    g.release i = ⟨Interrupt.leave before g.enabled, g.saved.setIfInBounds i none⟩ := by
  unfold release
  rw [h]

theorem live?_release (g : Guards) (i j : Nat) :
    (g.release i).live? j = if j = i then none else g.live? j := by
  cases h : g.live? i with
  | none =>
    rw [release_of_none h]
    split
    · rename_i hj
      rw [hj, h]
    · rfl
  | some before =>
    rw [release_of_some h]
    show (g.saved.setIfInBounds i none)[j]?.join = _
    rw [Array.getElem?_setIfInBounds]
    by_cases hj : j = i
    · rw [if_pos hj.symm, if_pos hj]
      split <;> rfl
    · rw [if_neg (Ne.symm hj), if_neg hj]
      rfl

theorem live?_of_live?_release (h : (g.release i).live? j = some before) :
    j ≠ i ∧ g.live? j = some before := by
  rw [live?_release] at h
  split at h
  · cases h
  · exact ⟨‹_›, h⟩

theorem liveCount_pos_iff : 0 < g.liveCount ↔ ∃ i, (g.live? i).isSome = true := by
  unfold liveCount
  rw [Array.countP_pos_iff]
  constructor
  · rintro ⟨o, ho, hs⟩
    obtain ⟨i, hi⟩ := Array.mem_iff_getElem?.1 ho
    obtain ⟨before, rfl⟩ := Option.isSome_iff_exists.1 hs
    exact ⟨i, by rw [live?_eq_some.2 hi]; rfl⟩
  · rintro ⟨i, hs⟩
    obtain ⟨before, h⟩ := Option.isSome_iff_exists.1 hs
    exact ⟨some before, Array.mem_iff_getElem?.2 ⟨i, live?_eq_some.1 h⟩, rfl⟩

theorem live?_of_liveCount (h : g.liveCount = 0) (i : Nat) : g.live? i = none := by
  by_contra hi
  have := liveCount_pos_iff.2 ⟨i, Option.isSome_iff_ne_none.2 hi⟩
  omega

/-! ## The flag -/

theorem enabled_release (g : Guards) (i : Nat) :
    (g.release i).enabled = true ↔ g.enabled = true ∨ g.live? i = some true := by
  cases h : g.live? i with
  | none => simp [release_of_none h]
  | some before => cases before <;> simp [release_of_some h, Interrupt.leave]

theorem observe_snd (g : Guards) : g.observe.2 = g := by
  obtain ⟨enabled, saved⟩ := g
  cases enabled <;> rfl

theorem run_append (g : Guards) (es fs : List Event) : g.run (es ++ fs) = (g.run es).run fs :=
  List.foldl_append

theorem run_concat (g : Guards) (es : List Event) (e : Event) :
    g.run (es ++ [e]) = (g.run es).step e := run_append g es [e]

/-! ## The right to enable interrupts -/

/-- How often the right to enable interrupts is there, in the flag and in the live guards. -/
def rights (g : Guards) : Nat := g.enabled.toNat + g.saved.count (some true)

theorem count_saved_pos : 0 < g.saved.count (some true) ↔ ∃ i, g.live? i = some true := by
  simp only [Array.count_pos_iff, Array.mem_iff_getElem?, live?_eq_some]

theorem rights_acquire (g : Guards) : g.acquire.rights = g.rights := by
  obtain ⟨enabled, saved⟩ := g
  show false.toNat + (saved.push (some enabled)).count (some true) = _
  rw [Array.count_push]
  cases enabled <;> simp [rights, Nat.add_comm]

/-- The right goes back to the flag. There is only one, so the flag did not have it. -/
theorem rights_release (h : g.rights ≤ 1) (i : Nat) : (g.release i).rights = g.rights := by
  cases hi : g.live? i with
  | none => rw [release_of_none hi]
  | some before =>
    obtain ⟨hlt, hget⟩ := Array.getElem?_eq_some_iff.1 (live?_eq_some.1 hi)
    have hset : g.saved.setIfInBounds i none = g.saved.set i none hlt := by
      rw [Array.setIfInBounds, dif_pos hlt]
    rw [release_of_some hi, rights, hset, Array.count_set, hget]
    unfold rights at h ⊢
    cases before with
    | false => simp [Interrupt.leave]
    | true =>
      have hpos := count_saved_pos.2 ⟨i, hi⟩
      have hoff : g.enabled.toNat = 0 := by omega
      simp [Interrupt.leave, hoff]
      omega

theorem rights_step (h : g.rights ≤ 1) (e : Event) : (g.step e).rights = g.rights := by
  cases e with
  | acquire => exact g.rights_acquire
  | release i => exact rights_release h i
  | observe => exact congrArg rights g.observe_snd

/-- Nothing creates or loses the right. -/
theorem rights_run (h : g.rights ≤ 1) (es : List Event) : (g.run es).rights = g.rights := by
  induction es generalizing g with
  | nil => rfl
  | cons e es ih =>
    have he := rights_step h e
    exact (ih (he ▸ h)).trans he

theorem rights_begin (enabled : Bool) (es : List Event) :
    (run { enabled } es).rights = enabled.toNat :=
  rights_run (g := { enabled }) (Bool.toNat_le enabled) es

end BrushlessDrive.Guards
