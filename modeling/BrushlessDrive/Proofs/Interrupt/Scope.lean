import BrushlessDrive.Proofs.Interrupt.Guards

/-!
# Interrupts after guards

`Guards.Work` is code that uses guards: it acquires and releases them in any order, and calls functions
that hold a guard of their own up to their end, which may be an early return. When no guard is live, no
guard has the right to enable interrupts, and the flag is what it was in the beginning.
-/

set_option autoImplicit false

namespace BrushlessDrive.Guards

/-! ## Code that uses guards -/

inductive Work where
  | pass
  | acquire
  | release (i : Nat)
  /-- A section without a guard of its own. -/
  | observe
  /-- Returns from the function that it is in. -/
  | exit
  | andThen (first second : Work)
  /-- Calls a function that acquires a guard, does the work, and releases the guard where it ends. -/
  | scope (body : Work)

namespace Work

def events : Work → Guards → List Event × Bool
  | pass, _ => ([], false)
  | acquire, _ => ([.acquire], false)
  | release i, _ => ([.release i], false)
  | observe, _ => ([.observe], false)
  | exit, _ => ([], true)
  | andThen p q, g =>
    match p.events g with
    | (es, true) => (es, true)
    | (es, false) => (es ++ (q.events (g.run es)).1, (q.events (g.run es)).2)
  | scope p, g => (.acquire :: ((p.events g.acquire).1 ++ [.release g.saved.size]), false)

/-- All guards that the work uses are those of the functions it calls. -/
def isScoped : Work → Bool
  | pass | observe | exit => true
  | acquire | release _ => false
  | andThen p q => p.isScoped && q.isScoped
  | scope p => p.isScoped

end Work

theorem run_scope (g : Guards) (body : Work) :
    g.run ((Work.scope body).events g).1 =
      (g.acquire.run (body.events g.acquire).1).release g.saved.size := by
  show (g.step .acquire).run ((body.events g.acquire).1 ++ [.release g.saved.size]) = _
  rw [run_concat]
  rfl

theorem live?_scope (g : Guards) (body : Work) :
    (g.run ((Work.scope body).events g).1).live? g.saved.size = none := by
  rw [run_scope, live?_release, if_pos rfl]

/-- A function that returns before it acquires a second guard. -/
example : ((Work.scope (.andThen .exit .acquire)).events {}).1 = [.acquire, .release 0] := by
  decide

/-! ## Code that only calls functions -/

def SameGuards (g h : Guards) : Prop := h.enabled = g.enabled ∧ ∀ i, h.live? i = g.live? i

/-- A guard that is released when all the others are as they were when it was acquired. -/
theorem sameGuards_release {g h : Guards} (hs : SameGuards g.acquire h) :
    SameGuards g (h.release g.saved.size) := by
  obtain ⟨he, hl⟩ := hs
  have hown : h.live? g.saved.size = some g.enabled := by
    rw [hl, live?_acquire, if_pos rfl]
  constructor
  · rw [Bool.eq_iff_iff, enabled_release, he, hown]
    exact ⟨fun h => h.elim (fun h => Bool.noConfusion h) Option.some.inj, fun h => .inr (h ▸ rfl)⟩
  · intro i
    rw [live?_release]
    split
    · rename_i hi
      rw [hi, live?_size]
    · rename_i hi
      rw [hl, live?_acquire, if_neg hi]

theorem run_scoped {w : Work} (hw : w.isScoped = true) (g : Guards) :
    SameGuards g (g.run (w.events g).1) := by
  induction w generalizing g with
  | pass => exact ⟨rfl, fun _ => rfl⟩
  | acquire => cases hw
  | release i => cases hw
  | observe =>
    show SameGuards g g.observe.2
    rw [observe_snd]
    exact ⟨rfl, fun _ => rfl⟩
  | exit => exact ⟨rfl, fun _ => rfl⟩
  | andThen p q ihp ihq =>
    obtain ⟨hp, hq⟩ := (Bool.and_eq_true _ _).mp hw
    have h1 := ihp hp g
    unfold Work.events
    split
    · rename_i es he
      rwa [he] at h1
    · rename_i es he
      rw [he] at h1
      have h2 := ihq hq (g.run es)
      rw [run_append]
      exact ⟨h2.1.trans h1.1, fun i => (h2.2 i).trans (h1.2 i)⟩
  | scope p ih =>
    rw [run_scope]
    exact sameGuards_release (ih hw g.acquire)

/-! ## The flag when no guard is live -/

theorem live?_run_release (g : Guards) (is : List Nat) (j : Nat) :
    (g.run (is.map .release)).live? j = if j ∈ is then none else g.live? j := by
  induction is generalizing g with
  | nil => rfl
  | cons i is ih =>
    show ((g.release i).run (is.map .release)).live? j = _
    rw [ih, live?_release]
    by_cases hj : j = i <;> simp [hj]

/-- The flag has the right to enable interrupts if there is one and no guard has it. -/
theorem enabled_of_liveCount {g : Guards} {enabled : Bool} (hr : g.rights = enabled.toNat)
    (h : g.liveCount = 0) : g.enabled = enabled := by
  have hc : g.saved.count (some true) = 0 := by
    by_contra hpos
    obtain ⟨i, hi⟩ := count_saved_pos.1 (Nat.pos_of_ne_zero hpos)
    rw [live?_of_liveCount h i] at hi
    cases hi
  rw [rights, hc] at hr
  cases he : g.enabled <;> cases enabled <;> simp [he] at hr ⊢

theorem enabled_of_rights_eq_zero {g : Guards} (hr : g.rights = 0) : g.enabled = false := by
  unfold rights at hr
  exact Bool.toNat_eq_zero.1 (by omega)

/-- **Guards leave no trace on the flag**, whichever way it was in the beginning and whatever order the guards
are released in. A function that only calls others with guards of their own leaves the guards around it alone,
whether it returns early or not. -/
theorem flag_restored (enabled : Bool) (w : Work) (n : Nat) :
    let g := run { enabled } ((w.events { enabled }).1.take n)
    (g.liveCount = 0 → g.enabled = enabled) ∧
    (enabled = false → g.enabled = false) ∧
    (∀ is : List Nat, (∀ i, (g.live? i).isSome = true → i ∈ is) →
      (g.run (is.map .release)).liveCount = 0 ∧ (g.run (is.map .release)).enabled = enabled) ∧
    (∀ body : Work, (g.run ((Work.scope body).events g).1).live? g.saved.size = none ∧
      (body.isScoped = true → SameGuards g (g.run ((Work.scope body).events g).1))) := by
  intro g
  have hr : g.rights = enabled.toNat := rights_begin enabled _
  have hle : g.rights ≤ 1 := hr ▸ Bool.toNat_le enabled
  refine ⟨enabled_of_liveCount hr, fun he => enabled_of_rights_eq_zero (hr.trans (by rw [he]; rfl)),
    fun is his => ?_, fun body => ⟨g.live?_scope body, fun hb => run_scoped (w := .scope body) hb g⟩⟩
  have hz : (g.run (is.map .release)).liveCount = 0 := by
    by_contra hpos
    obtain ⟨i, hi⟩ := liveCount_pos_iff.1 (Nat.pos_of_ne_zero hpos)
    rw [live?_run_release] at hi
    split at hi
    · cases hi
    · exact absurd (his i hi) ‹_›
  exact ⟨hz, enabled_of_liveCount ((rights_run hle _).trans hr) hz⟩

end BrushlessDrive.Guards
