import BrushlessDrive.Proofs.Interrupt.Guards

/-!
# Interrupts are off while a guard is live

The guard that holds the right to enable interrupts gives it back to the flag when it is released,
also when other guards are still live. So guards keep interrupts off (`Guards.Exclusive`) exactly in
those runs that release such a guard last (`Guards.RestoresLast`); releasing guards in the reverse
order of their acquisition is one way to do it (`Guards.Nested`).
-/

set_option autoImplicit false

namespace BrushlessDrive.Guards

variable {g : Guards}

def Off (g : Guards) : Prop := g.enabled = true → ∀ i, g.live? i = none

/-- No live guard is older than the one with the right to enable interrupts. -/
def Oldest (g : Guards) : Prop :=
  ∀ i j, g.live? i = some true → (g.live? j).isSome = true → i ≤ j

def Alone (g : Guards) (i : Nat) : Prop := ∀ j, (g.live? j).isSome = true → j = i

/-- Interrupts are off at every moment of the run at which a guard is live. -/
def Exclusive (es : List Event) : Prop :=
  ∀ fs, fs <+: es → 0 < (run {} fs).liveCount → (run {} fs).enabled = false

/-- A guard that found interrupts on is released only when no other guard is live. -/
def RestoresLast (es : List Event) : Prop :=
  ∀ fs i, fs ++ [.release i] <+: es → (run {} fs).live? i = some true → (run {} fs).Alone i

/-- Live guards are released in the reverse order of their acquisition. -/
def Nested (es : List Event) : Prop :=
  ∀ fs i, fs ++ [.release i] <+: es → ((run {} fs).live? i).isSome = true →
    ∀ j, ((run {} fs).live? j).isSome = true → j ≤ i

theorem off_iff : (0 < g.liveCount → g.enabled = false) ↔ g.Off := by
  constructor
  · intro h he i
    by_contra hi
    rw [h (liveCount_pos_iff.2 ⟨i, Option.isSome_iff_ne_none.2 hi⟩)] at he
    cases he
  · intro h hp
    obtain ⟨i, hi⟩ := liveCount_pos_iff.1 hp
    by_contra he
    rw [h (eq_true_of_ne_false he) i] at hi
    cases hi

theorem enabled_eq_false_iff (es : List Event) :
    (run {} es).enabled = false ↔ ∃ i, (run {} es).live? i = some true := by
  have h := rights_begin true es
  rw [← count_saved_pos]
  unfold rights at h
  cases he : (run {} es).enabled <;> rw [he] at h
  · simp only [Bool.toNat_false, Bool.toNat_true] at h
    exact iff_of_true rfl (by omega)
  · simp only [Bool.toNat_true] at h
    exact iff_of_false Bool.noConfusion (by omega)

/-! ## One event -/

theorem off_acquire (g : Guards) : g.acquire.Off := fun h => Bool.noConfusion h

theorem off_release (h : g.Off) {i : Nat} (hi : g.live? i = some true → g.Alone i) :
    (g.release i).Off := by
  intro he j
  by_contra hj
  obtain ⟨before, hb⟩ := Option.ne_none_iff_exists'.1 hj
  obtain ⟨hne, hlive⟩ := live?_of_live?_release hb
  obtain he | hr := (g.enabled_release i).1 he
  · rw [h he j] at hlive
    cases hlive
  · exact hne (hi hr j (by rw [hlive]; rfl))

theorem off_step (h : g.Off) {e : Event}
    (he : ∀ i, e = .release i → g.live? i = some true → g.Alone i) : (g.step e).Off := by
  cases e with
  | acquire => exact g.off_acquire
  | release i => exact off_release h (he i rfl)
  | observe => exact (congrArg Off g.observe_snd).mpr h

theorem oldest_acquire (ho : g.Oldest) (h : g.Off) : g.acquire.Oldest := by
  intro i j hi hj
  rw [live?_acquire] at hi hj
  split at hi
  · rename_i his
    split at hj
    · omega
    · -- the new guard has the right only if it is the only one
      rw [h (Option.some.inj hi) j] at hj
      cases hj
  · split at hj
    · have := lt_size_of_live (g := g) (i := i) (by rw [hi]; rfl)
      omega
    · exact ho i j hi hj

theorem oldest_release (ho : g.Oldest) (k : Nat) : (g.release k).Oldest := by
  intro i j hi hj
  obtain ⟨before, hb⟩ := Option.isSome_iff_exists.1 hj
  exact ho i j (live?_of_live?_release hi).2 (by rw [(live?_of_live?_release hb).2]; rfl)

theorem oldest_step (ho : g.Oldest) (h : g.Off) (e : Event) : (g.step e).Oldest := by
  cases e with
  | acquire => exact oldest_acquire ho h
  | release i => exact oldest_release ho i
  | observe => exact (congrArg Oldest g.observe_snd).mpr ho

/-! ## Runs -/

theorem off_run {es : List Event} (h : RestoresLast es) {fs : List Event} (hp : fs <+: es) :
    (run {} fs).Off := by
  induction fs using List.reverseRecOn with
  | nil => exact fun _ _ => rfl
  | append_singleton fs e ih =>
    rw [run_concat]
    refine off_step (ih ((List.prefix_append fs [e]).trans hp)) fun i he => ?_
    subst he
    exact h fs i hp

/-- In a nested run the guard that is released is the newest one. If it is also the oldest one, no
other guard is live. -/
theorem Nested.alone {es fs : List Event} {i : Nat} (h : Nested es)
    (hp : fs ++ [.release i] <+: es) (ho : (run {} fs).Oldest)
    (hi : (run {} fs).live? i = some true) : (run {} fs).Alone i := fun j hj =>
  Nat.le_antisymm (h fs i hp (by rw [hi]; rfl) j hj) (ho i j hi hj)

theorem Nested.oldest_run {es : List Event} (h : Nested es) {fs : List Event} (hp : fs <+: es) :
    (run {} fs).Off ∧ (run {} fs).Oldest := by
  induction fs using List.reverseRecOn with
  | nil => exact ⟨fun _ _ => rfl, fun _ _ hi => by cases hi⟩
  | append_singleton fs e ih =>
    obtain ⟨hoff, hold⟩ := ih ((List.prefix_append fs [e]).trans hp)
    rw [run_concat]
    refine ⟨off_step hoff fun i he hi => ?_, oldest_step hold hoff e⟩
    subst he
    exact h.alone hp hold hi

theorem Nested.restoresLast {es : List Event} (h : Nested es) : RestoresLast es :=
  fun fs _ hp hi => h.alone hp (h.oldest_run ((List.prefix_append fs _).trans hp)).2 hi

theorem restoresLast_of_exclusive {es : List Event} (h : Exclusive es) : RestoresLast es := by
  intro fs i hp hi j hj
  by_contra hne
  -- otherwise the release enables interrupts under the other guard
  have hoff : ((run {} fs).release i).Off := by
    have := off_iff.1 (h _ hp)
    rwa [run_concat] at this
  have hnone := hoff ((enabled_release _ i).2 (.inr hi)) j
  rw [live?_release, if_neg hne] at hnone
  rw [hnone] at hj
  cases hj

/-- **When guards keep interrupts off**: exactly in the runs that release a guard which remembers them as on
only when no other one is live. -/
theorem exclusive_iff_restores_last (es : List Event) :
    ((run {} es).enabled = false ↔ ∃ i, (run {} es).live? i = some true) ∧
    (Exclusive es ↔ RestoresLast es) ∧
    (Nested es → Exclusive es) := by
  have hx : RestoresLast es → Exclusive es := fun h fs hp => off_iff.2 (off_run h hp)
  exact ⟨enabled_eq_false_iff es, ⟨restoresLast_of_exclusive, hx⟩,
    fun h => hx h.restoresLast⟩

/-- Of two guards the older one is released first: interrupts are on, and the younger one still gives
access to what they protect. -/
theorem outer_released_first :
    ¬ Exclusive [.acquire, .acquire, .release 0] ∧
      ((run {} [.acquire, .acquire, .release 0]).exchange 1 0 7).1 = some 0 := by
  refine ⟨fun h => ?_, rfl⟩
  exact absurd (h _ (List.prefix_refl _) (by decide)) (by decide)

end BrushlessDrive.Guards
