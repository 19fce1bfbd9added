import BrushlessDrive.Interval
import BrushlessDrive.Proofs.Scalar.Order

/-!
# Values within an interval

What leaves `Interval.constrain` lies between the ends, whatever arrives. `Interval.Projects` says what a
projection to the interval has to keep to.
-/

set_option autoImplicit false

namespace BrushlessDrive.Interval

variable {r : Interval}

theorem constrain_between (h : r.lo ≤ r.hi) (x : Scalar) :
    r.lo ≤ r.constrain x ∧ r.constrain x ≤ r.hi := by
  obtain ⟨hlo, hhi⟩ := Scalar.isNaN_of_le h
  unfold constrain
  split
  · exact ⟨Scalar.le_refl hlo, h⟩
  rename_i hx
  rw [not_not] at hx
  split
  · exact ⟨h, Scalar.le_refl hhi⟩
  · rename_i hn
    exact ⟨hx, (Scalar.le_iff_not_lt (Scalar.isNaN_of_le hx).2 hhi).2 hn⟩

theorem constrain_of_mem {x : Scalar} (hlo : r.lo ≤ x) (hhi : x ≤ r.hi) : r.constrain x = x := by
  obtain ⟨hx, hr⟩ := Scalar.isNaN_of_le hhi
  rw [constrain, if_neg (not_not.2 hlo), if_neg ((Scalar.le_iff_not_lt hx hr).1 hhi)]

theorem isFinite_constrain (hlo : r.lo.isFinite = true) (hhi : r.hi.isFinite = true)
    (h : r.lo ≤ r.hi) (x : Scalar) : (r.constrain x).isFinite = true :=
  Scalar.isFinite_of_le_of_le hlo hhi (constrain_between h x).1 (constrain_between h x).2

theorem val_constrain (h : r.lo ≤ r.hi) {x : Scalar} (hx : x.isNaN = false) :
    (r.constrain x).val = max r.lo.val (min x.val r.hi.val) := by
  obtain ⟨hlo, hhi⟩ := Scalar.isNaN_of_le h
  have hle := Scalar.val_le_val h
  unfold constrain
  split
  · rename_i hn
    rw [Scalar.le_iff hlo hx, not_le] at hn
    exact (max_eq_left ((min_le_left _ _).trans hn.le)).symm
  rename_i hn
  rw [not_not, Scalar.le_iff hlo hx] at hn
  split
  · rename_i hlt
    rw [Scalar.lt_iff hhi hx] at hlt
    rw [min_eq_right hlt.le, max_eq_right hle]
  · rename_i hlt
    rw [Scalar.lt_iff hhi hx, not_lt] at hlt
    rw [min_eq_left hlt, max_eq_right hn]

/-! ## The projection -/

theorem contains_iff {x : Scalar} : r.contains x = true ↔ r.lo ≤ x ∧ x ≤ r.hi := by
  simp [contains]

/-- What `constrain` makes of a value, down to the bits: a zero of either sign is left as it is. -/
structure Projects (r : Interval) : Prop where
  contains_constrain : ∀ x, r.contains (r.constrain x) = true
  toBits_eq_iff : ∀ x, (r.constrain x).toBits = x.toBits ↔ r.contains x = true
  constrain_constrain : ∀ x, r.constrain (r.constrain x) = r.constrain x
  mono : ∀ x y, x ≤ y → r.constrain x ≤ r.constrain y

theorem constrain_mono (h : r.lo ≤ r.hi) {x y : Scalar} (hxy : x ≤ y) :
    r.constrain x ≤ r.constrain y := by
  obtain ⟨hx, hy⟩ := Scalar.isNaN_of_le hxy
  have hcx := (Scalar.isNaN_of_le (constrain_between h x).1).2
  have hcy := (Scalar.isNaN_of_le (constrain_between h y).1).2
  rw [Scalar.le_iff hcx hcy, val_constrain h hx, val_constrain h hy]
  exact max_le_max_left _ (min_le_min_right _ (Scalar.val_le_val hxy))

theorem projects (h : r.lo ≤ r.hi) : r.Projects := by
  have hmem (x : Scalar) : r.contains (r.constrain x) = true :=
    contains_iff.2 (constrain_between h x)
  have hfix {x : Scalar} (hx : r.contains x = true) : r.constrain x = x :=
    constrain_of_mem (contains_iff.1 hx).1 (contains_iff.1 hx).2
  refine ⟨hmem, fun x => ⟨fun hx => ?_, fun hx => ?_⟩, fun x => hfix (hmem x),
    fun x y hxy => constrain_mono h hxy⟩
  · rw [← Scalar.toBits_inj.1 hx]
    exact hmem x
  · rw [hfix hx]

end BrushlessDrive.Interval
