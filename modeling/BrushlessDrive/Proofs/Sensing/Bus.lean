import BrushlessDrive.Proofs.Scalar.Infinity
import BrushlessDrive.Proofs.Scalar.Integer
import BrushlessDrive.Sensing.Bus

/-!
# The filtered bus voltage

The voltage that a `BusMonitor` stores is the converted reading after a preset, and the filtered one after an
update. Readings that the filter can take in leave it with a number that is at least zero; a voltage that is
no number stays so.
-/

set_option autoImplicit false

namespace BrushlessDrive

open Scalar Binary32

namespace BusSenseConfig

variable {c : BusSenseConfig}

/-- The bus voltage for each volt at the converter. -/
def ratio (c : BusSenseConfig) : Scalar := (c.rUpper + c.rLower) / c.rLower

/-- The filtered voltage after `v`, when the unfiltered one is `r`. -/
def filtered (c : BusSenseConfig) (r v : Scalar) : Scalar :=
  c.filterAlpha * r + (1 - c.filterAlpha) * v

/-! ## Readings -/

/-- A divider does not turn a reading into a negative voltage. -/
theorem isNaN_or_nonneg_voltage (hv : 0 ≤ c.vref) (hr : 0 ≤ c.ratio) (raw : UInt16) :
    (c.voltage raw).isNaN = true ∨ 0 ≤ c.voltage raw := by
  have hx := nonneg_toFloat32 raw
  have hd : (raw.toFloat32 / c.adcMax.toFloat32).isNaN = true ∨
      0 ≤ raw.toFloat32 / c.adcMax.toFloat32 := by
    by_cases h0 : c.adcMax = 0
    · rw [h0]
      exact isNaN_or_nonneg_div_zero hx
    · exact .inr (nonneg_div_of_pos hx (pos_toFloat32 h0) (val_toFloat32 _).1)
  rcases hd with hn | hd
  · exact .inl (isNaN_mul (isNaN_mul hn _) _)
  rcases isNaN_or_nonneg_mul hd hv with hn | hm
  · exact .inl (isNaN_mul hn _)
  · exact isNaN_or_nonneg_mul hm hr

/-- Nor does it turn one into no number, if it divides by something and lets something through. -/
theorem nonneg_voltage (h0 : c.adcMax ≠ 0) (hv : isPositive c.vref = true)
    (hr : isPositive c.ratio = true) (raw : UInt16) : 0 ≤ c.voltage raw := by
  rw [isPositive_iff] at hv hr
  have hd := nonneg_div_of_pos (nonneg_toFloat32 raw) (pos_toFloat32 h0) (val_toFloat32 _).1
  exact nonneg_mul_of_pos (nonneg_mul_of_pos hd hv.1 hv.2) hr.1 hr.2

/-! ## The filter -/

def IsWeighted (c : BusSenseConfig) : Prop := 0 ≤ c.filterAlpha ∧ c.filterAlpha ≤ 1

theorem IsWeighted.isFinite (h : c.IsWeighted) : c.filterAlpha.isFinite = true :=
  isFinite_of_le_of_le isFinite_zero isFinite_one h.1 h.2

theorem IsWeighted.val_le (h : c.IsWeighted) : 0 ≤ c.filterAlpha.val ∧ c.filterAlpha.val ≤ 1 := by
  have hn := isNaN_of_isFinite h.isFinite
  have h1 := (le_iff hn rfl).1 h.2
  rw [val_one] at h1
  exact ⟨(nonneg_iff hn).1 h.1, h1⟩

theorem IsWeighted.val_eq_one (h : c.IsWeighted) (h1 : ¬ c.filterAlpha < 1) :
    c.filterAlpha.val = 1 := by
  have hn := (lt_iff (isNaN_of_isFinite h.isFinite) rfl).not.1 h1
  rw [val_one] at hn
  linarith [h.val_le]

theorem IsWeighted.val_eq_zero (h : c.IsWeighted) (h0 : ¬ 0 < c.filterAlpha) :
    c.filterAlpha.val = 0 := by
  have hn := (pos_iff (isNaN_of_isFinite h.isFinite)).not.1 h0
  linarith [h.val_le]

/-- The weight of the voltage so far. -/
theorem IsWeighted.isNearest_rest (h : c.IsWeighted) :
    IsNearest (1 - c.filterAlpha) (1 - c.filterAlpha.val) := by
  have hs := isNearest_sub isFinite_one h.isFinite
  rwa [val_one] at hs

theorem IsWeighted.isFinite_rest (h : c.IsWeighted) : (1 - c.filterAlpha).isFinite = true := by
  obtain ⟨h0, h1⟩ := h.val_le
  refine (h.isNearest_rest.isFinite ?_).1
  rw [abs_of_nonneg (by linarith)]
  linarith

theorem IsWeighted.nonneg_rest (h : c.IsWeighted) : 0 ≤ 1 - c.filterAlpha :=
  h.isNearest_rest.nonneg (by linarith [h.val_le])

theorem IsWeighted.rest_pos (h : c.IsWeighted) (h1 : c.filterAlpha < 1) : 0 < 1 - c.filterAlpha :=
  sub_pos isFinite_one h.isFinite h1

/-- A filter that takes the whole of a reading keeps nothing. -/
theorem IsWeighted.rest_eq_zero (h : c.IsWeighted) (h1 : ¬ c.filterAlpha < 1) :
    (1 - c.filterAlpha).isFinite = true ∧ (1 - c.filterAlpha).val = 0 := by
  have hr : IsNearest (1 - c.filterAlpha) 0 := by simpa [h.val_eq_one h1] using h.isNearest_rest
  exact hr.exact (representable_val isFinite_zero) (by norm_num)

/-- A part of a voltage that the filter takes a part of is a voltage again. -/
theorem nonneg_part {w v : Scalar} (hw : 0 ≤ w) (hf : w.isFinite = true) (hv : 0 ≤ v)
    (h : v.isFinite = true ∨ 0 < w) : 0 ≤ w * v := by
  rcases h with hv' | hw'
  · exact (isNearest_mul hf hv').nonneg (mul_nonneg (val_nonneg hw) (val_nonneg hv))
  · rw [Scalar.mul_comm]
    exact nonneg_mul_of_pos hv hw' hf

/-- A voltage that the filter can hold: at least zero, and infinite only if the filter keeps a part of it. -/
structure Holds (c : BusSenseConfig) (v : Scalar) : Prop where
  nonneg : 0 ≤ v
  finite : v.isFinite = true ∨ c.filterAlpha < 1

/-- A reading that the filter can take in. -/
structure Takes (c : BusSenseConfig) (r : Scalar) : Prop where
  nonneg : 0 ≤ r
  finite : r.isFinite = true ∨ 0 < c.filterAlpha ∧ c.filterAlpha < 1

theorem Takes.holds {r : Scalar} (h : c.Takes r) : c.Holds r := ⟨h.nonneg, h.finite.imp_right And.right⟩

/-- Without a part of what it holds, the filter gives the reading. -/
theorem isFinite_filtered (hw : c.IsWeighted) (h1 : ¬ c.filterAlpha < 1) {r v : Scalar}
    (hr : r.isFinite = true) (hv : v.isFinite = true) : (c.filtered r v).isFinite = true := by
  obtain ⟨hrestf, hrestv⟩ := hw.rest_eq_zero h1
  have hnew : IsNearest (c.filterAlpha * r) r.val := by
    simpa [hw.val_eq_one h1] using isNearest_mul hw.isFinite hr
  obtain ⟨hnewf, hnewv⟩ := hnew.exact (representable_val hr) (abs_val_lt hr)
  have hold : IsNearest ((1 - c.filterAlpha) * v) 0 := by
    simpa [hrestv] using isNearest_mul hrestf hv
  obtain ⟨holdf, holdv⟩ := hold.exact (representable_val isFinite_zero) (by norm_num)
  have hs : IsNearest (c.filtered r v) r.val := by
    simpa [hnewv, holdv, filtered] using isNearest_add hnewf holdf
  exact (hs.exact (representable_val hr) (abs_val_lt hr)).1

theorem holds_filtered (hw : c.IsWeighted) {r v : Scalar} (hr : c.Takes r) (hv : c.Holds v) :
    c.Holds (c.filtered r v) := by
  have hnew := nonneg_part hw.1 hw.isFinite hr.nonneg (hr.finite.imp_right And.left)
  have hold := nonneg_part hw.nonneg_rest hw.isFinite_rest hv.nonneg
    (hv.finite.imp_right hw.rest_pos)
  refine ⟨Scalar.le_trans hnew (le_add_of_nonneg hnew hold), ?_⟩
  by_cases h1 : c.filterAlpha < 1
  · exact .inr h1
  · exact .inl (isFinite_filtered hw h1 (hr.finite.resolve_right fun h => h1 h.2)
      (hv.finite.resolve_right h1))

theorem isNaN_filtered (r : Scalar) {v : Scalar} (h : v.isNaN = true) :
    (c.filtered r v).isNaN = true := by
  refine isNaN_add_right _ ?_
  rw [Scalar.mul_comm]
  exact isNaN_mul h _

end BusSenseConfig

namespace BusMonitor

open BusSenseConfig

variable {c : BusSenseConfig}

/-! ## Runs -/

/-- The voltage that a run of a monitor with the parameters `c` leads to. -/
def voltageAfter (c : BusSenseConfig) (es : List Event) : Scalar :=
  (run { config := c } es).state.voltage

@[simp] theorem config_step (m : BusMonitor) (e : Event) : (m.step e).config = m.config := by
  cases e <;> rfl

@[simp] theorem config_run (m : BusMonitor) (es : List Event) : (m.run es).config = m.config := by
  induction es generalizing m with
  | nil => rfl
  | cons e es ih => exact (ih (m.step e)).trans (m.config_step e)

theorem run_concat (m : BusMonitor) (es : List Event) (e : Event) :
    m.run (es ++ [e]) = (m.run es).step e := by
  simp [run]

@[simp] theorem voltageAfter_nil : voltageAfter c [] = 0 := rfl

theorem voltageAfter_preset (es : List Event) (raw : UInt16) :
    voltageAfter c (es ++ [.preset raw]) = c.voltage raw := by
  have hc := config_run { config := c } es
  rw [voltageAfter, run_concat]
  exact congrArg (·.voltage raw) hc

theorem voltageAfter_update (es : List Event) (raw : UInt16) :
    voltageAfter c (es ++ [.update raw]) = c.filtered (c.voltage raw) (voltageAfter c es) := by
  have hc := config_run { config := c } es
  rw [voltageAfter, run_concat]
  show (run { config := c } es).config.filtered ((run { config := c } es).config.voltage raw)
    (voltageAfter c es) = _
  rw [hc]

theorem state_run {es : List Event} (h : es ≠ []) : (run { config := c } es).state =
    ⟨voltageAfter c es, c.overvoltage < voltageAfter c es, voltageAfter c es < c.undervoltage⟩ := by
  obtain rfl | ⟨fs, e, rfl⟩ := es.eq_nil_or_concat
  · exact absurd rfl h
  · have hc := config_run { config := c } fs
    rw [List.concat_eq_append, voltageAfter, run_concat]
    cases e <;> simp [step, update, preset, setVoltage]

theorem holds_voltageAfter (hw : c.IsWeighted) (h : ∀ raw, c.Takes (c.voltage raw))
    (es : List Event) : c.Holds (voltageAfter c es) := by
  induction es using List.reverseRecOn with
  | nil => exact ⟨Scalar.le_refl rfl, .inl isFinite_zero⟩
  | append_singleton es e ih =>
    cases e with
    | update raw =>
      rw [voltageAfter_update]
      exact holds_filtered hw (h raw) ih
    | preset raw =>
      rw [voltageAfter_preset]
      exact (h raw).holds

theorem isNaN_updates {es : List Event} (h : (voltageAfter c es).isNaN = true) (raws : List UInt16) :
    (voltageAfter c (es ++ raws.map .update)).isNaN = true := by
  induction raws using List.reverseRecOn with
  | nil => simpa using h
  | append_singleton raws raw ih =>
    rw [List.map_append, ← List.append_assoc]
    exact (voltageAfter_update _ raw).symm ▸ isNaN_filtered _ ih

end BusMonitor

end BrushlessDrive
