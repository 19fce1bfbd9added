import BrushlessDrive.Proofs.Sensing.Bus

/-!
# Higher readings, higher voltages

Two monitors of the same kind take readings in the same way, those of the first one at most as high as those
of the second one. Divider and filter keep the order of what they are given, through every rounding, so the
first monitor never shows the higher voltage (`Paired`).
-/

set_option autoImplicit false

namespace BrushlessDrive

open Scalar

namespace BusSenseConfig

variable {c : BusSenseConfig}

/-- Parameters with which a reading becomes a voltage up to 2¹⁰⁰ V. -/
structure Calibrated (c : BusSenseConfig) : Prop where
  weighted : c.IsWeighted
  scale : 1 ≤ c.adcMax
  vref_finite : c.vref.isFinite = true
  vref_nonneg : 0 ≤ c.vref
  rUpper_finite : c.rUpper.isFinite = true
  rUpper_nonneg : 0 ≤ c.rUpper
  rLower_finite : c.rLower.isFinite = true
  rLower_pos : 0 < c.rLower
  full : c.voltage 65535 ≤ Scalar.ofNat (2 ^ 100)

namespace Calibrated

theorem scale_pos (h : c.Calibrated) : 0 < c.adcMax.toFloat32 :=
  pos_toFloat32 fun h0 => absurd (h0 ▸ h.scale) (by decide)

theorem ratio_nonneg (h : c.Calibrated) : 0 ≤ c.ratio :=
  nonneg_div_of_pos
    (Scalar.le_trans h.rUpper_nonneg (le_add_of_nonneg h.rUpper_nonneg (Scalar.le_of_lt h.rLower_pos)))
    h.rLower_pos h.rLower_finite

theorem isFinite_full (h : c.Calibrated) : (c.voltage 65535).isFinite = true := by
  have hn := (isNaN_of_le h.full).1
  have h0 : 0 ≤ c.voltage 65535 :=
    (isNaN_or_nonneg_voltage h.vref_nonneg h.ratio_nonneg _).resolve_left
      (by rw [hn]; exact Bool.false_ne_true)
  exact isFinite_of_le_of_le isFinite_zero (by decide +kernel) h0 h.full

/-- A finite voltage is an upper bound of those of all lower readings. -/
theorem voltage_le (h : c.Calibrated) {raw raw' : UInt16} (hle : raw ≤ raw')
    (hf : (c.voltage raw').isFinite = true) : 0 ≤ c.voltage raw ∧ c.voltage raw ≤ c.voltage raw' := by
  -- all intermediate results of the higher reading are finite as well
  obtain ⟨hm, hr⟩ := isFinite_of_mul hf
  have hd := (isFinite_of_mul hm).1
  have hscale := (val_toFloat32 c.adcMax).1
  have h0 := nonneg_div_of_pos (nonneg_toFloat32 raw) h.scale_pos hscale
  have hdiv := div_le_div_of_pos (nonneg_toFloat32 raw) (toFloat32_mono hle) h.scale_pos hscale
  have hm0 := (isFinite_mul_of_le h0 hdiv h.vref_nonneg hm).2
  have hmul := mul_le_mul_of_isFinite h0 hdiv hd h.vref_nonneg h.vref_finite
  exact ⟨(isFinite_mul_of_le hm0 hmul h.ratio_nonneg hf).2,
    mul_le_mul_of_isFinite hm0 hmul hm h.ratio_nonneg hr⟩

theorem isFinite_voltage (h : c.Calibrated) (raw : UInt16) :
    (c.voltage raw).isFinite = true := by
  have hle : raw ≤ 65535 := UInt16.le_iff_toNat_le.2 (Nat.le_of_lt_succ raw.toNat_lt)
  obtain ⟨h0, hv⟩ := h.voltage_le hle h.isFinite_full
  exact isFinite_of_le_of_le isFinite_zero h.isFinite_full h0 hv

theorem voltage_mono (h : c.Calibrated) {raw raw' : UInt16} (hle : raw ≤ raw') :
    c.voltage raw ≤ c.voltage raw' :=
  (h.voltage_le hle (h.isFinite_voltage raw')).2

theorem takes_voltage (h : c.Calibrated) (raw : UInt16) : c.Takes (c.voltage raw) :=
  ⟨(h.voltage_le (UInt16.le_refl raw) (h.isFinite_voltage raw)).1, .inl (h.isFinite_voltage raw)⟩

end Calibrated

/-! ## The filter -/

/-- The greater of two voltages has the greater part in the filter. -/
theorem part_le_part {w v v' : Scalar} (hw : 0 ≤ w) (hf : w.isFinite = true) (hv : 0 ≤ v)
    (hle : v ≤ v') (h : v'.isFinite = true ∨ 0 < w) : w * v ≤ w * v' := by
  rw [Scalar.mul_comm w, Scalar.mul_comm w]
  rcases h with hf' | hpos
  · exact mul_le_mul_of_isFinite hv hle hf' hw hf
  · exact mul_le_mul_of_pos hv hle hpos hf

theorem filtered_mono (hw : c.IsWeighted) {r r' v v' : Scalar} (hr : c.Takes r) (hr' : c.Takes r')
    (hv : c.Holds v) (hv' : c.Holds v') (hrr : r ≤ r') (hvv : v ≤ v') :
    c.filtered r v ≤ c.filtered r' v' := by
  refine add_le_add_of_nonneg ?_ ?_ ?_ ?_
  · exact nonneg_part hw.1 hw.isFinite hr.nonneg (hr.finite.imp_right And.left)
  · exact part_le_part hw.1 hw.isFinite hr.nonneg hrr (hr'.finite.imp_right And.left)
  · exact nonneg_part hw.nonneg_rest hw.isFinite_rest hv.nonneg (hv.finite.imp_right hw.rest_pos)
  · exact part_le_part hw.nonneg_rest hw.isFinite_rest hv.nonneg hvv
      (hv'.finite.imp_right hw.rest_pos)

end BusSenseConfig

/-! ## Two monitors -/

/-- The first of two states shows no higher voltage, and of the flags what goes with that. -/
structure BusState.Below (s t : BusState) : Prop where
  voltage : s.voltage ≤ t.voltage
  overvoltage : s.overvoltage = true → t.overvoltage = true
  undervoltage : t.undervoltage = true → s.undervoltage = true

namespace BusMonitor

open BusSenseConfig

variable {c : BusSenseConfig} {m n : BusMonitor}

/-- Readings that are taken in the same way, the first one no higher than the second. -/
inductive Event.Below : Event → Event → Prop
  | update {raw raw' : UInt16} (h : raw ≤ raw') : Below (.update raw) (.update raw')
  | preset {raw raw' : UInt16} (h : raw ≤ raw') : Below (.preset raw) (.preset raw')

/-- Two monitors with the parameters `c`, the first one below the second. -/
structure Paired (c : BusSenseConfig) (m n : BusMonitor) : Prop where
  left : m.config = c
  right : n.config = c
  holds_left : c.Holds m.state.voltage
  holds_right : c.Holds n.state.voltage
  below : m.state.Below n.state

theorem paired_setVoltage (hm : m.config = c) (hn : n.config = c) {v w : Scalar} (hv : c.Holds v)
    (hw : c.Holds w) (h : v ≤ w) : Paired c (m.setVoltage v) (n.setVoltage w) := by
  subst hm
  refine ⟨rfl, hn, hv, hw, h, ?_, ?_⟩
  · simp only [setVoltage, hn, decide_eq_true_eq]
    exact fun ho => Scalar.lt_of_lt_of_le ho h
  · simp only [setVoltage, hn, decide_eq_true_eq]
    exact fun hu => Scalar.lt_of_le_of_lt h hu

theorem paired_step (hc : c.Calibrated) (h : Paired c m n) {e f : Event} (hef : e.Below f) :
    Paired c (m.step e) (n.step f) := by
  obtain ⟨rfl, hn, hm', hn', hb⟩ := h
  cases hef with
  | @update raw raw' hle =>
    have hr := hc.takes_voltage raw
    have hr' := hc.takes_voltage raw'
    simp only [step, update, hn]
    exact paired_setVoltage rfl hn (holds_filtered hc.weighted hr hm')
      (holds_filtered hc.weighted hr' hn')
      (filtered_mono hc.weighted hr hr' hm' hn' (hc.voltage_mono hle) hb.voltage)
  | @preset raw raw' hle =>
    simp only [step, preset, hn]
    exact paired_setVoltage rfl hn (hc.takes_voltage raw).holds (hc.takes_voltage raw').holds
      (hc.voltage_mono hle)

theorem paired_run (hc : c.Calibrated) {es fs : List Event} (h : Paired c m n)
    (hes : List.Forall₂ Event.Below es fs) : Paired c (m.run es) (n.run fs) := by
  induction hes generalizing m n with
  | nil => exact h
  | cons hef _ ih => exact ih (paired_step hc h hef)

theorem paired_start (c : BusSenseConfig) : Paired c { config := c } { config := c } :=
  have h0 : c.Holds 0 := ⟨Scalar.le_refl rfl, .inl isFinite_zero⟩
  ⟨rfl, rfl, h0, h0, h0.nonneg, id, id⟩

/-- **A monitor is monotone in its readings**: of two runs that take readings in the same way, the one with the
lower readings has no higher voltage after any of them, and the flags that go with that. -/
theorem run_mono (hc : c.Calibrated) {es fs : List Event} (h : List.Forall₂ Event.Below es fs) (k : ℕ) :
    (run { config := c } (es.take k)).state.Below (run { config := c } (fs.take k)).state :=
  (paired_run hc (paired_start c) (List.forall₂_take k h)).below

theorem calibrated_default : Calibrated {} where
  weighted := by unfold IsWeighted; decide +kernel
  scale := by decide
  vref_finite := rfl
  vref_nonneg := by decide +kernel
  rUpper_finite := rfl
  rUpper_nonneg := by decide +kernel
  rLower_finite := rfl
  rLower_pos := by decide +kernel
  full := by decide +kernel

/-- The first of two monitors of the drive is at its normal voltage. One reading of the second one is beyond
the overvoltage, and stays in its filter. -/
theorem run_mono_of_peak :
    (run {} [.preset 2600, .update 2600]).state.Below (run {} [.preset 4095, .update 2600]).state :=
  have h : List.Forall₂ Event.Below [.preset 2600, .update 2600] [.preset 4095, .update 2600] :=
    .cons (.preset (by decide)) (.cons (.update (by decide)) .nil)
  run_mono calibrated_default h 2

end BusMonitor

end BrushlessDrive
