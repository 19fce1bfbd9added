import BrushlessDrive.Proofs.Sensing.Bus

/-!
# What a good power status says

A `BusMonitor` compares the filtered voltage with its two thresholds, and counts the power as good if
neither comparison holds. None holds of a voltage that is no number, so the power is good after that.
-/

set_option autoImplicit false

namespace BrushlessDrive.BusMonitor

open Scalar BusSenseConfig

variable {c : BusSenseConfig}

def PowerOk (c : BusSenseConfig) (es : List Event) : Prop :=
  (run { config := c } es).state.status.powerOk = true

theorem powerOk_iff (es : List Event) : PowerOk c es ↔ es ≠ [] ∧
    ¬ voltageAfter c es < c.undervoltage ∧ ¬ c.overvoltage < voltageAfter c es := by
  by_cases h : es = []
  · simp [h, PowerOk, run, BusState.status, BusState.isOk]
  · rw [PowerOk, state_run h]
    simp [BusState.status, BusState.isOk, h, and_comm]

theorem powerOk_of_isNaN {es : List Event} (h : es ≠ []) (hn : (voltageAfter c es).isNaN = true) :
    PowerOk c es :=
  (powerOk_iff es).2 ⟨h, not_lt_of_isNaN (.inl hn), not_lt_of_isNaN (.inr hn)⟩

/-! ## Fail-safe monitors -/

def FailSafe (c : BusSenseConfig) : Prop := ∀ es, PowerOk c es →
  es ≠ [] ∧ c.undervoltage ≤ voltageAfter c es ∧ voltageAfter c es ≤ c.overvoltage

theorem failSafe_iff (hu : c.undervoltage.isNaN = false) (ho : c.overvoltage.isNaN = false) :
    FailSafe c ↔ ∀ es, (voltageAfter c es).isNaN = false := by
  constructor
  · intro h es
    by_cases hes : es = []
    · subst hes
      rw [voltageAfter_nil]
      exact isNaN_of_isFinite isFinite_zero
    · by_contra hn
      rw [Bool.not_eq_false] at hn
      exact not_le_of_isNaN (.inr hn) (h es (powerOk_of_isNaN hes hn)).2.1
  · intro h es hok
    obtain ⟨hne, hlo, hhi⟩ := (powerOk_iff es).1 hok
    exact ⟨hne, (le_iff_not_lt hu (h es)).2 hlo, (le_iff_not_lt (h es) ho).2 hhi⟩

/-- An infinite reading and a filter that has no part for it, or none for what it holds. -/
theorem exists_isNaN (hw : c.IsWeighted) {raw : UInt16}
    (hr : (c.voltage raw).unpacked = .infinity .positive)
    (h : ¬ (0 < c.filterAlpha ∧ c.filterAlpha < 1)) : ∃ es, (voltageAfter c es).isNaN = true := by
  by_cases h0 : 0 < c.filterAlpha
  · -- the second reading takes nothing of the first one, which was infinite
    refine ⟨[.preset raw] ++ [.update raw], ?_⟩
    obtain ⟨hf, hv⟩ := hw.rest_eq_zero fun h1 => h ⟨h0, h1⟩
    have hv' : voltageAfter c [.preset raw] = c.voltage raw := voltageAfter_preset [] raw
    rw [voltageAfter_update, hv']
    exact isNaN_add_right _ (isNaN_mul_infinity hv hf hr)
  · refine ⟨[] ++ [.update raw], ?_⟩
    rw [voltageAfter_update]
    exact isNaN_add_left (isNaN_mul_infinity (hw.val_eq_zero h0) hw.isFinite hr) _

theorem isNaN_run_iff (hv : 0 ≤ c.vref) (hr : 0 ≤ c.ratio) (hw : c.IsWeighted) :
    (∀ es, (voltageAfter c es).isNaN = false) ↔
      (∀ raw, (c.voltage raw).isNaN = false) ∧
        ((∀ raw, (c.voltage raw).isFinite = true) ∨ 0 < c.filterAlpha ∧ c.filterAlpha < 1) := by
  have hn {raw : UInt16} (h : (c.voltage raw).isNaN = false) : 0 ≤ c.voltage raw :=
    (isNaN_or_nonneg_voltage hv hr raw).resolve_left (by rw [h]; exact Bool.false_ne_true)
  constructor
  · intro h
    have hraw (raw : UInt16) : (c.voltage raw).isNaN = false := by
      have := h ([] ++ [.preset raw])
      rwa [voltageAfter_preset] at this
    refine ⟨hraw, ?_⟩
    by_contra hcon
    rw [not_or, not_forall] at hcon
    obtain ⟨⟨raw, hf⟩, hα⟩ := hcon
    rcases infinity_or_finite (hn (hraw raw)) with hi | ⟨hfin, -⟩
    · obtain ⟨es, hes⟩ := exists_isNaN hw hi hα
      rw [h es] at hes
      cases hes
    · exact hf hfin
  · rintro ⟨hraw, hf⟩ es
    have htakes (raw : UInt16) : c.Takes (c.voltage raw) :=
      ⟨hn (hraw raw), hf.imp_left fun h => h raw⟩
    exact (isNaN_of_le (holds_voltageAfter hw htakes es).nonneg).2

theorem failSafe_of_pos (h0 : c.adcMax ≠ 0) (hv : isPositive c.vref = true)
    (hr : isPositive c.ratio = true) (hα : 0 < c.filterAlpha) (hα' : c.filterAlpha < 1)
    (hu : c.undervoltage.isNaN = false) (ho : c.overvoltage.isNaN = false) : FailSafe c := by
  refine (failSafe_iff hu ho).2 fun es => ?_
  have htakes (raw : UInt16) : c.Takes (c.voltage raw) :=
    ⟨nonneg_voltage h0 hv hr raw, .inr ⟨hα, hα'⟩⟩
  have hw : c.IsWeighted := ⟨Scalar.le_of_lt hα, Scalar.le_of_lt hα'⟩
  exact (isNaN_of_le (holds_voltageAfter hw htakes es).nonneg).2

theorem failSafe_default : FailSafe {} :=
  failSafe_of_pos (by decide) (by decide +kernel) (by decide +kernel) (by decide +kernel)
    (by decide +kernel) rfl rfl

/-- **When a good power status can be trusted**: with thresholds that are numbers, exactly if no run leads to a
voltage that is none. If the divider is not negative, and the weights are parts of a whole, that is a matter of
the single readings and of the two weights. -/
theorem failSafe_law (c : BusSenseConfig) :
    (∀ es, PowerOk c es ↔ es ≠ [] ∧
      ¬ voltageAfter c es < c.undervoltage ∧ ¬ c.overvoltage < voltageAfter c es) ∧
    (c.undervoltage.isNaN = false → c.overvoltage.isNaN = false →
      (FailSafe c ↔ ∀ es, (voltageAfter c es).isNaN = false)) ∧
    (0 ≤ c.vref → 0 ≤ c.ratio → c.IsWeighted →
      ((∀ es, (voltageAfter c es).isNaN = false) ↔
        (∀ raw, (c.voltage raw).isNaN = false) ∧
          ((∀ raw, (c.voltage raw).isFinite = true) ∨ 0 < c.filterAlpha ∧ c.filterAlpha < 1))) ∧
    (∀ es, es ≠ [] → (voltageAfter c es).isNaN = true → ∀ raws : List UInt16,
      PowerOk c (es ++ raws.map .update)) :=
  ⟨powerOk_iff, failSafe_iff, isNaN_run_iff, fun _ hes hn raws =>
    powerOk_of_isNaN (by simp [hes]) (isNaN_updates hn raws)⟩

theorem not_failSafe_without_scale : ¬ FailSafe { adcMax := 0 } := by
  intro h
  have hok : PowerOk { adcMax := 0 } [.update 0] := by
    show (run { config := { adcMax := 0 } } [.update 0]).state.status.powerOk = true
    decide +kernel
  have hle := (h [.update 0] hok).2.1
  exact absurd hle (by decide +kernel)

end BrushlessDrive.BusMonitor
