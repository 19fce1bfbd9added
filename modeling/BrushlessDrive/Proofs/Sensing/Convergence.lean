import BrushlessDrive.Proofs.Sensing.Hull

/-!
# Readings that last

A reading that is taken again and again pulls the stored voltage toward its own. Each update keeps the part
`1 - α` of the distance between the two, and its roundings add to that: the excess of the distance over a
drift that has room for them shrinks by the factor `1 - α` (`excess_filtered`).
-/

set_option autoImplicit false

namespace BrushlessDrive

open Scalar

namespace BusSenseConfig

variable {c : BusSenseConfig} {k : ℤ} {lo hi d : ℚ}

/-- What one update leaves of the excess. -/
theorem excess_filtered (hw : c.IsWeighted) (h : c.Room k lo hi d) {r v : Scalar}
    (hr : r.isFinite = true) (hlo : lo ≤ r.val) (hhi : r.val ≤ hi) (hv : InHull lo hi d v) :
    |(c.filtered r v).val - r.val| - d ≤ (1 - c.filterAlpha.val) * (|v.val - r.val| - d) := by
  obtain ⟨-, h1⟩ := hw.val_le
  have hd := h.nonneg hw
  have hnext := within_filtered hw hr hv.isFinite h.least h.greatest
    (h.abs_val_le (by linarith) (by linarith)) (h.abs_val_le hv.lower hv.upper)
  -- without roundings the distance to the reading is the kept part of what it was
  have hmean : c.filterAlpha.val * r.val + (1 - c.filterAlpha.val) * v.val - r.val =
      (1 - c.filterAlpha.val) * (v.val - r.val) := by ring
  have hdist := abs_sub_le (c.filtered r v).val
    (c.filterAlpha.val * r.val + (1 - c.filterAlpha.val) * v.val) r.val
  rw [hmean, abs_mul, abs_of_nonneg (by linarith : (0 : ℚ) ≤ 1 - c.filterAlpha.val)] at hdist
  linarith [hnext.near.trans h.drift]

end BusSenseConfig

namespace BusMonitor

open BusSenseConfig

variable {c : BusSenseConfig} {k : ℤ} {lo hi d : ℚ}

theorem inHull_voltageAfter (hc : c.Calibrated) (h : c.Room k lo hi d) (hlo : lo ≤ 0) (hhi : 0 ≤ hi)
    (hraws : ∀ r, lo ≤ (c.voltage r).val ∧ (c.voltage r).val ≤ hi) (es : List Event) :
    InHull lo hi d (voltageAfter c es) := by
  induction es using List.reverseRecOn with
  | nil =>
    have hd := h.nonneg hc.weighted
    rw [voltageAfter_nil]
    exact ⟨isFinite_zero, by rw [val_zero]; linarith, by rw [val_zero]; linarith⟩
  | append_singleton es e ih => exact inHull_concat hc h e (hraws e.raw).1 (hraws e.raw).2 ih

theorem updates_succ (es : List Event) (raw : UInt16) (n : ℕ) :
    es ++ List.replicate (n + 1) (.update raw) =
      (es ++ List.replicate n (.update raw)) ++ [.update raw] := by
  rw [List.replicate_succ', List.append_assoc]

theorem excess_updates (hc : c.Calibrated) (h : c.Room k lo hi d) (raw : UInt16)
    (hlo : lo ≤ (c.voltage raw).val) (hhi : (c.voltage raw).val ≤ hi) {es : List Event}
    (hv : InHull lo hi d (voltageAfter c es)) (n : ℕ) :
    InHull lo hi d (voltageAfter c (es ++ List.replicate n (.update raw))) ∧
      |(voltageAfter c (es ++ List.replicate n (.update raw))).val - (c.voltage raw).val| - d ≤
        (1 - c.filterAlpha.val) ^ n * (|(voltageAfter c es).val - (c.voltage raw).val| - d) := by
  induction n with
  | zero => simpa using hv
  | succ n ih =>
    obtain ⟨hvn, hn⟩ := ih
    obtain ⟨-, h1⟩ := hc.weighted.val_le
    rw [updates_succ]
    refine ⟨inHull_concat hc h (.update raw) hlo hhi hvn, ?_⟩
    rw [voltageAfter_update, pow_succ', mul_assoc]
    exact (excess_filtered hc.weighted h (hc.isFinite_voltage raw) hlo hhi hvn).trans
      (mul_le_mul_of_nonneg_left hn (by linarith))

/-! ## The parameters of the drive -/

theorem rest_pow_le {n : ℕ} (hn : 200 ≤ n) :
    0 ≤ (1 - ({} : BusSenseConfig).filterAlpha.val) ^ n ∧
      (1 - ({} : BusSenseConfig).filterAlpha.val) ^ n ≤ 1 / 10 ^ 8 := by
  have h0 : 0 ≤ 1 - ({} : BusSenseConfig).filterAlpha.val := by decide +kernel
  have h91 : 1 - ({} : BusSenseConfig).filterAlpha.val ≤ 91 / 100 := by decide +kernel
  refine ⟨pow_nonneg h0 n, ?_⟩
  calc (1 - ({} : BusSenseConfig).filterAlpha.val) ^ n
      ≤ (1 - ({} : BusSenseConfig).filterAlpha.val) ^ 200 :=
        pow_le_pow_of_le_one h0 (h91.trans (by norm_num)) hn
    _ ≤ (91 / 100) ^ 200 := pow_le_pow_left₀ h0 h91 200
    _ ≤ 1 / 10 ^ 8 := by norm_num

/-- A voltage that any run leads to is forgotten up to a hundredth of a volt. -/
theorem abs_updates_sub_lt (es : List Event) (raw : UInt16) {n : ℕ} (hn : 200 ≤ n) :
    (voltageAfter {} (es ++ List.replicate n (.update raw))).isFinite = true ∧
      |(voltageAfter {} (es ++ List.replicate n (.update raw))).val -
        (({} : BusSenseConfig).voltage raw).val| < 1 / 100 := by
  obtain ⟨hlo, hhi⟩ := val_voltage_default raw
  have hroom : Room {} 10 0 1000 (1 / 200) := room_of_drift le_rfl le_rfl le_rfl (by norm_num)
  have hstart := inHull_voltageAfter calibrated_default hroom le_rfl (by norm_num) val_voltage_default es
  obtain ⟨hend, hleft⟩ := excess_updates calibrated_default hroom raw hlo hhi hstart n
  obtain ⟨hpow, hpow'⟩ := rest_pow_le hn
  have hdist : |(voltageAfter {} es).val - (({} : BusSenseConfig).voltage raw).val| - 1 / 200 ≤ 1001 :=
    sub_le_iff_le_add.2 (abs_le.2 ⟨by linarith [hstart.lower], by linarith [hstart.upper]⟩)
  have hpart := (mul_le_mul_of_nonneg_left hdist hpow).trans
    (mul_le_mul_of_nonneg_right hpow' (by norm_num))
  exact ⟨hend.isFinite, by linarith⟩

theorem undervoltage_of_val {es : List Event} (hne : es ≠ [])
    (hf : (voltageAfter {} es).isFinite = true)
    (h : (voltageAfter {} es).val < ({} : BusSenseConfig).undervoltage.val) :
    (run {} es).state.undervoltage = true := by
  have hs := state_run (c := {}) hne
  rw [hs]
  exact decide_eq_true ((lt_iff (isNaN_of_isFinite hf) rfl).2 h)

/-- **The filter converges from anywhere.** Two hundred updates with one reading leave the flags that the
reading itself would give, unless it is within a hundredth of a volt of a threshold. -/
theorem voltage_converges (es : List Event) (raw : UInt16) {n : ℕ} (hn : 200 ≤ n) :
    let c : BusSenseConfig := {}
    let s := (run {} (es ++ List.replicate n (.update raw))).state
    (s.voltage.isFinite = true ∧ |s.voltage.val - (c.voltage raw).val| < 1 / 100) ∧
    (c.overvoltage.val + 1 / 100 < (c.voltage raw).val → s.overvoltage = true) ∧
    ((c.voltage raw).val < c.undervoltage.val - 1 / 100 → s.undervoltage = true) ∧
    (c.undervoltage.val + 1 / 100 < (c.voltage raw).val →
      (c.voltage raw).val < c.overvoltage.val - 1 / 100 → s.status.powerOk = true) := by
  intro c s
  obtain ⟨hf, hlt⟩ := abs_updates_sub_lt es raw hn
  obtain ⟨hbelow, habove⟩ := abs_lt.1 hlt
  have hne : es ++ List.replicate n (.update raw) ≠ [] :=
    List.append_ne_nil_of_right_ne_nil es (by rw [Ne, List.replicate_eq_nil_iff]; omega)
  have hover : c.overvoltage.val = 30 := by decide +kernel
  have hunder : c.undervoltage.val = 10 := by decide +kernel
  refine ⟨⟨hf, hlt⟩, fun h => ?_, fun h => ?_, fun hlo hhi => ?_⟩
  · rw [hover] at h
    exact overvoltage_of_val hne hf (by linarith)
  · exact undervoltage_of_val hne hf (by linarith)
  · rw [hunder] at hlo
    rw [hover] at hhi
    exact powerOk_of_val hne hf (by linarith) (by linarith)

/-- A monitor at the greatest reading of its converter sees the bus lost, and one that has seen none an
overvoltage. -/
theorem voltage_converges_from_peak_and_rest :
    (run {} ([.preset 65535] ++ List.replicate 200 (.update 0))).state.undervoltage = true ∧
      (run {} ([] ++ List.replicate 250 (.update 3500))).state.overvoltage = true :=
  ⟨(voltage_converges [.preset 65535] 0 (n := 200) (by norm_num)).2.2.1 (by decide +kernel),
    (voltage_converges [] 3500 (n := 250) (by norm_num)).2.1 (by decide +kernel)⟩

end BusMonitor

end BrushlessDrive
