import BrushlessDrive.Proofs.Sensing.FailSafe
import BrushlessDrive.Proofs.Sensing.Monotone
import Mathlib.Data.Finset.Max

/-!
# The filtered voltage and its readings

The filter of a `BusMonitor` weighs each reading against what it holds, so without roundings the stored
voltage would never leave the range of the readings. The computed weights are not quite parts of a whole, and
an update rounds three times more. But the filter also forgets: an update takes back a part of the distance to
that range, which is more than it adds once the distance is a small drift with `Room` for the roundings.
-/

set_option autoImplicit false

namespace BrushlessDrive

open Scalar

namespace BusSenseConfig

variable {c : BusSenseConfig} {k : ℤ}

/-! ## One update -/

theorem IsWeighted.within_rest (h : c.IsWeighted) :
    Within (1 - c.filterAlpha) (1 - c.filterAlpha.val) (1 / 2 ^ 25) := by
  obtain ⟨h0, h1⟩ := h.val_le
  have hs := h.isNearest_rest.within (q := 1 - c.filterAlpha.val) (ε := 0) (k := 0) (by simp)
    (by norm_num) (by norm_num) (by rw [abs_of_nonneg (by linarith), zpow_zero]; linarith)
  exact hs.mono (by norm_num)

theorem abs_weight_mul_le {w q b : ℚ} (hw : 0 ≤ w) (h : |q| ≤ b) : |w * q| ≤ w * b := by
  rw [abs_mul, abs_of_nonneg hw]
  exact mul_le_mul_of_nonneg_left h hw

/-- An update of voltages up to `2 ^ k`: the exact mean of the reading and the voltage so far, and what four
roundings add to it. -/
theorem within_filtered (hw : c.IsWeighted) {r v : Scalar} (hr : r.isFinite = true)
    (hv : v.isFinite = true) (hk : -125 ≤ k) (hk' : k ≤ 126) (hrk : |r.val| ≤ 2 ^ k)
    (hvk : |v.val| ≤ 2 ^ k) :
    Within (c.filtered r v) (c.filterAlpha.val * r.val + (1 - c.filterAlpha.val) * v.val)
      (2 ^ (k - 22)) := by
  obtain ⟨h0, h1⟩ := hw.val_le
  have hrest : 0 ≤ 1 - c.filterAlpha.val := by linarith
  -- the two products and their sum are all rounded below twice the bound
  have hpos : (0 : ℚ) < 2 ^ k := zpow_pos (by norm_num) k
  have htop : (2 : ℚ) ^ (k + 1) = 2 ^ k * 2 := zpow_add_one₀ (by norm_num) k
  have hulp : (2 : ℚ) ^ (k + 1 - 25) = 2 ^ k / 2 ^ 24 := by
    rw [zpow_sub₀ (by norm_num), htop]
    norm_num
    ring
  have htotal : (2 : ℚ) ^ (k - 22) = 2 ^ k / 2 ^ 22 := zpow_sub₀ (by norm_num) k 22
  have hnewb := abs_weight_mul_le h0 hrk
  have holdb := abs_weight_mul_le hrest hvk
  have hweight : |v.val| * (1 / 2 ^ 25) ≤ 2 ^ k / 2 ^ 25 := by linarith
  have hpart : c.filterAlpha.val * 2 ^ k ≤ 2 ^ k := mul_le_of_le_one_left hpos.le h1
  have hpart' : (1 - c.filterAlpha.val) * 2 ^ k ≤ 2 ^ k := mul_le_of_le_one_left hpos.le (by linarith)
  have hnew := (within_val hr).const_mul (k := k + 1) hw.isFinite (by omega) (by omega) (by linarith)
  have hold := hw.within_rest.const_mul (k := k + 1) hv (by omega) (by omega) (by
    rw [mul_comm v.val]
    linarith)
  rw [hulp] at hnew hold
  rw [Scalar.mul_comm v, mul_comm v.val] at hold
  have hsum := hnew.add (k := k + 1) hold (by omega) (by omega) (by
    have := abs_add_le (c.filterAlpha.val * r.val) ((1 - c.filterAlpha.val) * v.val)
    linarith)
  refine hsum.mono ?_
  rw [hulp, htotal]
  linarith

/-! ## The range of the readings -/

/-- A voltage between `lo` and `hi`, up to a drift `d`. -/
structure InHull (lo hi d : ℚ) (v : Scalar) : Prop where
  isFinite : v.isFinite = true
  lower : lo - d ≤ v.val
  upper : v.val ≤ hi + d

/-- Bounds of voltages up to `2 ^ k`, and a drift of which an update takes back as much as its roundings can
add. -/
structure Room (c : BusSenseConfig) (k : ℤ) (lo hi d : ℚ) : Prop where
  least : -125 ≤ k
  greatest : k ≤ 126
  lower : -2 ^ k ≤ lo - d
  upper : hi + d ≤ 2 ^ k
  drift : 2 ^ (k - 22) ≤ c.filterAlpha.val * d

variable {lo hi d : ℚ}

theorem Room.nonneg (h : c.Room k lo hi d) (hw : c.IsWeighted) : 0 ≤ d := by
  have hpos : (0 : ℚ) < 2 ^ (k - 22) := zpow_pos (by norm_num) _
  exact (pos_of_mul_pos_right (hpos.trans_le h.drift) hw.val_le.1).le

theorem Room.abs_val_le (h : c.Room k lo hi d) {q : ℚ} (hlo : lo - d ≤ q) (hhi : q ≤ hi + d) :
    |q| ≤ 2 ^ k :=
  abs_le.2 ⟨h.lower.trans hlo, hhi.trans h.upper⟩

theorem inHull_filtered (hw : c.IsWeighted) (h : c.Room k lo hi d) {r v : Scalar}
    (hr : r.isFinite = true) (hlo : lo ≤ r.val) (hhi : r.val ≤ hi) (hv : InHull lo hi d v) :
    InHull lo hi d (c.filtered r v) := by
  obtain ⟨h0, h1⟩ := hw.val_le
  have hd := h.nonneg hw
  have hrest : 0 ≤ 1 - c.filterAlpha.val := by linarith
  have hnext := within_filtered hw hr hv.isFinite h.least h.greatest
    (h.abs_val_le (by linarith) (by linarith)) (h.abs_val_le hv.lower hv.upper)
  obtain ⟨hnear, hnear'⟩ := abs_le.1 (hnext.near.trans h.drift)
  have hnew := mul_le_mul_of_nonneg_left hlo h0
  have hnew' := mul_le_mul_of_nonneg_left hhi h0
  have hold := mul_le_mul_of_nonneg_left hv.lower hrest
  have hold' := mul_le_mul_of_nonneg_left hv.upper hrest
  -- without roundings the next voltage would be a part of the drift further inside
  have hmean : c.filterAlpha.val * lo + (1 - c.filterAlpha.val) * (lo - d) =
      lo - d + c.filterAlpha.val * d := by ring
  have hmean' : c.filterAlpha.val * hi + (1 - c.filterAlpha.val) * (hi + d) =
      hi + d - c.filterAlpha.val * d := by ring
  exact ⟨hnext.isFinite, by linarith, by linarith⟩

end BusSenseConfig

namespace BusMonitor

open BusSenseConfig

def Event.raw : Event → UInt16
  | .update raw => raw
  | .preset raw => raw

variable {c : BusSenseConfig} {k : ℤ} {lo hi d : ℚ}

theorem inHull_concat (hc : c.Calibrated) (h : c.Room k lo hi d) {es : List Event} (e : Event)
    (hlo : lo ≤ (c.voltage e.raw).val) (hhi : (c.voltage e.raw).val ≤ hi)
    (hv : InHull lo hi d (voltageAfter c es)) : InHull lo hi d (voltageAfter c (es ++ [e])) := by
  have hd := h.nonneg hc.weighted
  cases e with
  | update r =>
    rw [voltageAfter_update]
    exact inHull_filtered hc.weighted h (hc.isFinite_voltage r) hlo hhi hv
  | preset r =>
    rw [voltageAfter_preset]
    exact ⟨hc.isFinite_voltage r, (sub_le_self lo hd).trans hlo, hhi.trans (le_add_of_nonneg_right hd)⟩

/-- A run that starts with a preset keeps the stored voltage in the range of its readings, up to the drift. -/
theorem inHull_run (hc : c.Calibrated) (h : c.Room k lo hi d) (raw : UInt16) (es : List Event)
    (hraws : ∀ r ∈ raw :: es.map Event.raw, lo ≤ (c.voltage r).val ∧ (c.voltage r).val ≤ hi) :
    InHull lo hi d (voltageAfter c (.preset raw :: es)) := by
  induction es using List.reverseRecOn with
  | nil =>
    have hd := h.nonneg hc.weighted
    have hfirst : voltageAfter c [.preset raw] = c.voltage raw := voltageAfter_preset [] raw
    obtain ⟨hlo, hhi⟩ := hraws raw List.mem_cons_self
    rw [hfirst]
    exact ⟨hc.isFinite_voltage raw, by linarith, by linarith⟩
  | append_singleton es e ih =>
    have hlast := hraws e.raw (by simp)
    have hsofar := ih fun r hr => hraws r (by
      rw [List.map_append, ← List.cons_append]
      exact List.mem_append_left _ hr)
    rw [← List.cons_append]
    exact inHull_concat hc h e hlast.1 hlast.2 hsofar

theorem exists_extremes (hc : c.Calibrated) {raws : List UInt16} (hne : raws ≠ []) :
    ∃ l ∈ raws, ∃ m ∈ raws, ∀ r ∈ raws, c.voltage l ≤ c.voltage r ∧ c.voltage r ≤ c.voltage m := by
  have hne' := (List.toFinset_nonempty_iff raws).2 hne
  obtain ⟨l, hl, hmin⟩ := raws.toFinset.exists_min_image (fun r => (c.voltage r).val) hne'
  obtain ⟨m, hm, hmax⟩ := raws.toFinset.exists_max_image (fun r => (c.voltage r).val) hne'
  have hle {r r' : UInt16} (h : (c.voltage r).val ≤ (c.voltage r').val) : c.voltage r ≤ c.voltage r' :=
    (le_iff (isNaN_of_isFinite (hc.isFinite_voltage r)) (isNaN_of_isFinite (hc.isFinite_voltage r'))).2 h
  refine ⟨l, List.mem_toFinset.1 hl, m, List.mem_toFinset.1 hm, fun r hr => ?_⟩
  exact ⟨hle (hmin r (List.mem_toFinset.2 hr)), hle (hmax r (List.mem_toFinset.2 hr))⟩

/-! ## The parameters of the drive -/

/-- Readings up to 1000 V leave room for any drift between five millivolts and a volt. -/
theorem room_of_drift (hlo : 0 ≤ lo) (hhi : hi ≤ 1000) (hd : 1 / 200 ≤ d) (hd' : d ≤ 1) :
    Room {} 10 lo hi d where
  least := by norm_num
  greatest := by norm_num
  lower := by linarith [show (1 : ℚ) ≤ 2 ^ (10 : ℤ) by norm_num]
  upper := by linarith [show (1001 : ℚ) ≤ 2 ^ (10 : ℤ) by norm_num]
  drift := by
    have hα : (2 : ℚ) ^ ((10 : ℤ) - 22) ≤ ({} : BusSenseConfig).filterAlpha.val * (1 / 200) := by
      decide +kernel
    have h0 : (0 : ℚ) ≤ ({} : BusSenseConfig).filterAlpha.val := by decide +kernel
    exact hα.trans (mul_le_mul_of_nonneg_left hd h0)

theorem room_default (hlo : 0 ≤ lo) (hhi : hi ≤ 1000) : Room {} 10 lo hi (1 / 100) :=
  room_of_drift hlo hhi (by norm_num) (by norm_num)

theorem val_voltage_default (raw : UInt16) :
    0 ≤ (({} : BusSenseConfig).voltage raw).val ∧ (({} : BusSenseConfig).voltage raw).val ≤ 1000 := by
  have hle : raw ≤ 65535 := UInt16.le_iff_toNat_le.2 (Nat.le_of_lt_succ raw.toNat_lt)
  obtain ⟨h0, hv⟩ := calibrated_default.voltage_le hle (calibrated_default.isFinite_voltage 65535)
  have hfull : (({} : BusSenseConfig).voltage 65535).val ≤ 1000 := by decide +kernel
  exact ⟨val_nonneg h0, (val_le_val hv).trans hfull⟩

/-- A number within the thresholds passes both comparisons. -/
theorem powerOk_of_val {es : List Event} (hne : es ≠ []) (hf : (voltageAfter {} es).isFinite = true)
    (hlo : 10 ≤ (voltageAfter {} es).val) (hhi : (voltageAfter {} es).val ≤ 30) : PowerOk {} es := by
  have hn := isNaN_of_isFinite hf
  have hunder : ({} : BusSenseConfig).undervoltage.val = 10 := by decide +kernel
  have hover : ({} : BusSenseConfig).overvoltage.val = 30 := by decide +kernel
  refine (powerOk_iff es).2 ⟨hne, ?_, ?_⟩
  · rw [lt_iff hn rfl, hunder]
    exact hlo.not_gt
  · rw [lt_iff rfl hn, hover]
    exact hhi.not_gt

theorem overvoltage_of_val {es : List Event} (hne : es ≠ [])
    (hf : (voltageAfter {} es).isFinite = true) (h : 30 < (voltageAfter {} es).val) :
    (run {} es).state.overvoltage = true := by
  have hover : ({} : BusSenseConfig).overvoltage.val = 30 := by decide +kernel
  have hs := state_run (c := {}) hne
  rw [hs]
  exact decide_eq_true ((lt_iff rfl (isNaN_of_isFinite hf)).2 (hover ▸ h))

/-- **The stored voltage stays with the readings**, up to a hundredth of a volt and for runs of any length. So
readings that are all further than that on one side of a threshold never show a voltage beyond it. -/
theorem voltage_in_hull (raw : UInt16) (es : List Event) :
    let raws := raw :: es.map Event.raw
    let volts (r : UInt16) := ({} : BusSenseConfig).voltage r
    let s := (run {} (.preset raw :: es)).state
    (s.voltage.isFinite = true ∧ ∃ l ∈ raws, ∃ m ∈ raws,
      (∀ r ∈ raws, volts l ≤ volts r ∧ volts r ≤ volts m) ∧
        (volts l).val - 1 / 100 ≤ s.voltage.val ∧ s.voltage.val ≤ (volts m).val + 1 / 100) ∧
    ((∀ r ∈ raws, 1001 / 100 ≤ (volts r).val ∧ (volts r).val ≤ 2999 / 100) →
      s.status.powerOk = true) ∧
    ((∀ r ∈ raws, 3001 / 100 < (volts r).val) → s.overvoltage = true) := by
  intro raws volts s
  have hne : raws ≠ [] := List.cons_ne_nil _ _
  obtain ⟨l, hl, m, hm, hlm⟩ := exists_extremes calibrated_default hne
  have hull := inHull_run calibrated_default
    (room_default (val_voltage_default l).1 (val_voltage_default m).2) raw es
    fun r hr => ⟨val_le_val (hlm r hr).1, val_le_val (hlm r hr).2⟩
  have hrun : Event.preset raw :: es ≠ [] := List.cons_ne_nil _ _
  refine ⟨⟨hull.isFinite, l, hl, m, hm, hlm, hull.lower, hull.upper⟩, fun hr => ?_, fun hr => ?_⟩
  · have hlow := (hr l hl).1
    have hhigh := (hr m hm).2
    exact powerOk_of_val hrun hull.isFinite (by linarith [hull.lower]) (by linarith [hull.upper])
  · have hlow := hr l hl
    exact overvoltage_of_val hrun hull.isFinite (by linarith [hull.lower])

/-- A monitor that starts at the normal voltage of the drive takes two more readings there, and one whose
first reading is above the overvoltage a second one. -/
theorem voltage_in_hull_of_normal_and_high :
    (run {} [.preset 2600, .update 2650, .preset 2550]).state.status.powerOk = true ∧
      (run {} [.preset 3500, .update 3450]).state.overvoltage = true := by
  constructor
  · refine (voltage_in_hull 2600 [.update 2650, .preset 2550]).2.1 ?_
    simp only [List.map, Event.raw, List.forall_mem_cons]
    exact ⟨by decide +kernel, by decide +kernel, by decide +kernel, List.forall_mem_nil _⟩
  · refine (voltage_in_hull 3500 [.update 3450]).2.2 ?_
    simp only [List.map, Event.raw, List.forall_mem_cons]
    exact ⟨by decide +kernel, by decide +kernel, List.forall_mem_nil _⟩

end BusMonitor

end BrushlessDrive
