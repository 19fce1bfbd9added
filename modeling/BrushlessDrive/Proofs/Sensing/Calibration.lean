import BrushlessDrive.Machine
import BrushlessDrive.Proofs.Scalar.Integer
import BrushlessDrive.Proofs.Scalar.Remainder
import BrushlessDrive.Sensing.Current
import Mathlib.Algebra.BigOperators.Group.List.Lemmas
import Mathlib.Algebra.Order.BigOperators.Group.List
import Mathlib.Data.Finset.Max

/-!
# Calibrated offsets

A calibration adds up the readings of each phase in 32-bit words, divides by their number and compares the
mean with the middle of the scale. Up to 65537 readings the sum does not overflow, and up to 256 of them sum
and number are exact, so that the mean is rounded once. What a call leaves is stored whatever it answers.
-/

set_option autoImplicit false

namespace BrushlessDrive.CurrentSense

open Scalar Binary32

/-! ## The readings of one phase -/

def total (xs : List UInt16) : UInt32 := xs.foldl (fun s x => s + x.toUInt32) 0

def meanOf (xs : List UInt16) : Scalar := (total xs).toFloat32 / Scalar.ofNat xs.length

variable {xs ys : List UInt16}

theorem toNat_foldl (s : UInt32) : (xs.foldl (fun s x => s + x.toUInt32) s).toNat =
    (s.toNat + (xs.map UInt16.toNat).sum) % 2 ^ 32 := by
  induction xs generalizing s with
  | nil => simp [Nat.mod_eq_of_lt s.toNat_lt]
  | cons x xs ih =>
    rw [List.foldl_cons, ih, UInt32.toNat_add, UInt16.toNat_toUInt32, Nat.mod_add_mod, List.map_cons,
      List.sum_cons, Nat.add_assoc]

theorem toNat_total : (total xs).toNat = (xs.map UInt16.toNat).sum % 2 ^ 32 := by
  rw [total, toNat_foldl, UInt32.toNat_zero, Nat.zero_add]

theorem total_perm (h : xs.Perm ys) : total xs = total ys := by
  rw [← UInt32.toNat_inj, toNat_total, toNat_total, (h.map _).sum_eq]

theorem sum_le (xs : List UInt16) : (xs.map UInt16.toNat).sum ≤ xs.length * 65535 := by
  have h := List.sum_le_card_nsmul (xs.map UInt16.toNat) 65535
    (List.forall_mem_map.2 fun x _ => Nat.le_of_lt_succ x.toNat_lt)
  rwa [List.length_map, smul_eq_mul] at h

theorem toNat_total_of_length (h : xs.length ≤ 65537) :
    (total xs).toNat = (xs.map UInt16.toNat).sum := by
  have hle := (sum_le xs).trans (Nat.mul_le_mul_right 65535 h)
  rw [toNat_total, Nat.mod_eq_of_lt (by omega)]

/-! ## Means -/

/-- A mean is a number that is not below zero, however many readings there are. -/
theorem meanOf_bounds (h : xs ≠ []) :
    (meanOf xs).isFinite = true ∧ 0 ≤ (meanOf xs).val ∧ (meanOf xs).val ≤ 2 ^ 32 := by
  have hsum : IsNearest (total xs).toFloat32 (total xs).toNat := isNearest_ofNat _
  have hsumle : ((total xs).toNat : ℚ) ≤ 2 ^ 32 := by exact_mod_cast (total xs).toNat_lt.le
  have hsum0 : (0 : ℚ) ≤ (total xs).toNat := Nat.cast_nonneg _
  obtain ⟨hf, hv, hb⟩ := hsum.abs_le (representable_two_pow 32) (by norm_num)
    (by rwa [abs_of_nonneg hsum0])
  have hv0 := val_nonneg (hsum.nonneg hsum0)
  rw [abs_of_nonneg hv0] at hb
  have hlen := isNearest_ofNat xs.length
  have hone : (1 : ℚ) ≤ xs.length := by exact_mod_cast List.length_pos_iff.2 h
  have hlen1 : 1 ≤ Scalar.ofNat xs.length := hlen.ge rfl (by rwa [val_one])
  rcases infinity_or_finite (Scalar.le_trans (Scalar.le_of_lt (by decide +kernel)) hlen1)
    with hinf | ⟨hlf, -⟩
  · -- so many readings that their number is out of range
    obtain ⟨hq, hq0⟩ := div_infinity hf hinf
    exact ⟨hq, hq0.ge, by rw [meanOf, hq0]; norm_num⟩
  · have hlv := val_le_val hlen1
    rw [val_one] at hlv
    have hdiv := isNearest_div hf hlf (by linarith)
    have hq0 : 0 ≤ val (total xs).toFloat32 / (Scalar.ofNat xs.length).val :=
      div_nonneg hv0 (by linarith)
    obtain ⟨hq, -, hqb⟩ := hdiv.abs_le (representable_two_pow 32) (by norm_num) (by
      rw [abs_of_nonneg hq0]
      exact (div_le_self hv0 hlv).trans hb)
    exact ⟨hq, val_nonneg (hdiv.nonneg hq0), (le_abs_self _).trans hqb⟩

/-- `o` is the mean of the readings, rounded once, and not beyond any of their bounds. -/
structure IsMean (xs : List UInt16) (o : Scalar) : Prop where
  nearest : IsNearest o ((xs.map UInt16.toNat).sum / xs.length)
  lower : ∃ l ∈ xs, (∀ x ∈ xs, l ≤ x) ∧ (l.toNat : ℚ) ≤ o.val
  upper : ∃ m ∈ xs, (∀ x ∈ xs, x ≤ m) ∧ o.val ≤ (m.toNat : ℚ)

theorem isNearest_meanOf (h : xs ≠ []) (hlen : xs.length ≤ 256) :
    IsNearest (meanOf xs) ((xs.map UInt16.toNat).sum / xs.length) := by
  have hle := (sum_le xs).trans (Nat.mul_le_mul_right 65535 hlen)
  have hsum : (total xs).toNat = (xs.map UInt16.toNat).sum := toNat_total_of_length (by omega)
  obtain ⟨hsf, hsv⟩ : (total xs).toFloat32.isFinite = true ∧
      val (total xs).toFloat32 = ((total xs).toNat : ℚ) := val_ofNat (by omega)
  obtain ⟨hlf, hlv⟩ := val_ofNat (n := xs.length) (by omega)
  have hpos : (0 : ℚ) < xs.length := by exact_mod_cast List.length_pos_iff.2 h
  have hdiv := isNearest_div hsf hlf (by rw [hlv]; exact hpos.ne')
  rwa [hsv, hlv, hsum] at hdiv

theorem meanOf_mem (h : xs ≠ []) (hlen : xs.length ≤ 256) {lo hi : UInt16}
    (hxs : ∀ x ∈ xs, lo ≤ x ∧ x ≤ hi) :
    (lo.toNat : ℚ) ≤ (meanOf xs).val ∧ (meanOf xs).val ≤ hi.toNat := by
  have hn := isNearest_meanOf h hlen
  have hpos : (0 : ℚ) < xs.length := by exact_mod_cast List.length_pos_iff.2 h
  have hval := hn.val_of_isFinite (meanOf_bounds h).1
  have hlo := List.card_nsmul_le_sum (xs.map UInt16.toNat) lo.toNat
    (List.forall_mem_map.2 fun x hx => UInt16.le_iff_toNat_le.1 (hxs x hx).1)
  have hhi := List.sum_le_card_nsmul (xs.map UInt16.toNat) hi.toNat
    (List.forall_mem_map.2 fun x hx => UInt16.le_iff_toNat_le.1 (hxs x hx).2)
  rw [List.length_map, smul_eq_mul] at hlo hhi
  rw [hval]
  constructor
  · refine le_nearest (representable_natCast (lo.toNat_lt.trans (by norm_num))) ?_
    rw [le_div_iff₀ hpos, mul_comm]
    exact_mod_cast hlo
  · refine nearest_le (representable_natCast (hi.toNat_lt.trans (by norm_num))) ?_
    rw [div_le_iff₀ hpos, mul_comm]
    exact_mod_cast hhi

theorem isMean_meanOf (h : xs ≠ []) (hlen : xs.length ≤ 256) : IsMean xs (meanOf xs) := by
  have hne := (List.toFinset_nonempty_iff xs).2 h
  obtain ⟨l, hl, hmin⟩ := xs.toFinset.exists_min_image UInt16.toNat hne
  obtain ⟨m, hm, hmax⟩ := xs.toFinset.exists_max_image UInt16.toNat hne
  have hmin' (x : UInt16) (hx : x ∈ xs) : l ≤ x :=
    UInt16.le_iff_toNat_le.2 (hmin x (List.mem_toFinset.2 hx))
  have hmax' (x : UInt16) (hx : x ∈ xs) : x ≤ m :=
    UInt16.le_iff_toNat_le.2 (hmax x (List.mem_toFinset.2 hx))
  obtain ⟨hlo, hhi⟩ := meanOf_mem h hlen fun x hx => ⟨hmin' x hx, hmax' x hx⟩
  exact ⟨isNearest_meanOf h hlen, ⟨l, List.mem_toFinset.1 hl, hmin', hlo⟩,
    ⟨m, List.mem_toFinset.1 hm, hmax', hhi⟩⟩

/-! ## Calibrations -/

theorem sums_eq (samples : List (PhasePair UInt16)) :
    sums samples = ⟨total (samples.map (·.a)), total (samples.map (·.b))⟩ := by
  have hfold (s : PhasePair UInt32) :
      samples.foldl (fun s x => (⟨s.a + x.a.toUInt32, s.b + x.b.toUInt32⟩ : PhasePair UInt32)) s =
        ⟨(samples.map (·.a)).foldl (fun s x => s + x.toUInt32) s.a,
          (samples.map (·.b)).foldl (fun s x => s + x.toUInt32) s.b⟩ := by
    induction samples generalizing s with
    | nil => rfl
    | cons x samples ih => exact ih _
  exact hfold ⟨0, 0⟩

theorem mean_eq (samples : List (PhasePair UInt16)) :
    mean samples = ⟨meanOf (samples.map (·.a)), meanOf (samples.map (·.b))⟩ := by
  rw [mean, sums_eq, meanOf, meanOf, List.length_map, List.length_map]

/-- An offset is no further from the middle than the limit, both as they are computed. -/
def InRange (c : CurrentSenseConfig) (offset : Scalar) : Prop :=
  (offset - c.midRail).abs ≤ c.adcMax.toFloat32 * maxOffsetDeviation

theorem midRail_bounds (c : CurrentSenseConfig) :
    c.midRail.isFinite = true ∧ 0 ≤ c.midRail.val ∧ c.midRail.val ≤ 2 ^ 16 := by
  obtain ⟨hf, hv⟩ := val_toFloat32 c.adcMax
  have hn := isNearest_div hf isFinite_two (by norm_num [val_two])
  have hle : (c.adcMax.toNat : ℚ) ≤ 2 ^ 16 := by exact_mod_cast c.adcMax.toNat_lt.le
  have h0 : (0 : ℚ) ≤ c.adcMax.toNat := Nat.cast_nonneg _
  rw [val_two, hv] at hn
  obtain ⟨hmf, -, hmb⟩ := hn.abs_le (representable_two_pow 16) (by norm_num)
    (by rw [abs_of_nonneg (by linarith)]; linarith)
  exact ⟨hmf, val_nonneg (hn.nonneg (by linarith)), (le_abs_self _).trans hmb⟩

theorem limit_bounds (c : CurrentSenseConfig) :
    (c.adcMax.toFloat32 * maxOffsetDeviation).isFinite = true ∧
      0 ≤ val (c.adcMax.toFloat32 * maxOffsetDeviation) := by
  have h1 : |maxOffsetDeviation.val| ≤ 1 := by decide +kernel
  have h0 : 0 ≤ c.adcMax.toFloat32 * maxOffsetDeviation :=
    nonneg_mul_of_pos (nonneg_toFloat32 _) (by decide +kernel) rfl
  exact ⟨(abs_mul_le (val_toFloat32 _).1 rfl h1).1, val_nonneg h0⟩

/-- An offset up to `2 ^ 32` can be compared with the limit. -/
theorem isOutOfRange_eq_false_iff {c : CurrentSenseConfig} {o : Scalar} (hf : o.isFinite = true)
    (h0 : 0 ≤ o.val) (hb : o.val ≤ 2 ^ 32) : isOutOfRange c o = false ↔ InRange c o := by
  obtain ⟨hmf, hm0, hmb⟩ := midRail_bounds c
  have hd := isNearest_sub hf hmf
  have hdf := (hd.isFinite (by
    rw [abs_le]
    norm_num at hb hmb ⊢
    constructor <;> linarith)).1
  have ha := isNaN_of_isFinite (abs_spec hdf).1
  rw [isOutOfRange, decide_eq_false_iff_not, InRange,
    le_iff_not_lt ha (isNaN_of_isFinite (limit_bounds c).1)]

theorem calibrate_cases (s : CurrentSense) (samples : List (PhasePair UInt16)) :
    (samples = [] ∧ s.calibrate samples = (.ok (), s)) ∨
    (samples ≠ [] ∧ ¬ (InRange s.config (mean samples).a ∧ InRange s.config (mean samples).b) ∧
      s.calibrate samples = (.error .offsetOutOfRange, s)) ∨
    (samples ≠ [] ∧ InRange s.config (mean samples).a ∧ InRange s.config (mean samples).b ∧
      s.calibrate samples = (.ok (), { s with offset := mean samples })) := by
  by_cases hs : samples = []
  · exact .inl ⟨hs, by rw [hs]; rfl⟩
  have hrange (f : PhasePair UInt16 → UInt16) :
      isOutOfRange s.config (meanOf (samples.map f)) = false ↔
        InRange s.config (meanOf (samples.map f)) := by
    have hne : samples.map f ≠ [] := mt List.map_eq_nil_iff.1 hs
    obtain ⟨hf, h0, hb⟩ := meanOf_bounds hne
    exact isOutOfRange_eq_false_iff hf h0 hb
  rw [mean_eq, ← hrange, ← hrange, calibrate, mean_eq]
  cases ha : isOutOfRange s.config (meanOf (samples.map (·.a))) <;>
    cases hb : isOutOfRange s.config (meanOf (samples.map (·.b))) <;>
    simp [hs, ha, hb]

theorem calibrate_error_iff (s : CurrentSense) (samples : List (PhasePair UInt16))
    (e : CurrentSenseError) : (s.calibrate samples).1 = .error e ↔ samples ≠ [] ∧
      ¬ (InRange s.config (mean samples).a ∧ InRange s.config (mean samples).b) := by
  cases e
  obtain ⟨h0, hs⟩ | ⟨hne, hout, hs⟩ | ⟨-, ha, hb, hs⟩ := calibrate_cases s samples
  · exact iff_of_false (by rw [hs]; exact nofun) fun h => h.1 h0
  · exact iff_of_true (by rw [hs]) ⟨hne, hout⟩
  · exact iff_of_false (by rw [hs]; exact nofun) fun h => h.2 ⟨ha, hb⟩

/-- A refusal leaves the measurement as it was. -/
theorem state_of_error {s : CurrentSense} {samples : List (PhasePair UInt16)} {e : CurrentSenseError}
    (h : (s.calibrate samples).1 = .error e) : (s.calibrate samples).2 = s := by
  obtain ⟨-, hs⟩ | ⟨-, -, hs⟩ | ⟨-, -, -, hs⟩ := calibrate_cases s samples
  · rw [hs]
  · rw [hs]
  · rw [hs] at h
    cases h

theorem state_of_ok {s : CurrentSense} {samples : List (PhasePair UInt16)} (hne : samples ≠ [])
    (h : (s.calibrate samples).1 = .ok ()) :
    (s.calibrate samples).2 = { s with offset := mean samples } := by
  obtain ⟨h0, -⟩ | ⟨-, -, hs⟩ | ⟨-, -, -, hs⟩ := calibrate_cases s samples
  · exact absurd h0 hne
  · rw [hs] at h
    cases h
  · rw [hs]

theorem calibrate_perm (s : CurrentSense) {samples samples' : List (PhasePair UInt16)}
    (h : samples.Perm samples') : s.calibrate samples' = s.calibrate samples := by
  have hmean : mean samples' = mean samples := by
    rw [mean_eq, mean_eq, meanOf, meanOf, meanOf, meanOf, total_perm (h.map (·.a)),
      total_perm (h.map (·.b)), (h.map (·.a)).length_eq, (h.map (·.b)).length_eq]
  rw [calibrate, calibrate, hmean, h.isEmpty_eq]

/-- A reading at the offset is no current. -/
theorem current_at_offset {s : CurrentSense} {raw : UInt16} {o : Scalar} (hf : o.isFinite = true)
    (hv : o.val = raw.toNat) (ha : s.ampsPerCount.isFinite = true) : (s.current raw o == 0) = true := by
  obtain ⟨hrf, hrv⟩ := val_toFloat32 raw
  have hzero : Representable 0 := representable_val isFinite_zero
  have hd := isNearest_sub hrf hf
  rw [hrv, hv, sub_self] at hd
  obtain ⟨hdf, hdv⟩ := hd.exact hzero (by norm_num)
  have hm := isNearest_mul hdf ha
  rw [hdv, zero_mul] at hm
  obtain ⟨hmf, hmv⟩ := hm.exact hzero (by norm_num)
  exact (beq_iff (isNaN_of_isFinite hmf) rfl).2 hmv

/-! ## Sequences of calibrations -/

def afterCalibrations (c : CurrentSenseConfig) (calls : List (List (PhasePair UInt16))) :
    CurrentSense :=
  (Machine.run calibrate (ofConfig c) calls).2

/-- What every sequence of calibrations keeps. -/
structure Calibrated (c : CurrentSenseConfig) (s : CurrentSense) : Prop where
  config : s.config = c
  ampsPerCount : s.ampsPerCount = c.ampsPerCount
  offset_a : InRange c s.offset.a
  offset_b : InRange c s.offset.b

theorem inRange_midRail (c : CurrentSenseConfig) : InRange c c.midRail := by
  obtain ⟨hf, -, -⟩ := midRail_bounds c
  obtain ⟨hlf, hl0⟩ := limit_bounds c
  have hd := isNearest_sub hf hf
  rw [sub_self] at hd
  obtain ⟨hdf, hdv⟩ := hd.exact (representable_val isFinite_zero) (by norm_num)
  obtain ⟨haf, hav⟩ := abs_spec hdf
  rw [InRange, le_iff (isNaN_of_isFinite haf) (isNaN_of_isFinite hlf), hav, hdv, abs_zero]
  exact hl0

theorem calibrated_calibrate {c : CurrentSenseConfig} {s : CurrentSense} (h : Calibrated c s)
    (samples : List (PhasePair UInt16)) : Calibrated c (s.calibrate samples).2 := by
  obtain ⟨-, hs⟩ | ⟨-, -, hs⟩ | ⟨-, ha, hb, hs⟩ := calibrate_cases s samples <;> rw [hs]
  · exact h
  · exact h
  · rw [h.config] at ha hb
    exact ⟨h.config, h.ampsPerCount, ha, hb⟩

theorem calibrated_afterCalibrations (c : CurrentSenseConfig)
    (calls : List (List (PhasePair UInt16))) : Calibrated c (afterCalibrations c calls) := by
  have hbegin : Calibrated c (ofConfig c) := ⟨rfl, rfl, inRange_midRail c, inRange_midRail c⟩
  exact Machine.run_induction (P := Calibrated c) (fun s samples h => calibrated_calibrate h samples)
    hbegin calls

/-- Samples that are all alike are what their mean is. -/
theorem meanOf_replicate {n : ℕ} (h0 : 0 < n) (hn : n ≤ 256) (x : UInt16) :
    (meanOf (List.replicate n x)).isFinite = true ∧ (meanOf (List.replicate n x)).val = x.toNat := by
  have hne : List.replicate n x ≠ [] := mt (List.replicate_eq_nil_iff _).1 h0.ne'
  have hall : ∀ y ∈ List.replicate n x, x ≤ y ∧ y ≤ x := by
    intro y hy
    rw [List.eq_of_mem_replicate hy]
    exact ⟨UInt16.le_refl x, UInt16.le_refl x⟩
  obtain ⟨hlo, hhi⟩ := meanOf_mem hne (by rwa [List.length_replicate]) hall
  exact ⟨(meanOf_bounds hne).1, le_antisymm hhi hlo⟩

theorem currents_at_rest {s : CurrentSense} {raw : PhasePair UInt16} {n : ℕ} (h0 : 0 < n)
    (hn : n ≤ 256) (h : (s.calibrate (List.replicate n raw)).1 = .ok ())
    (ha : s.ampsPerCount.isFinite = true) :
    ((s.calibrate (List.replicate n raw)).2.currents raw == ⟨0, 0⟩) = true := by
  have hne : List.replicate n raw ≠ [] := mt (List.replicate_eq_nil_iff _).1 h0.ne'
  have hrest (x : UInt16) : (s.current x (meanOf (List.replicate n x)) == 0) = true := by
    obtain ⟨hf, hv⟩ := meanOf_replicate h0 hn x
    exact current_at_offset hf hv ha
  rw [state_of_ok hne h, mean_eq, List.map_replicate, List.map_replicate]
  exact Bool.and_eq_true_iff.2 ⟨hrest raw.a, hrest raw.b⟩

/-- **Calibrations.** What any sequence of calibrations leaves, accepted or refused, and what the next one
answers and stores: it changes the offsets only if their deviations are within the limit, and then to the means
of its samples, in whatever order these come. -/
theorem calibration_law (c : CurrentSenseConfig) (calls : List (List (PhasePair UInt16))) :
    let s := afterCalibrations c calls
    Calibrated c s ∧
    s.calibrate [] = (.ok (), s) ∧
    (∀ samples e, (s.calibrate samples).1 = .error e ↔ samples ≠ [] ∧
      ¬ (InRange c (mean samples).a ∧ InRange c (mean samples).b)) ∧
    (∀ samples e, (s.calibrate samples).1 = .error e → (s.calibrate samples).2 = s) ∧
    (∀ samples : List (PhasePair UInt16), samples.length ≤ 65537 →
      (sums samples).a.toNat = (samples.map (·.a.toNat)).sum ∧
        (sums samples).b.toNat = (samples.map (·.b.toNat)).sum) ∧
    (∀ samples samples' : List (PhasePair UInt16), samples.Perm samples' →
      s.calibrate samples' = s.calibrate samples) ∧
    (∀ samples, samples ≠ [] → samples.length ≤ 256 → (s.calibrate samples).1 = .ok () →
      IsMean (samples.map (·.a)) (s.calibrate samples).2.offset.a ∧
        IsMean (samples.map (·.b)) (s.calibrate samples).2.offset.b) ∧
    (∀ raw n, 0 < n → n ≤ 256 → (s.calibrate (List.replicate n raw)).1 = .ok () →
      c.ampsPerCount.isFinite = true →
        ((s.calibrate (List.replicate n raw)).2.currents raw == ⟨0, 0⟩) = true) := by
  intro s
  have hs : Calibrated c s := calibrated_afterCalibrations c calls
  refine ⟨hs, rfl, fun samples e => hs.config ▸ calibrate_error_iff s samples e,
    fun samples e he => state_of_error he, fun samples hlen => ?_,
    fun _ _ hperm => calibrate_perm s hperm, fun samples hne hlen hok => ?_,
    fun raw n h0 hn hok ha => currents_at_rest h0 hn hok (hs.ampsPerCount ▸ ha)⟩
  · have hsum (f : PhasePair UInt16 → UInt16) :
        (total (samples.map f)).toNat = (samples.map fun x => (f x).toNat).sum := by
      rw [toNat_total_of_length (by rwa [List.length_map]), List.map_map]
      rfl
    rw [sums_eq]
    exact ⟨hsum _, hsum _⟩
  · have hmean (f : PhasePair UInt16 → UInt16) : IsMean (samples.map f) (meanOf (samples.map f)) :=
      isMean_meanOf (by simpa using hne) (by rwa [List.length_map])
    rw [state_of_ok hne hok, mean_eq]
    exact ⟨hmean _, hmean _⟩

/-- A calibration is refused for a phase whose amplifier is off; the next one, at rest, is accepted. -/
theorem calibration_law_after_refusal :
    let off : List (PhasePair UInt16) := [⟨2048, 12⟩, ⟨2048, 10⟩]
    let rest : List (PhasePair UInt16) := List.replicate 3 ⟨2002, 2102⟩
    let s := afterCalibrations {} [off]
    let s' := (s.calibrate rest).2
    (s.calibrate off).1 = .error .offsetOutOfRange ∧ (s.calibrate off).2 = s ∧
      (s.calibrate rest).1 = .ok () ∧ IsMean (rest.map (·.a)) s'.offset.a ∧
      IsMean (rest.map (·.b)) s'.offset.b ∧ (s'.currents ⟨2002, 2102⟩ == ⟨0, 0⟩) = true := by
  intro off rest s s'
  obtain ⟨-, -, -, hrefused, -, -, hmean, hrest⟩ := calibration_law {} [off]
  have herror : (s.calibrate off).1 = .error .offsetOutOfRange := by decide +kernel
  have hok : (s.calibrate rest).1 = .ok () := by decide +kernel
  obtain ⟨ha, hb⟩ := hmean rest (by decide) (by decide) hok
  exact ⟨herror, hrefused off _ herror, hok, ha, hb,
    hrest ⟨2002, 2102⟩ 3 (by norm_num) (by norm_num) hok (by decide +kernel)⟩

end BrushlessDrive.CurrentSense
