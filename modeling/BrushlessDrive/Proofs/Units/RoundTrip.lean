import BrushlessDrive.Proofs.Scalar.Relative
import BrushlessDrive.Proofs.Units

/-!
# Conversions there and back

Both conversions of a pair use the same factor, be it rounded or not, so that it cancels. What remains of at
most four roundings is a factor near 1, and then the result is rounded once (`IsNearest.recovers`). Only to
multiply last can overflow, and only at the end of the range (`recoversOrOverflows_div_mul`).
-/

set_option autoImplicit false

namespace BrushlessDrive.Units

open Scalar Binary32

variable {x y : Scalar} {poles : UInt32}

/-! ## Domains -/

/-- The conversion refuses the pole counts that no motor has, whatever the scalar. Of the others it refuses
the scalars outside the domain, and has a result for the rest. -/
structure TotalOn (domain : Scalar → Prop) (convert : Scalar → UInt32 → Except ConversionError Scalar) :
    Prop where
  invalidPoleCount : ∀ x poles, convert x poles = .error .invalidPoleCount ↔
    poles.toNat < 2 ∨ poles.toNat % 2 = 1
  nonPositiveInput : ∀ x poles, convert x poles = .error .nonPositiveInput ↔
    ¬ (poles.toNat < 2 ∨ poles.toNat % 2 = 1) ∧ ¬ domain x
  ok : ∀ x poles, (∃ y, convert x poles = .ok y) ↔
    ¬ (poles.toNat < 2 ∨ poles.toNat % 2 = 1) ∧ domain x

theorem isPoleCount_iff_not :
    isPoleCount poles = true ↔ ¬ (poles.toNat < 2 ∨ poles.toNat % 2 = 1) := by
  rw [isPoleCount_iff]
  omega

theorem TotalOn.domain_of_ok {domain : Scalar → Prop}
    {convert : Scalar → UInt32 → Except ConversionError Scalar} (h : TotalOn domain convert)
    (hy : convert x poles = .ok y) : isPoleCount poles = true ∧ domain x := by
  rw [isPoleCount_iff_not]
  exact (h.ok x poles).1 ⟨y, hy⟩

theorem totalOn_of_eq {domain : Scalar → Prop} [DecidablePred domain]
    {convert : Scalar → UInt32 → Except ConversionError Scalar} {result : Scalar → UInt32 → Scalar}
    (h : ∀ x poles, convert x poles =
      if isPoleCount poles then if domain x then .ok (result x poles) else .error .nonPositiveInput
      else .error .invalidPoleCount) : TotalOn domain convert := by
  constructor <;> intro x poles <;> rw [h]
  · rw [← not_iff_not, ← isPoleCount_iff_not]
    by_cases hp : isPoleCount poles = true <;> by_cases hx : domain x <;> simp [hp, hx]
  all_goals
    rw [← isPoleCount_iff_not]
    by_cases hp : isPoleCount poles = true <;> by_cases hx : domain x <;> simp [hp, hx]

theorem totalOn_kvOfFluxLinkage : TotalOn (0 < ·) kvOfFluxLinkage := totalOn_of_eq kvOfFluxLinkage_eq

theorem totalOn_mechanicalOfElectrical : TotalOn (fun _ => True) mechanicalOfElectrical :=
  totalOn_of_eq fun rate poles => by rw [mechanicalOfElectrical_eq, if_pos trivial]

theorem totalOn_electricalOfMechanical : TotalOn (fun _ => True) electricalOfMechanical :=
  totalOn_of_eq fun rate poles => by rw [electricalOfMechanical_eq, if_pos trivial]

/-! ## Results of the round trips -/

theorem kvFluxProduct_spec : kvFluxProduct.isFinite = true ∧ kvFluxProduct.val ≠ 0 := by
  decide +kernel

theorem pos_kvFluxProduct_div (hx : 0 < x) (hxp : IsNormal (x * poles.toFloat32))
    (hn : IsNormal (kvFluxProduct / (x * poles.toFloat32))) (hp : isPoleCount poles = true) :
    0 < kvFluxProduct / (x * poles.toFloat32) := by
  obtain ⟨hf, hlo, -⟩ := poles_spec hp
  have hp0 : 0 < poles.toFloat32 := (pos_iff (isNaN_of_isFinite hf)).2 (by linarith)
  have hprod : 0 < x * poles.toFloat32 := hxp.pos (nonneg_mul_of_pos (Scalar.le_of_lt hx) hp0 hf)
  exact hn.pos (nonneg_div_of_pos (by decide +kernel) hprod hxp.isFinite)

theorem recovers_reciprocal {p : Scalar} (hp : 2 ≤ p.val) (hxp : IsNormal (x * p))
    (hy : kvFluxProduct / (x * p) = y) (hyn : IsNormal y) (hyp : IsNormal (y * p)) :
    Recovers (kvFluxProduct / (y * p)) x := by
  obtain ⟨hc, hc0⟩ := kvFluxProduct_spec
  obtain ⟨hx, -⟩ := isFinite_of_mul hxp.isFinite
  obtain ⟨u, hu, hxu⟩ := hxp.mul_drift
  obtain ⟨v, hv, hyv⟩ := (hy ▸ hyn).div_drift hxp.isFinite hxp.ne_zero
  obtain ⟨w, hw, hyw⟩ := hyp.mul_drift
  have hx0 : x.val ≠ 0 := fun h => hxp.ne_zero (by rw [hxu, h, zero_mul, zero_mul])
  have hlast := isNearest_div hc hyp.isFinite hyp.ne_zero
  have hdrift : Drift 4 (u * (v * w)⁻¹) := (hu.mul (hv.mul hw).inv).mono (by norm_num)
  have hexact : kvFluxProduct.val / (y * p).val = x.val * (u * (v * w)⁻¹) := by
    have hu0 := hu.pos.ne'
    have hv0 := hv.pos.ne'
    have hw0 := hw.pos.ne'
    have hp0 : p.val ≠ 0 := by linarith
    rw [hyw, ← hy, hyv, hxu]
    field_simp
  exact (hexact ▸ hlast).recovers_of_double hdrift hx hxp.isFinite hxu hp hu

theorem recovers_mul_div {h : Scalar} (h1 : 1 ≤ h.val) (hxh : IsNormal (x * h)) :
    Recovers (x * h / h) x := by
  obtain ⟨hx, hh⟩ := isFinite_of_mul hxh.isFinite
  obtain ⟨u, hu, hxu⟩ := hxh.mul_drift
  have hlast := isNearest_div hxh.isFinite hh (by linarith)
  have hexact : (x * h).val / h.val = x.val * u := by
    rw [hxu, mul_right_comm, mul_div_cancel_right₀ _ (by linarith)]
  rw [hexact] at hlast
  exact hlast.recovers (hu.mono (by norm_num)) hx (isFinite_div_of_one_le hxh.isFinite hh h1)

/-- The last rounding can leave the range only for a number that is within `2 ^ -20` of its end. -/
def RecoversOrOverflows (y x : Scalar) : Prop :=
  Recovers y x ∨ y.isInf = true ∧ (1 - 1 / 2 ^ 20) * 2 ^ 128 < |x.val|

theorem recoversOrOverflows_div_mul {h : Scalar} (hh : h.isFinite = true) (h1 : 1 ≤ h.val)
    (hxh : IsNormal (x / h)) : RecoversOrOverflows (x / h * h) x := by
  have h0 : h.val ≠ 0 := by linarith
  have hx := isFinite_of_div hxh.isFinite
  obtain ⟨u, hu, hxu⟩ := hxh.div_drift hh h0
  have hlast := isNearest_mul hxh.isFinite hh
  have hexact : (x / h).val * h.val = x.val * u := by
    rw [hxu, mul_right_comm, div_mul_cancel₀ _ h0]
  rw [hexact] at hlast
  cases hfin : (x / h * h).isFinite with
  | true => exact .inl (hlast.recovers (hu.mono (by norm_num)) hx hfin)
  | false =>
    have hnan : ¬ (x / h * h).isNaN = true := by
      rw [hlast.not_nan]
      exact Bool.false_ne_true
    refine .inr ⟨(isFinite_eq_false_iff.1 hfin).resolve_left hnan, ?_⟩
    by_contra hle
    rw [hlast.isFinite_of_le hu (not_lt.1 hle)] at hfin
    cases hfin

theorem val_two_mul_pi : (2 * pi : Scalar).isFinite = true ∧ (2 * pi : Scalar).val = 2 * pi.val := by
  decide +kernel

theorem pi_spec : pi.isFinite = true ∧ 0 < pi.val := by decide +kernel

theorem sixty_spec : (60 : Scalar).isFinite = true ∧ (60 : Scalar).val = 60 := by decide +kernel

theorem recovers_rpm (ha : IsNormal (x * 60)) (hy : x * 60 / (2 * pi) = y) (hyn : IsNormal y)
    (hb : IsNormal (y * 2)) (hc : IsNormal (y * 2 * pi)) : Recovers (angularVelocityOfRpm y) x := by
  obtain ⟨h60, hv60⟩ := sixty_spec
  obtain ⟨ht, hvt⟩ := val_two_mul_pi
  obtain ⟨hpi, hpi0⟩ := pi_spec
  obtain ⟨hx, -⟩ := isFinite_of_mul ha.isFinite
  obtain ⟨u, hu, hxu⟩ := ha.mul_drift
  obtain ⟨v, hv, hyv⟩ := (hy ▸ hyn).div_drift ht (by rw [hvt]; linarith)
  obtain ⟨w, hw, hyw⟩ := hb.mul_drift
  obtain ⟨r, hr, hyr⟩ := hc.mul_drift
  rw [hv60] at hxu
  have hlast := isNearest_div hc.isFinite h60 (by rw [hv60]; norm_num)
  have hdrift : Drift 4 (u * v * w * r) := ((hu.mul hv).mul hw).mul hr
  have hexact : (y * 2 * pi).val / (60 : Scalar).val = x.val * (u * v * w * r) := by
    rw [hyr, hyw, ← hy, hyv, hxu, hvt, hv60, val_two]
    field_simp
  exact (hexact ▸ hlast).recovers_of_double hdrift hx ha.isFinite hxu (by norm_num) hu

theorem recovers_angularVelocity (ha : IsNormal (x * 2)) (hb : IsNormal (x * 2 * pi))
    (hy : x * 2 * pi / 60 = y) (hyn : IsNormal y) (hc : IsNormal (y * 60)) :
    Recovers (rpmOfAngularVelocity y) x := by
  obtain ⟨h60, hv60⟩ := sixty_spec
  obtain ⟨ht, hvt⟩ := val_two_mul_pi
  obtain ⟨hpi, hpi0⟩ := pi_spec
  obtain ⟨hx, -⟩ := isFinite_of_mul ha.isFinite
  obtain ⟨u, hu, hxu⟩ := ha.mul_drift
  obtain ⟨v, hv, hxv⟩ := hb.mul_drift
  obtain ⟨w, hw, hyw⟩ := (hy ▸ hyn).div_drift h60 (by rw [hv60]; norm_num)
  obtain ⟨r, hr, hyr⟩ := hc.mul_drift
  rw [val_two] at hxu
  have hlast := isNearest_div hc.isFinite ht (by rw [hvt]; linarith)
  have hdrift : Drift 4 (u * v * w * r) := ((hu.mul hv).mul hw).mul hr
  have hexact : (y * 60).val / (2 * pi : Scalar).val = x.val * (u * v * w * r) := by
    rw [hyr, ← hy, hyw, hxv, hxu, hvt, hv60]
    field_simp
  exact (hexact ▸ hlast).recovers_of_double hdrift hx ha.isFinite hxu le_rfl hu

/-! ## Round trips -/

/-- Out by `forth` and home by `back`, which compute `out` and `home` before their results. If all that is
computed before the last result is normal, there is a last result, and it is near to where it set out in
the sense of `R`. -/
def RoundTrip (R : Scalar → Scalar → Prop) (forth back : Scalar → Except ConversionError Scalar)
    (out home : Scalar → List Scalar) : Prop :=
  ∀ x y, forth x = .ok y → (∀ s ∈ out x ++ y :: home y, IsNormal s) → ∃ z, back y = .ok z ∧ R z x

def reciprocalSteps (poles : UInt32) (x : Scalar) : List Scalar := [poles.toFloat32, x * poles.toFloat32]

def rotationSteps (poles : UInt32) (_ : Scalar) : List Scalar := [poles.toFloat32, poles.toFloat32 / 2]

def rpmSteps (w : Scalar) : List Scalar := [w * 60, 2 * pi]

def angularVelocitySteps (rpm : Scalar) : List Scalar := [rpm * 2, rpm * 2 * pi]

theorem roundTrip_reciprocal (poles : UInt32) : RoundTrip Recovers (kvOfFluxLinkage · poles)
    (fluxLinkageOfKv · poles) (reciprocalSteps poles) (reciprocalSteps poles) := by
  intro x y hy hn
  simp only [reciprocalSteps, List.cons_append, List.nil_append, List.forall_mem_cons] at hn
  obtain ⟨-, hxp, hyn, -, hyp, -⟩ := hn
  obtain ⟨hp, hx⟩ := totalOn_kvOfFluxLinkage.domain_of_ok hy
  simp only [kvOfFluxLinkage_eq, if_pos hp, if_pos hx, Except.ok.injEq] at hy
  have hpos : 0 < y := by
    rw [← hy] at hyn ⊢
    exact pos_kvFluxProduct_div hx hxp hyn hp
  refine ⟨_, ?_, recovers_reciprocal (poles_spec hp).2.1 hxp hy hyn hyp⟩
  simp only [fluxLinkageOfKv_eq, kvOfFluxLinkage_eq, if_pos hp, if_pos hpos]

theorem roundTrip_mul_div (poles : UInt32) : RoundTrip Recovers (electricalOfMechanical · poles)
    (mechanicalOfElectrical · poles) (rotationSteps poles) (rotationSteps poles) := by
  intro x y hy hn
  simp only [rotationSteps, List.cons_append, List.nil_append, List.forall_mem_cons] at hn
  obtain ⟨-, -, hyn, -⟩ := hn
  obtain ⟨hp, -⟩ := totalOn_electricalOfMechanical.domain_of_ok hy
  simp only [electricalOfMechanical_eq, if_pos hp, Except.ok.injEq] at hy
  subst hy
  refine ⟨_, ?_, recovers_mul_div (one_le_val (polePairs_spec hp).2) hyn⟩
  simp only [mechanicalOfElectrical_eq, if_pos hp]

theorem roundTrip_div_mul (poles : UInt32) : RoundTrip RecoversOrOverflows (mechanicalOfElectrical · poles)
    (electricalOfMechanical · poles) (rotationSteps poles) (rotationSteps poles) := by
  intro x y hy hn
  simp only [rotationSteps, List.cons_append, List.nil_append, List.forall_mem_cons] at hn
  obtain ⟨-, -, hyn, -⟩ := hn
  obtain ⟨hp, -⟩ := totalOn_mechanicalOfElectrical.domain_of_ok hy
  simp only [mechanicalOfElectrical_eq, if_pos hp, Except.ok.injEq] at hy
  subst hy
  obtain ⟨hf, h1⟩ := polePairs_spec hp
  refine ⟨_, ?_, recoversOrOverflows_div_mul hf (one_le_val h1) hyn⟩
  simp only [electricalOfMechanical_eq, if_pos hp]

theorem roundTrip_rpm : RoundTrip Recovers (.ok ∘ rpmOfAngularVelocity) (.ok ∘ angularVelocityOfRpm)
    rpmSteps angularVelocitySteps := by
  intro x y hy hn
  simp only [rpmSteps, angularVelocitySteps, List.cons_append, List.nil_append, List.forall_mem_cons] at hn
  obtain ⟨ha, -, hyn, hb, hc, -⟩ := hn
  exact ⟨_, rfl, recovers_rpm ha (Except.ok.inj hy) hyn hb hc⟩

theorem roundTrip_angularVelocity : RoundTrip Recovers (.ok ∘ angularVelocityOfRpm)
    (.ok ∘ rpmOfAngularVelocity) angularVelocitySteps rpmSteps := by
  intro x y hy hn
  simp only [rpmSteps, angularVelocitySteps, List.cons_append, List.nil_append, List.forall_mem_cons] at hn
  obtain ⟨ha, hb, hyn, hc, -⟩ := hn
  exact ⟨_, rfl, recovers_angularVelocity ha hb (Except.ok.inj hy) hyn hc⟩

/-- **The law of the conversions**: each has a result on its domain, and the two of a pair undo each other up to
`2 ^ -20` wherever what they compute on the way is normal. From electrical to mechanical rotation and home
excepts the rates at the very end of the range. -/
theorem conversion_law :
    (TotalOn (0 < ·) kvOfFluxLinkage ∧ TotalOn (0 < ·) fluxLinkageOfKv ∧
      TotalOn (fun _ => True) mechanicalOfElectrical ∧ TotalOn (fun _ => True) electricalOfMechanical) ∧
    (∀ poles,
      RoundTrip Recovers (kvOfFluxLinkage · poles) (fluxLinkageOfKv · poles)
        (reciprocalSteps poles) (reciprocalSteps poles) ∧
      RoundTrip Recovers (fluxLinkageOfKv · poles) (kvOfFluxLinkage · poles)
        (reciprocalSteps poles) (reciprocalSteps poles) ∧
      RoundTrip Recovers (electricalOfMechanical · poles) (mechanicalOfElectrical · poles)
        (rotationSteps poles) (rotationSteps poles) ∧
      RoundTrip RecoversOrOverflows (mechanicalOfElectrical · poles) (electricalOfMechanical · poles)
        (rotationSteps poles) (rotationSteps poles)) ∧
    RoundTrip Recovers (.ok ∘ rpmOfAngularVelocity) (.ok ∘ angularVelocityOfRpm)
      rpmSteps angularVelocitySteps ∧
    RoundTrip Recovers (.ok ∘ angularVelocityOfRpm) (.ok ∘ rpmOfAngularVelocity)
      angularVelocitySteps rpmSteps :=
  ⟨⟨totalOn_kvOfFluxLinkage, totalOn_kvOfFluxLinkage, totalOn_mechanicalOfElectrical,
      totalOn_electricalOfMechanical⟩,
    fun poles => ⟨roundTrip_reciprocal poles, roundTrip_reciprocal poles, roundTrip_mul_div poles,
      roundTrip_div_mul poles⟩,
    roundTrip_rpm, roundTrip_angularVelocity⟩

/-- A flux linkage of 4 mWb with 12 poles is a KV of 229.7 RPM per volt, and comes back. -/
theorem conversion_law_of_4_milliweber :
    kvOfFluxLinkage (.ofBits 0x3b83126f) 12 = .ok (.ofBits 0x4365b869) ∧
    ∃ flux, fluxLinkageOfKv (.ofBits 0x4365b869) 12 = .ok flux ∧ Recovers flux (.ofBits 0x3b83126f) :=
  ⟨rfl, (conversion_law.2.1 12).1 (.ofBits 0x3b83126f) (.ofBits 0x4365b869) rfl (by decide +kernel)⟩

/-- The greatest number of the format is lost at 50 poles: its mechanical rate is rounded up, and the way
home leaves the range. -/
theorem greatest_rate_overflows :
    (0 : Scalar) < .ofBits 0x7f7fffff ∧
    mechanicalOfElectrical (.ofBits 0x7f7fffff) 50 = .ok (.ofBits 0x7d23d70a) ∧
    (∀ s ∈ rotationSteps 50 (.ofBits 0x7f7fffff) ++
      .ofBits 0x7d23d70a :: rotationSteps 50 (.ofBits 0x7d23d70a), IsNormal s) ∧
    electricalOfMechanical (.ofBits 0x7d23d70a) 50 = .ok (.ofBits 0x7f800000) ∧
    ¬ Recovers (.ofBits 0x7f800000) (.ofBits 0x7f7fffff) := by
  refine ⟨by decide +kernel, rfl, by decide +kernel, rfl, fun h => ?_⟩
  exact absurd h.isFinite (by decide +kernel)

end BrushlessDrive.Units
