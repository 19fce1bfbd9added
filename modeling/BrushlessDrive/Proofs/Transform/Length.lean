import BrushlessDrive.Proofs.Scalar.Infinity
import BrushlessDrive.Proofs.Sinusoid
import BrushlessDrive.Proofs.Transform.Rotation

/-!
# The length of a rotated voltage

A rotation keeps the length of a voltage, and what `inversePark` computes is a rotation up to small errors:
those of the sinusoid, which is a matter of the phase word only, and those of six roundings. An angle beyond
half a turn, where the phase word stops, one of infinite size and one that is no number are no exceptions.
-/

set_option autoImplicit false

namespace BrushlessDrive

open Scalar Binary32

/-! ## The sinusoid -/

theorem abs_ofInt32_mul_sub_le (n : Int32) :
    |(ofInt32 n * (1 / 2147483648)).val - n.toInt / 2 ^ 31| ≤ 1 / 2 ^ 23 := by
  have hs : (1 / 2147483648 : Scalar).isFinite = true := by decide +kernel
  have hsv : (1 / 2147483648 : Scalar).val = 1 / 2 ^ 31 := by decide +kernel
  have hn : Within (ofInt32 n) n.toInt (2 ^ 6) := by
    have h := (isNearest_ofInt32 n).within (q := n.toInt) (ε := 0) (k := 31) (by simp) (by norm_num)
      (by norm_num) (by rw [add_zero]; exact_mod_cast abs_toInt_le n)
    exact h.mono (by norm_num)
  have hm := hn.const_mul (k := 1) hs (by norm_num) (by norm_num) (by
    rw [hsv, abs_mul, abs_of_pos (by norm_num : (0 : ℚ) < 1 / 2 ^ 31)]
    linarith [abs_toInt_le n])
  rw [Scalar.mul_comm, hsv] at hm
  have hd : (n.toInt : ℚ) / 2 ^ 31 = 1 / 2 ^ 31 * n.toInt := by ring
  rw [hd]
  refine hm.near.trans ?_
  rw [abs_of_pos (by norm_num)]
  norm_num

theorem cosSin_sq_add_sq (theta : Scalar) :
    |(cosSin theta).1.val ^ 2 + (cosSin theta).2.val ^ 2 - 1| ≤ 6 / 10 ^ 5 := by
  obtain ⟨hlo, hhi⟩ := Sinusoid.cosSin_length (phaseWord theta)
  have hc := abs_ofInt32_mul_sub_le (Sinusoid.cosSin (phaseWord theta)).1
  have hs := abs_ofInt32_mul_sub_le (Sinusoid.cosSin (phaseWord theta)).2
  unfold cosSin
  dsimp only
  generalize (Sinusoid.cosSin (phaseWord theta)).1 = x at *
  generalize (Sinusoid.cosSin (phaseWord theta)).2 = y at *
  have hlo' : (19999 * 2 ^ 62 : ℚ) ≤ 20000 * (x.toInt ^ 2 + y.toInt ^ 2) := by exact_mod_cast hlo
  have hhi' : (x.toInt ^ 2 + y.toInt ^ 2 : ℚ) ≤ 2 ^ 62 := by exact_mod_cast hhi.le
  have hscale : ((x.toInt : ℚ) / 2 ^ 31) ^ 2 + (y.toInt / 2 ^ 31) ^ 2 =
      (x.toInt ^ 2 + y.toInt ^ 2) / 2 ^ 62 := by ring
  have hle : (x.toInt ^ 2 + y.toInt ^ 2 : ℚ) / 2 ^ 62 ≤ 1 := (div_le_one (by norm_num)).2 hhi'
  have hge : (19999 / 20000 : ℚ) ≤ (x.toInt ^ 2 + y.toInt ^ 2) / 2 ^ 62 := by
    rw [le_div_iff₀ (by norm_num)]
    linarith
  have hnear := abs_length_sub_le hc hs zero_le_one (by rw [hscale]; linarith)
  rw [hscale] at hnear
  have hb := abs_le.1 hnear
  rw [abs_le]
  constructor <;> linarith

/-! ## The rotation -/

section

variable {m : ℚ} (hlo : 1 / 2 ^ 60 ≤ m) (hhi : m ≤ 2 ^ 60)
include hlo hhi

theorem within_of_isNearest {x : Scalar} {p : ℚ} (h : IsNearest x p) (hp : |p| ≤ 4 * m) :
    Within x p (m / 2 ^ 21) := by
  obtain ⟨hf, hv⟩ := h.isFinite (by linarith)
  have he := abs_nearest_sub_le_add p
  have hmin : (2 : ℚ) ^ (-150 : ℤ) ≤ 1 / 2 ^ 60 / 2 ^ 24 := by norm_num
  rw [← hv] at he
  exact ⟨hf, by linarith⟩

theorem within_mul {v c : Scalar} (hv : v.isFinite = true) (hvm : |v.val| ≤ m) (hc : c.isFinite = true)
    (hc1 : |c.val| ≤ 1) :
    Within (v * c) (v.val * c.val) (m / 2 ^ 21) ∧ |v.val * c.val| ≤ m := by
  have hb : |v.val * c.val| ≤ m := by
    rw [abs_mul]
    exact (mul_le_of_le_one_right (abs_nonneg _) hc1).trans hvm
  exact ⟨within_of_isNearest hlo hhi (isNearest_mul hv hc) (by linarith), hb⟩

/-- A sum or a difference of two products: three roundings. -/
theorem within_add_sub {x y : Scalar} {p q : ℚ} (hx : Within x p (m / 2 ^ 21)) (hp : |p| ≤ m)
    (hy : Within y q (m / 2 ^ 21)) (hq : |q| ≤ m) :
    Within (x + y) (p + q) (3 * (m / 2 ^ 21)) ∧ Within (x - y) (p - q) (3 * (m / 2 ^ 21)) := by
  have hx' := abs_le.1 hx.near
  have hy' := abs_le.1 hy.near
  have hp' := abs_le.1 hp
  have hq' := abs_le.1 hq
  have hadd := within_of_isNearest hlo hhi (isNearest_add hx.isFinite hy.isFinite)
    (abs_le.2 ⟨by linarith, by linarith⟩)
  have hsub := within_of_isNearest hlo hhi (isNearest_sub hx.isFinite hy.isFinite)
    (abs_le.2 ⟨by linarith, by linarith⟩)
  have hadd' := abs_le.1 hadd.near
  have hsub' := abs_le.1 hsub.near
  exact ⟨⟨hadd.isFinite, abs_le.2 ⟨by linarith, by linarith⟩⟩,
    hsub.isFinite, abs_le.2 ⟨by linarith, by linarith⟩⟩

end

theorem inversePark_within {vd vq : Scalar} (hd : vd.isFinite = true) (hq : vq.isFinite = true) {m : ℚ}
    (hlo : 1 / 2 ^ 60 ≤ m) (hhi : m ≤ 2 ^ 60) (hdm : |vd.val| ≤ m) (hqm : |vq.val| ≤ m)
    (theta : Scalar) :
    let u := inversePark vd vq theta
    let c := (cosSin theta).1.val
    let s := (cosSin theta).2.val
    Within u.alpha (vd.val * c - vq.val * s) (3 * (m / 2 ^ 21)) ∧
      Within u.beta (vd.val * s + vq.val * c) (3 * (m / 2 ^ 21)) := by
  intro u c s
  obtain ⟨⟨hc, hc1⟩, hs, hs1⟩ := abs_cosSin_le theta
  obtain ⟨hdc, hdcm⟩ := within_mul hlo hhi hd hdm hc hc1
  obtain ⟨hds, hdsm⟩ := within_mul hlo hhi hd hdm hs hs1
  obtain ⟨hqc, hqcm⟩ := within_mul hlo hhi hq hqm hc hc1
  obtain ⟨hqs, hqsm⟩ := within_mul hlo hhi hq hqm hs hs1
  exact ⟨(within_add_sub hlo hhi hdc hdcm hqs hqsm).2, (within_add_sub hlo hhi hds hdsm hqc hqcm).1⟩

/-- A rotation by the computed sinusoid keeps the length as well as that does. -/
theorem abs_rotated_sub_le (p q : ℚ) (theta : Scalar) :
    let c := (cosSin theta).1.val
    let s := (cosSin theta).2.val
    |(p * c - q * s) ^ 2 + (p * s + q * c) ^ 2 - (p ^ 2 + q ^ 2)| ≤ 6 / 10 ^ 5 * (p ^ 2 + q ^ 2) := by
  intro c s
  have hn : 0 ≤ p ^ 2 + q ^ 2 := by positivity
  calc |(p * c - q * s) ^ 2 + (p * s + q * c) ^ 2 - (p ^ 2 + q ^ 2)|
      = |(c ^ 2 + s ^ 2 - 1) * (p ^ 2 + q ^ 2)| := by ring_nf
    _ = |c ^ 2 + s ^ 2 - 1| * (p ^ 2 + q ^ 2) := by rw [abs_mul, abs_of_nonneg hn]
    _ ≤ 6 / 10 ^ 5 * (p ^ 2 + q ^ 2) := mul_le_mul_of_nonneg_right (cosSin_sq_add_sq theta) hn

/-- **The length of a rotated voltage**: its square changes by a ten-thousandth at most, at any angle. -/
theorem inversePark_length {vd vq : Scalar} (hd : vd.isFinite = true) (hq : vq.isFinite = true)
    (hlo : 1 / 2 ^ 60 ≤ max |vd.val| |vq.val|) (hhi : max |vd.val| |vq.val| ≤ 2 ^ 60) (theta : Scalar) :
    let u := inversePark vd vq theta
    let n := vd.val ^ 2 + vq.val ^ 2
    (u.alpha.isFinite = true ∧ u.beta.isFinite = true) ∧
      |u.alpha.val ^ 2 + u.beta.val ^ 2 - n| ≤ 1 / 10 ^ 4 * n := by
  intro u n
  have hdm : |vd.val| ≤ max |vd.val| |vq.val| := le_max_left _ _
  have hqm : |vq.val| ≤ max |vd.val| |vq.val| := le_max_right _ _
  have hm : max |vd.val| |vq.val| ^ 2 ≤ n := by
    rcases max_choice |vd.val| |vq.val| with h | h <;> rw [h, sq_abs] <;>
      linarith [sq_nonneg vd.val, sq_nonneg vq.val]
  obtain ⟨ha, hb⟩ := inversePark_within hd hq hlo hhi hdm hqm theta
  have hrot := abs_rotated_sub_le vd.val vq.val theta
  generalize max |vd.val| |vq.val| = m at *
  have hn : n ≤ 2 * m ^ 2 := by
    have hd2 := sq_le_sq' (abs_le.1 hdm).1 (abs_le.1 hdm).2
    have hq2 := sq_le_sq' (abs_le.1 hqm).1 (abs_le.1 hqm).2
    linarith
  have hrot' := abs_le.1 hrot
  have hnear := abs_le.1 (abs_length_sub_le ha.near hb.near (b := 2 * m) (by linarith) (by linarith))
  refine ⟨⟨ha.isFinite, hb.isFinite⟩, abs_le.2 ⟨?_, ?_⟩⟩
  · linarith
  · linarith

/-- An angle far beyond half a turn, at which the phase word stops. -/
theorem inversePark_length_beyond_half_turn :
    let u := inversePark 3 (-4) (-1000)
    (Scalar.val 3 = 3 ∧ Scalar.val (-4) = -4) ∧
      |u.alpha.val ^ 2 + u.beta.val ^ 2 - 5 ^ 2| ≤ 1 / 10 ^ 4 * 5 ^ 2 := by
  intro u
  have h3 : Scalar.val 3 = 3 := by decide +kernel
  have h4 : Scalar.val (-4) = -4 := by decide +kernel
  refine ⟨⟨h3, h4⟩, ?_⟩
  have hf3 : (3 : Scalar).isFinite = true := by decide +kernel
  have hf4 : (-4 : Scalar).isFinite = true := by decide +kernel
  have h := inversePark_length hf3 hf4 (by rw [h3, h4]; norm_num) (by rw [h3, h4]; norm_num) (-1000)
  rw [h3, h4] at h
  have h25 : (3 : ℚ) ^ 2 + (-4) ^ 2 = 5 ^ 2 := by norm_num
  rw [h25] at h
  exact h.2

end BrushlessDrive
