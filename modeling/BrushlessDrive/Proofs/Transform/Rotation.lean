import BrushlessDrive.Proofs.Scalar.Integer
import BrushlessDrive.Transform

/-!
# Rotated voltages

Sine and cosine of an angle are integers on the scale `2 ^ 31`, and no 32-bit integer is beyond it, so neither
is greater than one. This is so for all angles, those that are no numbers among them.
-/

set_option autoImplicit false

namespace BrushlessDrive

open Scalar Binary32

theorem abs_toInt_le (n : Int32) : |(n.toInt : ℚ)| ≤ 2 ^ 31 := by
  have h : |n.toInt| ≤ 2 ^ 31 := abs_le.2 ⟨n.le_toInt, n.toInt_lt.le⟩
  exact_mod_cast h

theorem abs_ofInt32_mul_le (n : Int32) :
    (ofInt32 n * (1 / 2147483648)).isFinite = true ∧ |(ofInt32 n * (1 / 2147483648)).val| ≤ 1 := by
  have hs : (1 / 2147483648 : Scalar).isFinite = true := by decide +kernel
  have hsv : (1 / 2147483648 : Scalar).val = 1 / 2 ^ 31 := by decide +kernel
  obtain ⟨hn, -, hv⟩ :=
    (isNearest_ofInt32 n).abs_le (representable_two_pow 31) (by norm_num) (abs_toInt_le n)
  obtain ⟨hf, -, hb⟩ := (isNearest_mul hn hs).abs_le representable_one (by norm_num) (by
    rw [hsv, mul_one_div, abs_div, abs_of_pos (by norm_num : (0 : ℚ) < 2 ^ 31)]
    exact (div_le_one (by norm_num)).2 hv)
  exact ⟨hf, hb⟩

theorem abs_cosSin_le (theta : Scalar) :
    ((cosSin theta).1.isFinite = true ∧ |(cosSin theta).1.val| ≤ 1) ∧
      (cosSin theta).2.isFinite = true ∧ |(cosSin theta).2.val| ≤ 1 :=
  ⟨abs_ofInt32_mul_le _, abs_ofInt32_mul_le _⟩

theorem abs_inversePark_le {v : Scalar} (hv : v.isFinite = true) (theta : Scalar) :
    let u := inversePark 0 v theta
    (u.alpha.isFinite = true ∧ |u.alpha.val| ≤ |v.val|) ∧
      u.beta.isFinite = true ∧ |u.beta.val| ≤ |v.val| := by
  intro u
  obtain ⟨⟨hc, hc1⟩, hs, hs1⟩ := abs_cosSin_le theta
  obtain ⟨hdc, hdc0⟩ := val_zero_mul hc
  obtain ⟨hds, hds0⟩ := val_zero_mul hs
  obtain ⟨hqc, hqcv⟩ := abs_mul_le hv hc hc1
  obtain ⟨hqs, hqsv⟩ := abs_mul_le hv hs hs1
  have hr := (representable_val hv).abs
  have hlt := abs_val_lt hv
  -- the other term is zero, so neither sum is rounded beyond the one that is left
  obtain ⟨ha, -, hav⟩ := (isNearest_sub hdc hqs).abs_le hr hlt (by rwa [hdc0, zero_sub, abs_neg])
  obtain ⟨hb, -, hbv⟩ := (isNearest_add hds hqc).abs_le hr hlt (by rwa [hds0, zero_add])
  exact ⟨⟨ha, hav⟩, hb, hbv⟩

end BrushlessDrive
