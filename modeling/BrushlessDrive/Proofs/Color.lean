import BrushlessDrive.Indicator

/-!
# The duty of a lamp

A level is a part of 255, and its duty the same part of the timer's maximum, rounded down
(`toNat_indicatorDuty`). The words that it is computed in are wide enough for every maximum of 32 bits, so
what holds of the quotient holds of the duty, and those of a register for every maximum of 16.
-/

set_option autoImplicit false

namespace BrushlessDrive

section

variable (v w : UInt8) (m n : UInt32)

/-! ## Words -/

theorem toNat_mul_maxDuty : (v.toUInt64 * m.toUInt64).toNat = v.toNat * m.toNat := by
  have hv := v.toNat_lt
  have hm := m.toNat_lt
  have hlt : v.toNat * m.toNat < 2 ^ 64 :=
    calc v.toNat * m.toNat ≤ 2 ^ 8 * 2 ^ 32 := Nat.mul_le_mul (Nat.le_of_lt hv) (Nat.le_of_lt hm)
      _ < 2 ^ 64 := by decide
  rw [UInt64.toNat_mul, UInt8.toNat_toUInt64, UInt32.toNat_toUInt64, Nat.mod_eq_of_lt hlt]

theorem toNat_mul_maxDuty_div : (v.toUInt64 * m.toUInt64 / 255).toNat = v.toNat * m.toNat / 255 := by
  rw [UInt64.toNat_div, toNat_mul_maxDuty]
  rfl

theorem mul_maxDuty_div_le : v.toNat * m.toNat / 255 ≤ m.toNat := by
  have hv : v.toNat ≤ 255 := Nat.le_of_lt_succ v.toNat_lt
  exact Nat.div_le_of_le_mul (Nat.mul_le_mul_right _ hv)

theorem toNat_indicatorDuty : (indicatorDuty v m).toNat = v.toNat * m.toNat / 255 := by
  have hlt := Nat.lt_of_le_of_lt (mul_maxDuty_div_le v m) m.toNat_lt
  rw [indicatorDuty, UInt64.toNat_toUInt32, toNat_mul_maxDuty_div, Nat.mod_eq_of_lt hlt]

theorem toUInt64_indicatorDuty :
    (indicatorDuty v m).toUInt64 = v.toUInt64 * m.toUInt64 / 255 := by
  rw [← UInt64.toNat_inj, UInt32.toNat_toUInt64, toNat_indicatorDuty, toNat_mul_maxDuty_div]

/-! ## Duties -/

theorem indicatorDuty_le : indicatorDuty v m ≤ m := by
  rw [UInt32.le_iff_toNat_le, toNat_indicatorDuty]
  exact mul_maxDuty_div_le v m

theorem indicatorDuty_full : indicatorDuty 255 m = m := by
  rw [← UInt32.toNat_inj, toNat_indicatorDuty]
  exact Nat.mul_div_cancel_left _ (by decide)

theorem indicatorDuty_zero : indicatorDuty 0 m = 0 := by
  rw [← UInt32.toNat_inj, toNat_indicatorDuty, UInt8.toNat_zero, Nat.zero_mul, Nat.zero_div,
    UInt32.toNat_zero]

variable {v w m n}

theorem indicatorDuty_mono (hv : v ≤ w) (hm : m ≤ n) : indicatorDuty v m ≤ indicatorDuty w n := by
  rw [UInt32.le_iff_toNat_le, toNat_indicatorDuty, toNat_indicatorDuty]
  exact Nat.div_le_div_right
    (Nat.mul_le_mul (UInt8.le_iff_toNat_le.1 hv) (UInt32.le_iff_toNat_le.1 hm))

theorem indicatorDuty_pos (hv : 0 < v) (hm : 255 ≤ m) : 0 < indicatorDuty v m := by
  have hv' : 1 ≤ v.toNat := UInt8.lt_iff_toNat_lt.1 hv
  have hm' : 255 ≤ m.toNat := UInt32.le_iff_toNat_le.1 hm
  rw [UInt32.lt_iff_toNat_lt, toNat_indicatorDuty]
  exact Nat.div_pos (Nat.le_trans hm' (Nat.le_mul_of_pos_left _ hv')) (by decide)

variable (v m) in
/-- The two products make up 255 times the maximum, and the fractions that the quotients lose make up less
than 2. -/
theorem indicatorDuty_add_complement :
    (indicatorDuty v m).toNat + (indicatorDuty (255 - v) m).toNat = m.toNat ∨
      (indicatorDuty v m).toNat + (indicatorDuty (255 - v) m).toNat + 1 = m.toNat := by
  have hv : v.toNat ≤ 255 := Nat.le_of_lt_succ v.toNat_lt
  have hc : (255 - v).toNat = 255 - v.toNat := UInt8.toNat_sub_of_le _ _ (UInt8.le_iff_toNat_le.2 hv)
  have hsum : v.toNat * m.toNat + (255 - v.toNat) * m.toNat = 255 * m.toNat := by
    rw [← Nat.add_mul, Nat.add_sub_cancel' hv]
  rw [toNat_indicatorDuty, toNat_indicatorDuty, hc]
  omega

end

/-! ## Colours -/

theorem get_duties_le (c : Color) (m : UInt32) (l : Lamp) : (c.duties m).get l ≤ m := by
  rw [Color.duties, Rgb.get_map]
  exact indicatorDuty_le _ m

theorem toUInt32_toUInt16_get_duties (c : Color) (m : UInt16) (l : Lamp) :
    ((c.duties m.toUInt32).get l).toUInt16.toUInt32 = (c.duties m.toUInt32).get l := by
  have hle := UInt32.le_iff_toNat_le.1 (get_duties_le c m.toUInt32 l)
  rw [UInt16.toNat_toUInt32] at hle
  rw [← UInt32.toNat_inj, UInt16.toNat_toUInt32, UInt32.toNat_toUInt16,
    Nat.mod_eq_of_lt (Nat.lt_of_le_of_lt hle m.toNat_lt)]

theorem exists_duty_of_mem_colorOps {t : LampTimer} {c : Color} {op : LampTimer.Op}
    (h : op ∈ t.colorOps c) :
    ∃ l x, op = .duty l x ∧ x.toUInt32 = (c.duties t.maxDuty.toUInt32).get l ∧ x ≤ t.maxDuty := by
  obtain ⟨l, -, rfl⟩ := List.mem_map.1 h
  refine ⟨l, _, rfl, ?_, ?_⟩
  · rw [Rgb.get_map, toUInt32_toUInt16_get_duties]
  · have hle := get_duties_le c t.maxDuty.toUInt32 l
    rw [← toUInt32_toUInt16_get_duties, UInt32.le_iff_toNat_le, UInt16.toNat_toUInt32,
      UInt16.toNat_toUInt32] at hle
    rw [Rgb.get_map, UInt16.le_iff_toNat_le]
    exact hle

/-- **The law of the duties**, for every level and every maximum: the words of the computation, its ends, its
order, what two complementary levels make up, and what showing a colour writes. -/
theorem indicatorDuty_law :
    (∀ (v : UInt8) (m : UInt32), (v.toUInt64 * m.toUInt64).toNat = v.toNat * m.toNat ∧
      (v.toUInt64 * m.toUInt64 / 255).toNat = v.toNat * m.toNat / 255 ∧
      (indicatorDuty v m).toUInt64 = v.toUInt64 * m.toUInt64 / 255 ∧
      (indicatorDuty v m).toNat = v.toNat * m.toNat / 255) ∧
    (∀ v m, indicatorDuty v m ≤ m ∧ indicatorDuty 255 m = m ∧ indicatorDuty 0 m = 0) ∧
    (∀ v w m n, v ≤ w → m ≤ n → indicatorDuty v m ≤ indicatorDuty w n) ∧
    (∀ v m, 0 < v → 255 ≤ m → 0 < indicatorDuty v m) ∧
    (∀ v m, (indicatorDuty v m).toNat + (indicatorDuty (255 - v) m).toNat = m.toNat ∨
      (indicatorDuty v m).toNat + (indicatorDuty (255 - v) m).toNat + 1 = m.toNat) ∧
    (∀ (c : Color) m l, (c.duties m).get l ≤ m) ∧
    (∀ (t : LampTimer) (c : Color), ∀ op ∈ t.colorOps c, ∃ l x, op = .duty l x ∧
      x.toUInt32 = (c.duties t.maxDuty.toUInt32).get l ∧ x ≤ t.maxDuty) := by
  refine ⟨fun v m => ?_, fun v m => ?_, fun v w m n hv hm => indicatorDuty_mono hv hm,
    fun v m hv hm => indicatorDuty_pos hv hm, indicatorDuty_add_complement, get_duties_le,
    fun t c op hop => exists_duty_of_mem_colorOps hop⟩
  · exact ⟨toNat_mul_maxDuty v m, toNat_mul_maxDuty_div v m, toUInt64_indicatorDuty v m,
      toNat_indicatorDuty v m⟩
  · exact ⟨indicatorDuty_le v m, indicatorDuty_full m, indicatorDuty_zero m⟩

/-- The greatest maxima, of 32 bits and of 16. -/
theorem indicatorDuty_law_of_greatest :
    let m : UInt32 := 4294967295
    let t : LampTimer := { maxDuty := 65535 }
    indicatorDuty 254 m ≤ indicatorDuty 255 m ∧ 0 < indicatorDuty 1 m ∧
      ∃ l x, LampTimer.Op.duty .green 41120 = .duty l x ∧
        x.toUInt32 = (Color.running.duties t.maxDuty.toUInt32).get l ∧ x ≤ t.maxDuty := by
  intro m t
  obtain ⟨-, -, hmono, hpos, -, -, hops⟩ := indicatorDuty_law
  exact ⟨hmono 254 255 m m (by decide) (by decide), hpos 1 m (by decide) (by decide),
    hops t .running (.duty .green 41120) (by decide)⟩

end BrushlessDrive
