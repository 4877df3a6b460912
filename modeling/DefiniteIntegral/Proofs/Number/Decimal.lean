import DefiniteIntegral.Number.Decimal
import DefiniteIntegral.Proofs.Number.Nearest

/-! # Rounding decimals

A decimal is read as the number in whose interval its value lies. -/

namespace DefiniteIntegral

open Binary64

/-! ## Digits -/

section Digits

variable {n : ℕ}

theorem digitCount_pos (n : ℕ) : 0 < digitCount n :=
  Nat.length_repr_pos

theorem lt_ten_pow_digitCount (n : ℕ) : n < 10 ^ digitCount n :=
  (Nat.length_repr_le_iff (digitCount_pos n)).mp le_rfl

theorem ten_pow_digitCount_le (hn : 0 < n) : 10 ^ (digitCount n - 1) ≤ n := by
  by_contra hlt
  rcases Nat.eq_zero_or_pos (digitCount n - 1) with hone | hlong
  · rw [hone] at hlt
    omega
  · have hlength : digitCount n ≤ digitCount n - 1 :=
      (Nat.length_repr_le_iff hlong).mpr (Nat.not_le.mp hlt)
    omega

theorem ten_zpow_pos (e : ℤ) : (0 : ℝ) < 10 ^ e :=
  zpow_pos (by norm_num) e

theorem ten_zpow_digitCount_le (hn : 0 < n) : (10 : ℝ) ^ ((digitCount n : ℤ) - 1) ≤ n := by
  have hcast : (digitCount n : ℤ) - 1 = (digitCount n - 1 : ℕ) := by
    have := digitCount_pos n
    omega
  rw [hcast, zpow_natCast]
  exact_mod_cast ten_pow_digitCount_le hn

theorem lt_ten_zpow_digitCount (n : ℕ) : (n : ℝ) < 10 ^ (digitCount n : ℤ) := by
  rw [zpow_natCast]
  exact_mod_cast lt_ten_pow_digitCount n

end Digits

namespace Decimal

/-! ## Values -/

/-- The value of a decimal. -/
noncomputable def real (d : Decimal) : ℝ :=
  d.digits * 10 ^ d.exponent

variable {d : Decimal} {m : ℕ} {e : ℤ}

theorem toRatio_spec (d : Decimal) :
    0 < d.toRatio.2 ∧ (d.toRatio.1 : ℝ) / d.toRatio.2 = d.real ∧
      (d.digits ≠ 0 → 0 < d.toRatio.1) := by
  obtain ⟨n, k⟩ := d
  simp only [toRatio, real, Nat.pow_eq]
  split
  · rename_i hk
    obtain ⟨j, rfl⟩ := Int.eq_ofNat_of_zero_le hk
    refine ⟨Nat.one_pos, ?_, fun hn => by positivity⟩
    push_cast
    rw [Int.toNat_natCast, zpow_natCast, div_one]
  · rename_i hk
    obtain ⟨j, hj⟩ : ∃ j : ℕ, -k = j := Int.eq_ofNat_of_zero_le (by omega)
    obtain rfl : k = -j := by omega
    refine ⟨by positivity, ?_, fun hn => Nat.pos_of_ne_zero hn⟩
    push_cast
    rw [neg_neg, Int.toNat_natCast, zpow_neg, zpow_natCast, div_eq_mul_inv]

theorem ten_zpow_le_real (hd : d.digits ≠ 0) :
    (10 : ℝ) ^ ((digitCount d.digits : ℤ) + d.exponent - 1) ≤ d.real := by
  rw [real, add_sub_right_comm, zpow_add₀ (by norm_num)]
  gcongr
  exact ten_zpow_digitCount_le (Nat.pos_of_ne_zero hd)

theorem real_lt_ten_zpow (d : Decimal) :
    d.real < (10 : ℝ) ^ ((digitCount d.digits : ℤ) + d.exponent) := by
  rw [real, zpow_add₀ (by norm_num)]
  gcongr
  exact lt_ten_zpow_digitCount d.digits

/-- What lies in the interval of a number is not below half of the smallest number. -/
theorem two_zpow_le_of_inInterval {r : ℝ} (h : IsCanonical m e) (hm : 0 < m)
    (hr : InInterval m e r) : (2 : ℝ) ^ (-1075 : ℤ) ≤ r := by
  have hgap := gapBelow_le m e
  have hm' : (1 : ℝ) ≤ m := by exact_mod_cast hm
  calc
    (2 : ℝ) ^ (-1075 : ℤ) = 1 / 2 * 2 ^ (-1074 : ℤ) := by
      rw [show (-1075 : ℤ) = -1074 - 1 by norm_num, zpow_sub_one₀ (by norm_num)]
      ring
    _ ≤ (m - gapBelow m e) * 2 ^ e := by
      gcongr
      · linarith
      · linarith
      · norm_num
      · exact h.least_le
    _ ≤ r := hr.low_le

theorem lt_two_zpow_of_inInterval {r : ℝ} (h : IsCanonical m e) (hmost : e ≤ 971)
    (hr : InInterval m e r) : r < (2 : ℝ) ^ (1024 : ℤ) := by
  have hm : (m : ℝ) + 1 ≤ 2 ^ 53 := by exact_mod_cast h.lt
  calc
    r ≤ (m + 1 / 2) * 2 ^ e := hr.le_high
    _ < 2 ^ 53 * 2 ^ e := by
      gcongr
      linarith
    _ ≤ 2 ^ 53 * 2 ^ (971 : ℤ) := by
      gcongr
      norm_num
    _ = 2 ^ (1024 : ℤ) := by
      rw [two_pow_mul_zpow]
      norm_num

/-- So large and so small are the decimals that are rounded without forming their powers of ten. -/
theorem magnitude_of_inInterval (h : IsCanonical m e) (hmost : e ≤ 971) (hm : 0 < m)
    (hr : InInterval m e d.real) (hd : d.digits ≠ 0) :
    -330 ≤ (digitCount d.digits : ℤ) + d.exponent ∧
      (digitCount d.digits : ℤ) + d.exponent ≤ 310 := by
  constructor
  · by_contra hsmall
    have hlt := (two_zpow_le_of_inInterval h hm hr).trans_lt d.real_lt_ten_zpow
    have hle : (10 : ℝ) ^ ((digitCount d.digits : ℤ) + d.exponent) ≤ 10 ^ (-331 : ℤ) :=
      zpow_le_zpow_right₀ (by norm_num) (by omega)
    have hpowers : (10 : ℝ) ^ (-331 : ℤ) ≤ 2 ^ (-1075 : ℤ) := by
      have hnat : 2 ^ 1075 ≤ 10 ^ 331 := by decide +kernel
      rw [zpow_neg, zpow_neg, inv_le_inv₀ (by positivity) (by positivity)]
      exact_mod_cast hnat
    exact absurd (hlt.trans_le hle) (not_lt.mpr hpowers)
  · by_contra hlarge
    have hlt := (d.ten_zpow_le_real hd).trans_lt (lt_two_zpow_of_inInterval h hmost hr)
    have hle : (10 : ℝ) ^ (310 : ℤ) ≤ 10 ^ ((digitCount d.digits : ℤ) + d.exponent - 1) :=
      zpow_le_zpow_right₀ (by norm_num) (by omega)
    have hpowers : (2 : ℝ) ^ (1024 : ℤ) ≤ 10 ^ (310 : ℤ) := by
      have hnat : 2 ^ 1024 ≤ 10 ^ 310 := by decide +kernel
      exact_mod_cast hnat
    exact absurd (hlt.trans_le hpowers) (not_lt.mpr hle)

/-- A decimal is read as the number in whose interval its value lies. -/
theorem toFloat_eq_ofBits (h : IsCanonical m e) (hmost : e ≤ 971) (hm : 0 < m)
    (hr : InInterval m e d.real) : d.toFloat = Float.ofBits (UInt64.ofNat (bitsOf m e)) := by
  have hd : d.digits ≠ 0 := by
    intro hzero
    have hpos := two_zpow_le_of_inInterval h hm hr
    rw [real, hzero, Nat.cast_zero, zero_mul] at hpos
    exact absurd hpos (not_le.mpr (two_zpow_pos _))
  obtain ⟨hden, hratio, hnum⟩ := d.toRatio_spec
  obtain ⟨hlow, hhigh⟩ := magnitude_of_inInterval h hmost hm hr hd
  rw [← hratio] at hr
  have hsmall : ¬ (d.digits = 0 ∨ (digitCount d.digits : ℤ) + d.exponent < -330) := by omega
  have hlarge : ¬ 310 < (digitCount d.digits : ℤ) + d.exponent := by omega
  rw [toFloat]
  simp only [hsmall, hlarge, ↓reduceIte, ofRatio, (hnum hd).ne',
    nearestBits_eq h hmost (hnum hd) hden hr]

end Decimal

end DefiniteIntegral
