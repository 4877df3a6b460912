import Mathlib

/-! # Rounding

Rounding takes a number to one of its two neighbours among those with at most 53 bits, so that it
moves no number across one that has so few. -/

namespace DefiniteIntegral.Binary64

open Float.Model (Format UnpackedFloat totalExponent)
open Float.Model.UnpackedFloat

/-- A number of a sign and a magnitude. -/
def signed : Sign → ℝ → ℝ
  | .negative, r => -r
  | .positive, r => r

/-- A number has at most 53 bits, none of them below the least one that there is. -/
def Representable (p : ℝ) : Prop :=
  ∃ (s : Sign) (k : ℕ) (e : ℤ), k < 2 ^ 53 ∧ -1074 ≤ e ∧ p = signed s (k * 2 ^ e)

/-- A number may be rounded to another one: no representable number lies between them. -/
structure RoundsTo (r u : ℝ) : Prop where
  le : ∀ p, Representable p → r ≤ p → u ≤ p
  ge : ∀ p, Representable p → p ≤ r → p ≤ u

/-! ## Signs -/

section Signs

@[simp] theorem signed_zero (s : Sign) : signed s 0 = 0 := by
  cases s <;> simp [signed]

@[simp] theorem abs_signed (s : Sign) (r : ℝ) : |signed s r| = |r| := by
  cases s <;> simp [signed]

theorem signed_neg (s : Sign) (r : ℝ) : signed (-s) r = -signed s r := by
  cases s
  · exact (neg_neg r).symm
  · rfl

theorem signed_mul_signed (s t : Sign) (a b : ℝ) :
    signed s a * signed t b = signed (s * t) (a * b) := by
  cases s <;> cases t
  · exact neg_mul_neg a b
  · exact neg_mul a b
  · exact mul_neg a b
  · rfl

theorem signed_div_signed (s t : Sign) (a b : ℝ) :
    signed s a / signed t b = signed (s / t) (a / b) := by
  cases s <;> cases t
  · exact neg_div_neg_eq a b
  · exact neg_div b a
  · exact div_neg a
  · rfl

theorem cast_apply (s : Sign) (n : ℕ) : ((s.apply n : ℤ) : ℝ) = signed s n := by
  cases s <;> simp [Sign.apply, signed]

theorem signed_mul (s : Sign) (a b : ℝ) : signed s a * b = signed s (a * b) := by
  cases s <;> simp [signed]

theorem Representable.neg {p : ℝ} (h : Representable p) : Representable (-p) := by
  obtain ⟨s, k, e, hk, he, rfl⟩ := h
  exact ⟨-s, k, e, hk, he, (signed_neg _ _).symm⟩

theorem representable_int {n : ℤ} (hn : n.natAbs < 2 ^ 53) {e : ℤ} (he : -1074 ≤ e) :
    Representable (n * 2 ^ e) := by
  rcases Int.natAbs_eq n with hsign | hsign
  · refine ⟨.positive, n.natAbs, e, hn, he, ?_⟩
    rw [hsign, Int.cast_natCast, Int.natAbs_natCast]
    rfl
  · refine ⟨.negative, n.natAbs, e, hn, he, ?_⟩
    rw [hsign, Int.cast_neg, Int.cast_natCast, Int.natAbs_neg, Int.natAbs_natCast, neg_mul]
    rfl

theorem representable_zero : Representable 0 := by
  simpa using representable_int (n := 0) (e := 0) (by decide) (by decide)

theorem representable_one : Representable 1 := by
  simpa using representable_int (n := 1) (e := 0) (by decide) (by decide)

end Signs

namespace RoundsTo

variable {r u : ℝ}

theorem refl (r : ℝ) : RoundsTo r r :=
  ⟨fun _ _ => id, fun _ _ => id⟩

theorem neg (h : RoundsTo r u) : RoundsTo (-r) (-u) where
  le p hp hr := neg_le.mp (h.ge (-p) hp.neg (neg_le.mp hr))
  ge p hp hr := le_neg.mp (h.le (-p) hp.neg (le_neg.mp hr))

theorem signed (h : RoundsTo r u) (s : Sign) : RoundsTo (signed s r) (signed s u) := by
  cases s
  · exact h.neg
  · exact h

theorem eq_of_representable (h : RoundsTo r u) (hr : Representable r) : u = r :=
  le_antisymm (h.le r hr le_rfl) (h.ge r hr le_rfl)

theorem eq_zero (h : RoundsTo 0 u) : u = 0 :=
  h.eq_of_representable representable_zero

end RoundsTo

/-! ## Mantissas -/

section Mantissas

variable {em : ExtendedMantissa} {k n : ℕ}

/-- The least whole number that is no less than what an extended mantissa stands for. -/
def ceiling (em : ExtendedMantissa) : ℕ :=
  em.mantissa + (em.roundBit || em.stickyBit).toNat

theorem mantissa_le_roundedMantissa (em : ExtendedMantissa) : em.mantissa ≤ em.roundedMantissa := by
  obtain ⟨m, roundBit, stickyBit⟩ := em
  cases roundBit <;> cases stickyBit <;>
    simp [ExtendedMantissa.roundedMantissa, ExtendedMantissa.accuracy, Accuracy.roundToNearestEven]

theorem roundedMantissa_le_ceiling (em : ExtendedMantissa) : em.roundedMantissa ≤ ceiling em := by
  obtain ⟨m, roundBit, stickyBit⟩ := em
  cases roundBit <;> cases stickyBit <;>
    simp [ExtendedMantissa.roundedMantissa, ExtendedMantissa.accuracy, Accuracy.roundToNearestEven,
      ceiling]
  omega

theorem ceiling_le_mantissa_succ (em : ExtendedMantissa) : ceiling em ≤ em.mantissa + 1 :=
  Nat.add_le_add_left (Bool.toNat_le _) _

theorem mantissa_shiftRight (em : ExtendedMantissa) (n : ℕ) :
    (em >>> n).mantissa = em.mantissa / 2 ^ n := by
  induction n with
  | zero => exact (Nat.div_one _).symm
  | succ n ih =>
      have hstep : (em >>> (n + 1)).mantissa = (em >>> n).mantissa / 2 := rfl
      rw [hstep, ih, Nat.div_div_eq_div_mul, Nat.pow_succ]

theorem ceiling_shiftRightOne_le (h : ceiling em ≤ k * 2) : ceiling em.shiftRightOne ≤ k := by
  obtain ⟨m, roundBit, stickyBit⟩ := em
  cases roundBit <;> cases stickyBit <;> rcases Nat.mod_two_eq_zero_or_one m with hm | hm <;>
    simp [ceiling, ExtendedMantissa.shiftRightOne, hm] at h ⊢ <;> omega

theorem ceiling_shiftRight_le (h : ceiling em ≤ k * 2 ^ n) : ceiling (em >>> n) ≤ k := by
  induction n generalizing k with
  | zero =>
      rw [Nat.pow_zero, Nat.mul_one] at h
      exact h
  | succ n ih =>
      rw [Nat.pow_succ', ← Nat.mul_assoc] at h
      exact ceiling_shiftRightOne_le (ih h)

end Mantissas

/-! ## Exponents -/

section Exponents

variable {m : ℕ} {e : ℤ}

theorem targetExponent_eq_max (total : ℤ) :
    Format.binary64.targetExponent total = max (total - 53) (-1074) := by
  simp only [Format.targetExponent, Format.mantissaBits, Format.minExponent]
  norm_num

theorem targetExponent_eq (m : ℕ) (e : ℤ) :
    Format.binary64.targetExponent (totalExponent m e) = max (m.log2 + e - 52) (-1074) := by
  rw [targetExponent_eq_max, totalExponent]
  omega

/-- A mantissa has at most 53 bits, and it has so many unless the exponent is the least one. -/
structure IsCanonical (m : ℕ) (e : ℤ) : Prop where
  lt : m < 2 ^ 53
  least_le : -1074 ≤ e
  full : e = -1074 ∨ 2 ^ 52 ≤ m

/-- A finite number of its parts. -/
def ofParts (s : Sign) (m : ℕ) (e : ℤ) : UnpackedFloat :=
  if h : m = 0 then .zero s else .finite s m e (Nat.pos_of_ne_zero h)

theorem ofParts_of_pos {s : Sign} (h : 0 < m) : ofParts s m e = .finite s m e h :=
  dif_neg h.ne'

theorem isCanonical_zero : IsCanonical 0 (-1074) :=
  ⟨by decide, le_rfl, .inl rfl⟩

theorem log2_le_of_lt (h : m < 2 ^ 53) : m.log2 ≤ 52 := by
  by_cases hm : m = 0
  · simp [hm]
  · exact Nat.lt_succ_iff.mp ((Nat.log2_lt hm).mpr h)

/-- A mantissa with few bits stays as it is. -/
theorem shiftToTargetExponent_of_lt (hm : m < 2 ^ 53) (he : -1074 ≤ e) :
    shiftToTargetExponent .binary64 m e .exact = (⟨m, false, false⟩, e) := by
  have hlog := log2_le_of_lt hm
  have hshift : (Format.binary64.targetExponent (totalExponent m e) - e).toNat = 0 := by
    rw [targetExponent_eq]
    omega
  simp only [shiftToTargetExponent, shiftToExponent, hshift]
  simp [ExtendedMantissa.ofMantissaAndAccuracy, HShiftRight.hShiftRight, Nat.repeat]

/-- A mantissa that rounding has made one bit too long is halved. -/
theorem shiftToTargetExponent_two_pow (he : -1074 ≤ e) :
    shiftToTargetExponent .binary64 (2 ^ 53) e .exact = (⟨2 ^ 52, false, false⟩, e + 1) := by
  have hshift : (Format.binary64.targetExponent (totalExponent (2 ^ 53) e) - e).toNat = 1 := by
    rw [targetExponent_eq, Nat.log2_two_pow]
    omega
  simp only [shiftToTargetExponent, shiftToExponent, hshift]
  simp [ExtendedMantissa.ofMantissaAndAccuracy, HShiftRight.hShiftRight, Nat.repeat,
    ExtendedMantissa.shiftRightOne]

end Exponents

/-! ## Rounding a mantissa -/

section Rounding

variable {m : ℕ} {e : ℤ} {accuracy : Accuracy} {r : ℝ}

/-- A mantissa in units of `2 ^ e`, with its accuracy, stands for a number: it is the number rounded
down, and it is exact only if that is the number. -/
structure Approximates (m : ℕ) (accuracy : Accuracy) (e : ℤ) (r : ℝ) : Prop where
  nonneg : 0 ≤ r
  le_iff : ∀ k : ℕ, k * 2 ^ e ≤ r ↔ k ≤ m
  ceiling_le : ∀ k : ℕ, r ≤ k * 2 ^ e →
    ceiling (ExtendedMantissa.ofMantissaAndAccuracy m accuracy) ≤ k

theorem approximates_exact (m : ℕ) (e : ℤ) : Approximates m .exact e (m * 2 ^ e) where
  nonneg := by positivity
  le_iff k := by
    rw [mul_le_mul_iff_left₀ (by positivity), Nat.cast_le]
  ceiling_le k h := by
    rw [mul_le_mul_iff_left₀ (by positivity), Nat.cast_le] at h
    exact h

theorem mantissa_ofMantissaAndAccuracy (m : ℕ) (accuracy : Accuracy) :
    (ExtendedMantissa.ofMantissaAndAccuracy m accuracy).mantissa = m := by
  cases accuracy with
  | exact => rfl
  | inexact order => cases order <;> rfl

/-- The shift to the units of the target leaves at most 53 bits. -/
theorem div_lt_of_targetExponent {n : ℕ}
    (htarget : Format.binary64.targetExponent (totalExponent m e) = e + n) :
    m / 2 ^ n < 2 ^ 53 := by
  rw [targetExponent_eq] at htarget
  rw [Nat.div_lt_iff_lt_mul (by positivity), ← Nat.pow_add]
  calc
    m < 2 ^ (m.log2 + 1) := Nat.lt_log2_self
    _ ≤ 2 ^ (53 + n) := Nat.pow_le_pow_right (by decide) (by omega)

/-- The shift leaves 53 bits unless the units are the least ones. -/
theorem le_div_of_targetExponent {n : ℕ}
    (htarget : Format.binary64.targetExponent (totalExponent m e) = e + n) :
    e + n = -1074 ∨ 2 ^ 52 ≤ m / 2 ^ n := by
  rw [targetExponent_eq] at htarget
  by_cases hend : e + n = -1074
  · exact .inl hend
  · have hlog : m.log2 = 52 + n := by omega
    have hm : m ≠ 0 := by
      rintro rfl
      simp at hlog
      omega
    rw [Nat.le_div_iff_mul_le (by positivity), ← Nat.pow_add, ← hlog]
    exact .inr (Nat.log2_self_le hm)

/-- The result of rounding: a mantissa in the units of the target, or half of one that has become
too long. -/
theorem exists_roundWithAccuracy (s : Sign) (m : ℕ) (accuracy : Accuracy) (n : ℕ)
    (htarget : Format.binary64.targetExponent (totalExponent m e) = e + n) :
    ∃ (q m' : ℕ) (e' : ℤ), IsCanonical m' e' ∧
      roundWithAccuracy .binary64 s m e accuracy = ofParts s m' e' ∧
      (m' : ℝ) * 2 ^ e' = q * 2 ^ (e + n) ∧ (e + n = -1074 ∨ 2 ^ 52 ≤ q) ∧ m / 2 ^ n ≤ q ∧
      q ≤ ceiling (ExtendedMantissa.ofMantissaAndAccuracy m accuracy >>> n) := by
  let em := ExtendedMantissa.ofMantissaAndAccuracy m accuracy >>> n
  have hfirst : shiftToTargetExponent .binary64 m e accuracy = (em, e + n) := by
    simp only [shiftToTargetExponent, shiftToExponent, htarget, add_sub_cancel_left,
      Int.toNat_natCast, em]
  have hmantissa : em.mantissa = m / 2 ^ n := by
    rw [mantissa_shiftRight, mantissa_ofMantissaAndAccuracy]
  have hle : m / 2 ^ n ≤ em.roundedMantissa := hmantissa ▸ mantissa_le_roundedMantissa em
  have hceiling := roundedMantissa_le_ceiling em
  have hfull : e + n = -1074 ∨ 2 ^ 52 ≤ em.roundedMantissa :=
    (le_div_of_targetExponent htarget).imp_right hle.trans'
  -- Rounding adds at most one to the mantissa.
  have hmost : em.roundedMantissa ≤ 2 ^ 53 := by
    have hlong := div_lt_of_targetExponent htarget
    rw [← hmantissa] at hlong
    exact hceiling.trans ((ceiling_le_mantissa_succ em).trans hlong)
  have hleast : -1074 ≤ e + n := by
    rw [targetExponent_eq] at htarget
    omega
  rw [roundWithAccuracy, hfirst]
  rcases hmost.lt_or_eq with hlt | heq
  · refine ⟨em.roundedMantissa, em.roundedMantissa, e + n, ⟨hlt, hleast, hfull⟩, ?_, rfl, hfull,
      hle, hceiling⟩
    simp only [shiftToTargetExponent_of_lt hlt hleast]
    rfl
  · refine ⟨em.roundedMantissa, 2 ^ 52, e + n + 1, ⟨by decide, by omega, .inr le_rfl⟩, ?_, ?_,
      hfull, hle, hceiling⟩
    · simp only [heq, shiftToTargetExponent_two_pow hleast]
      rfl
    · rw [heq, zpow_add_one₀ (by norm_num)]
      push_cast
      ring

section Bounds

variable {n q k : ℕ} {d : ℤ} (h : Approximates m accuracy e r)
include h

/-- The units that a number is rounded to are no larger than those of a bound. -/
theorem Approximates.target_le
    (htarget : Format.binary64.targetExponent (totalExponent m e) = e + n) (hk : k < 2 ^ 53)
    (hd : -1074 ≤ d) (hr : r ≤ k * 2 ^ d) : e + n ≤ d := by
  rw [targetExponent_eq] at htarget
  by_cases hm : m = 0
  · subst hm
    simp at htarget
    omega
  · have hlt : (2 : ℝ) ^ (m.log2 + e) < 2 ^ (53 + d) := by
      calc
        (2 : ℝ) ^ (m.log2 + e) = 2 ^ m.log2 * 2 ^ e := by
          rw [zpow_add₀ (by norm_num), zpow_natCast]
        _ ≤ m * 2 ^ e := by
          gcongr
          exact_mod_cast Nat.log2_self_le hm
        _ ≤ k * 2 ^ d := ((h.le_iff m).mpr le_rfl).trans hr
        _ < 2 ^ 53 * 2 ^ d := by
          gcongr
          exact_mod_cast hk
        _ = 2 ^ (53 + d) := by
          rw [zpow_add₀ (by norm_num)]
          norm_num
    have hlog := (zpow_lt_zpow_iff_right₀ (by norm_num)).mp hlt
    omega

theorem Approximates.le_of_le
    (htarget : Format.binary64.targetExponent (totalExponent m e) = e + n)
    (hceiling : q ≤ ceiling (ExtendedMantissa.ofMantissaAndAccuracy m accuracy >>> n))
    (hk : k < 2 ^ 53) (hd : -1074 ≤ d) (hr : r ≤ k * 2 ^ d) :
    (q : ℝ) * 2 ^ (e + n) ≤ k * 2 ^ d := by
  obtain ⟨j, rfl⟩ := Int.le.dest (h.target_le htarget hk hd hr)
  have hunits : r ≤ ((k * 2 ^ j * 2 ^ n : ℕ) : ℝ) * 2 ^ e := by
    refine hr.trans_eq ?_
    rw [zpow_add₀ (by norm_num), zpow_add₀ (by norm_num), zpow_natCast, zpow_natCast]
    push_cast
    ring
  have hq : q ≤ k * 2 ^ j := hceiling.trans (ceiling_shiftRight_le (h.ceiling_le _ hunits))
  calc
    (q : ℝ) * 2 ^ (e + n) ≤ ((k * 2 ^ j : ℕ) : ℝ) * 2 ^ (e + n) := by gcongr
    _ = k * 2 ^ (e + n + j) := by
      rw [zpow_add₀ (by norm_num) (e + n : ℤ), zpow_natCast]
      push_cast
      ring

theorem Approximates.ge_of_ge (hfull : e + n = -1074 ∨ 2 ^ 52 ≤ q) (hfloor : m / 2 ^ n ≤ q)
    (hk : k < 2 ^ 53) (hd : -1074 ≤ d) (hr : k * 2 ^ d ≤ r) :
    (k : ℝ) * 2 ^ d ≤ q * 2 ^ (e + n) := by
  by_cases hunit : e + n ≤ d
  · obtain ⟨j, rfl⟩ := Int.le.dest hunit
    -- The bound is a whole number of units, and none of them is lost.
    have hunits : ((k * 2 ^ j * 2 ^ n : ℕ) : ℝ) * 2 ^ e ≤ r := by
      refine le_trans (le_of_eq ?_) hr
      rw [zpow_add₀ (by norm_num), zpow_add₀ (by norm_num), zpow_natCast, zpow_natCast]
      push_cast
      ring
    have hq : k * 2 ^ j ≤ q := ((Nat.le_div_iff_mul_le (by positivity)).mpr
      ((h.le_iff _).mp hunits)).trans hfloor
    calc
      (k : ℝ) * 2 ^ (e + n + j) = ((k * 2 ^ j : ℕ) : ℝ) * 2 ^ (e + n) := by
        rw [zpow_add₀ (by norm_num) (e + n : ℤ), zpow_natCast]
        push_cast
        ring
      _ ≤ q * 2 ^ (e + n) := by gcongr
  · have hq : 2 ^ 52 ≤ q := hfull.resolve_left (by omega)
    calc
      (k : ℝ) * 2 ^ d ≤ 2 ^ 53 * 2 ^ d := by
        gcongr
        exact_mod_cast hk.le
      _ = 2 ^ 52 * 2 ^ (d + 1) := by
        rw [zpow_add_one₀ (by norm_num)]
        ring
      _ ≤ q * 2 ^ (e + n) := mul_le_mul (by exact_mod_cast hq)
        (zpow_le_zpow_right₀ (by norm_num) (by omega)) (by positivity) (by positivity)

end Bounds

theorem exists_roundsTo_roundWithAccuracy (s : Sign)
    (he : e ≤ Format.binary64.targetExponent (totalExponent m e))
    (h : Approximates m accuracy e r) :
    ∃ (m' : ℕ) (e' : ℤ), IsCanonical m' e' ∧
      roundWithAccuracy .binary64 s m e accuracy = ofParts s m' e' ∧
      RoundsTo r (m' * 2 ^ e') := by
  obtain ⟨n, hn⟩ := Int.le.dest he
  obtain ⟨q, m', e', hcanonical, hround, hvalue, hfull, hfloor, hceiling⟩ :=
    exists_roundWithAccuracy s m accuracy n hn.symm
  refine ⟨m', e', hcanonical, hround, ?_⟩
  rw [hvalue]
  have hnonneg : (0 : ℝ) ≤ q * 2 ^ (e + n) := by positivity
  constructor
  · rintro p ⟨t, k, d, hk, hd, rfl⟩ hr
    cases t with
    | positive => exact h.le_of_le hn.symm hceiling hk hd hr
    | negative =>
        -- A number that is not negative lies below a negative one only if both are zero.
        have hzero : (k : ℝ) * 2 ^ d = 0 :=
          le_antisymm (neg_nonneg.mp (h.nonneg.trans hr)) (by positivity)
        rw [signed, hzero, neg_zero] at hr ⊢
        simpa using h.le_of_le (k := 0) (d := 0) hn.symm hceiling (by decide) (by decide)
          (by simpa using hr)
  · rintro p ⟨t, k, d, hk, hd, rfl⟩ hr
    cases t with
    | positive => exact h.ge_of_ge hfull hfloor hk hd hr
    | negative => exact (neg_nonpos.mpr (by positivity)).trans hnonneg

end Rounding

/-! ## Rounding numbers -/

section

variable {m : ℕ} {e target : ℤ}

theorem log2_shiftLeft (hm : m ≠ 0) (n : ℕ) : (m <<< n).log2 = m.log2 + n := by
  rw [Nat.shiftLeft_eq, Nat.log2_eq_iff (by positivity)]
  constructor
  · rw [Nat.pow_add]
    exact Nat.mul_le_mul_right _ (Nat.log2_self_le hm)
  · calc
      m * 2 ^ n < 2 ^ (m.log2 + 1) * 2 ^ n :=
        Nat.mul_lt_mul_of_pos_right Nat.lt_log2_self (by positivity)
      _ = 2 ^ (m.log2 + n + 1) := by ring

/-- A longer mantissa in smaller units is the same number. -/
theorem cast_shiftLeft (m n : ℕ) (e : ℤ) : ((m <<< n : ℕ) : ℝ) * 2 ^ (e - n) = m * 2 ^ e := by
  rw [Nat.shiftLeft_eq, Nat.cast_mul, zpow_sub₀ (by norm_num), zpow_natCast, Nat.cast_pow]
  field_simp
  norm_num

theorem exists_roundsTo_round (s : Sign) (hm : m ≠ 0) (e : ℤ) :
    ∃ (m' : ℕ) (e' : ℤ), IsCanonical m' e' ∧ round .binary64 s m e = ofParts s m' e' ∧
      RoundsTo (m * 2 ^ e) (m' * 2 ^ e') := by
  let n := (e - Format.binary64.targetExponent (totalExponent m e)).toNat
  have htarget : e - n ≤ Format.binary64.targetExponent (totalExponent (m <<< n) (e - n)) := by
    simp only [n]
    rw [targetExponent_eq m, targetExponent_eq, log2_shiftLeft hm]
    omega
  have hround := exists_roundsTo_roundWithAccuracy s htarget (approximates_exact _ _)
  rw [cast_shiftLeft] at hround
  exact hround

theorem exists_roundsTo_normalize (n : ℤ) (e : ℤ) (zero : Sign) :
    ∃ (s : Sign) (m' : ℕ) (e' : ℤ), IsCanonical m' e' ∧
      UnpackedFloat.normalize .binary64 n e zero = ofParts s m' e' ∧
      RoundsTo (n * 2 ^ e) (signed s (m' * 2 ^ e')) := by
  rcases lt_trichotomy n 0 with hn | rfl | hn
  · obtain ⟨k, hk⟩ := Int.exists_eq_neg_ofNat hn.le
    have hpos : k ≠ 0 := by omega
    obtain ⟨m', e', hcanonical, hround, hrounds⟩ := exists_roundsTo_round .negative hpos e
    refine ⟨.negative, m', e', hcanonical, ?_, ?_⟩
    · rw [UnpackedFloat.normalize, Int.compare_eq_lt.mpr hn, hk, neg_neg, Int.toNat_natCast]
      exact hround
    · rw [hk, Int.cast_neg, Int.cast_natCast, neg_mul]
      exact hrounds.neg
  · refine ⟨zero, 0, -1074, isCanonical_zero, rfl, ?_⟩
    simpa using RoundsTo.refl 0
  · obtain ⟨k, rfl⟩ := Int.eq_ofNat_of_zero_le hn.le
    have hpos : k ≠ 0 := by omega
    obtain ⟨m', e', hcanonical, hround, hrounds⟩ := exists_roundsTo_round .positive hpos e
    refine ⟨.positive, m', e', hcanonical, ?_, ?_⟩
    · rw [UnpackedFloat.normalize, Int.compare_eq_gt.mpr hn, Int.toNat_natCast]
      exact hround
    · rw [Int.cast_natCast]
      exact hrounds

end

end DefiniteIntegral.Binary64
