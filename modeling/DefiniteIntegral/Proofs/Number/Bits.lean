import DefiniteIntegral.Number.Binary64
import DefiniteIntegral.Proofs.Number.Values

/-! # The bits of floating-point numbers

The parts that the bits of a finite number are decoded to are its parts in memory. They are
canonical, and they determine the number. -/

namespace DefiniteIntegral.Binary64

open Float.Model (Format UnpackedFloat)
open Float.Model.UnpackedFloat

/-! ## Fields -/

section Fields

/-- The exponent field of bits. -/
def exponentField (n : ℕ) : ℕ :=
  n / 2 ^ 52 % 2 ^ 11

/-- The parts of bits that are those of a finite number. -/
def decodeBits (n : ℕ) : Dyadic where
  negative := 2 ^ 63 ≤ n
  significand := if exponentField n = 0 then n % 2 ^ 52 else 2 ^ 52 + n % 2 ^ 52
  exponent := if exponentField n = 0 then -1074 else (exponentField n : ℤ) + -1074 - 1

/-- The sign of a number that is negative or not. -/
def signOf (negative : Bool) : Sign :=
  if negative then .negative else .positive

theorem toNat_unpackExponent (bits : BitVec Format.binary64.numBits) :
    (unpackExponent bits).toNat = exponentField bits.toNat := by
  simp only [unpackExponent, BitVec.toNat_cast, BitVec.extractLsb_toNat, Nat.shiftRight_eq_div_pow]
  rfl

theorem toNat_unpackMantissa (bits : BitVec Format.binary64.numBits) :
    (unpackMantissa bits).toNat = bits.toNat % 2 ^ 52 := by
  simp only [unpackMantissa, BitVec.toNat_cast, BitVec.extractLsb_toNat, Nat.shiftRight_zero]

theorem ofBitVec_unpackSign (bits : BitVec Format.binary64.numBits) :
    Sign.ofBitVec (unpackSign bits) = signOf (decodeBits bits.toNat).negative := by
  have hlt : bits.toNat < 2 ^ 64 := bits.isLt
  have hsign : (unpackSign bits).toNat = bits.toNat / 2 ^ 63 := by
    simp only [unpackSign, BitVec.toNat_cast, BitVec.extractLsb_toNat, Nat.shiftRight_eq_div_pow]
    exact Nat.mod_eq_of_lt (Nat.div_lt_of_lt_mul hlt)
  have hzero : unpackSign bits = 0#1 ↔ ¬ 2 ^ 63 ≤ bits.toNat := by
    rw [← BitVec.toNat_inj, hsign, BitVec.toNat_ofNat]
    omega
  simp only [Sign.ofBitVec, hzero, signOf, decodeBits, decide_eq_true_eq]
  split_ifs <;> rfl

theorem unpack_eq_ofParts (bits : BitVec Format.binary64.numBits)
    (h : exponentField bits.toNat ≠ 2047) :
    unpack .binary64 bits = ofParts (signOf (decodeBits bits.toNat).negative)
      (decodeBits bits.toNat).significand (decodeBits bits.toNat).exponent := by
  have hexponent := toNat_unpackExponent bits
  have hmantissa := toNat_unpackMantissa bits
  have hfinite : unpackExponent bits ≠ -1#_ := fun heq => h (by rw [← hexponent, heq]; rfl)
  have hzero : unpackExponent bits = 0#_ ↔ exponentField bits.toNat = 0 := by
    rw [← BitVec.toNat_inj, hexponent]
    rfl
  rw [unpack, ofBitVec_unpackSign]
  simp only [if_neg hfinite]
  by_cases hfield : exponentField bits.toNat = 0
  · have hnone : unpackMantissa bits = 0#_ ↔ bits.toNat % 2 ^ 52 = 0 := by
      rw [← BitVec.toNat_inj, hmantissa]
      rfl
    rw [if_pos (hzero.mpr hfield), ofParts]
    by_cases hm : bits.toNat % 2 ^ 52 = 0
    · rw [dif_pos (hnone.mpr hm), dif_pos (by simp only [decodeBits, hfield, ↓reduceIte, hm])]
    · rw [dif_neg (hnone.not.mpr hm),
        dif_neg (by simpa only [decodeBits, hfield, ↓reduceIte] using hm)]
      refine finite_congr _ ?_ ?_
      · simp only [decodeBits, hfield, ↓reduceIte, hmantissa]
      · simp only [decodeBits, hfield, ↓reduceIte, hexponent, Format.exponentBias]
        rfl
  · have hlong := toNat_one_append (unpackMantissa bits)
    rw [if_neg (hzero.not.mpr hfield), ofParts_of_pos]
    · refine finite_congr _ ?_ ?_
      · simp only [decodeBits, hfield, ↓reduceIte, hlong, hmantissa]
      · simp only [decodeBits, hfield, ↓reduceIte, hexponent, Format.exponentBias]
        omega

theorem isCanonical_decodeBits {n : ℕ} (h : exponentField n ≠ 2047) :
    IsCanonical (decodeBits n).significand (decodeBits n).exponent ∧
      (decodeBits n).exponent ≤ 971 := by
  have hlt : exponentField n < 2 ^ 11 := Nat.mod_lt _ (by decide)
  by_cases hfield : exponentField n = 0
  · simp only [decodeBits, hfield, ↓reduceIte]
    exact ⟨⟨by omega, le_rfl, .inl rfl⟩, by omega⟩
  · simp only [decodeBits, hfield, ↓reduceIte]
    exact ⟨⟨by omega, by omega, .inr (by omega)⟩, by omega⟩

end Fields

/-! ## Numbers -/

section Numbers

variable {x y : Float}

theorem exponentField_of_isFinite (h : x.isFinite) : exponentField x.toBits.toNat ≠ 2047 := by
  intro hfield
  change x.toModel.unpack.isFinite = true at h
  have hexponent : @unpackExponent Format.binary64 x.toModel.toBits.toBitVec = -1#_ := by
    apply BitVec.eq_of_toNat_eq
    rw [toNat_unpackExponent]
    exact hfield
  rw [Float.Model.unpack, unpack] at h
  simp only [hexponent, ↓reduceIte] at h
  split at h <;> cases h

theorem unpack_eq_decode (h : x.isFinite) :
    x.toModel.unpack =
      ofParts (signOf (decode x).negative) (decode x).significand (decode x).exponent :=
  unpack_eq_ofParts _ (exponentField_of_isFinite h)

theorem isCanonical_decode (h : x.isFinite) :
    IsCanonical (decode x).significand (decode x).exponent ∧ (decode x).exponent ≤ 971 :=
  isCanonical_decodeBits (exponentField_of_isFinite h)

theorem eq_of_unpack (h : x.toModel.unpack = y.toModel.unpack) : x = y := by
  rw [← ofModel_pack_unpack x, h, ofModel_pack_unpack]

/-! ## Bits of parts -/

variable {m : ℕ} {e : ℤ}

/-- The bits of a positive number of given parts. -/
def bitsOf (m : ℕ) (e : ℤ) : ℕ :=
  (e + 1074).toNat * 2 ^ 52 + m

theorem bitsOf_lt (h : IsCanonical m e) (hmost : e ≤ 971) : bitsOf m e < 2 ^ 63 := by
  have hm := h.lt
  have hk : (e + 1074).toNat ≤ 2045 := by omega
  rw [bitsOf]
  omega

theorem decodeBits_bitsOf (h : IsCanonical m e) (hmost : e ≤ 971) :
    exponentField (bitsOf m e) ≠ 2047 ∧ decodeBits (bitsOf m e) = ⟨false, m, e⟩ := by
  have hm := h.lt
  obtain ⟨k, hk⟩ : ∃ k : ℕ, e + 1074 = k := Int.eq_ofNat_of_zero_le (by linarith [h.least_le])
  have hbits : bitsOf m e = k * 2 ^ 52 + m := by rw [bitsOf, hk, Int.toNat_natCast]
  have hsign : ¬ 2 ^ 63 ≤ bitsOf m e := Nat.not_le.mpr (bitsOf_lt h hmost)
  by_cases hfull : 2 ^ 52 ≤ m
  · have hfield : exponentField (bitsOf m e) = k + 1 := by
      rw [exponentField, hbits]
      omega
    have hmantissa : bitsOf m e % 2 ^ 52 = m - 2 ^ 52 := by
      rw [hbits]
      omega
    refine ⟨by omega, ?_⟩
    simp only [decodeBits, hfield, hmantissa, hsign, Nat.add_one_ne_zero, ↓reduceIte, decide_false,
      Dyadic.mk.injEq, true_and]
    exact ⟨by omega, by omega⟩
  · have hleast : e = -1074 := h.full.resolve_right hfull
    have hfield : exponentField (bitsOf m e) = 0 := by
      rw [exponentField, hbits]
      omega
    have hmantissa : bitsOf m e % 2 ^ 52 = m := by
      rw [hbits]
      omega
    refine ⟨by omega, ?_⟩
    simp only [decodeBits, hfield, hmantissa, hsign, ↓reduceIte, decide_false]
    rw [hleast]

theorem unpack_ofBits_bitsOf (h : IsCanonical m e) (hmost : e ≤ 971) :
    (Float.ofBits (UInt64.ofNat (bitsOf m e))).toModel.unpack = ofParts .positive m e := by
  have hbits : (UInt64.ofNat (bitsOf m e)).toNat = bitsOf m e :=
    UInt64.toNat_ofNat_of_lt' ((bitsOf_lt h hmost).trans (by decide))
  obtain ⟨hfield, hdecode⟩ := decodeBits_bitsOf h hmost
  have hunpack := unpack_eq_ofParts (UInt64.ofNat (bitsOf m e)).toBitVec
    (by rwa [UInt64.toNat_toBitVec, hbits])
  rw [UInt64.toNat_toBitVec, hbits, hdecode] at hunpack
  change unpack .binary64 (pack .binary64 (unpack .binary64 _)) = _
  rw [hunpack]
  exact unpack_pack_ofParts h hmost

theorem unpack_neg_ofParts (h : IsCanonical m e) (hmost : e ≤ 971)
    (hy : y.toModel.unpack = ofParts .positive m e) :
    (-y).toModel.unpack = ofParts .negative m e := by
  have hneg : (ofParts .positive m e).neg = ofParts .negative m e := by
    rcases Nat.eq_zero_or_pos m with rfl | hm
    · rfl
    · rw [ofParts_of_pos hm, ofParts_of_pos hm]
      rfl
  change unpack .binary64 (pack .binary64 (y.toModel.unpack.neg)) = _
  rw [hy, hneg]
  exact unpack_pack_ofParts h hmost

/-- A finite number is the number of the bits of its parts, or the opposite. -/
theorem eq_ofBits_bitsOf (h : x.isFinite) :
    let y := Float.ofBits (UInt64.ofNat (bitsOf (decode x).significand (decode x).exponent))
    x = if (decode x).negative then -y else y := by
  intro y
  obtain ⟨hcanonical, hmost⟩ := isCanonical_decode h
  have hy : y.toModel.unpack = ofParts .positive _ _ := unpack_ofBits_bitsOf hcanonical hmost
  have hx := unpack_eq_decode h
  cases hsign : (decode x).negative with
  | false =>
      rw [if_neg Bool.false_ne_true]
      exact eq_of_unpack (by rw [hx, hy, hsign]; rfl)
  | true =>
      rw [if_pos rfl]
      exact eq_of_unpack (by rw [hx, unpack_neg_ofParts hcanonical hmost hy, hsign]; rfl)

end Numbers

end DefiniteIntegral.Binary64
