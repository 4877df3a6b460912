import DefiniteIntegral.Number.Decimal
import Mathlib

/-! # The sign of floating-point numbers

A number whose sign bit is clear is not negative, and the numbers that decimal numerals stand for
are such. -/

namespace DefiniteIntegral

open Float.Model (Format UnpackedFloat)
open Float.Model.UnpackedFloat

namespace Binary64

/-- Whether the sign bit of a number is clear. -/
def IsUnsigned (x : Float) : Prop :=
  @unpackSign Format.binary64 x.toModel.toBits.toBitVec = 0#1

/-! ## The sign bit -/

section Bits

variable {bits : BitVec Format.binary64.numBits}

theorem unpackSign_eq_zero {bits : UInt64} (h : bits.toNat < Nat.pow 2 63) :
    @unpackSign Format.binary64 bits.toBitVec = 0#1 := by
  apply BitVec.eq_of_toNat_eq
  simp only [unpackSign, BitVec.extractLsb_toNat, BitVec.toNat_cast, Nat.shiftRight_eq_div_pow,
    UInt64.toNat_toBitVec, Nat.div_eq_of_lt h]
  rfl

/-- What bits with a clear sign stand for. -/
theorem unpack_cases (h : unpackSign bits = 0#1) :
    unpack .binary64 bits = .notANumber ∨ unpack .binary64 bits = .infinity .positive ∨
      unpack .binary64 bits = .zero .positive ∨
      ∃ mantissa exponent hpos,
        unpack .binary64 bits = .finite .positive mantissa exponent hpos := by
  have hsign : Sign.ofBitVec (unpackSign bits) = .positive := by
    rw [h]
    rfl
  rw [unpack, hsign]
  split
  · split
    · exact .inr (.inl rfl)
    · exact .inl rfl
  · split
    · split
      · exact .inr (.inr (.inl rfl))
      · exact .inr (.inr (.inr
          ⟨_, _, by simpa [BitVec.toNat_pos, BitVec.pos_iff_ne_zero], rfl⟩))
    · have hpos : 0 < (1#1 ++ unpackMantissa bits).toNat := by
        rw [BitVec.toNat_append]
        exact Nat.lt_of_lt_of_le (by decide) Nat.left_le_or
      exact .inr (.inr (.inr ⟨_, _, hpos, rfl⟩))

/-- Normalizing bits keeps their sign clear. -/
theorem unpackSign_pack_unpack (h : unpackSign bits = 0#1) :
    unpackSign (pack .binary64 (unpack .binary64 bits)) = 0#1 := by
  rw [pack_unpack bits]
  split
  · exact unpackSign_packComponents ..
  · exact h

end Bits

/-! ## Numbers -/

theorem IsUnsigned.nonneg {x : Float} (h : IsUnsigned x) (hfinite : x.isFinite) : 0 ≤ x := by
  have hle : (0 : Float).toModel.unpack.le x.toModel.unpack := by
    change x.toModel.unpack.isFinite = true at hfinite
    rcases unpack_cases h with hunpack | hunpack | hunpack | ⟨mantissa, exponent, hpos, hunpack⟩
    · rw [Float.Model.unpack, hunpack] at hfinite
      cases hfinite
    · rw [Float.Model.unpack, hunpack] at hfinite
      cases hfinite
    · rw [Float.Model.unpack.eq_1 x.toModel, hunpack]
      rfl
    · rw [Float.Model.unpack.eq_1 x.toModel, hunpack]
      rfl
  exact decide_eq_true hle

theorem isUnsigned_zero : IsUnsigned 0.0 :=
  rfl

theorem isUnsigned_ofBits {bits : UInt64} (h : bits.toNat < Nat.pow 2 63) :
    IsUnsigned (Float.ofBits bits) :=
  unpackSign_pack_unpack (unpackSign_eq_zero h)

theorem isUnsigned_ofRatio (num den : Nat) : IsUnsigned (ofRatio num den) := by
  rw [ofRatio]
  split
  · exact isUnsigned_zero
  · apply isUnsigned_ofBits
    calc
      (UInt64.ofNat (nearestBits num den)).toNat ≤ nearestBits num den := Nat.mod_le _ _
      _ ≤ infinityBits := Nat.min_le_right _ _
      _ < Nat.pow 2 63 := by decide

end Binary64

theorem Decimal.isUnsigned_toFloat (d : Decimal) : Binary64.IsUnsigned d.toFloat := by
  rw [toFloat]
  dsimp only
  split
  · exact Binary64.isUnsigned_zero
  · split
    · exact Binary64.isUnsigned_ofBits (by decide)
    · exact Binary64.isUnsigned_ofRatio _ _

end DefiniteIntegral
