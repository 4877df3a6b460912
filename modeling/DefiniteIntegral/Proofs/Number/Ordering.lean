import DefiniteIntegral.Proofs.Number.Bits

/-! # The order of floating-point numbers

Without their signs, the bits of the numbers that are not NaN rise with the numbers. The order key
puts these numbers in their order, negative zero before zero, and NaN after all of them. -/

namespace DefiniteIntegral.Binary64

open Float.Model (Format UnpackedFloat)
open Float.Model.UnpackedFloat

/-! ## Ranks -/

section Ranks

variable {m k : ℕ} {e d : ℤ}

theorem bitsOf_mem (hm : 0 < m) (h : IsCanonical m e) (hmost : e ≤ 971) :
    0 < bitsOf m e ∧ bitsOf m e < infinityBits := by
  have hlt := h.lt
  have hinfinity : infinityBits = 2047 * 2 ^ 52 := by decide
  rw [bitsOf, hinfinity]
  omega

/-- The bits of parts rise with the exponent, and with the mantissa where the exponents agree. -/
theorem compare_bitsOf (h : IsCanonical m e) (h' : IsCanonical k d) :
    compare (bitsOf m e) (bitsOf k d) = (compare e d).then (compare m k) := by
  have hm := h.lt
  have hk := h'.lt
  have hleast := h.least_le
  have hleast' := h'.least_le
  rcases lt_trichotomy e d with hlt | rfl | hlt
  · have hfull : 2 ^ 52 ≤ k := h'.full.resolve_left (by omega)
    rw [Int.compare_eq_lt.mpr hlt, Ordering.lt_then, Nat.compare_eq_lt, bitsOf, bitsOf]
    omega
  · rw [Int.compare_eq_eq.mpr rfl, Ordering.eq_then]
    rcases lt_trichotomy m k with hlt | rfl | hlt
    · rw [Nat.compare_eq_lt.mpr hlt, Nat.compare_eq_lt, bitsOf, bitsOf]
      omega
    · rw [Nat.compare_eq_eq.mpr rfl, Nat.compare_eq_eq.mpr rfl]
    · rw [Nat.compare_eq_gt.mpr hlt, Nat.compare_eq_gt, bitsOf, bitsOf]
      omega
  · have hfull : 2 ^ 52 ≤ m := h.full.resolve_left (by omega)
    rw [Int.compare_eq_gt.mpr hlt, Ordering.gt_then, Nat.compare_eq_gt, bitsOf, bitsOf]
    omega

theorem compare_natCast (a b : ℕ) : compare (a : ℤ) b = compare a b := by
  rcases lt_trichotomy a b with hlt | rfl | hlt
  · rw [Nat.compare_eq_lt.mpr hlt, Int.compare_eq_lt]
    exact_mod_cast hlt
  · rw [Nat.compare_eq_eq.mpr rfl, Int.compare_eq_eq.mpr rfl]
  · rw [Nat.compare_eq_gt.mpr hlt, Int.compare_eq_gt]
    exact_mod_cast hlt

theorem compare_neg_neg (a b : ℤ) : compare (-a) (-b) = (compare a b).swap := by
  rw [Int.compare_swap]
  rcases lt_trichotomy a b with hlt | rfl | hlt
  · rw [Int.compare_eq_gt.mpr hlt, Int.compare_eq_gt]
    omega
  · rw [Int.compare_eq_eq.mpr rfl, Int.compare_eq_eq.mpr rfl]
  · rw [Int.compare_eq_lt.mpr hlt, Int.compare_eq_lt]
    omega

/-- What is not NaN has a rank: the bits of its magnitude, with its sign. -/
inductive Ranked : UnpackedFloat → ℤ → Prop
  | zero (s : Sign) : Ranked (.zero s) 0
  | finite {m : ℕ} {e : ℤ} (s : Sign) (hm : 0 < m) (hcanonical : IsCanonical m e)
      (hmost : e ≤ 971) : Ranked (.finite s m e hm) (s.apply (bitsOf m e))
  | infinity (s : Sign) : Ranked (.infinity s) (s.apply infinityBits)

theorem some_lt_eq {a b : ℤ} (h : a < b) : some Ordering.lt = some (compare a b) := by
  rw [Int.compare_eq_lt.mpr h]

theorem some_gt_eq {a b : ℤ} (h : b < a) : some Ordering.gt = some (compare a b) := by
  rw [Int.compare_eq_gt.mpr h]

/-- What is not NaN compares as its ranks do. -/
theorem Ranked.compare_eq {u v : UnpackedFloat} {a b : ℤ} (h : Ranked u a) (h' : Ranked v b) :
    u.compare v = some (compare a b) := by
  cases h with
  | zero s =>
      cases h' with
      | zero t => rfl
      | finite t hk hcanonical' hmost' =>
          have hmem := bitsOf_mem hk hcanonical' hmost'
          cases t with
          | negative => exact some_gt_eq (by simp only [Sign.apply]; omega)
          | positive => exact some_lt_eq (by simp only [Sign.apply]; omega)
      | infinity t => cases t <;> rfl
  | finite s hm hcanonical hmost =>
      have hmem := bitsOf_mem hm hcanonical hmost
      cases h' with
      | zero t =>
          cases s with
          | negative => exact some_lt_eq (by simp only [Sign.apply]; omega)
          | positive => exact some_gt_eq (by simp only [Sign.apply]; omega)
      | finite t hk hcanonical' hmost' =>
          have hmem' := bitsOf_mem hk hcanonical' hmost'
          have hbits := compare_bitsOf hcanonical hcanonical'
          cases s with
          | negative =>
              cases t with
              | negative =>
                  rw [Sign.apply, Sign.apply, compare_neg_neg, compare_natCast, hbits]
                  rfl
              | positive => exact some_lt_eq (by simp only [Sign.apply]; omega)
          | positive =>
              cases t with
              | negative => exact some_gt_eq (by simp only [Sign.apply]; omega)
              | positive =>
                  rw [Sign.apply, Sign.apply, compare_natCast, hbits]
                  rfl
      | infinity t =>
          cases t with
          | negative => exact some_gt_eq (by cases s <;> simp only [Sign.apply] <;> omega)
          | positive => exact some_lt_eq (by cases s <;> simp only [Sign.apply] <;> omega)
  | infinity s =>
      cases h' with
      | zero t => cases s <;> rfl
      | finite t hk hcanonical' hmost' =>
          have hmem := bitsOf_mem hk hcanonical' hmost'
          cases s with
          | negative => exact some_lt_eq (by cases t <;> simp only [Sign.apply] <;> omega)
          | positive => exact some_gt_eq (by cases t <;> simp only [Sign.apply] <;> omega)
      | infinity t => cases s <;> cases t <;> rfl

theorem Ranked.le_infinityBits {u : UnpackedFloat} {a : ℤ} (h : Ranked u a) :
    a ≤ infinityBits := by
  cases h with
  | zero s => exact Int.natCast_nonneg _
  | finite s hm hcanonical hmost =>
      have hmem := bitsOf_mem hm hcanonical hmost
      cases s <;> simp only [Sign.apply] <;> omega
  | infinity s => cases s <;> simp only [Sign.apply] <;> omega

end Ranks

/-! ## Keys -/

section Keys

variable {x y : Float}

/-- The rank of a number: its bits without the sign, with the sign. -/
def rank (x : Float) : ℤ :=
  if 2 ^ 63 ≤ x.toBits.toNat then 2 ^ 63 - (x.toBits.toNat : ℤ) else x.toBits.toNat

theorem bitsOf_decodeBits (n : ℕ) :
    bitsOf (decodeBits n).significand (decodeBits n).exponent = n % 2 ^ 63 := by
  have hfield : exponentField n = n / 2 ^ 52 % 2 ^ 11 := rfl
  by_cases hzero : exponentField n = 0
  · simp only [bitsOf, decodeBits, hzero, ↓reduceIte]
    omega
  · simp only [bitsOf, decodeBits, hzero, ↓reduceIte]
    omega

theorem rank_eq_apply (x : Float) :
    rank x = (signOf (decode x).negative).apply
      (bitsOf (decode x).significand (decode x).exponent) := by
  have hbits : bitsOf (decode x).significand (decode x).exponent = x.toBits.toNat % 2 ^ 63 :=
    bitsOf_decodeBits _
  have hnegative : (decode x).negative = decide (2 ^ 63 ≤ x.toBits.toNat) := rfl
  have hlt := x.toBits.toNat_lt
  rw [rank, hbits, hnegative]
  by_cases hsign : 2 ^ 63 ≤ x.toBits.toNat
  · simp only [hsign, decide_true, signOf, ↓reduceIte, Sign.apply]
    omega
  · simp only [hsign, decide_false, signOf, Bool.false_eq_true, ↓reduceIte, Sign.apply]
    omega

theorem ranked_rank_of_isFinite (h : x.isFinite) : Ranked x.toModel.unpack (rank x) := by
  obtain ⟨hcanonical, hmost⟩ := isCanonical_decode h
  rw [unpack_eq_decode h, rank_eq_apply]
  rcases Nat.eq_zero_or_pos (decode x).significand with hzero | hpos
  · rw [hzero] at hcanonical ⊢
    have hexponent : (decode x).exponent = -1074 := hcanonical.full.resolve_right (by decide)
    have hrank : (signOf (decode x).negative).apply (bitsOf 0 (decode x).exponent) = 0 := by
      rw [hexponent]
      cases (decode x).negative <;> rfl
    rw [hrank]
    exact .zero _
  · rw [ofParts_of_pos hpos]
    exact .finite _ hpos hcanonical hmost

theorem ranked_rank (h : ¬ x.isNaN) : Ranked x.toModel.unpack (rank x) := by
  have hpack := ofModel_pack_unpack x
  cases hx : x.toModel.unpack with
  | notANumber =>
      have hnan : x.isNaN = x.toModel.unpack.isNaN := rfl
      rw [hx] at hnan
      exact absurd hnan h
  | infinity s =>
      rw [hx] at hpack
      have hrank : rank x = s.apply infinityBits := by
        rw [← hpack]
        cases s <;> rfl
      rw [hrank]
      exact .infinity s
  | zero s =>
      rw [← hx]
      refine ranked_rank_of_isFinite ?_
      change x.toModel.unpack.isFinite = true
      rw [hx]
      rfl
  | finite s m e hm =>
      rw [← hx]
      refine ranked_rank_of_isFinite ?_
      change x.toModel.unpack.isFinite = true
      rw [hx]
      rfl

theorem toNat_orderKey (x : Float) :
    (orderKey x).toNat =
      if 2 ^ 63 ≤ x.toBits.toNat then 2 ^ 64 - 1 - x.toBits.toNat else x.toBits.toNat + 2 ^ 63 := by
  have hlt := x.toBits.toNat_lt
  by_cases hsign : 2 ^ 63 ≤ x.toBits.toNat
  · have hbits : ¬ x.toBits < 0x8000000000000000 := Nat.not_lt.mpr hsign
    rw [orderKey, if_neg hbits, if_pos hsign, UInt64.toNat_not]
    rfl
  · have hbits : x.toBits < 0x8000000000000000 := Nat.lt_of_not_le hsign
    rw [orderKey, if_pos hbits, if_neg hsign, UInt64.toNat_or, Nat.or_comm]
    exact (Nat.two_pow_add_eq_or_of_lt (Nat.lt_of_not_le hsign) 1).symm.trans (by omega)

theorem eq_iff_toNat_toBits : x = y ↔ x.toBits.toNat = y.toBits.toNat := by
  rw [UInt64.toNat_inj, Float.toBits_inj]

/-- Different numbers have different keys. -/
theorem orderKey_injective : Function.Injective orderKey := by
  intro x y h
  have hkeys := congrArg UInt64.toNat h
  have hx := x.toBits.toNat_lt
  have hy := y.toBits.toNat_lt
  rw [toNat_orderKey, toNat_orderKey] at hkeys
  rw [eq_iff_toNat_toBits]
  split_ifs at hkeys <;> omega

theorem orderKey_lt_iff_rank :
    orderKey x < orderKey y ↔ rank x < rank y ∨ x = -0.0 ∧ y = 0.0 := by
  have hx := x.toBits.toNat_lt
  have hy := y.toBits.toNat_lt
  have hnegative : (-0.0 : Float).toBits.toNat = 2 ^ 63 := rfl
  have hzero : (0.0 : Float).toBits.toNat = 0 := rfl
  rw [UInt64.lt_iff_toNat_lt, toNat_orderKey, toNat_orderKey, rank, rank, eq_iff_toNat_toBits,
    eq_iff_toNat_toBits, hnegative, hzero]
  split_ifs <;> omega

theorem lt_iff_rank (hx : ¬ x.isNaN) (hy : ¬ y.isNaN) : x < y ↔ rank x < rank y := by
  have hcompare := (ranked_rank hx).compare_eq (ranked_rank hy)
  have hlt : x < y ↔ x.toModel.unpack.lt y.toModel.unpack := decide_eq_true_iff
  rw [hlt, UnpackedFloat.lt, hcompare, beq_iff_eq, Option.some.injEq, Int.compare_eq_lt]

theorem le_iff_rank (hx : ¬ x.isNaN) (hy : ¬ y.isNaN) : x ≤ y ↔ rank x ≤ rank y := by
  have hcompare := (ranked_rank hx).compare_eq (ranked_rank hy)
  have hle : x ≤ y ↔ x.toModel.unpack.le y.toModel.unpack := decide_eq_true_iff
  rw [hle, UnpackedFloat.le, hcompare, Option.any_some, Int.isLE_compare]

/-- Keys rise with the numbers, and negative zero comes before zero. -/
theorem orderKey_lt_iff (hx : ¬ x.isNaN) (hy : ¬ y.isNaN) :
    orderKey x < orderKey y ↔ x < y ∨ x = -0.0 ∧ y = 0.0 := by
  rw [orderKey_lt_iff_rank, lt_iff_rank hx hy]

theorem le_of_orderKey_le (hx : ¬ x.isNaN) (hy : ¬ y.isNaN) (h : orderKey x ≤ orderKey y) :
    x ≤ y := by
  have hkeys : ¬ orderKey y < orderKey x := UInt64.not_lt.mpr h
  rw [orderKey_lt_iff_rank, not_or, not_lt] at hkeys
  exact (le_iff_rank hx hy).mpr hkeys.1

theorem unpack_eq_notANumber (h : x.isNaN) : x.toModel.unpack = .notANumber := by
  change x.toModel.unpack.isNaN = true at h
  cases hx : x.toModel.unpack with
  | notANumber => rfl
  | infinity | zero | finite =>
      rw [hx] at h
      cases h

/-- NaN comes after all other numbers. -/
theorem orderKey_lt_of_isNaN (hx : ¬ x.isNaN) (hy : y.isNaN) : orderKey x < orderKey y := by
  have hlargest : rank x ≤ infinityBits := (ranked_rank hx).le_infinityBits
  have hnan : y = Float.ofModel (.pack .notANumber) := by
    rw [← unpack_eq_notANumber hy, ofModel_pack_unpack]
  have hrank : rank y = 0x7FF8000000000000 := by
    rw [hnan]
    rfl
  have hinfinity : infinityBits = 0x7FF0000000000000 := by decide
  rw [orderKey_lt_iff_rank]
  omega

end Keys

end DefiniteIntegral.Binary64
