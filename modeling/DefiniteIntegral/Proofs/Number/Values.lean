import DefiniteIntegral.Proofs.Number.Operations

/-! # The values of floating-point numbers

A finite number in memory stands for a real number. An operation rounds the exact result of these,
if that does not exceed the largest finite number. -/

namespace DefiniteIntegral.Binary64

open Float.Model (Format UnpackedFloat totalExponent)
open Float.Model.UnpackedFloat

section Bits

variable {s : Sign} {m : ℕ} {e : ℤ}

theorem log2_of_full (h : m < 2 ^ 53) (h' : 2 ^ 52 ≤ m) : m.log2 = 52 :=
  (Nat.log2_eq_iff (by omega)).mpr ⟨h', h⟩

/-- The mantissa of a number with an implicit bit. -/
theorem toNat_one_append (fraction : BitVec 52) :
    (1#1 ++ fraction).toNat = 2 ^ 52 + fraction.toNat := by
  rw [BitVec.toNat_append, ← Nat.shiftLeft_add_eq_or_of_lt fraction.isLt]
  rfl

theorem finite_congr {m m' : ℕ} {e e' : ℤ} (hm : 0 < m) (hmantissa : m = m')
    (hexponent : e = e') : UnpackedFloat.finite s m e hm = .finite s m' e' (hmantissa ▸ hm) := by
  subst hmantissa hexponent
  rfl

theorem unpack_pack_normal (hm : m < 2 ^ 53) (hfull : 2 ^ 52 ≤ m) (hleast : -1074 ≤ e)
    (hmost : e ≤ 971) (hpos : 0 < m) :
    unpack .binary64 (pack .binary64 (.finite s m e hpos)) = .finite s m e hpos := by
  obtain ⟨biased, hbiased⟩ : ∃ n : ℕ, e + 1075 = n := Int.eq_ofNat_of_zero_le (by omega)
  have hfield : (e + Format.binary64.exponentBias +
      Format.binary64.mantissaBitsWithoutImplicit).toNat = biased := by
    simp only [Format.exponentBias]
    omega
  have hpack : pack .binary64 (.finite s m e hpos) =
      packComponents .binary64 s (BitVec.ofNat 11 biased) (BitVec.ofNat 52 m) := by
    have hrange : ¬ 2 ^ Format.binary64.exponentBits ≤ biased + 1 := by
      simp only
      omega
    simp only [pack, hfield, hrange, if_false, log2_of_full hm hfull]
    rfl
  have htoNat : (BitVec.ofNat 11 biased).toNat = biased := by
    rw [BitVec.toNat_ofNat, Nat.mod_eq_of_lt (by omega)]
  have hinfinite : BitVec.ofNat 11 biased ≠ -1#11 := fun h => by
    have hlast := congrArg BitVec.toNat h
    rw [htoNat] at hlast
    have : biased = 2047 := hlast
    omega
  have hsubnormal : BitVec.ofNat 11 biased ≠ 0#11 := fun h => by
    have hfirst := congrArg BitVec.toNat h
    rw [htoNat] at hfirst
    have : biased = 0 := hfirst
    omega
  rw [hpack, unpack]
  simp only [unpackExponent_packComponents, unpackMantissa_packComponents,
    unpackSign_packComponents, Sign.ofBitVec_toBitVec, hinfinite, hsubnormal, if_false, htoNat]
  refine finite_congr _ ?_ ?_
  · rw [toNat_one_append, BitVec.toNat_ofNat]
    omega
  · simp only [Format.exponentBias]
    omega

theorem unpack_pack_subnormal (hm : m < 2 ^ 52) (hpos : 0 < m) :
    unpack .binary64 (pack .binary64 (.finite s m (-1074) hpos)) = .finite s m (-1074) hpos := by
  have hshort : m.log2 + 1 ≠ 53 := by
    have := (Nat.log2_lt hpos.ne').mpr hm
    omega
  have hpack : pack .binary64 (.finite s m (-1074) hpos) =
      packComponents .binary64 s 0#11 (BitVec.ofNat 52 m) := by
    simp [pack, Format.exponentBias, Format.mantissaBits, hshort]
  have htoNat : (BitVec.ofNat 52 m).toNat = m := by
    rw [BitVec.toNat_ofNat, Nat.mod_eq_of_lt hm]
  have hfraction : BitVec.ofNat 52 m ≠ 0#52 := fun h => by
    have hnone := congrArg BitVec.toNat h
    rw [htoNat] at hnone
    exact hpos.ne' hnone
  rw [hpack, unpack]
  simp only [unpackExponent_packComponents, unpackMantissa_packComponents,
    unpackSign_packComponents, Sign.ofBitVec_toBitVec]
  rw [if_neg (show 0#11 ≠ -1#11 by decide), if_pos trivial, dif_neg hfraction]
  exact finite_congr _ htoNat rfl

/-- A canonical number in the range of exponents keeps its parts in memory. -/
theorem unpack_pack_ofParts (h : IsCanonical m e) (hmost : e ≤ 971) :
    unpack .binary64 (pack .binary64 (ofParts s m e)) = ofParts s m e := by
  rcases Nat.eq_zero_or_pos m with rfl | hpos
  · exact unpack_packedZero
  rw [ofParts_of_pos hpos]
  by_cases hfull : 2 ^ 52 ≤ m
  · exact unpack_pack_normal h.lt hfull h.least_le hmost hpos
  · obtain rfl := h.full.resolve_right hfull
    exact unpack_pack_subnormal (Nat.lt_of_not_le hfull) hpos

theorem isCanonical_of_unpack {bits : BitVec Format.binary64.numBits} {hpos : 0 < m}
    (h : unpack .binary64 bits = .finite s m e hpos) : IsCanonical m e ∧ e ≤ 971 := by
  have hfraction := (@unpackMantissa Format.binary64 bits).isLt
  have hfield := (@unpackExponent Format.binary64 bits).isLt
  rw [unpack] at h
  split at h
  · split at h <;> cases h
  rename_i hinfinite
  have hlast : (@unpackExponent Format.binary64 bits).toNat ≠ 2047 := fun heq =>
    hinfinite (BitVec.eq_of_toNat_eq heq)
  split at h
  · rename_i hsubnormal
    split at h
    · cases h
    · obtain ⟨-, rfl, rfl⟩ := UnpackedFloat.finite.inj h
      simp only [hsubnormal, Format.exponentBias] at *
      exact ⟨⟨by omega, by simp, .inl (by simp)⟩, by simp⟩
  · rename_i hnormal
    have hfirst : (@unpackExponent Format.binary64 bits).toNat ≠ 0 := fun heq =>
      hnormal (BitVec.eq_of_toNat_eq heq)
    obtain ⟨-, rfl, rfl⟩ := UnpackedFloat.finite.inj h
    have hmantissa := toNat_one_append (@unpackMantissa Format.binary64 bits)
    simp only [Format.exponentBias] at *
    exact ⟨⟨by omega, by omega, .inr (by omega)⟩, by omega⟩

end Bits

/-! ## Numbers -/

/-- A number is what its parts are packed to. -/
theorem ofModel_pack_unpack (x : Float) : Float.ofModel (.pack x.toModel.unpack) = x :=
  Float.toBits_inj.mp (UInt64.toBitVec_inj.mp
    (Float.Model.UnpackedFloat.pack_unpack_of_valid x.toModel.valid))

/-- A floating-point number is finite and stands for a real number. -/
def Value (x : Float) (v : ℝ) : Prop :=
  Denotes x.toModel.unpack v

/-- The magnitude of a real number is at most that of the largest finite one. -/
structure Fits (r : ℝ) : Prop where
  abs_le_largest : |r| ≤ (2 ^ 53 - 1 : ℕ) * 2 ^ (971 : ℤ)

theorem fits_of_abs_le {r : ℝ} {k : ℕ} {e : ℤ} (hk : k < 2 ^ 53) (he : e ≤ 971)
    (h : |r| ≤ k * 2 ^ e) : Fits r := by
  have hk' : k ≤ 2 ^ 53 - 1 := by omega
  refine ⟨h.trans ?_⟩
  gcongr
  norm_num

theorem RoundsTo.fits {r u : ℝ} (h : RoundsTo r u) (hr : Fits r) : Fits u := by
  have hlargest : Representable ((2 ^ 53 - 1 : ℕ) * 2 ^ (971 : ℤ)) :=
    ⟨.positive, _, _, by norm_num, by norm_num, rfl⟩
  obtain ⟨hlow, hhigh⟩ := abs_le.mp hr.abs_le_largest
  exact ⟨abs_le.mpr ⟨h.ge _ hlargest.neg hlow, h.le _ hlargest hhigh⟩⟩

/-- What fits has an exponent in range. -/
theorem exponent_le_of_fits {s : Sign} {m : ℕ} {e : ℤ} (h : IsCanonical m e)
    (hfits : Fits (signed s (m * 2 ^ e))) : e ≤ 971 := by
  by_contra hlarge
  have hfull : 2 ^ 52 ≤ m := h.full.resolve_left (by omega)
  have hle := hfits.abs_le_largest
  rw [abs_signed, abs_of_nonneg (by positivity)] at hle
  have hlow : (2 : ℝ) ^ 52 * 2 ^ (972 : ℤ) ≤ m * 2 ^ e := by
    gcongr
    · exact_mod_cast hfull
    · norm_num
    · omega
  have hhigh : ((2 ^ 53 - 1 : ℕ) : ℝ) * 2 ^ (971 : ℤ) < 2 ^ 52 * 2 ^ (972 : ℤ) := by
    rw [show (972 : ℤ) = 971 + 1 by norm_num, zpow_add_one₀ (by norm_num), mul_comm _ (2 : ℝ),
      ← mul_assoc]
    gcongr
    norm_num
  exact absurd (hlow.trans hle) (not_le.mpr hhigh)

theorem Denotes.value_pack {u : UnpackedFloat} {v : ℝ} (h : Denotes u v) (hfits : Fits v) :
    Value (.ofModel (.pack u)) v := by
  obtain ⟨s, m, e, hcanonical, rfl, rfl⟩ := h
  refine ⟨s, m, e, hcanonical, ?_, rfl⟩
  exact unpack_pack_ofParts hcanonical (exponent_le_of_fits hcanonical hfits)

theorem exists_value (x : Float) (h : x.isFinite) : ∃ v, Value x v := by
  change x.toModel.unpack.isFinite = true at h
  cases hx : x.toModel.unpack with
  | notANumber =>
      rw [hx] at h
      cases h
  | infinity s =>
      rw [hx] at h
      cases h
  | zero s => exact ⟨0, by rw [Value, hx]; exact denotes_zero s⟩
  | finite s m e hm =>
      refine ⟨signed s (m * 2 ^ e), s, m, e, (isCanonical_of_unpack hx).1, ?_, rfl⟩
      rw [hx, ofParts_of_pos hm]

namespace Value

variable {x y : Float} {v w : ℝ}

theorem isFinite (h : Value x v) : x.isFinite := by
  change x.toModel.unpack.isFinite = true
  rcases Denotes.cases h with ⟨s, hx, -⟩ | ⟨s, m, e, hm, -, hx, -⟩
  · rw [hx]
    rfl
  · rw [hx]
    rfl

theorem fits (h : Value x v) : Fits v := by
  obtain ⟨s, m, e, hcanonical, hx, rfl⟩ := h
  rcases Nat.eq_zero_or_pos m with rfl | hm
  · exact ⟨by simp⟩
  · rw [ofParts_of_pos hm] at hx
    have hle : m ≤ 2 ^ 53 - 1 := by
      have := hcanonical.lt
      omega
    have hmost := (isCanonical_of_unpack hx).2
    constructor
    rw [abs_signed, abs_of_nonneg (by positivity)]
    gcongr
    norm_num

theorem add (hx : Value x v) (hy : Value y w) (hfits : Fits (v + w)) :
    ∃ u, Value (x + y) u ∧ RoundsTo (v + w) u := by
  obtain ⟨u, hu, hrounds⟩ := Denotes.add hx hy
  exact ⟨u, hu.value_pack (hrounds.fits hfits), hrounds⟩

theorem sub (hx : Value x v) (hy : Value y w) (hfits : Fits (v - w)) :
    ∃ u, Value (x - y) u ∧ RoundsTo (v - w) u := by
  obtain ⟨u, hu, hrounds⟩ := Denotes.sub hx hy
  exact ⟨u, hu.value_pack (hrounds.fits hfits), hrounds⟩

theorem mul (hx : Value x v) (hy : Value y w) (hfits : Fits (v * w)) :
    ∃ u, Value (x * y) u ∧ RoundsTo (v * w) u := by
  obtain ⟨u, hu, hrounds⟩ := Denotes.mul hx hy
  exact ⟨u, hu.value_pack (hrounds.fits hfits), hrounds⟩

theorem div (hx : Value x v) (hy : Value y w) (hw : w ≠ 0) (hfits : Fits (v / w)) :
    ∃ u, Value (x / y) u ∧ RoundsTo (v / w) u := by
  obtain ⟨u, hu, hrounds⟩ := Denotes.div hx hy hw
  exact ⟨u, hu.value_pack (hrounds.fits hfits), hrounds⟩

/-- A root has no larger magnitude than its square, unless that is below one. -/
theorem fits_sqrt (hfits : Fits v) : Fits √v := by
  have hone : (1 : ℝ) ≤ (2 ^ 53 - 1 : ℕ) * 2 ^ (971 : ℤ) :=
    one_le_mul_of_one_le_of_one_le (by norm_num) (one_le_zpow₀ (by norm_num) (by norm_num))
  constructor
  rw [abs_of_nonneg (Real.sqrt_nonneg v)]
  refine Real.sqrt_le_iff.mpr ⟨by positivity, ?_⟩
  calc
    v ≤ |v| := le_abs_self v
    _ ≤ (2 ^ 53 - 1 : ℕ) * 2 ^ (971 : ℤ) := hfits.abs_le_largest
    _ ≤ ((2 ^ 53 - 1 : ℕ) * 2 ^ (971 : ℤ)) ^ 2 := le_self_pow₀ hone two_ne_zero

theorem sqrt (hx : Value x v) (hv : 0 ≤ v) : ∃ u, Value x.sqrt u ∧ RoundsTo √v u := by
  obtain ⟨u, hu, hrounds⟩ := Denotes.sqrt hx hv
  exact ⟨u, hu.value_pack (hrounds.fits (fits_sqrt hx.fits)), hrounds⟩

theorem abs (hx : Value x v) : Value x.abs |v| :=
  (Denotes.abs hx).value_pack ⟨by simpa using hx.fits.abs_le_largest⟩

theorem neg (hx : Value x v) : Value (-x) (-v) :=
  (Denotes.neg hx).value_pack ⟨by simpa using hx.fits.abs_le_largest⟩

end Value

/-! ## Whole numbers and powers of two -/

theorem value_two_pow {x : Float} {e : ℤ} (hleast : -1022 ≤ e)
    (h : x.toModel.unpack = ofParts .positive (2 ^ 52) (e - 52)) : Value x (2 ^ e) := by
  refine ⟨.positive, 2 ^ 52, e - 52, ⟨by decide, by omega, .inr le_rfl⟩, h, ?_⟩
  rw [signed, zpow_sub₀ (by norm_num), mul_comm]
  norm_num

theorem exists_value_toFloat (n : UInt64) : ∃ u, Value n.toFloat u ∧ RoundsTo n.toNat u := by
  obtain ⟨s, m, e, hcanonical, hnormalize, hrounds⟩ :=
    exists_roundsTo_normalize n.toNat 0 .positive
  rw [zpow_zero, mul_one, Int.cast_natCast] at hrounds
  have hfits : Fits (n.toNat : ℝ) := by
    refine fits_of_abs_le (k := 1) (e := 64) (by norm_num) (by norm_num) ?_
    rw [abs_of_nonneg (by positivity), Nat.cast_one, one_mul]
    exact_mod_cast n.toNat_lt.le
  exact ⟨_, Denotes.value_pack ⟨s, m, e, hcanonical, hnormalize, rfl⟩ (hrounds.fits hfits),
    hrounds⟩

/-! ## Zero -/

section Zero

variable {x y : Float} {v w : ℝ}

theorem exists_unpack_eq_zero (h : Value x 0) : ∃ s, x.toModel.unpack = .zero s := by
  rcases Denotes.cases h with ⟨s, hx, -⟩ | ⟨s, m, e, hm, -, -, hzero⟩
  · exact ⟨s, hx⟩
  · have hpos : (0 : ℝ) < m * 2 ^ e := by
      have : (0 : ℝ) < m := by exact_mod_cast hm
      positivity
    have habs := congrArg (|·|) hzero
    simp only [abs_zero, abs_signed, abs_of_pos hpos] at habs
    exact absurd habs hpos.ne

theorem Value.beq_zero (h : Value x 0) : x == 0 := by
  obtain ⟨s, hx⟩ := exists_unpack_eq_zero h
  change x.toModel.unpack.beq (0 : Float).toModel.unpack = true
  rw [hx]
  cases s <;> rfl

theorem value_zero_mul (hx : Value x 0) (hy : Value y w) : Value (x * y) 0 := by
  obtain ⟨u, hu, hrounds⟩ := hx.mul hy ⟨by simp⟩
  rw [zero_mul] at hrounds
  rwa [hrounds.eq_zero] at hu

theorem value_mul_zero (hx : Value x v) (hy : Value y 0) : Value (x * y) 0 := by
  obtain ⟨u, hu, hrounds⟩ := hx.mul hy ⟨by simp⟩
  rw [mul_zero] at hrounds
  rwa [hrounds.eq_zero] at hu

theorem value_zero_div (hx : Value x 0) (hy : Value y w) (hw : w ≠ 0) : Value (x / y) 0 := by
  obtain ⟨u, hu, hrounds⟩ := hx.div hy hw ⟨by simp⟩
  rw [zero_div] at hrounds
  rwa [hrounds.eq_zero] at hu

theorem value_sub_self (hx : Value x v) : Value (x - x) 0 := by
  obtain ⟨u, hu, hrounds⟩ := hx.sub hx ⟨by simp⟩
  rw [sub_self] at hrounds
  rwa [hrounds.eq_zero] at hu

/-- Zero times what is not finite is no number. -/
theorem exists_value_of_zero_mul (hx : Value x 0) (h : (x * y).isFinite) : ∃ w, Value y w := by
  obtain ⟨s, hzero⟩ := exists_unpack_eq_zero hx
  change (Float.Model.pack (x.toModel.unpack.mul .binary64 y.toModel.unpack)).unpack.isFinite =
    true at h
  refine exists_value y ?_
  change y.toModel.unpack.isFinite = true
  rw [hzero] at h
  have hnan : (Float.Model.pack .notANumber).unpack.isFinite = false := rfl
  cases hy : y.toModel.unpack with
  | notANumber =>
      rw [hy] at h
      exact absurd (hnan.symm.trans h) (by decide)
  | infinity t =>
      rw [hy] at h
      exact absurd (hnan.symm.trans h) (by decide)
  | zero t => rfl
  | finite t m e hm => rfl

end Zero

/-! ## Comparison -/

section Comparison

variable {m k : ℕ} {e d : ℤ}

/-- A larger exponent makes a larger number. -/
theorem magnitude_le_of_lt (h : IsCanonical m e) (h' : IsCanonical k d) (hlt : e < d) :
    (m : ℝ) * 2 ^ e ≤ k * 2 ^ d := by
  have hleast := h.least_le
  have hfull : 2 ^ 52 ≤ k := h'.full.resolve_left (by omega)
  calc
    (m : ℝ) * 2 ^ e ≤ 2 ^ 53 * 2 ^ e := by
      gcongr
      exact_mod_cast h.lt.le
    _ = 2 ^ 52 * 2 ^ (e + 1) := by
      rw [zpow_add_one₀ (by norm_num)]
      ring
    _ ≤ k * 2 ^ d := by
      gcongr
      · exact_mod_cast hfull
      · norm_num
      · omega

theorem magnitude_le_of_compare (h : IsCanonical m e) (h' : IsCanonical k d)
    (hle : ((compare e d).then (compare m k)).isLE) : (m : ℝ) * 2 ^ e ≤ k * 2 ^ d := by
  rcases lt_trichotomy e d with hlt | rfl | hlt
  · exact magnitude_le_of_lt h h' hlt
  · rw [Int.compare_eq_eq.mpr rfl, Ordering.then, Nat.isLE_compare] at hle
    gcongr
  · rw [Int.compare_eq_gt.mpr hlt] at hle
    cases hle

theorem Value.le {x y : Float} {v w : ℝ} (hx : Value x v) (hy : Value y w) (h : x ≤ y) :
    v ≤ w := by
  have hle : x.toModel.unpack.le y.toModel.unpack := of_decide_eq_true h
  rcases Denotes.cases hx with ⟨s, hunpack, rfl⟩ | ⟨s, m, e, hm, hcanonical, hunpack, rfl⟩
  · rcases Denotes.cases hy with ⟨t, hunpack', rfl⟩ | ⟨t, k, d, hk, hcanonical', hunpack', rfl⟩
    · exact le_rfl
    · rw [hunpack, hunpack'] at hle
      cases t with
      | negative => cases hle
      | positive => exact mul_nonneg k.cast_nonneg (by positivity)
  · rcases Denotes.cases hy with ⟨t, hunpack', rfl⟩ | ⟨t, k, d, hk, hcanonical', hunpack', rfl⟩
    · rw [hunpack, hunpack'] at hle
      cases s with
      | negative => exact neg_nonpos.mpr (by positivity)
      | positive => cases hle
    · rw [hunpack, hunpack'] at hle
      cases s with
      | negative =>
          cases t with
          | negative =>
              refine neg_le_neg (magnitude_le_of_compare hcanonical' hcanonical ?_)
              have hswap : ((compare e d).then (compare m k)).swap.isLE := hle
              rwa [Ordering.swap_then, Int.compare_swap, Nat.compare_swap] at hswap
          | positive =>
              calc
                -(m * 2 ^ e : ℝ) ≤ 0 := neg_nonpos.mpr (by positivity)
                _ ≤ k * 2 ^ d := by positivity
      | positive =>
          cases t with
          | negative => cases hle
          | positive => exact magnitude_le_of_compare hcanonical hcanonical' hle

/-- Finite numbers can be compared, in either order. -/
theorem Denotes.exists_compare {x y : UnpackedFloat} {v w : ℝ} (hx : Denotes x v)
    (hy : Denotes y w) : ∃ o, x.compare y = some o ∧ y.compare x = some o.swap := by
  rcases hx.cases with ⟨s, rfl, -⟩ | ⟨s, m, e, hm, -, rfl, -⟩
  · rcases hy.cases with ⟨t, rfl, -⟩ | ⟨t, k, d, hk, -, rfl, -⟩
    · exact ⟨.eq, rfl, rfl⟩
    · cases t
      · exact ⟨.gt, rfl, rfl⟩
      · exact ⟨.lt, rfl, rfl⟩
  · rcases hy.cases with ⟨t, rfl, -⟩ | ⟨t, k, d, hk, -, rfl, -⟩
    · cases s
      · exact ⟨.lt, rfl, rfl⟩
      · exact ⟨.gt, rfl, rfl⟩
    · have hswap : ((compare e d).then (compare m k)).swap =
          (compare d e).then (compare k m) := by
        rw [Ordering.swap_then, Int.compare_swap, Nat.compare_swap]
      cases s <;> cases t
      · exact ⟨_, rfl, by rw [Ordering.swap_swap, UnpackedFloat.compare, ← hswap,
          Ordering.swap_swap]⟩
      · exact ⟨.lt, rfl, rfl⟩
      · exact ⟨.gt, rfl, rfl⟩
      · exact ⟨_, rfl, by rw [hswap, UnpackedFloat.compare]⟩

theorem Value.compare_eq_lt {x y : Float} {v w : ℝ} (hx : Value x v) (hy : Value y w)
    (h : v < w) : x.toModel.unpack.compare y.toModel.unpack = some .lt := by
  obtain ⟨o, ho, hswap⟩ := Denotes.exists_compare hx hy
  have hle : ¬ o.swap.isLE := by
    intro hle
    have hmodel : y.toModel.unpack.le x.toModel.unpack := by
      rw [UnpackedFloat.le, hswap]
      exact hle
    exact h.not_ge (hy.le hx (decide_eq_true hmodel))
  cases o with
  | lt => exact ho
  | eq => exact absurd rfl hle
  | gt => exact absurd rfl hle

theorem Value.lt {x y : Float} {v w : ℝ} (hx : Value x v) (hy : Value y w) (h : v < w) :
    x < y := by
  have hlt : x.toModel.unpack.lt y.toModel.unpack := by
    rw [UnpackedFloat.lt, hx.compare_eq_lt hy h]
    rfl
  exact decide_eq_true hlt

theorem Value.nonneg {x : Float} {v : ℝ} (hx : Value x v) (h : 0 ≤ v) : 0 ≤ x := by
  have hle : (0 : Float).toModel.unpack.le x.toModel.unpack := by
    rcases h.eq_or_lt with rfl | hpos
    · obtain ⟨s, hzero⟩ := exists_unpack_eq_zero hx
      rw [hzero]
      rfl
    · have hzero : Value (0 : Float) 0 := denotes_zero .positive
      rw [UnpackedFloat.le, hzero.compare_eq_lt hx hpos]
      rfl
  exact decide_eq_true hle

theorem Value.beq_self {x : Float} {v : ℝ} (h : Value x v) : x == x := by
  change x.toModel.unpack.beq x.toModel.unpack = true
  rcases Denotes.cases h with ⟨s, hx, -⟩ | ⟨s, m, e, hm, -, hx, -⟩
  · rw [hx]
    rfl
  · rw [hx]
    cases s <;> simp [UnpackedFloat.beq, UnpackedFloat.compare]

theorem exists_value_le {x y : Float} {w : ℝ} (hx : x.isFinite) (hy : Value y w) (h : x ≤ y) :
    ∃ v, Value x v ∧ v ≤ w :=
  (exists_value x hx).imp fun _ hv => ⟨hv, hv.le hy h⟩

end Comparison

end DefiniteIntegral.Binary64
