import DefiniteIntegral.Proofs.Number.Rounding

/-! # Rounded operations

An operation on finite numbers gives what the exact result may be rounded to, of whatever size that
is. -/

namespace DefiniteIntegral.Binary64

open Float.Model (Format UnpackedFloat totalExponent)
open Float.Model.UnpackedFloat

/-- A finite number stands for a real one. -/
inductive Denotes (x : UnpackedFloat) (v : ℝ) : Prop
  | intro (s : Sign) (m : ℕ) (e : ℤ) (hcanonical : IsCanonical m e) (hparts : x = ofParts s m e)
      (hvalue : v = signed s (m * 2 ^ e))

section Operations

variable {x y : UnpackedFloat} {v w : ℝ}

theorem denotes_zero (s : Sign) : Denotes (.zero s) 0 :=
  ⟨s, 0, -1074, isCanonical_zero, rfl, by simp⟩

theorem Denotes.neg (hx : Denotes x v) : Denotes x.neg (-v) := by
  obtain ⟨s, m, e, hcanonical, rfl, rfl⟩ := hx
  refine ⟨-s, m, e, hcanonical, ?_, (signed_neg _ _).symm⟩
  by_cases hm : m = 0
  · subst hm
    rfl
  · rw [ofParts_of_pos (Nat.pos_of_ne_zero hm), ofParts_of_pos (Nat.pos_of_ne_zero hm)]
    rfl

theorem Denotes.abs (hx : Denotes x v) : Denotes x.abs |v| := by
  obtain ⟨s, m, e, hcanonical, rfl, rfl⟩ := hx
  refine ⟨.positive, m, e, hcanonical, ?_, ?_⟩
  · by_cases hm : m = 0
    · subst hm
      rfl
    · rw [ofParts_of_pos (Nat.pos_of_ne_zero hm), ofParts_of_pos (Nat.pos_of_ne_zero hm)]
      rfl
  · rw [abs_signed, abs_of_nonneg (by positivity)]
    rfl

theorem cast_decreaseExponent {m : ℕ} {e target : ℤ} (h : target ≤ e) (s : Sign) :
    ((s.apply (decreaseExponent m e target).1 : ℤ) : ℝ) * 2 ^ target = signed s (m * 2 ^ e) := by
  obtain ⟨n, rfl⟩ := Int.le.dest h
  have hvalue := cast_shiftLeft m n (target + n)
  rw [add_sub_cancel_right] at hvalue
  rw [cast_apply, signed_mul, decreaseExponent, add_sub_cancel_left, Int.toNat_natCast, hvalue]

/-- A finite number is zero, or it has a mantissa that is not. -/
theorem Denotes.cases (hx : Denotes x v) :
    (∃ s, x = .zero s ∧ v = 0) ∨
      ∃ (s : Sign) (m : ℕ) (e : ℤ) (hm : 0 < m), IsCanonical m e ∧ x = .finite s m e hm ∧
        v = signed s (m * 2 ^ e) := by
  obtain ⟨s, m, e, hcanonical, rfl, rfl⟩ := hx
  rcases Nat.eq_zero_or_pos m with rfl | hm
  · exact .inl ⟨s, rfl, by simp⟩
  · exact .inr ⟨s, m, e, hm, hcanonical, ofParts_of_pos hm, rfl⟩

theorem Denotes.add (hx : Denotes x v) (hy : Denotes y w) :
    ∃ u, Denotes (x.add .binary64 y) u ∧ RoundsTo (v + w) u := by
  rcases hx.cases with ⟨s, rfl, rfl⟩ | ⟨s, m, e, hm, -, rfl, rfl⟩
  · rw [zero_add]
    rcases hy.cases with ⟨t, rfl, rfl⟩ | ⟨t, k, d, hk, -, rfl, -⟩
    · refine ⟨0, ?_, .refl 0⟩
      cases s <;> cases t <;> exact denotes_zero _
    · exact ⟨w, hy, .refl w⟩
  · rcases hy.cases with ⟨t, rfl, rfl⟩ | ⟨t, k, d, hk, -, rfl, rfl⟩
    · rw [add_zero]
      exact ⟨_, hx, .refl _⟩
    · obtain ⟨s', m', e', hcanonical, hnormalize, hrounds⟩ := exists_roundsTo_normalize
        (s.apply (decreaseExponent m e (min e d)).1 + t.apply (decreaseExponent k d (min e d)).1)
        (min e d) .positive
      rw [Int.cast_add, add_mul, cast_decreaseExponent (min_le_left e d),
        cast_decreaseExponent (min_le_right e d)] at hrounds
      exact ⟨_, ⟨s', m', e', hcanonical, hnormalize, rfl⟩, hrounds⟩

theorem Denotes.sub_eq_add (hx : Denotes x v) (hy : Denotes y w) :
    x.sub .binary64 y = x.add .binary64 y.neg := by
  rcases hx.cases with ⟨s, rfl, -⟩ | ⟨s, m, e, hm, -, rfl, -⟩
  · rcases hy.cases with ⟨t, rfl, -⟩ | ⟨t, k, d, hk, -, rfl, -⟩
    · rfl
    · rfl
  · rcases hy.cases with ⟨t, rfl, -⟩ | ⟨t, k, d, hk, -, rfl, -⟩
    · rfl
    · have happly : ∀ n, (-t).apply n = -t.apply n := by
        intro n
        cases t
        · exact (neg_neg n).symm
        · rfl
      simp only [UnpackedFloat.sub, UnpackedFloat.add, UnpackedFloat.neg, happly,
        Int.sub_eq_add_neg]

theorem Denotes.sub (hx : Denotes x v) (hy : Denotes y w) :
    ∃ u, Denotes (x.sub .binary64 y) u ∧ RoundsTo (v - w) u := by
  rw [hx.sub_eq_add hy, sub_eq_add_neg]
  exact hx.add hy.neg

/-- A product of canonical numbers has bits to drop, or a sum of exponents below the least one. -/
theorem add_le_targetExponent_mul {m k : ℕ} {e d : ℤ} (hm : 0 < m) (hk : 0 < k)
    (h : IsCanonical m e) (h' : IsCanonical k d) :
    e + d ≤ Format.binary64.targetExponent (totalExponent (m * k) (e + d)) := by
  rw [targetExponent_eq]
  by_cases hlong : 2 ^ 52 ≤ m * k
  · have hlog : 52 ≤ (m * k).log2 := (Nat.le_log2 (by positivity)).mpr hlong
    omega
  · have hleast : e = -1074 ∧ d = -1074 := by
      refine ⟨h.full.resolve_right fun hfull => hlong ?_,
        h'.full.resolve_right fun hfull => hlong ?_⟩
      · exact hfull.trans (Nat.le_mul_of_pos_right m hk)
      · exact hfull.trans (Nat.le_mul_of_pos_left k hm)
    omega

theorem Denotes.mul (hx : Denotes x v) (hy : Denotes y w) :
    ∃ u, Denotes (x.mul .binary64 y) u ∧ RoundsTo (v * w) u := by
  rcases hx.cases with ⟨s, rfl, rfl⟩ | ⟨s, m, e, hm, hcanonical, rfl, rfl⟩
  · rw [zero_mul]
    refine ⟨0, ?_, .refl 0⟩
    rcases hy.cases with ⟨t, rfl, -⟩ | ⟨t, k, d, hk, -, rfl, -⟩ <;> exact denotes_zero _
  · rcases hy.cases with ⟨t, rfl, rfl⟩ | ⟨t, k, d, hk, hcanonical', rfl, rfl⟩
    · rw [mul_zero]
      exact ⟨0, denotes_zero _, .refl 0⟩
    · obtain ⟨m', e', hresult, hround, hrounds⟩ := exists_roundsTo_roundWithAccuracy (s * t)
        (add_le_targetExponent_mul hm hk hcanonical hcanonical') (approximates_exact _ _)
      refine ⟨_, ⟨s * t, m', e', hresult, hround, rfl⟩, ?_⟩
      have hvalue : signed s (m * 2 ^ e) * signed t (k * 2 ^ d) =
          signed (s * t) ((m * k : ℕ) * 2 ^ (e + d)) := by
        rw [signed_mul_signed, zpow_add₀ (by norm_num), Nat.cast_mul, mul_mul_mul_comm]
      rw [hvalue]
      exact hrounds.signed _

theorem approximates_div (m : ℕ) {k : ℕ} (hk : 0 < k) (e : ℤ) :
    Approximates (m / k) (accuracyOfFraction (m % k) k) e (m / k * 2 ^ e) where
  nonneg := by positivity
  le_iff j := by
    rw [mul_le_mul_iff_left₀ (by positivity), le_div_iff₀ (by exact_mod_cast hk),
      Nat.le_div_iff_mul_le hk]
    exact_mod_cast Iff.rfl
  ceiling_le j h := by
    rw [mul_le_mul_iff_left₀ (by positivity), div_le_iff₀ (by exact_mod_cast hk)] at h
    have hle : m ≤ j * k := by exact_mod_cast h
    rw [accuracyOfFraction]
    split
    · exact Nat.div_le_of_le_mul (by rwa [Nat.mul_comm])
    · rename_i hrem
      have hlt : m < j * k := hle.lt_of_ne fun heq => hrem (by simp [heq])
      refine (ceiling_le_mantissa_succ _).trans ?_
      rw [mantissa_ofMantissaAndAccuracy]
      exact Nat.div_lt_of_lt_mul (by rwa [Nat.mul_comm])

/-- The quotient is taken to enough bits. -/
theorem le_targetExponent_div {m k : ℕ} (hm : 0 < m) (hk : 0 < k) {e d : ℤ} {n : ℕ}
    (hn : min (e - d) (Format.binary64.targetExponent (totalExponent m e - totalExponent k d)) =
      e - d - n) :
    e - d - n ≤ Format.binary64.targetExponent (totalExponent ((m <<< n) / k) (e - d - n)) := by
  have hlow : 2 ^ (m.log2 + n) ≤ m <<< n := by
    rw [← log2_shiftLeft hm.ne']
    exact Nat.log2_self_le (by simp [hm.ne'])
  have hhigh : m <<< n < ((m <<< n) / k + 1) * k := by
    rw [Nat.mul_comm]
    exact Nat.lt_mul_div_succ _ hk
  rw [targetExponent_eq_max, totalExponent, totalExponent] at hn
  rw [targetExponent_eq]
  generalize (m <<< n) / k = q at *
  have hq : q + 1 ≤ 2 ^ (q.log2 + 1) := Nat.lt_log2_self
  have hlogs : 2 ^ (m.log2 + n) < 2 ^ (q.log2 + 1 + (k.log2 + 1)) := by
    calc
      2 ^ (m.log2 + n) < (q + 1) * k := hlow.trans_lt hhigh
      _ ≤ 2 ^ (q.log2 + 1) * 2 ^ (k.log2 + 1) := Nat.mul_le_mul hq Nat.lt_log2_self.le
      _ = 2 ^ (q.log2 + 1 + (k.log2 + 1)) := (Nat.pow_add ..).symm
  have hlog := (Nat.pow_lt_pow_iff_right (by decide)).mp hlogs
  omega

theorem Denotes.div (hx : Denotes x v) (hy : Denotes y w) (hw : w ≠ 0) :
    ∃ u, Denotes (x.div .binary64 y) u ∧ RoundsTo (v / w) u := by
  rcases hy.cases with ⟨t, -, rfl⟩ | ⟨t, k, d, hk, -, rfl, rfl⟩
  · exact absurd rfl hw
  rcases hx.cases with ⟨s, rfl, rfl⟩ | ⟨s, m, e, hm, -, rfl, rfl⟩
  · rw [zero_div]
    exact ⟨0, denotes_zero _, .refl 0⟩
  · obtain ⟨n, hn⟩ := Int.le.dest (min_le_left (e - d)
      (Format.binary64.targetExponent (totalExponent m e - totalExponent k d)))
    replace hn := eq_sub_of_add_eq hn
    have hcore : divCore .binary64 m e k d =
        ((m <<< n) / k, e - d - n, accuracyOfFraction ((m <<< n) % k) k) := by
      simp only [divCore, hn, sub_sub_cancel, Int.toNat_natCast]
    obtain ⟨m', e', hresult, hround, hrounds⟩ := exists_roundsTo_roundWithAccuracy (s / t)
      (le_targetExponent_div hm hk hn) (approximates_div (m <<< n) hk (e - d - n))
    refine ⟨_, ⟨s / t, m', e', hresult, ?_, rfl⟩, ?_⟩
    · simp only [UnpackedFloat.div, hcore]
      exact hround
    · have hvalue : signed s (m * 2 ^ e) / signed t (k * 2 ^ d) =
          signed (s / t) ((m <<< n : ℕ) / k * 2 ^ (e - d - n)) := by
        rw [signed_div_signed, div_mul_eq_mul_div, cast_shiftLeft, zpow_sub₀ (by norm_num),
          div_mul_eq_div_div, ← mul_div_assoc, div_right_comm]
      rw [hvalue]
      exact hrounds.signed _

/-- The accuracy of the root of a whole number. -/
def accuracyOfRoot (m : ℕ) : Accuracy :=
  if m - m.sqrt * m.sqrt = 0 then .exact
  else .inexact (if m - m.sqrt * m.sqrt ≤ m.sqrt then .lt else .gt)

theorem approximates_sqrt (m : ℕ) (e : ℤ) :
    Approximates m.sqrt (accuracyOfRoot m) e (√m * 2 ^ e) where
  nonneg := by positivity
  le_iff j := by
    rw [mul_le_mul_iff_left₀ (by positivity), Real.le_sqrt (by positivity) (by positivity),
      Nat.le_sqrt']
    exact_mod_cast Iff.rfl
  ceiling_le j h := by
    rw [mul_le_mul_iff_left₀ (by positivity), Real.sqrt_le_left (by positivity)] at h
    have hle : m ≤ j * j := by
      rw [← Nat.pow_two]
      exact_mod_cast h
    have hroot : m.sqrt * m.sqrt ≤ m := Nat.sqrt_le m
    rw [accuracyOfRoot]
    split
    · exact Nat.mul_self_le_mul_self_iff.mp (hroot.trans hle)
    · rename_i hrem
      refine (ceiling_le_mantissa_succ _).trans ?_
      rw [mantissa_ofMantissaAndAccuracy]
      exact Nat.mul_self_lt_mul_self_iff.mp (by omega)

/-- The root is taken to enough bits. -/
theorem le_targetExponent_sqrt {m : ℕ} (hm : 0 < m) {e target : ℤ} {n : ℕ}
    (htarget : target = min (e / 2)
      (Format.binary64.targetExponent ((totalExponent m e + 1) / 2)))
    (hn : e = 2 * target + n) :
    target ≤ Format.binary64.targetExponent (totalExponent (m <<< n).sqrt target) := by
  have hlow : 2 ^ (m.log2 + n) ≤ m <<< n := by
    rw [← log2_shiftLeft hm.ne']
    exact Nat.log2_self_le (by simp [hm.ne'])
  have hhigh : m <<< n < ((m <<< n).sqrt + 1) * ((m <<< n).sqrt + 1) := Nat.lt_succ_sqrt _
  rw [targetExponent_eq_max, totalExponent] at htarget
  rw [targetExponent_eq]
  generalize (m <<< n).sqrt = q at *
  have hq : q + 1 ≤ 2 ^ (q.log2 + 1) := Nat.lt_log2_self
  have hlogs : 2 ^ (m.log2 + n) < 2 ^ (q.log2 + 1 + (q.log2 + 1)) := by
    calc
      2 ^ (m.log2 + n) < (q + 1) * (q + 1) := hlow.trans_lt hhigh
      _ ≤ 2 ^ (q.log2 + 1) * 2 ^ (q.log2 + 1) := Nat.mul_le_mul hq hq
      _ = 2 ^ (q.log2 + 1 + (q.log2 + 1)) := (Nat.pow_add ..).symm
  have hlog := (Nat.pow_lt_pow_iff_right (by decide)).mp hlogs
  omega

theorem Denotes.sqrt (hx : Denotes x v) (hv : 0 ≤ v) :
    ∃ u, Denotes (x.sqrt .binary64) u ∧ RoundsTo (√v) u := by
  rcases hx.cases with ⟨s, rfl, rfl⟩ | ⟨s, m, e, hm, -, rfl, rfl⟩
  · rw [Real.sqrt_zero]
    exact ⟨0, denotes_zero _, .refl 0⟩
  · cases s with
    | negative =>
        have hpos : (0 : ℝ) < m * 2 ^ e := by
          have : (0 : ℝ) < m := by exact_mod_cast hm
          positivity
        exact absurd hv (not_le.mpr (neg_neg_of_pos hpos))
    | positive =>
        let target := min (e / 2) (Format.binary64.targetExponent ((totalExponent m e + 1) / 2))
        obtain ⟨n, hn⟩ := Int.le.dest (show 2 * target ≤ e by omega)
        have hcore : sqrtCore .binary64 m e =
            ((m <<< (e - 2 * target).toNat).sqrt, target,
              accuracyOfRoot (m <<< (e - 2 * target).toNat)) :=
          rfl
        rw [show (e - 2 * target).toNat = n by omega] at hcore
        obtain ⟨m', e', hresult, hround, hrounds⟩ := exists_roundsTo_roundWithAccuracy .positive
          (le_targetExponent_sqrt hm rfl hn.symm) (approximates_sqrt (m <<< n) target)
        refine ⟨_, ⟨.positive, m', e', hresult, ?_, rfl⟩, ?_⟩
        · simp only [UnpackedFloat.sqrt, hcore]
          exact hround
        · have hvalue : √(signed .positive (m * 2 ^ e)) = √(m <<< n : ℕ) * 2 ^ target := by
            have hsquare : (m : ℝ) * 2 ^ e = (m <<< n : ℕ) * (2 ^ target) ^ 2 := by
              rw [← cast_shiftLeft m n e, show e - n = target + target by omega,
                zpow_add₀ (by norm_num), pow_two]
            rw [signed, hsquare, Real.sqrt_mul (by positivity), Real.sqrt_sq (by positivity)]
          rw [hvalue]
          exact hrounds

end Operations

end DefiniteIntegral.Binary64
