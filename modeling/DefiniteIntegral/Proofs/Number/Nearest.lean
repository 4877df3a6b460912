import DefiniteIntegral.Proofs.Number.Bits

/-! # The nearest number

A ratio is rounded to the number whose interval it lies in: half a unit to either side, a quarter of
one below a power of two, where the numbers lie twice as dense. The ends belong to the interval of
the even one. -/

namespace DefiniteIntegral

/-! ## Rounding to whole numbers -/

section Whole

variable {n d s : ℕ}

/-- A ratio is at most half from a whole number, and if half then from an even one. -/
theorem roundHalfEven_eq (hd : 0 < d) (hlow : 2 * (s * d) ≤ 2 * n + d)
    (hhigh : 2 * n ≤ 2 * (s * d) + d)
    (heven : 2 * (s * d) = 2 * n + d ∨ 2 * n = 2 * (s * d) + d → s % 2 = 0) :
    roundHalfEven n d = s := by
  obtain ⟨q, r, hr, rfl⟩ : ∃ q r, r < d ∧ n = d * q + r :=
    ⟨n / d, n % d, Nat.mod_lt n hd, (Nat.div_add_mod n d).symm⟩
  have hq : (d * q + r) / d = q := by
    rw [Nat.mul_add_div hd, Nat.div_eq_of_lt hr, Nat.add_zero]
  have hmod : (d * q + r) % d = r := by
    rw [Nat.mul_add_mod, Nat.mod_eq_of_lt hr]
  rw [roundHalfEven, hq, hmod]
  have hcases : s = q ∨ s = q + 1 := by
    have hlow' : s < q + 2 := by
      by_contra hs
      have : (q + 2) * d ≤ s * d := Nat.mul_le_mul_right d (by omega)
      nlinarith
    have hhigh' : q < s + 1 := by
      by_contra hs
      have : (s + 1) * d ≤ q * d := Nat.mul_le_mul_right d (by omega)
      nlinarith
    omega
  rcases hcases with rfl | rfl
  · have hle : 2 * r ≤ d := by nlinarith
    have htie : 2 * r = d → s % 2 = 0 := fun h => heven (.inr (by nlinarith))
    split_ifs <;> omega
  · have hle : d ≤ 2 * r := by nlinarith
    have htie : 2 * r = d → (q + 1) % 2 = 0 := fun h => heven (.inl (by nlinarith))
    split_ifs <;> omega

theorem roundHalfEven_eq_of_div (hd : 0 < d) (hlow : (s : ℝ) - 1 / 2 ≤ (n : ℝ) / d)
    (hhigh : (n : ℝ) / d ≤ s + 1 / 2)
    (heven : (n : ℝ) / d = s - 1 / 2 ∨ (n : ℝ) / d = s + 1 / 2 → s % 2 = 0) :
    roundHalfEven n d = s := by
  have hd' : (0 : ℝ) < d := by exact_mod_cast hd
  rw [le_div_iff₀ hd'] at hlow
  rw [div_le_iff₀ hd'] at hhigh
  rw [div_eq_iff hd'.ne', div_eq_iff hd'.ne'] at heven
  apply roundHalfEven_eq hd
  · have hreal : (2 : ℝ) * (s * d) ≤ 2 * n + d := by linarith
    exact_mod_cast hreal
  · have hreal : (2 : ℝ) * n ≤ 2 * (s * d) + d := by linarith
    exact_mod_cast hreal
  · rintro (h | h)
    · have hreal : (2 : ℝ) * (s * d) = 2 * n + d := by exact_mod_cast h
      exact heven (.inl (by linarith))
    · have hreal : (2 : ℝ) * n = 2 * (s * d) + d := by exact_mod_cast h
      exact heven (.inr (by linarith))

end Whole

namespace Binary64

/-! ## Units -/

section Units

variable {num den : ℕ}

theorem inUnits_spec (num : ℕ) (hden : 0 < den) (e : ℤ) :
    0 < (inUnits num den e).2 ∧
      ((inUnits num den e).1 : ℝ) / (inUnits num den e).2 = num / den / 2 ^ e := by
  have hden' : (0 : ℝ) < den := by exact_mod_cast hden
  simp only [inUnits, Nat.pow_eq]
  split
  · rename_i he
    obtain ⟨k, rfl⟩ := Int.eq_ofNat_of_zero_le he
    refine ⟨by positivity, ?_⟩
    push_cast
    rw [Int.toNat_natCast, zpow_natCast, div_div]
  · rename_i he
    obtain ⟨k, hk⟩ : ∃ k : ℕ, -e = k := Int.eq_ofNat_of_zero_le (by omega)
    obtain rfl : e = -k := by omega
    refine ⟨hden, ?_⟩
    rw [neg_neg, Int.toNat_natCast, zpow_neg, zpow_natCast, div_inv_eq_mul]
    push_cast
    field_simp

theorem two_zpow_pos (e : ℤ) : (0 : ℝ) < 2 ^ e :=
  zpow_pos (by norm_num) e

theorem two_pow_mul_zpow (k : ℕ) (e : ℤ) : (2 : ℝ) ^ k * 2 ^ e = 2 ^ (k + e) := by
  rw [zpow_add₀ (by norm_num), zpow_natCast]

theorem two_zpow_log2_le {n : ℕ} (hn : 0 < n) : (2 : ℝ) ^ (n.log2 : ℤ) ≤ n := by
  rw [zpow_natCast]
  exact_mod_cast Nat.log2_self_le hn.ne'

theorem lt_two_zpow_log2 (n : ℕ) : (n : ℝ) < 2 ^ ((n.log2 : ℤ) + 1) := by
  rw [← Nat.cast_add_one, zpow_natCast]
  exact_mod_cast Nat.lt_log2_self

/-- A ratio lies between two powers of two whose quotient is four. -/
theorem two_zpow_le_div (hnum : 0 < num) (hden : 0 < den) :
    (2 : ℝ) ^ ((num.log2 : ℤ) - den.log2 - 1) ≤ num / den := by
  rw [le_div_iff₀ (by exact_mod_cast hden)]
  calc
    (2 : ℝ) ^ ((num.log2 : ℤ) - den.log2 - 1) * den ≤
        2 ^ ((num.log2 : ℤ) - den.log2 - 1) * 2 ^ ((den.log2 : ℤ) + 1) := by
      gcongr
      exact (lt_two_zpow_log2 den).le
    _ = 2 ^ (num.log2 : ℤ) := by
      rw [← zpow_add₀ (by norm_num)]
      congr 1
      ring
    _ ≤ num := two_zpow_log2_le hnum

theorem div_lt_two_zpow (hden : 0 < den) :
    (num : ℝ) / den < 2 ^ ((num.log2 : ℤ) - den.log2 + 1) := by
  rw [div_lt_iff₀ (by exact_mod_cast hden)]
  calc
    (num : ℝ) < 2 ^ ((num.log2 : ℤ) + 1) := lt_two_zpow_log2 num
    _ = 2 ^ ((num.log2 : ℤ) - den.log2 + 1) * 2 ^ (den.log2 : ℤ) := by
      rw [← zpow_add₀ (by norm_num)]
      congr 1
      ring
    _ ≤ 2 ^ ((num.log2 : ℤ) - den.log2 + 1) * den := by
      gcongr
      exact two_zpow_log2_le hden

/-- A ratio has 53 bits in its units, or fewer in the smallest one. -/
theorem unitExponent_spec (hnum : 0 < num) (hden : 0 < den) :
    -1074 ≤ unitExponent num den ∧ (num : ℝ) / den < 2 ^ 53 * 2 ^ unitExponent num den ∧
      (unitExponent num den = -1074 ∨ 2 ^ 52 * 2 ^ unitExponent num den ≤ (num : ℝ) / den) := by
  have hlow := two_zpow_le_div hnum hden
  have hhigh := @div_lt_two_zpow num den hden
  obtain ⟨guess, hguess⟩ :
      ∃ g : ℤ, g = max ((num.log2 : ℤ) - den.log2 - 52) minExponent := ⟨_, rfl⟩
  obtain ⟨hd, hunits⟩ := inUnits_spec num hden guess
  have hd' : (0 : ℝ) < (inUnits num den guess).2 := by exact_mod_cast hd
  have hshort : (inUnits num den guess).1 < 2 ^ 52 * (inUnits num den guess).2 ↔
      (num : ℝ) / den < 2 ^ 52 * 2 ^ guess := by
    rw [← div_lt_iff₀ (two_zpow_pos guess), ← hunits, div_lt_iff₀ hd']
    exact_mod_cast Iff.rfl
  have hunit : unitExponent num den =
      if (num : ℝ) / den < 2 ^ 52 * 2 ^ guess ∧ -1074 < guess then guess - 1 else guess := by
    simp only [← hshort]
    rw [unitExponent, ← hguess]
    rfl
  rw [minExponent] at hguess
  rw [hunit]
  simp only [two_pow_mul_zpow] at hshort ⊢
  split
  · rename_i h
    obtain ⟨hlt, hleast⟩ := h
    refine ⟨by omega, ?_, .inr ?_⟩
    · convert hlt using 2
      omega
    · convert hlow using 2
      omega
  · rename_i h
    refine ⟨by omega, ?_, ?_⟩
    · calc
        (num : ℝ) / den < 2 ^ ((num.log2 : ℤ) - den.log2 + 1) := hhigh
        _ ≤ 2 ^ (((53 : ℕ) : ℤ) + guess) := zpow_le_zpow_right₀ (by norm_num) (by omega)
    · rcases eq_or_ne guess (-1074) with hleast | hleast
      · exact .inl hleast
      · exact .inr (not_lt.mp fun hlt => h ⟨hlt, by omega⟩)

end Units

/-! ## Intervals -/

/-- What lies between a number and the end of its interval below it, in quarters of a unit. -/
def quartersBelow (m : ℕ) (e : ℤ) : ℕ :=
  if m = 2 ^ 52 ∧ -1074 < e then 1 else 2

/-- What lies between a number and the end of its interval below it, in units. -/
noncomputable def gapBelow (m : ℕ) (e : ℤ) : ℝ :=
  (quartersBelow m e : ℝ) / (4 : ℕ)

theorem gapBelow_eq (m : ℕ) (e : ℤ) :
    gapBelow m e = if m = 2 ^ 52 ∧ -1074 < e then 1 / 4 else 1 / 2 := by
  rw [gapBelow, quartersBelow]
  split_ifs <;> norm_num

/-- A number is rounded to `m * 2 ^ e`: it lies in the interval around it, whose ends only belong to
even numbers. -/
structure InInterval (m : ℕ) (e : ℤ) (r : ℝ) : Prop where
  low_le : (m - gapBelow m e) * 2 ^ e ≤ r
  le_high : r ≤ (m + 1 / 2) * 2 ^ e
  even : r = (m - gapBelow m e) * 2 ^ e ∨ r = (m + 1 / 2) * 2 ^ e → m % 2 = 0

section Intervals

variable {num den m : ℕ} {e : ℤ}

theorem gapBelow_le (m : ℕ) (e : ℤ) : gapBelow m e ≤ 1 / 2 := by
  rw [gapBelow_eq]
  split <;> norm_num

/-- The bits of a significand that has been rounded. -/
theorem nearestBits_eq_bitsOf {s : ℕ}
    (hs : roundHalfEven (inUnits num den (unitExponent num den)).1
      (inUnits num den (unitExponent num den)).2 = s)
    (hfull : unitExponent num den = -1074 ∨ 2 ^ 52 ≤ s)
    (hlt : bitsOf s (unitExponent num den) ≤ infinityBits) :
    nearestBits num den = bitsOf s (unitExponent num den) := by
  simp only [nearestBits, hs, Nat.pow_eq]
  split
  · rename_i hshort
    have hleast := hfull.resolve_right (Nat.not_le.mpr hshort)
    rw [hleast] at hlt ⊢
    simpa [bitsOf] using hlt
  · exact Nat.min_eq_left hlt

/-- Where the units are finer than those of the nearest number, that is the power of two at which
they change. -/
theorem InInterval.of_unitExponent_lt (h : IsCanonical m e) (hr : InInterval m e (num / den))
    (hlt : (num : ℝ) / den < 2 ^ 53 * 2 ^ unitExponent num den) (hunit : unitExponent num den < e)
    (hleast : -1074 ≤ unitExponent num den) :
    m = 2 ^ 52 ∧ unitExponent num den = e - 1 := by
  have hfull : 2 ^ 52 ≤ m := h.full.resolve_left (by omega)
  have hpos := two_zpow_pos e
  have hhalf : (2 : ℝ) ^ (e - 1) = 2 ^ e / 2 := by
    rw [zpow_sub_one₀ (by norm_num), div_eq_mul_inv]
  have hgap := gapBelow_le m e
  have hlow := hr.low_le
  have hm : m = 2 ^ 52 := by
    by_contra hne
    have hm : (2 : ℝ) ^ 52 + 1 ≤ m := by
      have : 2 ^ 52 + 1 ≤ m := by omega
      exact_mod_cast this
    have hpow : (2 : ℝ) ^ unitExponent num den ≤ 2 ^ (e - 1) :=
      zpow_le_zpow_right₀ (by norm_num) (by omega)
    rw [hhalf] at hpow
    nlinarith
  refine ⟨hm, ?_⟩
  by_contra hne
  have hpow : (2 : ℝ) ^ unitExponent num den ≤ 2 ^ (e - 1 - 1) :=
    zpow_le_zpow_right₀ (by norm_num) (by omega)
  rw [zpow_sub_one₀ (by norm_num), hhalf] at hpow
  have hm' : (m : ℝ) = 2 ^ 52 := by exact_mod_cast hm
  rw [hm'] at hlow
  nlinarith

theorem InInterval.unitExponent_le (h : IsCanonical m e) (hr : InInterval m e (num / den))
    (hfull : unitExponent num den = -1074 ∨ 2 ^ 52 * 2 ^ unitExponent num den ≤ (num : ℝ) / den) :
    unitExponent num den ≤ e := by
  by_contra hunit
  have hleast := h.least_le
  have hfull := hfull.resolve_left (by omega)
  have hpow : (2 : ℝ) ^ (e + 1) ≤ 2 ^ unitExponent num den :=
    zpow_le_zpow_right₀ (by norm_num) (by omega)
  rw [zpow_add_one₀ (by norm_num)] at hpow
  have hm : (m : ℝ) + 1 ≤ 2 ^ 53 := by
    have := h.lt
    exact_mod_cast this
  have hhigh := hr.le_high
  have hpos := two_zpow_pos e
  nlinarith

theorem bitsOf_le_infinityBits {s : ℕ} (hs : s ≤ 2 ^ 53) (hmost : e ≤ 971) :
    bitsOf s e ≤ infinityBits := by
  have hexponent : (e + 1074).toNat ≤ 2045 := by omega
  simp only [bitsOf, infinityBits, Nat.pow_eq]
  omega

theorem InInterval.roundHalfEven_eq {n d : ℕ} (hr : InInterval m e (num / den)) (hd : 0 < d)
    (hunits : (n : ℝ) / d = num / den / 2 ^ e) : roundHalfEven n d = m := by
  have hpos := two_zpow_pos e
  have hgap := gapBelow_le m e
  have hlow : (m - gapBelow m e : ℝ) ≤ (n : ℝ) / d := by
    rw [hunits, le_div_iff₀ hpos]
    exact hr.low_le
  have hhigh : (n : ℝ) / d ≤ m + 1 / 2 := by
    rw [hunits, div_le_iff₀ hpos]
    exact hr.le_high
  refine roundHalfEven_eq_of_div hd (by linarith) hhigh fun hend => hr.even ?_
  rcases hend with hend | hend
  · left
    have hwhole : gapBelow m e = 1 / 2 := by linarith
    rw [hwhole, ← hend, hunits, div_mul_cancel₀ _ hpos.ne']
  · right
    rw [← hend, hunits, div_mul_cancel₀ _ hpos.ne']

/-- Below a power of two, the ratio is rounded up to it. -/
theorem InInterval.roundHalfEven_eq_two_pow {n d : ℕ} (hr : InInterval (2 ^ 52) e (num / den))
    (he : -1074 < e) (hd : 0 < d) (hunits : (n : ℝ) / d = num / den / 2 ^ (e - 1))
    (hlt : (n : ℝ) / d < 2 ^ 53) : roundHalfEven n d = 2 ^ 53 := by
  have hpos := two_zpow_pos e
  have hlow := hr.low_le
  rw [gapBelow_eq, if_pos ⟨rfl, he⟩] at hlow
  have hhalf : (num : ℝ) / den / 2 ^ (e - 1) = 2 * ((num : ℝ) / den / 2 ^ e) := by
    rw [zpow_sub_one₀ (by norm_num)]
    field_simp
  have hnear : (((2 ^ 52 : ℕ) : ℝ) - 1 / 4) ≤ num / den / 2 ^ e := by
    rwa [le_div_iff₀ hpos]
  push_cast at hnear
  refine roundHalfEven_eq_of_div hd ?_ ?_ fun _ => by norm_num
  · rw [hunits, hhalf]
    push_cast
    linarith
  · push_cast
    linarith

/-- A ratio is rounded to the number in whose interval it lies. -/
theorem nearestBits_eq (h : IsCanonical m e) (hmost : e ≤ 971) (hnum : 0 < num) (hden : 0 < den)
    (hr : InInterval m e (num / den)) : nearestBits num den = bitsOf m e := by
  obtain ⟨hleast, hlt, hfull⟩ := unitExponent_spec hnum hden
  obtain ⟨hd, hunits⟩ := inUnits_spec num hden (unitExponent num den)
  rcases (hr.unitExponent_le h hfull).lt_or_eq with hunit | hunit
  · obtain ⟨rfl, hbelow⟩ := hr.of_unitExponent_lt h hlt hunit hleast
    have hlt' : ((inUnits num den (unitExponent num den)).1 : ℝ) /
        (inUnits num den (unitExponent num den)).2 < 2 ^ 53 := by
      rwa [hunits, div_lt_iff₀ (two_zpow_pos _)]
    rw [hbelow] at hunits hd hlt'
    have hs := hr.roundHalfEven_eq_two_pow (by omega) hd hunits hlt'
    rw [← hbelow] at hs
    rw [nearestBits_eq_bitsOf hs (.inr (by norm_num)) (bitsOf_le_infinityBits le_rfl (by omega)),
      hbelow, bitsOf, bitsOf]
    omega
  · rw [hunit] at hunits hd
    have hs := hr.roundHalfEven_eq hd hunits
    rw [← hunit] at hs
    rw [nearestBits_eq_bitsOf hs, hunit]
    · rw [hunit]
      exact h.full
    · rw [hunit]
      exact bitsOf_le_infinityBits h.lt.le hmost

end Intervals

end Binary64

end DefiniteIntegral
