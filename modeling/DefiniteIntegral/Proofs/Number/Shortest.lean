import DefiniteIntegral.Number.Shortest
import DefiniteIntegral.Proofs.Number.Decimal

/-! # The shortest decimal

The search over the decimal grids ends with a decimal in the interval of the number: 17 digits after
the first one are always enough. -/

namespace DefiniteIntegral

open Binary64

namespace Rounding

variable {r : Rounding} {tie : Tie} {n step fuel : ℕ} {k : ℤ} {x : ℝ}

/-- A number lies in an interval. -/
structure Holds (r : Rounding) (x : ℝ) : Prop where
  low_le : r.low ≤ x * r.den
  le_high : x * r.den ≤ r.high
  closed : x * r.den = r.low ∨ x * r.den = r.high → r.closed

/-! ## One grid -/

theorem contains_iff :
    r.contains n step ↔
      r.low ≤ n * step ∧ n * step ≤ r.high ∧
        (n * step = r.low ∨ n * step = r.high → r.closed) := by
  unfold contains
  cases r.closed <;> simp
  omega

theorem contains_of_hit? (h : r.hit? tie step = some n) : r.contains n step := by
  unfold hit? at h
  dsimp only at h
  split at h
  · cases h
  · rename_i hbelow habove
    cases h
    exact hbelow
  · rename_i hbelow habove
    cases h
    exact habove
  · rename_i hbelow habove
    have hn : n = r.num / step ∨ n = r.num / step + 1 := by
      split_ifs at h
      · exact .inl (Option.some.inj h).symm
      · exact .inr (Option.some.inj h).symm
      · cases tie with
        | up => exact .inr (Option.some.inj h).symm
        | even =>
            have := Option.some.inj h
            omega
    rcases hn with rfl | rfl
    · exact hbelow
    · exact habove

/-- A grid that is fine enough has a point in the interval. -/
theorem hit?_ne_none (hstep : 0 < step) (hlow : r.low ≤ r.num) (hhigh : r.num + step < r.high) :
    r.hit? tie step ≠ none := by
  have hnext : r.contains (r.num / step + 1) step := by
    have hdiv := Nat.div_add_mod r.num step
    have hmod := Nat.mod_lt r.num hstep
    have hpoint : (r.num / step + 1) * step = step * (r.num / step) + step := by ring
    rw [contains_iff, hpoint]
    omega
  intro hnone
  unfold hit? at hnone
  dsimp only at hnone
  rw [hnext] at hnone
  cases hbelow : r.contains (r.num / step) step with
  | false => simp [hbelow] at hnone
  | true =>
      rw [hbelow] at hnone
      dsimp only at hnone
      split_ifs at hnone
      cases tie <;> cases hnone

/-! ## All grids -/

/-- The interval and the step of the grid of `10 ^ k`, in units in which both are whole. -/
def onGrid (r : Rounding) (k : ℤ) : Rounding × ℕ :=
  if 0 ≤ k then (r, r.den * Nat.pow 10 k.toNat)
  else
    let s := Nat.pow 10 (-k).toNat
    ({ r with num := r.num * s, low := r.low * s, high := r.high * s }, r.den)

theorem search_succ (r : Rounding) (tie : Tie) (fuel : ℕ) (k : ℤ) :
    r.search tie (fuel + 1) k =
      match (r.onGrid k).1.hit? tie (r.onGrid k).2 with
      | some digits => ⟨digits, k⟩
      | none => r.search tie fuel (k - 1) :=
  rfl

/-- The unit of a grid. -/
theorem exists_onGrid (r : Rounding) (k : ℤ) :
    ∃ s : ℕ, 0 < s ∧ (r.onGrid k).1 =
        { r with num := r.num * s, low := r.low * s, high := r.high * s } ∧
      ((r.onGrid k).2 : ℝ) = r.den * 10 ^ k * s := by
  unfold onGrid
  split
  · rename_i hk
    obtain ⟨j, rfl⟩ := Int.eq_ofNat_of_zero_le hk
    refine ⟨1, Nat.one_pos, by simp, ?_⟩
    simp
  · rename_i hk
    obtain ⟨j, hj⟩ : ∃ j : ℕ, -k = j := Int.eq_ofNat_of_zero_le (by omega)
    obtain rfl : k = -j := by omega
    refine ⟨10 ^ j, by positivity, by simp, ?_⟩
    push_cast
    rw [zpow_neg, zpow_natCast, mul_assoc, inv_mul_cancel₀ (by positivity), mul_one]

theorem holds_of_hit? (hit : (r.onGrid k).1.hit? tie (r.onGrid k).2 = some n) :
    r.Holds (n * 10 ^ k) := by
  obtain ⟨s, hs, hgrid, hstep⟩ := r.exists_onGrid k
  have hpoint : ((n * (r.onGrid k).2 : ℕ) : ℝ) = n * 10 ^ k * r.den * s := by
    push_cast
    rw [hstep]
    ring
  have hs' : (0 : ℝ) < s := by exact_mod_cast hs
  obtain ⟨hlow, hhigh, hclosed⟩ := contains_iff.mp (contains_of_hit? hit)
  simp only [hgrid, ← Nat.cast_le (α := ℝ), ← Nat.cast_inj (R := ℝ), hpoint, Nat.cast_mul,
    mul_le_mul_iff_left₀ hs', mul_left_inj' hs'.ne'] at hlow hhigh hclosed
  exact ⟨hlow, hhigh, hclosed⟩

theorem hit?_onGrid_ne_none (hden : 0 < r.den) (hlow : r.low ≤ r.num)
    (hfine : (10 : ℝ) ^ k * r.den < r.high - r.num) :
    (r.onGrid k).1.hit? tie (r.onGrid k).2 ≠ none := by
  obtain ⟨s, hs, hgrid, hstep⟩ := r.exists_onGrid k
  have hs' : (0 : ℝ) < s := by exact_mod_cast hs
  have hden' : (0 : ℝ) < r.den := by exact_mod_cast hden
  have hpos : (0 : ℝ) < (r.onGrid k).2 := by
    rw [hstep]
    have := ten_zpow_pos k
    positivity
  apply hit?_ne_none
  · exact_mod_cast hpos
  · rw [hgrid]
    exact Nat.mul_le_mul_right s hlow
  · rw [hgrid, ← Nat.cast_lt (α := ℝ)]
    push_cast
    rw [hstep]
    nlinarith

/-- The search ends in the interval if the last of its grids is fine enough. -/
theorem holds_search (hden : 0 < r.den) (hlow : r.low ≤ r.num)
    (hfine : (10 : ℝ) ^ (k - fuel) * r.den < r.high - r.num) :
    r.Holds (r.search tie (fuel + 1) k).real := by
  induction fuel generalizing k with
  | zero =>
      rw [Nat.cast_zero, sub_zero] at hfine
      rw [search_succ]
      cases hhit : (r.onGrid k).1.hit? tie (r.onGrid k).2 with
      | none => exact absurd hhit (hit?_onGrid_ne_none hden hlow hfine)
      | some digits => exact holds_of_hit? hhit
  | succ fuel ih =>
      rw [search_succ]
      cases hhit : (r.onGrid k).1.hit? tie (r.onGrid k).2 with
      | none =>
          refine ih ?_
          rwa [Nat.cast_succ, ← sub_sub, sub_right_comm] at hfine
      | some digits => exact holds_of_hit? hhit

/-! ## The interval of a number -/

variable {negative : Bool} {m : ℕ} {e : ℤ}

/-- An interval in quarters of the units of its number. -/
theorem exists_ofDyadic (negative : Bool) (hm : 0 < m) (e : ℤ) :
    ∃ s : ℕ, 0 < s ∧ 0 < (ofDyadic ⟨negative, m, e⟩).den ∧
      2 ^ e * ((ofDyadic ⟨negative, m, e⟩).den : ℝ) = 4 * s ∧
      ((ofDyadic ⟨negative, m, e⟩).num : ℝ) = 4 * m * s ∧
      ((ofDyadic ⟨negative, m, e⟩).low : ℝ) = 4 * (m - gapBelow m e) * s ∧
      ((ofDyadic ⟨negative, m, e⟩).high : ℝ) = 4 * (m + 1 / 2) * s := by
  refine ⟨if 0 ≤ e then 2 ^ e.toNat else 1, by split <;> positivity, ?_, ?_, ?_, ?_, ?_⟩
  · simp only [ofDyadic, Nat.pow_eq]
    split <;> positivity
  · simp only [ofDyadic, Nat.pow_eq]
    split
    · rename_i he
      obtain ⟨j, rfl⟩ := Int.eq_ofNat_of_zero_le he
      push_cast
      rw [Int.toNat_natCast, zpow_natCast]
      ring
    · rename_i he
      obtain ⟨j, hj⟩ : ∃ j : ℕ, -e = j := Int.eq_ofNat_of_zero_le (by omega)
      obtain rfl : e = -j := by omega
      push_cast
      rw [neg_neg, Int.toNat_natCast, zpow_neg, zpow_natCast]
      field_simp
  · simp only [ofDyadic, Nat.pow_eq]
    push_cast
    rfl
  · have hle : quartersBelow m e ≤ 4 * m := by
      unfold quartersBelow
      split <;> omega
    have hlow : ((4 * m - quartersBelow m e : ℕ) : ℝ) = 4 * (m - gapBelow m e) := by
      rw [Nat.cast_sub hle, gapBelow]
      push_cast
      ring
    rw [← hlow]
    simp only [ofDyadic, Nat.pow_eq]
    push_cast
    rfl
  · simp only [ofDyadic, Nat.pow_eq]
    push_cast
    ring

theorem Holds.inInterval (hm : 0 < m) {x : ℝ} (h : (ofDyadic ⟨negative, m, e⟩).Holds x) :
    InInterval m e x := by
  obtain ⟨s, hs, -, hunit, -, hlow, hhigh⟩ := exists_ofDyadic negative hm e
  have hs' : (0 : ℝ) < 4 * s := by positivity
  have hpos := two_zpow_pos e
  have hscale (a : ℝ) : a * 2 ^ e * (ofDyadic ⟨negative, m, e⟩).den = 4 * a * s := by
    rw [mul_assoc, hunit]
    ring
  have hden : (0 : ℝ) < (ofDyadic ⟨negative, m, e⟩).den := by
    by_contra hzero
    nlinarith
  constructor
  · refine le_of_mul_le_mul_right ?_ hden
    rw [hscale, ← hlow]
    exact h.low_le
  · refine le_of_mul_le_mul_right ?_ hden
    rw [hscale, ← hhigh]
    exact h.le_high
  · intro hend
    have hclosed : (ofDyadic ⟨negative, m, e⟩).closed := h.closed (by
      rcases hend with rfl | rfl
      · exact .inl (by rw [hscale, hlow])
      · exact .inr (by rw [hscale, hhigh]))
    exact of_decide_eq_true hclosed

end Rounding

/-! ## The first digit -/

theorem leadingExponent_spec {num den : ℕ} (hnum : 0 < num) (hden : 0 < den) :
    (10 : ℝ) ^ leadingExponent num den ≤ num / den := by
  have hden' : (0 : ℝ) < den := by exact_mod_cast hden
  rw [le_div_iff₀ hden', leadingExponent]
  obtain ⟨g, hg⟩ : ∃ g : ℤ, g = (digitCount num : ℤ) - digitCount den := ⟨_, rfl⟩
  simp only [← hg, Nat.pow_eq]
  have hreached : (if 0 ≤ g then den * 10 ^ g.toNat ≤ num else den ≤ num * 10 ^ (-g).toNat) →
      (10 : ℝ) ^ g * den ≤ num := by
    intro h
    split at h
    · rename_i hsign
      obtain ⟨j, rfl⟩ := Int.eq_ofNat_of_zero_le hsign
      rw [zpow_natCast, mul_comm]
      exact_mod_cast h
    · rename_i hsign
      obtain ⟨j, hj⟩ : ∃ j : ℕ, -g = j := Int.eq_ofNat_of_zero_le (by omega)
      rw [hj, Int.toNat_natCast] at h
      obtain rfl : g = -j := by omega
      rw [zpow_neg, zpow_natCast, inv_mul_le_iff₀ (by positivity), mul_comm]
      exact_mod_cast h
  by_cases h : if 0 ≤ g then den * 10 ^ g.toNat ≤ num else den ≤ num * 10 ^ (-g).toNat
  · rw [if_pos h]
    exact hreached h
  · rw [if_neg h]
    calc
      (10 : ℝ) ^ (g - 1) * den ≤ 10 ^ (g - 1) * 10 ^ (digitCount den : ℤ) := by
        gcongr
        exact (lt_ten_zpow_digitCount den).le
      _ = 10 ^ ((digitCount num : ℤ) - 1) := by
        rw [← zpow_add₀ (by norm_num), hg]
        congr 1
        ring
      _ ≤ num := ten_zpow_digitCount_le hnum

theorem Decimal.real_dropZeros (n : ℕ) (d : Decimal) : (d.dropZeros n).real = d.real := by
  induction n generalizing d with
  | zero => rfl
  | succ n ih =>
      rw [dropZeros]
      split
      · rename_i h
        obtain ⟨k, hk⟩ : 10 ∣ d.digits := Nat.dvd_of_mod_eq_zero h.2
        rw [ih, real, real, hk, Nat.mul_div_cancel_left k (by norm_num),
          zpow_add_one₀ (by norm_num)]
        push_cast
        ring
      · rfl

/-- Seventeen digits after the first one are enough, since ten to that power is more than two to the
bits of a significand. -/
theorem Rounding.holds_search_ofDyadic (negative : Bool) {m : ℕ} (hm : 0 < m) (hlt : m < 2 ^ 53)
    (e : ℤ) (tie : Tie) :
    let r := ofDyadic ⟨negative, m, e⟩
    r.Holds (r.search tie 18 (leadingExponent r.num r.den)).real := by
  intro r
  obtain ⟨s, hs, hden, hunit, hnum, hlow, hhigh⟩ := exists_ofDyadic negative hm e
  have hs' : (0 : ℝ) < s := by exact_mod_cast hs
  have hden' : (0 : ℝ) < r.den := by exact_mod_cast hden
  have hm' : (1 : ℝ) ≤ m := by exact_mod_cast hm
  apply holds_search hden
  · have hreal : (r.low : ℝ) ≤ r.num := by
      rw [hlow, hnum]
      rw [gapBelow_eq]
      split <;> nlinarith
    exact_mod_cast hreal
  · have hpos : 0 < r.num := by
      have hreal : (0 : ℝ) < r.num := by
        rw [hnum]
        positivity
      exact_mod_cast hreal
    have hleading := leadingExponent_spec hpos hden
    rw [le_div_iff₀ hden', hnum] at hleading
    have hlt' : (m : ℝ) < 2 ^ 53 := by exact_mod_cast hlt
    calc
      (10 : ℝ) ^ (leadingExponent r.num r.den - (17 : ℕ)) * r.den =
          10 ^ leadingExponent r.num r.den * r.den / 10 ^ 17 := by
        rw [zpow_sub₀ (by norm_num), zpow_natCast]
        ring
      _ ≤ 4 * m * s / 10 ^ 17 := by gcongr
      _ < 4 * 2 ^ 53 * s / 10 ^ 17 := by gcongr
      _ < 2 * s := by
        rw [div_lt_iff₀ (by norm_num)]
        nlinarith
      _ = r.high - r.num := by
        rw [hhigh, hnum]
        ring

/-- The shortest decimal of a finite number lies in its interval. -/
theorem inInterval_shortest (tie : Tie) {x : Float} (hx : x.isFinite)
    (hm : (decode x).significand ≠ 0) :
    InInterval (decode x).significand (decode x).exponent (shortest tie x).real := by
  have hlt := (isCanonical_decode hx).1.lt
  rw [shortest]
  generalize decode x = d at hm hlt ⊢
  obtain ⟨negative, m, e⟩ := d
  simp only at hm hlt
  simp only [hm, ↓reduceIte, Decimal.real_dropZeros]
  exact (Rounding.holds_search_ofDyadic negative (Nat.pos_of_ne_zero hm) hlt e tie).inInterval
    (Nat.pos_of_ne_zero hm)

end DefiniteIntegral
