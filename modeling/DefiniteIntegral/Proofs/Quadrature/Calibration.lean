import DefiniteIntegral.Proofs.Quadrature.Estimates
import DefiniteIntegral.Proofs.Quadrature.Polynomials
import Mathlib

/-! # Calibration of the error estimates

The error of a rule for a polynomial of one degree more than it is exact for is the same on all
cells of a grid, and the differences of the first samples measure it. So the estimate of the
midpoint rule is the error itself, and those of the other two are a known part of it. -/

namespace DefiniteIntegral

open Polynomial intervalIntegral

/-! ## Errors on grids -/

namespace CellRule

variable {rule : CellRule} {p : ℚ[X]}

theorem composite_less (error : ℚ → ℚ) (g : ℚ → ℚ) (a b : ℚ) (m : ℕ) :
    (rule.less error).composite g a b m = rule.composite g a b m - m * error ((b - a) / m) := by
  simp [composite, less, gridPoint_succ_sub]

/-- On a grid the error of a cell occurs once for every cell. -/
theorem composite_sub_integral {error : ℚ → ℚ} (h : (rule.less error).IsExactFor p) (a b : ℚ)
    {m : ℕ} (hm : 0 < m) :
    (rule.composite p.eval a b m : ℝ) - ∫ x in (a : ℝ)..b, aeval x p =
      (m * error ((b - a) / m) : ℚ) := by
  rw [← h.composite a b hm, composite_less]
  push_cast
  ring

end CellRule

/-! ## Differences of samples -/

section Differences

variable (sqrt : ℚ → ℚ) (a b : ℚ) {p : ℚ[X]} {m : ℕ}

/-- Of a quadratic polynomial, the second difference on a grid sees the leading term alone. -/
theorem secondDifference_grid (h : p.natDegree ≤ 2)
    (hlength : 3 ≤ ((@grid ℚ (.exact sqrt) a b (m + 1)).map p.eval).length) :
    @secondDifference ℚ (.exact sqrt) ((@grid ℚ (.exact sqrt) a b (m + 1)).map p.eval) hlength =
      |2 * p.coeff 2 * ((b - a) / m) ^ 2| := by
  have heval : p.eval = fun x => ∑ i ∈ Finset.range 3, p.coeff i * x ^ i :=
    funext fun x => eval_eq_sum_range' (Nat.lt_succ_of_le h) x
  simp only [secondDifference, grid_exact, List.getElem_map, List.getElem_range, heval,
    Finset.sum_range_succ, Finset.sum_range_zero, gridPoint]
  refine congrArg abs ?_
  push_cast
  ring

theorem fourthDifference_grid (h : p.natDegree ≤ 4)
    (hlength : 5 ≤ ((@grid ℚ (.exact sqrt) a b (m + 1)).map p.eval).length) :
    @fourthDifference ℚ (.exact sqrt) ((@grid ℚ (.exact sqrt) a b (m + 1)).map p.eval) hlength =
      |24 * p.coeff 4 * ((b - a) / m) ^ 4| := by
  have heval : p.eval = fun x => ∑ i ∈ Finset.range 5, p.coeff i * x ^ i :=
    funext fun x => eval_eq_sum_range' (Nat.lt_succ_of_le h) x
  simp only [fourthDifference, grid_exact, List.getElem_map, List.getElem_range, heval,
    Finset.sum_range_succ, Finset.sum_range_zero, gridPoint]
  refine congrArg abs ?_
  push_cast
  ring

end Differences

/-! ## Estimates and errors

`c` is the leading coefficient of the polynomial, `d` the signed width of the interval and `m` the
number of steps of the grid. -/

section Scale

variable (c d : ℚ) {m : ℕ} (hm : 0 < m)

include hm

theorem trapezoidal_estimate_eq :
    |d| * m * m * |2 * c * (d / m) ^ 2| / (12 * (m + 1 : ℕ) * (m + 1 : ℕ)) =
      |m * (c / 6 * (d / m) ^ 3)| * (((m + 1 : ℕ) - 1) / (m + 1 : ℕ)) ^ 2 := by
  have hne : (m : ℚ) ≠ 0 := Nat.cast_ne_zero.mpr hm.ne'
  simp only [abs_mul, abs_div, abs_pow, Nat.abs_cast, Nat.abs_ofNat]
  push_cast
  field_simp
  ring

theorem midpoint_estimate_eq :
    |d| * |2 * c * (d / m) ^ 2| / 24 = |m * (-(c / 12) * (d / m) ^ 3)| := by
  have hne : (m : ℚ) ≠ 0 := Nat.cast_ne_zero.mpr hm.ne'
  simp only [abs_mul, abs_div, abs_pow, abs_neg, Nat.abs_cast, Nat.abs_ofNat]
  field_simp
  ring

/-- A cell of Simpson's rule takes two steps. -/
theorem simpson_estimate_eq :
    |d| * ((2 * m : ℕ) * (2 * m : ℕ) * ((2 * m : ℕ) * (2 * m : ℕ))) *
        |24 * c * (d / (2 * m : ℕ)) ^ 4| /
        (180 * ((2 * m + 1 : ℕ) * (2 * m + 1 : ℕ) * ((2 * m + 1 : ℕ) * (2 * m + 1 : ℕ)))) =
      |m * (c / 120 * (d / m) ^ 5)| * (((2 * m + 1 : ℕ) - 1) / (2 * m + 1 : ℕ)) ^ 4 := by
  have hne : (m : ℚ) ≠ 0 := Nat.cast_ne_zero.mpr hm.ne'
  push_cast
  simp only [abs_mul, abs_div, abs_pow, Nat.abs_cast, Nat.abs_ofNat]
  field_simp
  ring

end Scale

/-! ## Methods -/

namespace Method

section Calibrated

variable {σ : Type} (function : ElementaryFunction → ℚ → ℚ) (pow : ℚ → ℚ → ℚ) (pi e : ℚ)
  (a b : ℚ) {n : ℕ} {p : ℚ[X]} (supply : Supplier σ ℚ) (s : σ)

theorem trapezoidal_calibrated (hdegree : p.natDegree ≤ 2) (enough : 2 < n) :
    letI := Elementary.exact function pow pi e
    ∃ q estimate,
      (trapezoidal.integrate (fun x => .ok (p.eval x)) a b n supply).run s = (.ok q, s) ∧
      q.errorEstimate = some estimate ∧
      (estimate : ℝ) =
        |(q.value : ℝ) - ∫ x in (a : ℝ)..b, aeval x p| * (((n : ℝ) - 1) / n) ^ 2 := by
  let := Elementary.exact function pow pi e
  obtain ⟨m, rfl⟩ := Nat.exists_eq_add_of_le' (Nat.one_le_of_lt enough)
  have hn : 2 ≤ m + 1 := enough.le
  have hm : 0 < m := Nat.le_of_succ_le_succ hn
  obtain ⟨q, hq, hxs, hys, hvalue⟩ := exists_integrate_of_cells function pow pi e trapezoidal
    (m + 1) rfl hn p.eval a b supply s
  have hrule := (Prod.mk.inj ((run_integrate_trapezoidal supply s hn).symm.trans hq)).1
  have herror :=
    CellRule.composite_sub_integral (CellRule.isExactFor_trapezoidal_less hdegree) a b hm
  have hestimate := Quadrature.errorEstimate_trapezoidal hrule
  rw [dif_pos enough] at hestimate
  simp only [hys, hxs, sampleCount, secondDifference_grid (function .sqrt) a b hdegree]
    at hestimate
  refine ⟨q, _, hq, hestimate, ?_⟩
  rw [hvalue, Nat.add_sub_cancel, herror]
  exact_mod_cast trapezoidal_estimate_eq (p.coeff 2) (b - a) hm

theorem midpoint_calibrated (hdegree : p.natDegree ≤ 2) (enough : 2 < n) :
    letI := Elementary.exact function pow pi e
    ∃ q estimate,
      (midpoint.integrate (fun x => .ok (p.eval x)) a b n supply).run s = (.ok q, s) ∧
      q.errorEstimate = some estimate ∧
      (estimate : ℝ) = |(q.value : ℝ) - ∫ x in (a : ℝ)..b, aeval x p| := by
  let := Elementary.exact function pow pi e
  have hn : 1 ≤ n := Nat.one_le_of_lt enough
  obtain ⟨q, hq, hxs, hys, hvalue⟩ := exists_integrate_of_cells function pow pi e midpoint
    n rfl hn p.eval a b supply s
  have hrule := (Prod.mk.inj ((run_integrate_midpoint supply s hn).symm.trans hq)).1
  have herror :=
    CellRule.composite_sub_integral (CellRule.isExactFor_midpoint_less hdegree) a b hn
  have hestimate := Quadrature.errorEstimate_midpoint hrule
  rw [dif_pos enough] at hestimate
  simp only [hys, hxs, sampleCount, secondDifference_grid (function .sqrt) a b hdegree]
    at hestimate
  refine ⟨q, _, hq, hestimate, ?_⟩
  rw [hvalue, herror]
  exact_mod_cast midpoint_estimate_eq (p.coeff 2) (b - a) hn

/-- The powers of the number of points are those of the odd number that the rule uses. -/
theorem simpson_calibrated (hdegree : p.natDegree ≤ 4) (enough : 4 < Quadrature.oddCount n) :
    letI := Elementary.exact function pow pi e
    ∃ q estimate,
      (simpson.integrate (fun x => .ok (p.eval x)) a b n supply).run s = (.ok q, s) ∧
      q.xs.length = Quadrature.oddCount n ∧ q.errorEstimate = some estimate ∧
      (estimate : ℝ) =
        |(q.value : ℝ) - ∫ x in (a : ℝ)..b, aeval x p| *
          (((Quadrature.oddCount n : ℝ) - 1) / Quadrature.oddCount n) ^ 4 := by
  let := Elementary.exact function pow pi e
  have hcount := Quadrature.oddCount_eq n
  have hn : 2 ≤ n := by omega
  have hm : 0 < n / 2 := Nat.div_pos hn two_pos
  obtain ⟨q, hq, hxs, hys, hvalue⟩ := exists_integrate_of_cells function pow pi e simpson
    n rfl hn p.eval a b supply s
  have hrule := (Prod.mk.inj ((run_integrate_simpson supply s hn).symm.trans hq)).1
  have herror :=
    CellRule.composite_sub_integral (CellRule.isExactFor_simpson_less hdegree) a b hm
  have hestimate := Quadrature.errorEstimate_simpson hrule
  rw [dif_pos enough] at hestimate
  simp only [hys, hxs, sampleCount, hcount, Nat.add_sub_cancel,
    fourthDifference_grid (function .sqrt) a b hdegree] at hestimate
  refine ⟨q, _, hq, by rw [hxs, length_grid, sampleCount], hestimate, ?_⟩
  rw [hvalue, herror, hcount]
  -- The cast of a difference of counts keeps `exact_mod_cast` from closing this as it does above.
  refine (congrArg Rat.cast (simpson_estimate_eq (p.coeff 4) (b - a) hm)).trans ?_
  push_cast
  rfl

end Calibrated

/-- In exact arithmetic the error estimate is the distance from the integral for the midpoint rule,
and a known part of it for the other two: for polynomials of degree at most two, and at most four
for Simpson's rule, whose number of points is the odd one that it uses. -/
theorem integrate_calibrated {σ : Type} (function : ElementaryFunction → ℚ → ℚ)
    (pow : ℚ → ℚ → ℚ) (pi e : ℚ) (supply : Supplier σ ℚ) (s : σ) (a b : ℚ) (n : ℕ) (p : ℚ[X]) :
    letI := Elementary.exact function pow pi e
    let f : ℚ → Except (Error ℚ) ℚ := fun x => .ok (p.eval x)
    let odd := Quadrature.oddCount n
    (p.natDegree ≤ 2 → 3 ≤ n →
      (∃ q estimate, (trapezoidal.integrate f a b n supply).run s = (.ok q, s) ∧
        q.errorEstimate = some estimate ∧
        (estimate : ℝ) =
          |(q.value : ℝ) - ∫ x in (a : ℝ)..b, aeval x p| * (((n : ℝ) - 1) / n) ^ 2) ∧
      (∃ q estimate, (midpoint.integrate f a b n supply).run s = (.ok q, s) ∧
        q.errorEstimate = some estimate ∧
        (estimate : ℝ) = |(q.value : ℝ) - ∫ x in (a : ℝ)..b, aeval x p|)) ∧
    (p.natDegree ≤ 4 → 5 ≤ odd →
      ∃ q estimate, (simpson.integrate f a b n supply).run s = (.ok q, s) ∧ q.xs.length = odd ∧
        q.errorEstimate = some estimate ∧
        (estimate : ℝ) =
          |(q.value : ℝ) - ∫ x in (a : ℝ)..b, aeval x p| * (((odd : ℝ) - 1) / odd) ^ 4) := by
  intro f odd
  constructor
  · intro hdegree enough
    constructor
    · exact trapezoidal_calibrated function pow pi e a b supply s hdegree enough
    · exact midpoint_calibrated function pow pi e a b supply s hdegree enough
  · intro hdegree enough
    exact simpson_calibrated function pow pi e a b supply s hdegree enough

/-- Simpson's rule asked for four points, on the fourth power from `2` down to `0`. -/
theorem integrate_calibrated_fourth_power :
    letI := Elementary.exact (fun _ x => x) (fun x _ => x) 3 3
    ∃ q estimate, (simpson.integrate (fun x : ℚ => .ok ((X ^ 4 : ℚ[X]).eval x)) 2 0 4
          fun _ => (pure [] : Drawing Unit ℚ (List ℚ))).run () = (.ok q, ()) ∧
      q.xs.length = 5 ∧ q.errorEstimate = some estimate ∧
      (estimate : ℝ) = |(q.value : ℝ) + 32 / 5| * (4 / 5) ^ 4 := by
  obtain ⟨-, hsimpson⟩ := integrate_calibrated (fun _ x => x) (fun x _ => x) 3 3
    (fun _ => (pure [] : Drawing Unit ℚ (List ℚ))) () 2 0 4 (X ^ 4)
  obtain ⟨q, estimate, hq, hlength, hestimate, hcalibrated⟩ :=
    hsimpson (natDegree_X_pow 4).le le_rfl
  have hcount : Quadrature.oddCount 4 = 5 := rfl
  refine ⟨q, estimate, hq, hlength, hestimate, hcalibrated.trans ?_⟩
  simp only [hcount, map_pow, aeval_X, integral_pow]
  norm_num

end Method

end DefiniteIntegral
