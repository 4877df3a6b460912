import DefiniteIntegral.Proofs.Quadrature.Composite
import DefiniteIntegral.Proofs.Quadrature.Nodes
import Mathlib

/-! # Exactness for polynomials

A rule that gives the integral of a polynomial on every single cell gives it on a whole grid, since
the integrals over the cells add up. The cells can follow one another upwards or downwards. -/

namespace DefiniteIntegral

open Polynomial intervalIntegral

namespace CellRule

/-- Whether a rule gives the integral of a polynomial over every cell. -/
def IsExactFor (rule : CellRule) (p : ℚ[X]) : Prop :=
  ∀ u v : ℚ, (rule p.eval u v : ℝ) = ∫ x in (u : ℝ)..v, aeval x p

variable {rule : CellRule} {p : ℚ[X]}

/-- The integral over a grid is the sum of those over its cells. -/
theorem IsExactFor.composite (h : rule.IsExactFor p) (a b : ℚ) {m : ℕ} (hm : 0 < m) :
    (rule.composite p.eval a b m : ℝ) = ∫ x in (a : ℝ)..b, aeval x p := by
  calc
    (rule.composite p.eval a b m : ℝ) = ∑ i ∈ Finset.range m,
        ∫ x in (gridPoint a b m i : ℝ)..gridPoint a b m (i + 1), aeval x p := by
      rw [CellRule.composite, Rat.cast_sum]
      exact Finset.sum_congr rfl fun i _ => h _ _
    _ = ∫ x in (gridPoint a b m 0 : ℝ)..gridPoint a b m m, aeval x p :=
      sum_integral_adjacent_intervals fun i _ => p.continuous_aeval.intervalIntegrable _ _
    _ = ∫ x in (a : ℝ)..b, aeval x p := by rw [gridPoint_zero, gridPoint_self a b hm]

/-! ## Single cells

In one degree more than a rule is exact for, its error depends on the width of the cell alone. -/

theorem integral_aeval {n : ℕ} (h : p.natDegree < n) (u v : ℝ) :
    ∫ x in u..v, aeval x p =
      ∑ i ∈ Finset.range n, (p.coeff i : ℝ) * ((v ^ (i + 1) - u ^ (i + 1)) / (i + 1)) := by
  have hterm : ∀ i, Continuous fun x : ℝ => p.coeff i • x ^ i := fun i => by fun_prop
  simp only [aeval_eq_sum_range' h]
  rw [integral_finsetSum fun i _ => (hterm i).intervalIntegrable u v]
  simp [Rat.smul_def]

/-- A rule is exact for a polynomial if it takes its coefficients as integration does. -/
theorem isExactFor_of_coeff {n : ℕ} (h : p.natDegree < n)
    (hrule : ∀ u v : ℚ,
      rule (fun x => ∑ i ∈ Finset.range n, p.coeff i * x ^ i) u v =
        ∑ i ∈ Finset.range n, p.coeff i * ((v ^ (i + 1) - u ^ (i + 1)) / (i + 1))) :
    rule.IsExactFor p := by
  intro u v
  have heval : p.eval = fun x => ∑ i ∈ Finset.range n, p.coeff i * x ^ i :=
    funext fun x => eval_eq_sum_range' h x
  rw [heval, hrule, integral_aeval h]
  push_cast
  rfl

/-- A rule less an error that depends on the width of the cell alone. -/
def less (rule : CellRule) (error : ℚ → ℚ) : CellRule := fun g u v =>
  rule g u v - error (v - u)

/-- The error in the quadratic term does not depend on where the cell is. -/
theorem isExactFor_trapezoidal_less (h : p.natDegree ≤ 2) :
    (trapezoidal.less fun w => p.coeff 2 / 6 * w ^ 3).IsExactFor p := by
  refine isExactFor_of_coeff (Nat.lt_succ_of_le h) fun u v => ?_
  simp only [less, trapezoidal, Finset.sum_range_succ, Finset.sum_range_zero]
  push_cast
  ring

theorem isExactFor_midpoint_less (h : p.natDegree ≤ 2) :
    (midpoint.less fun w => -(p.coeff 2 / 12) * w ^ 3).IsExactFor p := by
  refine isExactFor_of_coeff (Nat.lt_succ_of_le h) fun u v => ?_
  simp only [less, midpoint, Finset.sum_range_succ, Finset.sum_range_zero]
  push_cast
  ring

/-- The error in the cubic term cancels, as the cell is symmetric about its middle, so the first one
is that of the fourth power. -/
theorem isExactFor_simpson_less (h : p.natDegree ≤ 4) :
    (simpson.less fun w => p.coeff 4 / 120 * w ^ 5).IsExactFor p := by
  refine isExactFor_of_coeff (Nat.lt_succ_of_le h) fun u v => ?_
  simp only [less, simpson, Finset.sum_range_succ, Finset.sum_range_zero]
  push_cast
  ring

theorem isExactFor_trapezoidal (h : p.natDegree ≤ 1) : trapezoidal.IsExactFor p := by
  have hcoeff : p.coeff 2 = 0 := coeff_eq_zero_of_natDegree_lt (Nat.lt_succ_of_le h)
  simpa [IsExactFor, less, hcoeff] using isExactFor_trapezoidal_less (h.trans one_le_two)

theorem isExactFor_midpoint (h : p.natDegree ≤ 1) : midpoint.IsExactFor p := by
  have hcoeff : p.coeff 2 = 0 := coeff_eq_zero_of_natDegree_lt (Nat.lt_succ_of_le h)
  simpa [IsExactFor, less, hcoeff] using isExactFor_midpoint_less (h.trans one_le_two)

theorem isExactFor_simpson (h : p.natDegree ≤ 3) : simpson.IsExactFor p := by
  have hcoeff : p.coeff 4 = 0 := coeff_eq_zero_of_natDegree_lt (Nat.lt_succ_of_le h)
  simpa [IsExactFor, less, hcoeff] using isExactFor_simpson_less (h.trans (Nat.le_succ 3))

end CellRule

/-! ## Methods -/

namespace Method

/-- In exact arithmetic, and with the bounds in either order, Simpson's rule gives the integral of
every polynomial of degree at most three, and the trapezoidal and the midpoint rule that of every
polynomial of degree at most one. -/
theorem integrate_polynomial {σ : Type} (function : ElementaryFunction → ℚ → ℚ)
    (pow : ℚ → ℚ → ℚ) (pi e : ℚ) (supply : Supplier σ ℚ) (s : σ) (a b : ℚ) (n : ℕ) (p : ℚ[X]) :
    letI := Elementary.exact function pow pi e
    let f : ℚ → Except (Error ℚ) ℚ := fun x => .ok (p.eval x)
    (2 ≤ n → p.natDegree ≤ 3 →
      ∃ q, (simpson.integrate f a b n supply).run s = (.ok q, s) ∧
        q.xs.length = Quadrature.oddCount n ∧ (q.value : ℝ) = ∫ x in (a : ℝ)..b, aeval x p) ∧
    (2 ≤ n → p.natDegree ≤ 1 →
      ∃ q, (trapezoidal.integrate f a b n supply).run s = (.ok q, s) ∧
        q.xs.length = n ∧ (q.value : ℝ) = ∫ x in (a : ℝ)..b, aeval x p) ∧
    (1 ≤ n → p.natDegree ≤ 1 →
      ∃ q, (midpoint.integrate f a b n supply).run s = (.ok q, s) ∧
        q.xs.length = n + 1 ∧ (q.value : ℝ) = ∫ x in (a : ℝ)..b, aeval x p) := by
  intro f
  let := Elementary.exact function pow pi e
  refine ⟨fun hn hdegree => ?_, fun hn hdegree => ?_, fun hn hdegree => ?_⟩
  · obtain ⟨q, hq, hlength, hvalue⟩ :=
      Quadrature.simpson_eq_composite (ε := Error ℚ) (function .sqrt) p.eval a b n hn
    refine ⟨q, ?_, hlength, ?_⟩
    · rw [run_integrate_simpson supply s hn]
      exact congrArg (·, s) hq
    · rw [hvalue]
      exact (CellRule.isExactFor_simpson hdegree).composite a b (by omega)
  · obtain ⟨q, hq, hlength, hvalue⟩ :=
      Quadrature.trapezoidal_eq_composite (ε := Error ℚ) (function .sqrt) p.eval a b n hn
    refine ⟨q, ?_, hlength, ?_⟩
    · rw [run_integrate_trapezoidal supply s hn]
      exact congrArg (·, s) hq
    · rw [hvalue]
      exact (CellRule.isExactFor_trapezoidal hdegree).composite a b (by omega)
  · obtain ⟨q, hq, hlength, hvalue⟩ :=
      Quadrature.midpoint_eq_composite (ε := Error ℚ) (function .sqrt) p.eval a b n
    refine ⟨q, ?_, hlength, ?_⟩
    · rw [run_integrate_midpoint supply s hn]
      exact congrArg (·, s) hq
    · rw [hvalue]
      exact (CellRule.isExactFor_midpoint hdegree).composite a b hn

/-- Simpson's rule asked for two points gives the integral of the cube from `3` down to `1`. -/
theorem integrate_polynomial_cube :
    letI := Elementary.exact (fun _ x => x) (fun x _ => x) 3 3
    ∃ q, (simpson.integrate (fun x : ℚ => .ok ((X ^ 3 : ℚ[X]).eval x)) 3 1 2
          fun _ => (pure [] : Drawing Unit ℚ (List ℚ))).run () = (.ok q, ()) ∧
      q.xs.length = 3 ∧ (q.value : ℝ) = -20 := by
  obtain ⟨hsimpson, -, -⟩ := integrate_polynomial (fun _ x => x) (fun x _ => x) 3 3
    (fun _ => (pure [] : Drawing Unit ℚ (List ℚ))) () 3 1 2 (X ^ 3)
  obtain ⟨q, hq, hlength, hvalue⟩ := hsimpson le_rfl (natDegree_X_pow 3).le
  refine ⟨q, hq, hlength, hvalue.trans ?_⟩
  simp only [map_pow, aeval_X, integral_pow]
  norm_num

end Method

end DefiniteIntegral
