import DefiniteIntegral.Proofs.Arithmetic.Exact
import DefiniteIntegral.Proofs.Quadrature.Sampling
import Mathlib.Algebra.BigOperators.Ring.Finset
import Mathlib.Tactic.FieldSimp
import Mathlib.Tactic.Ring

/-! # The rules in exact arithmetic

Each of the three rules on a grid adds up what it gives for the single cells: the trapezoidal and
the midpoint rule for the steps of their grid, and Simpson's rule for pairs of steps. -/

namespace DefiniteIntegral

variable {ε : Type}

/-! ## Parts of a list of values -/

section Parts

variable {α : Type} {y : ℕ → α}

theorem slice_map_range {n first stop : ℕ}
    (h : first ≤ stop ∧ stop ≤ ((List.range n).map y).length) :
    slice ((List.range n).map y) first stop h =
      (List.range (stop - first)).map fun i => y (first + i) := by
  have hstop : stop ≤ n := by simpa using h.2
  apply List.ext_getElem
  · simp [slice, hstop]
  · simp [slice]

theorem everyOther_map_range (n : ℕ) :
    everyOther ((List.range n).map y) = (List.range ((n + 1) / 2)).map fun i => y (2 * i) := by
  induction n using Nat.twoStepInduction generalizing y with
  | zero => rfl
  | one => rfl
  | more n ih _ =>
      have hcount : (n + 2 + 1) / 2 = (n + 1) / 2 + 1 := by omega
      rw [hcount, List.range_succ_eq_map, List.range_succ_eq_map, List.range_succ_eq_map]
      simp only [List.map_cons, List.map_map, everyOther]
      exact congrArg _ (ih (y := fun i => y (i + 2)))

end Parts

/-! ## Sums and grids -/

section Exact

variable (sqrt : ℚ → ℚ) (a b : ℚ)

theorem Arithmetic.sum_exact (xs : List ℚ) : @Arithmetic.sum ℚ (.exact sqrt) xs = xs.sum := by
  rw [List.sum_eq_foldl]
  exact congrArg (xs.foldl (· + ·)) neg_zero

/-- A point between `a` and `b`, `i` of `m` equal steps away from `a`. -/
def gridPoint (m i : ℕ) : ℚ :=
  a + i * ((b - a) / m)

@[simp] theorem gridPoint_zero (m : ℕ) : gridPoint a b m 0 = a := by
  simp [gridPoint]

theorem gridPoint_self {m : ℕ} (hm : 0 < m) : gridPoint a b m m = b := by
  have hne : (m : ℚ) ≠ 0 := Nat.cast_ne_zero.mpr hm.ne'
  rw [gridPoint]
  field_simp
  ring

theorem grid_exact (m : ℕ) :
    @grid ℚ (.exact sqrt) a b (m + 1) = (List.range (m + 1)).map (gridPoint a b m) := by
  cases m with
  | zero => simp [grid]
  | succ m =>
      rw [List.range_succ, List.map_append, List.map_singleton, gridPoint_self a b m.succ_pos]
      rfl

theorem getElem?_grid {m i : ℕ} (hi : i ≤ m) :
    (@grid ℚ (.exact sqrt) a b (m + 1))[i]? = some (gridPoint a b m i) := by
  rw [grid_exact, List.getElem?_map, List.getElem?_range (Nat.lt_succ_of_le hi)]
  rfl

theorem gridPoint_succ_sub (m i : ℕ) :
    gridPoint a b m (i + 1) - gridPoint a b m i = (b - a) / m := by
  simp only [gridPoint]
  push_cast
  ring

/-- The points stay when every step is divided into `k`. -/
theorem gridPoint_mul {k : ℕ} (hk : 0 < k) (m i : ℕ) :
    gridPoint a b (k * m) (k * i) = gridPoint a b m i := by
  have hne : (k : ℚ) ≠ 0 := Nat.cast_ne_zero.mpr hk.ne'
  simp only [gridPoint]
  push_cast
  field_simp

theorem gridPoint_double (m i : ℕ) : gridPoint a b (2 * m) (2 * i) = gridPoint a b m i :=
  gridPoint_mul a b Nat.two_pos m i

/-- The middle of a step of the grid is a point of the grid with half the step. -/
theorem gridPoint_middle (m i : ℕ) :
    (gridPoint a b m i + gridPoint a b m (i + 1)) / 2 = gridPoint a b (2 * m) (1 + 2 * i) := by
  simp only [gridPoint]
  push_cast
  ring

end Exact

/-! ## Cells -/

/-- What a rule gives for the cell from `u` to `v`. -/
abbrev CellRule := (ℚ → ℚ) → ℚ → ℚ → ℚ

namespace CellRule

/-- The trapezoidal rule on one step. -/
def trapezoidal : CellRule := fun g u v =>
  (v - u) / 2 * (g u + g v)

/-- The midpoint rule on one step. -/
def midpoint : CellRule := fun g u v =>
  (v - u) * g ((u + v) / 2)

/-- Simpson's rule on two steps. -/
def simpson : CellRule := fun g u v =>
  (v - u) / 6 * (g u + 4 * g ((u + v) / 2) + g v)

/-- What a rule gives for `m` equal cells between `a` and `b`. -/
def composite (rule : CellRule) (g : ℚ → ℚ) (a b : ℚ) (m : ℕ) : ℚ :=
  ∑ i ∈ Finset.range m, rule g (gridPoint a b m i) (gridPoint a b m (i + 1))

variable (g : ℚ → ℚ) (a b : ℚ) (m : ℕ)

/-- Every inner point of a grid is an end of two cells. -/
theorem composite_trapezoidal :
    trapezoidal.composite g a b (m + 1) =
      (b - a) / (m + 1 : ℕ) *
        (1 / 2 * g (gridPoint a b (m + 1) 0) +
          ∑ i ∈ Finset.range m, g (gridPoint a b (m + 1) (1 + i)) +
          1 / 2 * g (gridPoint a b (m + 1) (m + 1))) := by
  simp only [composite, trapezoidal, gridPoint_succ_sub, ← Finset.mul_sum, Finset.sum_add_distrib]
  -- The left ends are the first point and the inner ones, the right ends these and the last point.
  rw [Finset.sum_range_succ' fun i => g (gridPoint a b (m + 1) i), Finset.sum_range_succ]
  simp only [Nat.add_comm 1]
  ring

theorem composite_midpoint :
    midpoint.composite g a b m =
      (b - a) / m * ∑ i ∈ Finset.range m, g (a + (i + 1 / 2) * ((b - a) / m)) := by
  simp only [composite, midpoint, gridPoint_succ_sub, ← Finset.mul_sum]
  congr! 3 with i
  simp only [gridPoint]
  push_cast
  ring

/-- The ends of the cells are the even points of the grid, and their middles the odd ones. -/
theorem composite_simpson :
    simpson.composite g a b (m + 1) =
      (b - a) / (2 * (m + 1) : ℕ) / 3 *
        (g (gridPoint a b (2 * (m + 1)) 0) + g (gridPoint a b (2 * (m + 1)) (2 * (m + 1))) +
          4 * ∑ i ∈ Finset.range (m + 1), g (gridPoint a b (2 * (m + 1)) (1 + 2 * i)) +
          2 * ∑ i ∈ Finset.range m, g (gridPoint a b (2 * (m + 1)) (2 + 2 * i))) := by
  -- The even points of the finer grid are those of the coarser one, so only the middles are new.
  have hstart := gridPoint_double a b (m + 1) 0
  have hstop := gridPoint_double a b (m + 1) (m + 1)
  have hinner : ∀ i, gridPoint a b (2 * (m + 1)) (2 + 2 * i) = gridPoint a b (m + 1) (i + 1) := by
    intro i
    have hindex : 2 + 2 * i = 2 * (i + 1) := by omega
    rw [hindex, gridPoint_double]
  rw [Nat.mul_zero] at hstart
  simp only [composite, simpson, gridPoint_succ_sub, gridPoint_middle, hstart, hstop, hinner,
    ← Finset.mul_sum, Finset.sum_add_distrib]
  rw [Finset.sum_range_succ' fun i => g (gridPoint a b (m + 1) i),
    Finset.sum_range_succ fun i => g (gridPoint a b (m + 1) (i + 1))]
  have hstep : (b - a) / (2 * (m + 1) : ℕ) = (b - a) / (m + 1 : ℕ) / 2 := by
    push_cast
    field_simp
  rw [hstep]
  ring

end CellRule

/-! ## The rules -/

namespace Quadrature

theorem oddCount_eq (n : ℕ) : oddCount n = 2 * (n / 2) + 1 := by
  rw [oddCount]
  split <;> omega

theorem two_le_oddCount {n : ℕ} (hn : 2 ≤ n) : 2 ≤ oddCount n := by
  rw [oddCount_eq]
  omega

variable (sqrt : ℚ → ℚ) (g : ℚ → ℚ) (a b : ℚ) (n : ℕ)

theorem trapezoidal_eq_composite (hn : 2 ≤ n) :
    ∃ q, @trapezoidal ℚ ε (.exact sqrt) (fun x => .ok (g x)) a b n hn = .ok q ∧
      q.xs.length = n ∧ q.value = CellRule.trapezoidal.composite g a b (n - 1) := by
  obtain ⟨m, rfl⟩ := Nat.exists_eq_add_of_le' hn
  have hcells := CellRule.composite_trapezoidal g a b m
  let := Arithmetic.exact sqrt
  rw [trapezoidal, sample_ok]
  refine ⟨_, rfl, length_grid a b (m + 2), Eq.trans ?_ hcells.symm⟩
  simp only [grid_exact, Arithmetic.sum_exact, List.map_map, slice_map_range, List.getElem_map,
    List.getElem_range]
  rfl

theorem simpson_eq_composite (hn : 2 ≤ n) :
    ∃ q, @simpson ℚ ε (.exact sqrt) (fun x => .ok (g x)) a b n hn = .ok q ∧
      q.xs.length = oddCount n ∧ q.value = CellRule.simpson.composite g a b (n / 2) := by
  obtain ⟨m, hm⟩ : ∃ m, n / 2 = m + 1 := Nat.exists_eq_add_of_le' (by omega : 1 ≤ n / 2)
  have hcount : oddCount n = 2 * (m + 1) + 1 := by rw [oddCount_eq, hm]
  have hcells := CellRule.composite_simpson g a b m
  let := Arithmetic.exact sqrt
  simp only [simpson, hcount, hm, sample_ok]
  refine ⟨_, rfl, length_grid a b (2 * (m + 1) + 1), Eq.trans ?_ hcells.symm⟩
  simp only [grid_exact, Arithmetic.sum_exact, List.map_map, slice_map_range, everyOther_map_range,
    List.getElem_map, List.getElem_range]
  have hodd : (2 * (m + 1) + 1 - 1 - 1 + 1) / 2 = m + 1 := by omega
  have heven : (2 * (m + 1) + 1 - 1 - 2 + 1) / 2 = m := by omega
  rw [hodd, heven]
  rfl

theorem midpoint_eq_composite :
    ∃ q, @midpoint ℚ ε (.exact sqrt) (fun x => .ok (g x)) a b n = .ok q ∧
      q.xs.length = n + 1 ∧ q.value = CellRule.midpoint.composite g a b n := by
  have hcells := CellRule.composite_midpoint g a b n
  let := Arithmetic.exact sqrt
  simp only [midpoint, sample_ok]
  refine ⟨_, rfl, length_grid a b (n + 1), Eq.trans ?_ hcells.symm⟩
  simp only [midpoints, Arithmetic.sum_exact, List.map_map]
  rfl

end Quadrature

end DefiniteIntegral
