import DefiniteIntegral.Proofs.Quadrature.Composite
import DefiniteIntegral.Proofs.Quadrature.Nodes
import Mathlib

/-! # Methods as rules on cells

A method other than Monte Carlo samples a grid, and in exact arithmetic its value is what a rule
gives for the cells of a grid. So relations between the rules on a single cell carry over to the
methods. -/

namespace DefiniteIntegral

variable {σ α ε : Type}

/-! ## The samples -/

namespace Quadrature

variable {f : α → Except ε α} {a b : α} {n : ℕ} {q : Quadrature α}

theorem IsSampled.ys_eq {g : α → α} (h : q.IsSampled fun x => (.ok (g x) : Except ε α)) :
    q.ys = q.xs.map g := by
  have hpairs : List.Forall₂ (fun x y => g x = y) q.xs q.ys :=
    h.imp fun _ _ hxy => Except.ok.inj hxy
  rw [← List.forall₂_map_left_iff (R := Eq), List.forall₂_eq_eq_eq] at hpairs
  exact hpairs.symm

variable [Arithmetic α]

theorem xs_trapezoidal {hn : 2 ≤ n} (h : trapezoidal f a b n hn = .ok q) : q.xs = grid a b n := by
  obtain ⟨ys, -, h⟩ := bind_eq_ok_iff.mp h
  obtain rfl := pure_eq_ok_iff.mp h
  rfl

theorem xs_simpson {hn : 2 ≤ n} (h : simpson f a b n hn = .ok q) :
    q.xs = grid a b (oddCount n) := by
  obtain ⟨ys, -, h⟩ := bind_eq_ok_iff.mp h
  obtain rfl := pure_eq_ok_iff.mp h
  rfl

theorem xs_midpoint (h : midpoint f a b n = .ok q) : q.xs = grid a b (n + 1) := by
  obtain ⟨middles, -, h⟩ := bind_eq_ok_iff.mp h
  obtain ⟨ys, -, h⟩ := bind_eq_ok_iff.mp h
  obtain rfl := pure_eq_ok_iff.mp h
  rfl

end Quadrature

/-! ## Relations between rules -/

namespace CellRule

/-- On every cell, Simpson's rule takes the midpoint rule twice and the trapezoidal rule once. -/
theorem composite_simpson_eq (g : ℚ → ℚ) (a b : ℚ) (m : ℕ) :
    simpson.composite g a b m =
      (2 * midpoint.composite g a b m + trapezoidal.composite g a b m) / 3 := by
  have hcell : ∀ u v, simpson g u v = (2 * midpoint g u v + trapezoidal g u v) / 3 := by
    intro u v
    simp only [simpson, midpoint, trapezoidal]
    ring
  simp only [composite, hcell, ← Finset.sum_div, Finset.sum_add_distrib, ← Finset.mul_sum]

end CellRule

/-! ## Methods in exact arithmetic -/

namespace Method

/-- How many samples a method returns. -/
def sampleCount (n : ℕ) : Method → ℕ
  | trapezoidal => n
  | simpson => Quadrature.oddCount n
  | midpoint => n + 1
  | monteCarlo => n

/-- The rule that a method applies to cells, and the number of the cells; none for Monte Carlo. -/
def cells? (n : ℕ) : Method → Option (CellRule × ℕ)
  | trapezoidal => some (.trapezoidal, n - 1)
  | simpson => some (.simpson, n / 2)
  | midpoint => some (.midpoint, n)
  | monteCarlo => none

theorem exists_cells {method : Method} (h : method ≠ .monteCarlo) (n : ℕ) :
    ∃ rule m, method.cells? n = some (rule, m) := by
  cases method with
  | monteCarlo => exact absurd rfl h
  | trapezoidal => exact ⟨_, _, rfl⟩
  | simpson => exact ⟨_, _, rfl⟩
  | midpoint => exact ⟨_, _, rfl⟩

theorem two_le_sampleCount {method : Method} (h : method ≠ .monteCarlo) {n : ℕ}
    (hn : method.minPoints ≤ n) : 2 ≤ method.sampleCount n := by
  cases method with
  | trapezoidal => exact hn
  | simpson => exact Quadrature.two_le_oddCount hn
  | midpoint => exact Nat.succ_le_succ hn
  | monteCarlo => exact absurd rfl h

variable (function : ElementaryFunction → ℚ → ℚ) (pow : ℚ → ℚ → ℚ) (pi e : ℚ)

theorem exists_integrate_of_cells (method : Method) (n : ℕ) {rule : CellRule} {m : ℕ}
    (hcells : method.cells? n = some (rule, m)) (hn : method.minPoints ≤ n) (g : ℚ → ℚ) (a b : ℚ)
    (supply : Supplier σ ℚ) (s : σ) :
    letI := Elementary.exact function pow pi e
    ∃ q, (method.integrate (fun x => .ok (g x)) a b n supply).run s = (.ok q, s) ∧
      q.xs = grid a b (method.sampleCount n) ∧ q.ys = q.xs.map g ∧
      q.value = rule.composite g a b m := by
  let := Elementary.exact function pow pi e
  cases method with
  | trapezoidal =>
      obtain ⟨rfl, rfl⟩ := Prod.mk.inj (Option.some.inj hcells)
      obtain ⟨q, hq, -, hvalue⟩ :=
        Quadrature.trapezoidal_eq_composite (ε := Error ℚ) (function .sqrt) g a b n hn
      refine ⟨q, ?_, Quadrature.xs_trapezoidal hq, (Quadrature.trapezoidal_isSampled hq).ys_eq,
        hvalue⟩
      rw [run_integrate_trapezoidal supply s hn]
      exact congrArg (·, s) hq
  | simpson =>
      obtain ⟨rfl, rfl⟩ := Prod.mk.inj (Option.some.inj hcells)
      obtain ⟨q, hq, -, hvalue⟩ :=
        Quadrature.simpson_eq_composite (ε := Error ℚ) (function .sqrt) g a b n hn
      refine ⟨q, ?_, Quadrature.xs_simpson hq, (Quadrature.simpson_isSampled hq).ys_eq, hvalue⟩
      rw [run_integrate_simpson supply s hn]
      exact congrArg (·, s) hq
  | midpoint =>
      obtain ⟨rfl, rfl⟩ := Prod.mk.inj (Option.some.inj hcells)
      obtain ⟨q, hq, -, hvalue⟩ :=
        Quadrature.midpoint_eq_composite (ε := Error ℚ) (function .sqrt) g a b n
      refine ⟨q, ?_, Quadrature.xs_midpoint hq, (Quadrature.midpoint_isSampled hq).ys_eq, hvalue⟩
      rw [run_integrate_midpoint supply s hn]
      exact congrArg (·, s) hq
  | monteCarlo => cases hcells

/-- Simpson's rule agrees with the other two: on `2 m + 1` points, or on `2 m` when it adds one, it
gives a third of twice the midpoint rule on `m` cells and once the trapezoidal rule on their
ends. -/
theorem integrate_simpson_eq (g : ℚ → ℚ) (a b : ℚ) {m : ℕ} (hm : 1 ≤ m) (supply : Supplier σ ℚ)
    (s : σ) :
    letI := Elementary.exact function pow pi e
    let f : ℚ → Except (Error ℚ) ℚ := fun x => .ok (g x)
    ∃ odd even middle trapezoid,
      (simpson.integrate f a b (2 * m + 1) supply).run s = (.ok odd, s) ∧
      (simpson.integrate f a b (2 * m) supply).run s = (.ok even, s) ∧
      (midpoint.integrate f a b m supply).run s = (.ok middle, s) ∧
      (trapezoidal.integrate f a b (m + 1) supply).run s = (.ok trapezoid, s) ∧
      odd.value = (2 * middle.value + trapezoid.value) / 3 ∧
      even.value = (2 * middle.value + trapezoid.value) / 3 := by
  intro f
  have hoddEnough : 2 ≤ 2 * m + 1 := by omega
  have hevenEnough : 2 ≤ 2 * m := by omega
  have hoddCells : (2 * m + 1) / 2 = m := by omega
  have hevenCells : 2 * m / 2 = m := by omega
  have hrule := CellRule.composite_simpson_eq g a b m
  obtain ⟨odd, hodd, -, -, hoddValue⟩ := exists_integrate_of_cells function pow pi e simpson
    (2 * m + 1) rfl hoddEnough g a b supply s
  obtain ⟨even, heven, -, -, hevenValue⟩ := exists_integrate_of_cells function pow pi e simpson
    (2 * m) rfl hevenEnough g a b supply s
  obtain ⟨middle, hmiddle, -, -, hmiddleValue⟩ := exists_integrate_of_cells function pow pi e
    midpoint m rfl hm g a b supply s
  obtain ⟨trapezoid, htrapezoid, -, -, htrapezoidValue⟩ := exists_integrate_of_cells function pow
    pi e trapezoidal (m + 1) rfl (Nat.succ_le_succ hm) g a b supply s
  refine ⟨odd, even, middle, trapezoid, hodd, heven, hmiddle, htrapezoid, ?_, ?_⟩
  · rw [hoddValue, hmiddleValue, htrapezoidValue, hoddCells, Nat.add_sub_cancel, hrule]
  · rw [hevenValue, hmiddleValue, htrapezoidValue, hevenCells, Nat.add_sub_cancel, hrule]

/-- The fourth power from `2` down to `0`, where the three rules give three values. -/
theorem integrate_simpson_eq_fourth_power :
    letI := Elementary.exact (fun _ x => x) (fun x _ => x) 3 3
    let f : ℚ → Except (Error ℚ) ℚ := fun x => .ok (x * x * x * x)
    let supply : Supplier Unit ℚ := fun _ => pure []
    ∃ odd even middle trapezoid,
      (simpson.integrate f 2 0 3 supply).run () = (.ok odd, ()) ∧
      (simpson.integrate f 2 0 2 supply).run () = (.ok even, ()) ∧
      (midpoint.integrate f 2 0 1 supply).run () = (.ok middle, ()) ∧
      (trapezoidal.integrate f 2 0 2 supply).run () = (.ok trapezoid, ()) ∧
      middle.value = -2 ∧ trapezoid.value = -16 ∧ odd.value = -20 / 3 ∧ even.value = -20 / 3 := by
  intro f supply
  obtain ⟨odd, even, middle, trapezoid, hodd, heven, hmiddle, htrapezoid, hoddValue, hevenValue⟩ :=
    integrate_simpson_eq (fun _ x => x) (fun x _ => x) 3 3 (fun x => x * x * x * x) 2 0
      (le_refl 1) supply ()
  have hmiddleRun :
      letI := Elementary.exact (fun _ x => x) (fun x _ => x) 3 3
      (midpoint.integrate f 2 0 1 supply).run () = (.ok ⟨-2, [2, 0], [16, 0], none⟩, ()) := by
    cbv
  have htrapezoidRun :
      letI := Elementary.exact (fun _ x => x) (fun x _ => x) 3 3
      (trapezoidal.integrate f 2 0 2 supply).run () =
        (.ok ⟨-16, [2, 0], [16, 0], none⟩, ()) := by
    cbv
  obtain rfl := Except.ok.inj (Prod.mk.inj (hmiddle.symm.trans hmiddleRun)).1
  obtain rfl := Except.ok.inj (Prod.mk.inj (htrapezoid.symm.trans htrapezoidRun)).1
  refine ⟨odd, even, _, _, hodd, heven, hmiddle, htrapezoid, rfl, rfl, ?_, ?_⟩
  · rw [hoddValue]
    norm_num
  · rw [hevenValue]
    norm_num

end Method

end DefiniteIntegral
