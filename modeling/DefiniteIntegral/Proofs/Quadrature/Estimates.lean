import DefiniteIntegral.Proofs.Quadrature.Cells

/-! # Error estimates

What each rule estimates its error to be, as a function of the samples that it returns, and from
which number of points on a method gives an estimate. Nothing is assumed of the operations on
numbers. -/

namespace DefiniteIntegral

variable {σ α ε : Type}

/-! ## Rules -/

namespace Quadrature

open Arithmetic

variable [Arithmetic α] {f : α → Except ε α} {a b : α} {n : ℕ} {q : Quadrature α}

theorem length_ys_trapezoidal {hn : 2 ≤ n} (h : trapezoidal f a b n hn = .ok q) :
    q.ys.length = n := by
  rw [← (trapezoidal_isSampled h).length_eq, xs_trapezoidal h, length_grid]

theorem length_ys_simpson {hn : 2 ≤ n} (h : simpson f a b n hn = .ok q) :
    q.ys.length = oddCount n := by
  rw [← (simpson_isSampled h).length_eq, xs_simpson h, length_grid]

theorem length_ys_midpoint (h : midpoint f a b n = .ok q) : q.ys.length = n + 1 := by
  rw [← (midpoint_isSampled h).length_eq, xs_midpoint h, length_grid]

theorem errorEstimate_trapezoidal {hn : 2 ≤ n} (h : trapezoidal f a b n hn = .ok q) :
    q.errorEstimate =
      if enough : 2 < n then
        some (abs (b - a) * ((n - 1 : ℕ) : α) * ((n - 1 : ℕ) : α) *
          secondDifference q.ys (by rwa [length_ys_trapezoidal h]) /
            (((12 : ℕ) : α) * (n : α) * (n : α)))
      else none := by
  obtain ⟨ys, -, hq⟩ := bind_eq_ok_iff.mp h
  obtain rfl := pure_eq_ok_iff.mp hq
  rfl

/-- The number of points is made odd before it is compared. -/
theorem errorEstimate_simpson {hn : 2 ≤ n} (h : simpson f a b n hn = .ok q) :
    q.errorEstimate =
      if enough : 4 < oddCount n then
        some (abs (b - a) * fourthPower ((oddCount n - 1 : ℕ) : α) *
          fourthDifference q.ys (by rwa [length_ys_simpson h]) /
            (((180 : ℕ) : α) * fourthPower (oddCount n : α)))
      else none := by
  obtain ⟨ys, -, hq⟩ := bind_eq_ok_iff.mp h
  obtain rfl := pure_eq_ok_iff.mp hq
  rfl

theorem errorEstimate_midpoint (h : midpoint f a b n = .ok q) :
    q.errorEstimate =
      if enough : 2 < n then
        some (abs (b - a) *
          secondDifference q.ys (by rw [length_ys_midpoint h]; omega) /
            ((24 : ℕ) : α))
      else none := by
  obtain ⟨middles, -, hq⟩ := bind_eq_ok_iff.mp h
  obtain ⟨ys, -, hq⟩ := bind_eq_ok_iff.mp hq
  obtain rfl := pure_eq_ok_iff.mp hq
  rfl

theorem isSome_errorEstimate_monteCarlo {draws : List α} (h : monteCarlo f a b n draws = .ok q) :
    q.errorEstimate.isSome := by
  obtain ⟨values, -, hq⟩ := bind_eq_ok_iff.mp h
  obtain rfl := pure_eq_ok_iff.mp hq
  rfl

end Quadrature

/-! ## Methods -/

namespace Method

variable [Elementary α] {method : Method} {f : α → Except (Error α) α} {a b : α} {n : ℕ}
  {q : Quadrature α} (supply : Supplier σ α) (s : σ)

theorem isSome_errorEstimate (h : ((method.integrate f a b n supply).run s).1 = .ok q) :
    q.errorEstimate.isSome ↔ method.minPointsForError ≤ n ∨ method = .simpson ∧ n = 4 := by
  cases yields_of_integrate h with
  | trapezoidal hn hrule =>
      rw [Quadrature.errorEstimate_trapezoidal hrule]
      simp [minPointsForError, Nat.succ_le_iff]
  | simpson hn hrule =>
      have hcount : 4 < Quadrature.oddCount n ↔ 5 ≤ n ∨ n = 4 := by
        rw [Quadrature.oddCount_eq]
        omega
      rw [Quadrature.errorEstimate_simpson hrule]
      simpa [minPointsForError] using hcount
  | midpoint hn hrule =>
      rw [Quadrature.errorEstimate_midpoint hrule]
      simp [minPointsForError, Nat.succ_le_iff]
  | monteCarlo hn draws hdraws hrule =>
      exact iff_of_true (Quadrature.isSome_errorEstimate_monteCarlo hrule) (.inl hn)

/-- A method on points where the function has values gives an error estimate from its published
number of points on; Simpson's rule, which takes five points for four, gives one on four as well. -/
theorem integrate_estimates {draws : List α} (hn : method.minPoints ≤ n)
    (hdraws : method = .monteCarlo → ((supply n).run s).1 = .ok draws)
    (hdefined : ∀ x ∈ method.nodes a b n draws, ∃ y, f x = .ok y) :
    ∃ q, ((method.integrate f a b n supply).run s).1 = .ok q ∧
      (q.errorEstimate.isSome ↔ method.minPointsForError ≤ n ∨ method = .simpson ∧ n = 4) := by
  obtain ⟨q, hq⟩ := (exists_integrate_eq_ok_iff supply s hn hdraws).mpr hdefined
  exact ⟨q, hq, isSome_errorEstimate supply s hq⟩

/-- The midpoint rule on two cells has no estimate. -/
theorem integrate_estimates_two_cells :
    ∃ q, ((midpoint.integrate (fun x : Float => .ok (x * x)) 0 1 2
          fun _ => (pure [] : Drawing Unit Float (List Float))).run ()).1 = .ok q ∧
      q.errorEstimate.isSome = false := by
  have hdraws : midpoint = .monteCarlo →
      ((pure [] : Drawing Unit Float (List Float)).run ()).1 = .ok [] := nofun
  obtain ⟨q, hq, hestimate⟩ := integrate_estimates (f := fun x : Float => .ok (x * x)) (a := 0)
    (b := 1) (n := 2) (fun _ => pure []) () (by decide) hdraws fun x _ => ⟨x * x, rfl⟩
  exact ⟨q, hq, by simpa [minPointsForError] using hestimate⟩

/-- Four points are fewer than the published number, and Simpson's rule gives an estimate. -/
theorem simpson_estimates_four_points :
    simpson.minPoints ≤ 4 ∧ ¬ simpson.minPointsForError ≤ 4 ∧
    ∃ q, ((simpson.integrate (fun x : Float => .ok (x * x * x * x)) 0 1 4
          fun _ => (pure [] : Drawing Unit Float (List Float))).run ()).1 = .ok q ∧
      q.errorEstimate.isSome := by
  refine ⟨by decide, by decide, _, rfl, rfl⟩

end Method

end DefiniteIntegral
