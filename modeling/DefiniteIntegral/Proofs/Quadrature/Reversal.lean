import DefiniteIntegral.Proofs.Quadrature.Cells

/-! # Reversal of the bounds

In exact arithmetic the nodes between two bounds do not depend on the order of the bounds, and the
integral changes its sign with it. -/

namespace DefiniteIntegral

variable {σ ε : Type}

/-! ## Nodes -/

section Nodes

variable (sqrt : ℚ → ℚ) (a b : ℚ)

theorem gridPoint_swap {m i j : ℕ} (hm : 0 < m) (hsum : i + j = m) :
    gridPoint b a m i = gridPoint a b m j := by
  have hne : (m : ℚ) ≠ 0 := Nat.cast_ne_zero.mpr hm.ne'
  have hj : (j : ℚ) = m - i := by
    rw [← hsum]
    push_cast
    ring
  simp only [gridPoint, hj]
  field_simp
  ring

theorem grid_swap {n : ℕ} (hn : 2 ≤ n) :
    @grid ℚ (.exact sqrt) b a n = (@grid ℚ (.exact sqrt) a b n).reverse := by
  obtain ⟨m, rfl⟩ := Nat.exists_eq_add_of_le' hn
  rw [grid_exact, grid_exact]
  apply List.ext_getElem
  · simp
  · intro i hi _
    rw [List.length_map, List.length_range] at hi
    simp only [List.getElem_map, List.getElem_range, List.getElem_reverse, List.length_map,
      List.length_range]
    exact gridPoint_swap a b m.succ_pos (by omega)

theorem midpoints_swap (n : ℕ) :
    @midpoints ℚ (.exact sqrt) b a n = (@midpoints ℚ (.exact sqrt) a b n).reverse := by
  simp only [midpoints]
  apply List.ext_getElem
  · simp
  · intro i hi _
    have hlt : i < n := by simpa using hi
    have hne : (n : ℚ) ≠ 0 := Nat.cast_ne_zero.mpr (by omega)
    obtain ⟨j, rfl⟩ := Nat.exists_eq_add_of_lt hlt
    have hindex : i + j + 1 - 1 - i = j := by omega
    simp only [List.getElem_map, List.getElem_range, List.getElem_reverse, List.length_map,
      List.length_range, hindex, Arithmetic.half]
    push_cast at hne ⊢
    field_simp
    ring

/-- A draw stands for the same point whichever bound comes first. -/
theorem Quadrature.drawnPoint_swap :
    @drawnPoint ℚ (.exact sqrt) b a = @drawnPoint ℚ (.exact sqrt) a b := by
  funext u
  obtain hlt | rfl | hlt := lt_trichotomy a b
  · simp [drawnPoint, Arithmetic.le_exact, hlt.le, hlt.not_ge]
  · rfl
  · simp [drawnPoint, Arithmetic.le_exact, hlt.le, hlt.not_ge]

end Nodes

/-! ## Cells -/

namespace CellRule

/-- Whether what a rule gives for a cell changes its sign with the direction of the cell. -/
def IsOriented (rule : CellRule) : Prop :=
  ∀ g u v, rule g v u = -rule g u v

theorem isOriented_trapezoidal : trapezoidal.IsOriented := by
  intro g u v
  simp only [trapezoidal]
  ring

theorem isOriented_midpoint : midpoint.IsOriented := by
  intro g u v
  simp only [midpoint, add_comm v u]
  ring

theorem isOriented_simpson : simpson.IsOriented := by
  intro g u v
  simp only [simpson, add_comm v u]
  ring

/-- The cells between swapped bounds are the same in reverse order and direction. -/
theorem IsOriented.composite_swap {rule : CellRule} (h : rule.IsOriented) (g : ℚ → ℚ) (a b : ℚ)
    (m : ℕ) : rule.composite g b a m = -rule.composite g a b m := by
  rw [composite, composite, ← Finset.sum_neg_distrib, ← Finset.sum_range_reflect]
  apply Finset.sum_congr rfl
  intro i hi
  have hlt : i < m := Finset.mem_range.mp hi
  rw [← h g, gridPoint_swap a b (i := m - 1 - i) (j := i + 1) (by omega) (by omega),
    gridPoint_swap a b (i := m - 1 - i + 1) (j := i) (by omega) (by omega)]

end CellRule

/-! ## Methods -/

namespace Quadrature

/-- Monte Carlo meets the same points in the same order, so that all but the sign stays. -/
theorem monteCarlo_swap (sqrt : ℚ → ℚ) (f : ℚ → Except ε ℚ) (a b : ℚ) (n : ℕ) (draws : List ℚ) :
    @monteCarlo ℚ ε (.exact sqrt) f b a n draws =
      (@monteCarlo ℚ ε (.exact sqrt) f a b n draws).map fun q => { q with value := -q.value } := by
  let := Arithmetic.exact sqrt
  have hsign : ∀ mean : ℚ, (a - b) * mean = -((b - a) * mean) := by
    intro mean
    ring
  have hwidth : Arithmetic.abs (a - b) = Arithmetic.abs (b - a) := abs_sub_comm a b
  rw [monteCarlo, monteCarlo, drawnPoint_swap sqrt a b, hwidth]
  cases sample f (draws.map (drawnPoint a b)) with
  | error fault => rfl
  | ok values =>
      simp only [ok_bind, hsign]
      rfl

end Quadrature

namespace Method

theorem mem_nodes_swap {method : Method} {n : ℕ} (hn : method.minPoints ≤ n) (sqrt : ℚ → ℚ)
    (a b x : ℚ) (draws : List ℚ) :
    letI := Arithmetic.exact sqrt
    x ∈ method.nodes b a n draws ↔ x ∈ method.nodes a b n draws := by
  let := Arithmetic.exact sqrt
  cases method with
  | trapezoidal => simp only [nodes, grid_swap sqrt a b hn, List.mem_reverse]
  | simpson =>
      have hcount : 2 ≤ Quadrature.oddCount n := Quadrature.two_le_oddCount hn
      simp only [nodes, grid_swap sqrt a b hcount, List.mem_reverse]
  | midpoint =>
      have hcount : 2 ≤ n + 1 := Nat.succ_le_succ hn
      rw [nodes, nodes, midpoints_swap sqrt a b, grid_swap sqrt a b hcount]
      simp only [List.mem_append, List.mem_reverse]
  | monteCarlo => rw [nodes, nodes, Quadrature.drawnPoint_swap sqrt a b]

theorem isOriented_of_cells {method : Method} {n m : ℕ} {rule : CellRule}
    (hcells : method.cells? n = some (rule, m)) : rule.IsOriented := by
  cases method with
  | trapezoidal =>
      obtain ⟨rfl, -⟩ := Prod.mk.inj (Option.some.inj hcells)
      exact CellRule.isOriented_trapezoidal
  | simpson =>
      obtain ⟨rfl, -⟩ := Prod.mk.inj (Option.some.inj hcells)
      exact CellRule.isOriented_simpson
  | midpoint =>
      obtain ⟨rfl, -⟩ := Prod.mk.inj (Option.some.inj hcells)
      exact CellRule.isOriented_midpoint
  | monteCarlo => cases hcells

section Swap

variable (function : ElementaryFunction → ℚ → ℚ) (pow : ℚ → ℚ → ℚ) (pi e : ℚ)
  (f : ℚ → Except (Error ℚ) ℚ) (a b : ℚ) {n : ℕ} (supply : Supplier σ ℚ) (s : σ)

/-- On a grid all nodes are met again, and the samples come in reverse order. -/
theorem integrate_swap_of_grid {method : Method} (hgrid : method ≠ .monteCarlo)
    (hn : method.minPoints ≤ n) {q : Quadrature ℚ} {t : σ} :
    letI := Elementary.exact function pow pi e
    (method.integrate f a b n supply).run s = (.ok q, t) →
      ∃ q', (method.integrate f b a n supply).run s = (.ok q', t) ∧ q'.value = -q.value ∧
        q'.xs = q.xs.reverse ∧ q'.ys = q.ys.reverse := by
  intro hq
  let := Elementary.exact function pow pi e
  obtain ⟨rule, m, hcells⟩ := exists_cells hgrid n
  have hdraws : method = .monteCarlo → ((supply n).run s).1 = .ok [] := fun h => absurd h hgrid
  have hnodes := (exists_integrate_eq_ok_iff supply s hn hdraws).mp ⟨q, by rw [hq]⟩
  obtain ⟨g, hg⟩ := exists_values hnodes
  have hgSwap : ∀ x ∈ method.nodes b a n [], f x = .ok (g x) := fun x hx =>
    hg x ((mem_nodes_swap hn (function .sqrt) a b x []).mp hx)
  obtain ⟨forward, hforward, hxs, hys, hvalue⟩ :=
    exists_integrate_of_cells function pow pi e method n hcells hn g a b supply s
  obtain ⟨backward, hbackward, hxsSwap, hysSwap, hvalueSwap⟩ :=
    exists_integrate_of_cells function pow pi e method n hcells hn g b a supply s
  rw [run_integrate_congr supply s hn hdraws hg, hforward] at hq
  obtain ⟨hsame, rfl⟩ := Prod.mk.inj hq
  obtain rfl := Except.ok.inj hsame
  have hreverse : backward.xs = forward.xs.reverse := by
    rw [hxsSwap, hxs]
    exact grid_swap (function .sqrt) a b (two_le_sampleCount hgrid hn)
  refine ⟨backward, ?_, ?_, hreverse, ?_⟩
  · rw [run_integrate_congr supply s hn hdraws hgSwap, hbackward]
  · rw [hvalueSwap, hvalue, (isOriented_of_cells hcells).composite_swap]
  · rw [hysSwap, hys, hreverse, List.map_reverse]

/-- If there were a value between the swapped bounds, there would be one between these. -/
theorem integrate_swap_of_grid_error {method : Method} (hgrid : method ≠ .monteCarlo)
    (hn : method.minPoints ≤ n) {fault : Error ℚ} {t : σ} :
    letI := Elementary.exact function pow pi e
    (method.integrate f a b n supply).run s = (.error fault, t) →
      ∃ fault', (method.integrate f b a n supply).run s = (.error fault', t) := by
  intro hfault
  let := Elementary.exact function pow pi e
  have hstate : ((method.integrate f a b n supply).run s).2 = s :=
    run_integrate_snd supply s hgrid
  have hstateSwap : ((method.integrate f b a n supply).run s).2 = s :=
    run_integrate_snd supply s hgrid
  rw [hfault] at hstate
  rcases hback : (method.integrate f b a n supply).run s with ⟨fault' | q, t'⟩
  · rw [hback] at hstateSwap
    obtain rfl : t' = t := hstateSwap.trans hstate.symm
    exact ⟨fault', rfl⟩
  · obtain ⟨q', hq', -⟩ :=
      integrate_swap_of_grid function pow pi e f b a supply s hgrid hn hback
    rw [hfault] at hq'
    cases (Prod.mk.inj hq').1

theorem run_integrate_monteCarlo_swap :
    letI := Elementary.exact function pow pi e
    (monteCarlo.integrate f b a n supply).run s =
      (((monteCarlo.integrate f a b n supply).run s).1.map fun q => { q with value := -q.value },
        ((monteCarlo.integrate f a b n supply).run s).2) := by
  let := Elementary.exact function pow pi e
  by_cases hn : n < monteCarlo.minPoints
  · rw [run_integrate_of_lt supply s hn, run_integrate_of_lt supply s hn]
    rfl
  · have henough := Nat.le_of_not_lt hn
    rw [run_integrate_monteCarlo supply s henough, run_integrate_monteCarlo supply s henough]
    cases ((supply n).run s).1 with
    | error fault => rfl
    | ok draws => exact congrArg (·, _) (Quadrature.monteCarlo_swap (function .sqrt) f a b n draws)

/-- In exact arithmetic, swapping the bounds keeps success and failure and negates the value. The
samples on a grid are reversed. Monte Carlo with the same draws keeps its samples, its error
estimate and its fault. -/
theorem integrate_swap (method : Method) (n : ℕ) :
    letI := Elementary.exact function pow pi e
    (∀ q t, (method.integrate f a b n supply).run s = (.ok q, t) →
      ∃ q', (method.integrate f b a n supply).run s = (.ok q', t) ∧ q'.value = -q.value ∧
        (method ≠ .monteCarlo → q'.xs = q.xs.reverse ∧ q'.ys = q.ys.reverse) ∧
        (method = .monteCarlo →
          q'.xs = q.xs ∧ q'.ys = q.ys ∧ q'.errorEstimate = q.errorEstimate)) ∧
    (∀ fault t, (method.integrate f a b n supply).run s = (.error fault, t) →
      ∃ fault', (method.integrate f b a n supply).run s = (.error fault', t) ∧
        (method = .monteCarlo → fault' = fault)) := by
  let := Elementary.exact function pow pi e
  by_cases hgrid : method = .monteCarlo
  · subst hgrid
    have hswap := run_integrate_monteCarlo_swap function pow pi e f a b (n := n) supply s
    constructor
    · intro q t hq
      rw [hq] at hswap
      exact ⟨_, hswap, rfl, absurd rfl, fun _ => ⟨rfl, rfl, rfl⟩⟩
    · intro fault t hfault
      rw [hfault] at hswap
      exact ⟨fault, hswap, fun _ => rfl⟩
  by_cases hn : n < method.minPoints
  · have hrefused : ∀ a b, (method.integrate f a b n supply).run s = _ := fun a b =>
      run_integrate_of_lt supply s hn
    constructor
    · intro q t hq
      rw [hrefused] at hq
      cases (Prod.mk.inj hq).1
    · intro fault t hfault
      rw [hrefused] at hfault
      exact ⟨fault, (hrefused b a).trans hfault, fun _ => rfl⟩
  have henough := Nat.le_of_not_lt hn
  constructor
  · intro q t hq
    obtain ⟨q', hq', hvalue, hsamples⟩ :=
      integrate_swap_of_grid function pow pi e f a b supply s hgrid henough hq
    exact ⟨q', hq', hvalue, fun _ => hsamples, fun h => absurd h hgrid⟩
  · intro fault t hfault
    obtain ⟨fault', hfault'⟩ :=
      integrate_swap_of_grid_error function pow pi e f a b supply s hgrid henough hfault
    exact ⟨fault', hfault', fun h => absurd h hgrid⟩

end Swap

/-- A grid is turned around; and a function without a value at a half fails at the same draw. -/
theorem integrate_swap_reciprocal :
    letI := Elementary.exact (fun _ x => x) (fun x _ => x) 3 3
    let f : ℚ → Except (Error ℚ) ℚ := fun x =>
      if x = 1 / 2 then .error (.evaluation x .divisionByZero) else .ok (1 / (2 * x - 1))
    let supply : Supplier Unit ℚ := fun _ => pure [3 / 4, 1 / 2, 1 / 4]
    (∃ q, (trapezoidal.integrate f 2 1 3 supply).run () = (.ok q, ()) ∧ q.value = -7 / 12 ∧
      q.xs = [2, 3 / 2, 1] ∧ q.ys = [1 / 3, 1 / 2, 1]) ∧
    (monteCarlo.integrate f 1 0 3 supply).run () =
      (.error (.evaluation (1 / 2) .divisionByZero), ()) := by
  intro f supply
  have hgrid :
      letI := Elementary.exact (fun _ x => x) (fun x _ => x) 3 3
      (trapezoidal.integrate f 1 2 3 supply).run () =
        (.ok ⟨7 / 12, [1, 3 / 2, 2], [1, 1 / 2, 1 / 3], some (1 / 81)⟩, ()) := by
    simp only [f]
    cbv
  have hdraws :
      letI := Elementary.exact (fun _ x => x) (fun x _ => x) 3 3
      (monteCarlo.integrate f 0 1 3 supply).run () =
        (.error (.evaluation (1 / 2) .divisionByZero), ()) := by
    simp only [f]
    cbv
  constructor
  · obtain ⟨hswap, -⟩ := integrate_swap (fun _ x => x) (fun x _ => x) 3 3 f 1 2 supply ()
      trapezoidal 3
    obtain ⟨q, hq, hvalue, hsamples, -⟩ := hswap _ _ hgrid
    obtain ⟨hxs, hys⟩ := hsamples (by decide)
    exact ⟨q, hq, hvalue.trans (by norm_num), hxs, hys⟩
  · obtain ⟨-, hswap⟩ := integrate_swap (fun _ x => x) (fun x _ => x) 3 3 f 0 1 supply ()
      monteCarlo 3
    obtain ⟨fault, hfault, hsame⟩ := hswap _ _ hdraws
    rw [hfault, hsame rfl]

end Method

end DefiniteIntegral
