import DefiniteIntegral.Proofs.Quadrature.Cells
import Mathlib

/-! # The value as a mean

In exact arithmetic every method gives the signed width of the interval times a mean of the values
of the function at its nodes: the value is linear in the function and exact for constants, it grows
with the function when the bounds are in rising order, and it lies between what the least and the
greatest of the values would give. -/

namespace DefiniteIntegral

variable {σ ε : Type}

/-! ## Means -/

/-- A mean of the values of a function at some points: linear, the constant itself for a constant,
and no less for a function that is no less at the points. -/
structure IsMean (points : List ℚ) (mean : (ℚ → ℚ) → ℚ) : Prop where
  linear : ∀ r s g k, mean (fun x => r * g x + s * k x) = r * mean g + s * mean k
  const : ∀ c, mean (fun _ => c) = c
  mono : ∀ g k, (∀ x ∈ points, g x ≤ k x) → mean g ≤ mean k

namespace IsMean

variable {points : List ℚ} {mean mean' : (ℚ → ℚ) → ℚ}

theorem of_mem {x : ℚ} (h : x ∈ points) : IsMean points fun g => g x where
  linear _ _ _ _ := rfl
  const _ := rfl
  mono _ _ hle := hle x h

/-- Two means in a fixed proportion are a mean. -/
theorem mix (h : IsMean points mean) (h' : IsMean points mean') {r : ℚ} (hr : 0 ≤ r)
    (hr' : r ≤ 1) : IsMean points fun g => r * mean g + (1 - r) * mean' g where
  linear c d g k := by
    rw [h.linear, h'.linear]
    ring
  const c := by
    rw [h.const, h'.const]
    ring
  mono g k hle :=
    add_le_add (mul_le_mul_of_nonneg_left (h.mono g k hle) hr)
      (mul_le_mul_of_nonneg_left (h'.mono g k hle) (sub_nonneg.mpr hr'))

/-- Several means with equal weights are a mean. -/
theorem average {ι : Type} {is : List ι} (hne : is ≠ []) {means : ι → (ℚ → ℚ) → ℚ}
    (h : ∀ i ∈ is, IsMean points (means i)) :
    IsMean points fun g => (is.map fun i => means i g).sum / is.length where
  linear r s g k := by
    have hterms : (is.map fun i => means i fun x => r * g x + s * k x) =
        is.map fun i => r * means i g + s * means i k :=
      List.map_congr_left fun i hi => (h i hi).linear r s g k
    rw [hterms, List.sum_map_add, List.sum_map_mul_left, List.sum_map_mul_left]
    ring
  const c := by
    have hterms : (is.map fun i => means i fun _ => c) = is.map fun _ => c :=
      List.map_congr_left fun i hi => (h i hi).const c
    have hcount : (is.length : ℚ) ≠ 0 := Nat.cast_ne_zero.mpr (List.length_pos_iff.mpr hne).ne'
    rw [hterms, List.map_const', List.sum_replicate, nsmul_eq_mul, mul_div_cancel_left₀ c hcount]
  mono g k hle :=
    div_le_div_of_nonneg_right (List.sum_le_sum fun i hi => (h i hi).mono g k hle)
      (Nat.cast_nonneg _)

/-- The mean of no values would be at most any other. -/
theorem ne_nil (h : IsMean points mean) : points ≠ [] := by
  rintro rfl
  have hle : mean (fun _ => 1) ≤ mean fun _ => 0 := h.mono _ _ (by simp)
  rw [h.const, h.const] at hle
  exact absurd hle (by norm_num)

theorem exists_bounds (h : IsMean points mean) (g : ℚ → ℚ) :
    ∃ least greatest, (points.map g).min? = some least ∧ (points.map g).max? = some greatest ∧
      least ≤ mean g ∧ mean g ≤ greatest := by
  have hne : points.map g ≠ [] := by simpa using h.ne_nil
  obtain ⟨least, hleast⟩ := Option.ne_none_iff_exists'.mp (List.min?_eq_none_iff.not.mpr hne)
  obtain ⟨greatest, hgreatest⟩ :=
    Option.ne_none_iff_exists'.mp (List.max?_eq_none_iff.not.mpr hne)
  refine ⟨least, greatest, hleast, hgreatest, ?_, ?_⟩
  · rw [← h.const least]
    exact h.mono _ _ fun x hx =>
      (List.min?_eq_some_iff.mp hleast).2 (g x) (List.mem_map_of_mem hx)
  · rw [← h.const greatest]
    exact h.mono _ _ fun x hx =>
      (List.max?_eq_some_iff.mp hgreatest).2 (g x) (List.mem_map_of_mem hx)

end IsMean

/-! ## Cells -/

namespace CellRule

/-- Whether a rule gives the signed width of a cell times a mean of the values at some points. -/
def IsMeanOn (rule : CellRule) (points : List ℚ) (u v : ℚ) : Prop :=
  ∃ mean, IsMean points mean ∧ ∀ g, rule g u v = (v - u) * mean g

variable {rule : CellRule} {points : List ℚ} {u v : ℚ}

theorem isMeanOn_trapezoidal (hu : u ∈ points) (hv : v ∈ points) :
    trapezoidal.IsMeanOn points u v := by
  refine ⟨_, (IsMean.of_mem hu).mix (.of_mem hv) (r := 1 / 2) (by norm_num) (by norm_num), ?_⟩
  intro g
  simp only [trapezoidal]
  ring

theorem isMeanOn_midpoint (h : (u + v) / 2 ∈ points) : midpoint.IsMeanOn points u v :=
  ⟨_, .of_mem h, fun _ => rfl⟩

/-- A third of the mean of the ends and two thirds of the value at the middle. -/
theorem isMeanOn_simpson (hu : u ∈ points) (hv : v ∈ points) (hmiddle : (u + v) / 2 ∈ points) :
    simpson.IsMeanOn points u v := by
  have hends := (IsMean.of_mem hu).mix (.of_mem hv) (r := 1 / 2) (by norm_num) (by norm_num)
  refine ⟨_, hends.mix (.of_mem hmiddle) (r := 1 / 3) (by norm_num) (by norm_num), ?_⟩
  intro g
  simp only [simpson]
  ring

/-- All cells of a grid have the same weight. -/
theorem IsMeanOn.composite {a b : ℚ} {m : ℕ} (hm : 0 < m)
    (h : ∀ i < m, rule.IsMeanOn points (gridPoint a b m i) (gridPoint a b m (i + 1))) :
    ∃ mean, IsMean points mean ∧ ∀ g, rule.composite g a b m = (b - a) * mean g := by
  choose! means hmeans hcells using h
  have hne : List.range m ≠ [] := by simpa using hm.ne'
  refine ⟨_, IsMean.average hne fun i hi => hmeans i (List.mem_range.mp hi), ?_⟩
  intro g
  calc
    rule.composite g a b m = ∑ i ∈ Finset.range m, (b - a) / m * means i g := by
      refine Finset.sum_congr rfl fun i hi => ?_
      rw [hcells i (Finset.mem_range.mp hi), gridPoint_succ_sub]
    _ = (b - a) / m * ((List.range m).map fun i => means i g).sum :=
      (Finset.mul_sum ..).symm
    _ = (b - a) * (((List.range m).map fun i => means i g).sum / (List.range m).length) := by
      rw [List.length_range]
      ring

end CellRule

/-! ## Nodes -/

section Nodes

variable (sqrt : ℚ → ℚ) (a b : ℚ) {m i : ℕ}

theorem gridPoint_mem_grid (h : i ≤ m) :
    gridPoint a b m i ∈ @grid ℚ (.exact sqrt) a b (m + 1) :=
  List.mem_of_getElem? (getElem?_grid sqrt a b h)

theorem middle_mem_midpoints (h : i < m) :
    (gridPoint a b m i + gridPoint a b m (i + 1)) / 2 ∈ @midpoints ℚ (.exact sqrt) a b m := by
  refine List.mem_map.mpr ⟨i, List.mem_range.mpr h, ?_⟩
  simp only [gridPoint, Arithmetic.half]
  push_cast
  ring

end Nodes

/-! ## Methods -/

namespace Quadrature

/-- The value of Monte Carlo is the width times the mean over the draws. -/
theorem monteCarlo_ok (sqrt : ℚ → ℚ) (g : ℚ → ℚ) (a b : ℚ) (n : ℕ) (draws : List ℚ) :
    ∃ q, @monteCarlo ℚ ε (.exact sqrt) (fun x => .ok (g x)) a b n draws = .ok q ∧
      q.value = (b - a) * (((draws.map (@drawnPoint ℚ (.exact sqrt) a b)).map g).sum / n) := by
  let := Arithmetic.exact sqrt
  rw [monteCarlo, sample_ok]
  exact ⟨_, rfl, by simp only [Arithmetic.sum_exact]⟩

end Quadrature

namespace Method

variable (function : ElementaryFunction → ℚ → ℚ) (pow : ℚ → ℚ → ℚ) (pi e : ℚ) {method : Method}
  (a b : ℚ) {n : ℕ} (supply : Supplier σ ℚ) (s : σ)

theorem isMeanOn_of_cells {rule : CellRule} {m : ℕ} (hcells : method.cells? n = some (rule, m))
    (hn : method.minPoints ≤ n) (draws : List ℚ) :
    letI := Elementary.exact function pow pi e
    0 < m ∧ ∀ i < m, rule.IsMeanOn (method.nodes a b n draws) (gridPoint a b m i)
      (gridPoint a b m (i + 1)) := by
  let := Elementary.exact function pow pi e
  cases method with
  | trapezoidal =>
      obtain ⟨rfl, rfl⟩ := Prod.mk.inj (Option.some.inj hcells)
      obtain ⟨m, rfl⟩ := Nat.exists_eq_add_of_le' (Nat.one_le_of_lt hn)
      refine ⟨Nat.sub_pos_of_lt hn, fun i hi => ?_⟩
      exact CellRule.isMeanOn_trapezoidal (gridPoint_mem_grid (function .sqrt) a b hi.le)
        (gridPoint_mem_grid (function .sqrt) a b hi)
  | simpson =>
      obtain ⟨rfl, rfl⟩ := Prod.mk.inj (Option.some.inj hcells)
      -- The ends of the cells are the even nodes, and their middles the odd ones.
      have hmem : ∀ j ≤ 2 * (n / 2), gridPoint a b (2 * (n / 2)) j ∈ simpson.nodes a b n draws := by
        intro j hj
        rw [nodes, Quadrature.oddCount_eq]
        exact gridPoint_mem_grid (function .sqrt) a b hj
      have hends : ∀ j ≤ n / 2, gridPoint a b (n / 2) j ∈ simpson.nodes a b n draws := by
        intro j hj
        rw [← gridPoint_double]
        exact hmem (2 * j) (Nat.mul_le_mul_left 2 hj)
      refine ⟨Nat.div_pos hn two_pos, fun i hi => ?_⟩
      refine CellRule.isMeanOn_simpson (hends i hi.le) (hends (i + 1) hi) ?_
      rw [gridPoint_middle]
      exact hmem (1 + 2 * i) (by omega)
  | midpoint =>
      obtain ⟨rfl, rfl⟩ := Prod.mk.inj (Option.some.inj hcells)
      refine ⟨hn, fun i hi => CellRule.isMeanOn_midpoint ?_⟩
      exact List.mem_append_left _ (middle_mem_midpoints (function .sqrt) a b hi)
  | monteCarlo => cases hcells

theorem exists_isMean {draws : List ℚ} (hn : method.minPoints ≤ n)
    (hdraws : method = .monteCarlo → ((supply n).run s).1 = .ok draws ∧ draws.length = n) :
    letI := Elementary.exact function pow pi e
    ∃ mean, IsMean (method.nodes a b n draws) mean ∧
      ∀ g : ℚ → ℚ, ∃ q, ((method.integrate (fun x => .ok (g x)) a b n supply).run s).1 = .ok q ∧
        q.value = (b - a) * mean g := by
  let := Elementary.exact function pow pi e
  by_cases hgrid : method = .monteCarlo
  · subst hgrid
    obtain ⟨hsupply, hlength⟩ := hdraws rfl
    have hne : draws.map (Quadrature.drawnPoint a b) ≠ [] := by
      rintro hnil
      rw [List.map_eq_nil_iff] at hnil
      simp [← hlength, hnil, minPoints] at hn
    refine ⟨_, IsMean.average hne fun x hx => .of_mem hx, fun g => ?_⟩
    obtain ⟨q, hq, hvalue⟩ :=
      Quadrature.monteCarlo_ok (ε := Error ℚ) (function .sqrt) g a b n draws
    refine ⟨q, ?_, ?_⟩
    · rw [run_integrate_monteCarlo supply s hn, hsupply]
      exact hq
    · rw [hvalue, List.length_map, hlength]
  · obtain ⟨rule, m, hcells⟩ := exists_cells hgrid n
    obtain ⟨hm, hmeans⟩ := isMeanOn_of_cells function pow pi e a b hcells hn draws
    obtain ⟨mean, hmean, hvalue⟩ := CellRule.IsMeanOn.composite hm hmeans
    refine ⟨mean, hmean, fun g => ?_⟩
    obtain ⟨q, hq, -, -, hcomposite⟩ :=
      exists_integrate_of_cells function pow pi e method n hcells hn g a b supply s
    exact ⟨q, by rw [hq], hcomposite.trans (hvalue g)⟩

/-- In exact arithmetic the value of a method, with the draws fixed for Monte Carlo, is a positive
linear functional of the function whose total weight is the signed width of the interval. -/
theorem integrate_positive_linear {draws : List ℚ} (hn : method.minPoints ≤ n)
    (hdraws : method = .monteCarlo → ((supply n).run s).1 = .ok draws ∧ draws.length = n) :
    letI := Elementary.exact function pow pi e
    ∃ value : (ℚ → ℚ) → ℚ,
      (∀ g : ℚ → ℚ,
        ∃ q, ((method.integrate (fun x => .ok (g x)) a b n supply).run s).1 = .ok q ∧
          q.value = value g) ∧
      (∀ r t g k, value (fun x => r * g x + t * k x) = r * value g + t * value k) ∧
      (∀ c, value (fun _ => c) = c * (b - a)) ∧
      (a ≤ b → ∀ g k, (∀ x ∈ method.nodes a b n draws, g x ≤ k x) → value g ≤ value k) ∧
      (∀ g, ∃ least greatest,
        ((method.nodes a b n draws).map g).min? = some least ∧
        ((method.nodes a b n draws).map g).max? = some greatest ∧
        value g ∈ Set.uIcc ((b - a) * least) ((b - a) * greatest)) := by
  let := Elementary.exact function pow pi e
  obtain ⟨mean, hmean, hvalue⟩ := exists_isMean function pow pi e a b supply s hn hdraws
  refine ⟨fun g => (b - a) * mean g, hvalue, ?_, ?_, ?_, ?_⟩
  · intro r t g k
    dsimp only
    rw [hmean.linear]
    ring
  · intro c
    dsimp only
    rw [hmean.const, mul_comm]
  · intro hle g k hgk
    exact mul_le_mul_of_nonneg_left (hmean.mono g k hgk) (sub_nonneg.mpr hle)
  · intro g
    obtain ⟨least, greatest, hleast, hgreatest, hlower, hupper⟩ := hmean.exists_bounds g
    refine ⟨least, greatest, hleast, hgreatest, ?_⟩
    obtain hle | hle := le_total a b
    · have hwidth : 0 ≤ b - a := sub_nonneg.mpr hle
      exact Set.mem_uIcc_of_le (mul_le_mul_of_nonneg_left hlower hwidth)
        (mul_le_mul_of_nonneg_left hupper hwidth)
    · have hwidth : b - a ≤ 0 := sub_nonpos.mpr hle
      exact Set.mem_uIcc_of_ge (mul_le_mul_of_nonpos_left hupper hwidth)
        (mul_le_mul_of_nonpos_left hlower hwidth)

/-- Two draws between falling bounds, and the square. -/
theorem integrate_positive_linear_square :
    letI := Elementary.exact (fun _ x => x) (fun x _ => x) 3 3
    ∃ q, ((monteCarlo.integrate (fun x : ℚ => .ok (x * x)) 2 0 2
          fun _ => (pure [3 / 4, 1 / 4] : Drawing Unit ℚ (List ℚ))).run ()).1 = .ok q ∧
      -9 / 2 ≤ q.value ∧ q.value ≤ -1 / 2 := by
  let := Elementary.exact (fun _ x => x) (fun x _ => x) 3 3
  let squares : List ℚ := (monteCarlo.nodes 2 0 2 [3 / 4, 1 / 4]).map fun x => x * x
  have hmin : squares.min? = some (1 / 4) := by cbv
  have hmax : squares.max? = some (9 / 4) := by cbv
  obtain ⟨value, hvalue, -, -, -, hbounds⟩ := integrate_positive_linear (fun _ x => x)
    (fun x _ => x) 3 3 2 0 (fun _ => (pure [3 / 4, 1 / 4] : Drawing Unit ℚ (List ℚ))) ()
    (show monteCarlo.minPoints ≤ 2 by decide) fun _ => ⟨rfl, rfl⟩
  obtain ⟨q, hq, hqvalue⟩ := hvalue fun x => x * x
  obtain ⟨least, greatest, hleast, hgreatest, hbetween⟩ := hbounds fun x => x * x
  obtain rfl := Option.some.inj (hmin.symm.trans hleast)
  obtain rfl := Option.some.inj (hmax.symm.trans hgreatest)
  rw [← hqvalue, Set.uIcc_of_ge (by norm_num)] at hbetween
  exact ⟨q, hq, by linarith [hbetween.1], by linarith [hbetween.2]⟩

end Method

end DefiniteIntegral
