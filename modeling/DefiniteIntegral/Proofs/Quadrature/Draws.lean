import DefiniteIntegral.Proofs.Number.Ordering
import DefiniteIntegral.Proofs.Quadrature.Cells
import Mathlib

/-! # The samples of Monte Carlo

Monte Carlo returns the drawn points with their values, sorted by the points. Sorting moves pairs
only: every pair stays together, none is lost or repeated, and pairs with equal points keep the
order of the draws. -/

namespace DefiniteIntegral

variable {σ α κ ε : Type}

/-! ## Sorting by a key -/

section Sorting

variable {β : Type} [LE κ] [DecidableLE κ] [Std.IsLinearOrder κ] (key : β → κ)

theorem pairwise_mergeSort_key (l : List β) :
    (l.mergeSort fun x y => key x ≤ key y).Pairwise fun x y => key x ≤ key y := by
  let le : β → β → Bool := fun x y => key x ≤ key y
  have hsorted : (l.mergeSort le).Pairwise fun x y => le x y :=
    List.pairwise_mergeSort (by simpa [le] using fun x y z => Std.le_trans)
      (by simpa [le] using fun x y => Std.le_total) l
  simpa only [le, decide_eq_true_eq] using hsorted

/-- The members with one key are in order already, so that sorting keeps them as they are. -/
theorem filter_mergeSort_key [DecidableEq κ] (l : List β) (k : κ) :
    ((l.mergeSort fun x y => key x ≤ key y).filter fun x => key x = k) =
      l.filter fun x => key x = k := by
  let le : β → β → Bool := fun x y => key x ≤ key y
  have hordered : (l.filter fun x => key x = k).Pairwise fun x y => le x y := by
    refine List.pairwise_of_forall_mem_list fun x hx y hy => ?_
    have hxk : key x = k := by simpa using List.of_mem_filter hx
    have hyk : key y = k := by simpa using List.of_mem_filter hy
    simp only [le, hxk, hyk, decide_eq_true_eq]
    exact Std.le_refl k
  -- Sorting keeps every sublist that is in order.
  have hkept : (l.filter fun x => key x = k).Sublist (l.mergeSort le) :=
    List.sublist_mergeSort (by simpa [le] using fun x y z => Std.le_trans)
      (by simpa [le] using fun x y => Std.le_total) hordered List.filter_sublist
  have hfiltered := hkept.filter fun x => key x = k
  simp only [List.filter_filter, Bool.and_self] at hfiltered
  have hlength := ((List.mergeSort_perm l le).filter fun x => key x = k).length_eq
  exact (hfiltered.eq_of_length hlength.symm).symm

end Sorting

/-! ## Samples in order -/

namespace Quadrature

open Arithmetic

/-- Whether the samples are some pairs of points and values, sorted by a key of their points, where
the pairs with one key stay in the order that they had. -/
structure IsSorted [LE κ] [DecidableEq κ] (q : Quadrature α) (key : α → κ)
    (pairs : List (α × α)) : Prop where
  length_eq : q.xs.length = q.ys.length
  perm : (q.xs.zip q.ys).Perm pairs
  sorted : q.xs.Pairwise fun x y => key x ≤ key y
  stable : ∀ k, ((q.xs.zip q.ys).filter fun p => key p.1 = k) = pairs.filter fun p => key p.1 = k

theorem IsSorted.exists_of_mem [LE κ] [DecidableEq κ] {q : Quadrature α} {key : α → κ}
    {pairs : List (α × α)} (h : q.IsSorted key pairs) {x : α} (hx : x ∈ q.xs) :
    ∃ y, (x, y) ∈ pairs := by
  have hxs : (q.xs.zip q.ys).map Prod.fst = q.xs := List.map_fst_zip h.length_eq.le
  rw [← hxs] at hx
  obtain ⟨⟨x, y⟩, hmem, rfl⟩ := List.mem_map.mp hx
  exact ⟨y, h.perm.mem_iff.mp hmem⟩

variable [Arithmetic α]

/-- The value and the error estimate are those of the draws in their order. -/
theorem monteCarlo_isSorted [LE κ] [DecidableLE κ] [DecidableEq κ] [Std.IsLinearOrder κ]
    {key : α → κ} (hkey : ∀ x y : α, precedes x y = decide (key x ≤ key y))
    {f : α → Except ε α} {a b : α} {n : ℕ} {draws : List α} {q : Quadrature α}
    (h : monteCarlo f a b n draws = .ok q) :
    ∃ values, List.Forall₂ (fun x y => f x = .ok y) (draws.map (drawnPoint a b)) values ∧
      q.IsSorted key ((draws.map (drawnPoint a b)).zip values) ∧
      q.value = (b - a) * (sum values / n) ∧
      q.errorEstimate =
        some (abs (b - a) * sqrt (sum (values.map fun v => square (v - sum values / n)) / n) /
          sqrt (n : α)) := by
  obtain ⟨⟨values, hlength⟩, hsample, hq⟩ := bind_eq_ok_iff.mp h
  obtain rfl := pure_eq_ok_iff.mp hq
  refine ⟨values, sample_eq_ok_iff.mp hsample, ?_, rfl, rfl⟩
  let pairs := (draws.map (drawnPoint a b)).zip values
  have hzip : ∀ l : List (α × α), (l.map Prod.fst).zip (l.map Prod.snd) = l := by
    intro l
    simp [List.zip_map']
  have hsorted := pairwise_mergeSort_key (fun p : α × α => key p.1) pairs
  simp only [hkey]
  constructor
  · simp
  · rw [hzip]
    exact List.mergeSort_perm ..
  · exact List.pairwise_map.mpr hsorted
  · intro k
    rw [hzip]
    exact filter_mergeSort_key (fun p : α × α => key p.1) pairs k

omit [Arithmetic α] in
/-- Floating-point numbers that are sorted by their keys rise, negative zeros before zeros. -/
theorem IsSorted.rising {q : Quadrature Float} {pairs : List (Float × Float)}
    (h : q.IsSorted Binary64.orderKey pairs) (hnan : ∀ x ∈ q.xs, ¬ x.isNaN) :
    q.xs.Pairwise fun x y => x = y ∨ x < y ∨ x = -0.0 ∧ y = 0.0 := by
  refine h.sorted.imp_of_mem fun {x y} hx hy hkeys => ?_
  rcases UInt64.le_iff_lt_or_eq.mp hkeys with hlt | heq
  · exact .inr ((Binary64.orderKey_lt_iff (hnan x hx) (hnan y hy)).mp hlt)
  · exact .inl (Binary64.orderKey_injective heq)

omit [Arithmetic α] in
/-- The points of a Monte Carlo result rise, where NaN has no value. -/
theorem monteCarlo_rising {f : Float → Except ε Float} (hf : ∀ x y, f x = .ok y → ¬ x.isNaN)
    {a b : Float} {n : ℕ} {draws : List Float} {q : Quadrature Float}
    (h : monteCarlo f a b n draws = .ok q) :
    q.xs.Pairwise fun x y => x = y ∨ x < y ∨ x = -0.0 ∧ y = 0.0 := by
  obtain ⟨values, hvalues, hsorted, -⟩ := monteCarlo_isSorted (fun _ _ => rfl) h
  refine hsorted.rising fun x hx => ?_
  obtain ⟨y, hmem⟩ := hsorted.exists_of_mem hx
  exact hf x y (List.forall₂_zip hvalues hmem)

end Quadrature

/-! ## Drawn points -/

namespace Quadrature

theorem drawnPoint_float (a b u : Float) :
    drawnPoint a b u = min a b + (max a b - min a b) * u := by
  have hmin : min a b = if a ≤ b then a else b := rfl
  have hmax : max a b = if a ≤ b then b else a := rfl
  rw [hmin, hmax, drawnPoint]
  by_cases hle : a ≤ b
  · simp only [Arithmetic.le, hle, decide_true, if_true]
  · simp only [Arithmetic.le, hle, decide_false, Bool.false_eq_true, if_false]

theorem drawnPoint_exact (sqrt : ℚ → ℚ) (a b u : ℚ) :
    @drawnPoint ℚ (.exact sqrt) a b u = min a b + (max a b - min a b) * u := by
  obtain hle | hlt := le_or_gt a b
  · simp [drawnPoint, Arithmetic.le_exact, hle]
  · simp [drawnPoint, Arithmetic.le_exact, hlt.le, hlt.not_ge]

/-- A number of the unit interval stands for a point between the bounds. -/
theorem drawnPoint_mem (sqrt : ℚ → ℚ) (a b : ℚ) {u : ℚ} (hu : 0 ≤ u) (hu' : u ≤ 1) :
    min a b ≤ @drawnPoint ℚ (.exact sqrt) a b u ∧ @drawnPoint ℚ (.exact sqrt) a b u ≤ max a b := by
  have hwidth : 0 ≤ max a b - min a b := sub_nonneg.mpr min_le_max
  have hupper := mul_le_mul_of_nonneg_left hu' hwidth
  rw [drawnPoint_exact]
  constructor
  · linarith [mul_nonneg hwidth hu]
  · linarith

end Quadrature

/-! ## The method -/

namespace Method

open Arithmetic

theorem monteCarlo_of_integrate [Elementary α] {f : α → Except (Error α) α} {a b : α} {n : ℕ}
    {supply : Supplier σ α} {s : σ} {draws : List α} {q : Quadrature α}
    (hdraws : ((supply n).run s).1 = .ok draws)
    (h : ((monteCarlo.integrate f a b n supply).run s).1 = .ok q) :
    Quadrature.monteCarlo f a b n draws = .ok q := by
  cases yields_of_integrate h with
  | monteCarlo hn drawn hdrawn hrule =>
      obtain rfl := Except.ok.inj (hdrawn.symm.trans hdraws)
      exact hrule

/-- Monte Carlo on floating-point numbers returns the drawn points with their values, sorted by the
points in the total order, and equal points in the order of the draws; its value and its error
estimate come from the values as they were drawn. In exact arithmetic, draws of the unit interval
give points between the bounds. -/
theorem integrate_monteCarlo_sorted :
    (∀ (f : Float → Except (Error Float) Float) (a b : Float) (n : ℕ) (supply : Supplier σ Float)
        (s : σ) (draws : List Float) (q : Quadrature Float),
      ((supply n).run s).1 = .ok draws →
      ((monteCarlo.integrate f a b n supply).run s).1 = .ok q →
      ∃ values,
        let points := draws.map fun u => min a b + (max a b - min a b) * u
        let mean := sum values / (n : Float)
        List.Forall₂ (fun x y => f x = .ok y) points values ∧
        q.IsSorted Binary64.orderKey (points.zip values) ∧
        q.value = (b - a) * mean ∧
        q.errorEstimate =
          some (abs (b - a) * sqrt (sum (values.map fun v => square (v - mean)) / (n : Float)) /
            sqrt (n : Float))) ∧
    (∀ (function : ElementaryFunction → ℚ → ℚ) (pow : ℚ → ℚ → ℚ) (pi e : ℚ)
        (f : ℚ → Except (Error ℚ) ℚ) (a b : ℚ) (n : ℕ) (supply : Supplier σ ℚ) (s : σ)
        (draws : List ℚ) (q : Quadrature ℚ),
      letI := Elementary.exact function pow pi e
      ((supply n).run s).1 = .ok draws → (∀ u ∈ draws, 0 ≤ u ∧ u < 1) →
      ((monteCarlo.integrate f a b n supply).run s).1 = .ok q →
      ∀ x ∈ q.xs, min a b ≤ x ∧ x ≤ max a b) := by
  constructor
  · intro f a b n supply s draws q hdraws hq
    have hrun := monteCarlo_of_integrate hdraws hq
    have hkey : ∀ x y : Float, precedes x y = decide (Binary64.orderKey x ≤ Binary64.orderKey y) :=
      fun _ _ => rfl
    obtain ⟨values, hvalues⟩ := Quadrature.monteCarlo_isSorted hkey hrun
    rw [funext (Quadrature.drawnPoint_float a b)] at hvalues
    exact ⟨values, hvalues⟩
  · intro function pow pi e f a b n supply s draws q
    let := Elementary.exact function pow pi e
    intro hdraws hunit hq x hx
    have hrun := monteCarlo_of_integrate hdraws hq
    obtain ⟨values, -, hsorted, -⟩ :=
      Quadrature.monteCarlo_isSorted (fun x y : ℚ => rfl) hrun
    obtain ⟨y, hmem⟩ := hsorted.exists_of_mem hx
    obtain ⟨u, hu, rfl⟩ := List.mem_map.mp (List.of_mem_zip hmem).1
    exact Quadrature.drawnPoint_mem (function .sqrt) a b (hunit u hu).1 (hunit u hu).2.le

/-- Three draws, two of them equal, between falling bounds. -/
theorem integrate_monteCarlo_sorted_square :
    (∃ q values, ((monteCarlo.integrate (fun x : Float => .ok (x * x)) 2 0 3
          fun _ => (pure [0.75, 0.25, 0.75] : Drawing Unit Float (List Float))).run ()).1 = .ok q ∧
      q.IsSorted Binary64.orderKey
        (([0.75, 0.25, 0.75].map fun u => min 2 0 + (max 2 0 - min 2 0) * u).zip values)) ∧
    letI := Elementary.exact (fun _ x => x) (fun x _ => x) 3 3
    ∃ q, ((monteCarlo.integrate (fun x : ℚ => .ok (x * x)) 2 0 3
          fun _ => (pure [3 / 4, 1 / 4, 3 / 4] : Drawing Unit ℚ (List ℚ))).run ()).1 = .ok q ∧
      q.xs = [1 / 2, 3 / 2, 3 / 2] ∧ ∀ x ∈ q.xs, 0 ≤ x ∧ x ≤ 2 := by
  obtain ⟨hfloat, hexact⟩ := integrate_monteCarlo_sorted (σ := Unit)
  constructor
  · obtain ⟨values, -, hsorted, -⟩ := hfloat (fun x => .ok (x * x)) 2 0 3
      (fun _ => pure [0.75, 0.25, 0.75]) () [0.75, 0.25, 0.75] _ rfl rfl
    exact ⟨_, values, rfl, hsorted⟩
  · let := Elementary.exact (fun _ x => x) (fun x _ => x) 3 3
    have hrun : ((monteCarlo.integrate (fun x : ℚ => .ok (x * x)) 2 0 3
          fun _ => (pure [3 / 4, 1 / 4, 3 / 4] : Drawing Unit ℚ (List ℚ))).run ()).1 =
        .ok ⟨-19 / 6, [1 / 2, 3 / 2, 3 / 2], [1 / 4, 9 / 4, 9 / 4], some (16 / 27)⟩ := by
      cbv
    have hunit : ∀ u ∈ [(3 / 4 : ℚ), 1 / 4, 3 / 4], 0 ≤ u ∧ u < 1 := by norm_num
    exact ⟨_, hrun, rfl, hexact (fun _ x => x) (fun x _ => x) 3 3 (fun x => .ok (x * x)) 2 0 3
      (fun _ => pure [3 / 4, 1 / 4, 3 / 4]) () [3 / 4, 1 / 4, 3 / 4] _ rfl hunit hrun⟩

end Method

end DefiniteIntegral
