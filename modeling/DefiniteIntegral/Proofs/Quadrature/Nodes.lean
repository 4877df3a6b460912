import DefiniteIntegral.Integration.Compute
import DefiniteIntegral.Proofs.Quadrature.Sampling

/-! # The nodes of a method

A method evaluates the function at its nodes, from the first to the last. It succeeds if the
function has a value at every node, and otherwise it fails as the function does at the first node
without one. -/

namespace DefiniteIntegral

variable {σ α ε : Type}

/-! ## Sampling as a traversal -/

theorem verdict_sample (f : α → Except ε α) (xs : List α) :
    verdict (sample f xs) = forM xs fun x => verdict (f x) := by
  induction xs with
  | nil => rfl
  | cons x xs ih =>
      rw [List.forM_cons, sample, verdict_bind]
      intro y
      rw [verdict_bind_of_ok, ih]
      exact fun ys => ⟨_, rfl⟩

theorem sample_congr {f f' : α → Except ε α} {xs : List α} (h : ∀ x ∈ xs, f x = f' x) :
    sample f xs = sample f' xs := by
  induction xs with
  | nil => rfl
  | cons x xs ih =>
      obtain ⟨hx, hxs⟩ := List.forall_mem_cons.mp h
      rw [sample, sample, hx, ih hxs]

theorem exists_values {f : α → Except ε α} {xs : List α}
    (h : ∀ x ∈ xs, ∃ y, f x = .ok y) : ∃ g : α → α, ∀ x ∈ xs, f x = .ok (g x) := by
  refine ⟨fun x => match f x with | .ok y => y | .error _ => x, fun x hx => ?_⟩
  obtain ⟨y, hy⟩ := h x hx
  simp only [hy]

/-! ## Rules -/

namespace Quadrature

variable [Arithmetic α] {f f' : α → Except ε α} {a b : α} {n : Nat}

theorem verdict_trapezoidal (hn : 2 ≤ n) :
    verdict (trapezoidal f a b n hn) = forM (grid a b n) fun x => verdict (f x) := by
  rw [trapezoidal, verdict_bind_of_ok, verdict_sample]
  exact fun ys => ⟨_, rfl⟩

theorem verdict_simpson (hn : 2 ≤ n) :
    verdict (simpson f a b n hn) = forM (grid a b (oddCount n)) fun x => verdict (f x) := by
  rw [simpson, verdict_bind_of_ok, verdict_sample]
  exact fun ys => ⟨_, rfl⟩

/-- The boundaries of the cells are sampled when all middles have been. -/
theorem verdict_midpoint :
    verdict (midpoint f a b n) =
      forM (midpoints a b n ++ grid a b (n + 1)) fun x => verdict (f x) := by
  rw [List.forM_append, midpoint, verdict_bind, verdict_sample]
  intro middles
  dsimp only
  rw [verdict_bind_of_ok, verdict_sample]
  exact fun ys => ⟨_, rfl⟩

theorem verdict_monteCarlo (draws : List α) :
    verdict (monteCarlo f a b n draws) =
      forM (draws.map (drawnPoint a b)) fun x => verdict (f x) := by
  rw [monteCarlo, verdict_bind_of_ok, verdict_sample]
  exact fun values => ⟨_, rfl⟩

theorem trapezoidal_congr (hn : 2 ≤ n) (h : ∀ x ∈ grid a b n, f x = f' x) :
    trapezoidal f a b n hn = trapezoidal f' a b n hn := by
  simp only [trapezoidal, sample_congr h]

theorem simpson_congr (hn : 2 ≤ n) (h : ∀ x ∈ grid a b (oddCount n), f x = f' x) :
    simpson f a b n hn = simpson f' a b n hn := by
  simp only [simpson, sample_congr h]

theorem midpoint_congr (h : ∀ x ∈ midpoints a b n ++ grid a b (n + 1), f x = f' x) :
    midpoint f a b n = midpoint f' a b n := by
  obtain ⟨hmiddles, hboundaries⟩ := List.forall_mem_append.mp h
  simp only [midpoint, sample_congr hmiddles, sample_congr hboundaries]

theorem monteCarlo_congr (draws : List α) (h : ∀ x ∈ draws.map (drawnPoint a b), f x = f' x) :
    monteCarlo f a b n draws = monteCarlo f' a b n draws := by
  simp only [monteCarlo, sample_congr h]

end Quadrature

/-! ## Methods -/

namespace Method

/-- The points at which a method evaluates the function, in the order of evaluation. The draws are
those of Monte Carlo. -/
def nodes [Arithmetic α] (method : Method) (a b : α) (n : Nat) (draws : List α) : List α :=
  match method with
  | .trapezoidal => grid a b n
  | .simpson => grid a b (Quadrature.oddCount n)
  | .midpoint => midpoints a b n ++ grid a b (n + 1)
  | .monteCarlo => draws.map (Quadrature.drawnPoint a b)

variable [Elementary α] {method : Method} {f f' : α → Except (Error α) α} {a b : α} {n : Nat}
  {draws : List α} (supply : Supplier σ α) (s : σ)

theorem run_integrate_of_lt (hn : n < method.minPoints) :
    (method.integrate f a b n supply).run s =
      (.error (.invalidRequest (.tooFewPoints method n)), s) := by
  rw [integrate, dif_pos hn]
  rfl

theorem run_integrate_trapezoidal (hn : 2 ≤ n) :
    (trapezoidal.integrate f a b n supply).run s = (Quadrature.trapezoidal f a b n hn, s) := by
  have henough : ¬ n < trapezoidal.minPoints := Nat.not_lt.mpr hn
  rw [integrate, dif_neg henough]
  rfl

theorem run_integrate_simpson (hn : 2 ≤ n) :
    (simpson.integrate f a b n supply).run s = (Quadrature.simpson f a b n hn, s) := by
  have henough : ¬ n < simpson.minPoints := Nat.not_lt.mpr hn
  rw [integrate, dif_neg henough]
  rfl

theorem run_integrate_midpoint (hn : 1 ≤ n) :
    (midpoint.integrate f a b n supply).run s = (Quadrature.midpoint f a b n, s) := by
  have henough : ¬ n < midpoint.minPoints := Nat.not_lt.mpr hn
  rw [integrate, dif_neg henough]
  rfl

theorem run_integrate_monteCarlo (hn : 1 ≤ n) :
    (monteCarlo.integrate f a b n supply).run s =
      (((supply n).run s).1 >>= Quadrature.monteCarlo f a b n, ((supply n).run s).2) := by
  have henough : ¬ n < monteCarlo.minPoints := Nat.not_lt.mpr hn
  rw [integrate, dif_neg henough, run_bind_stateM]
  rcases (supply n).run s with ⟨fault | draws, t⟩
  · rfl
  · rfl

/-- How a method comes to a result: on enough points, as the outcome of its rule. -/
inductive Yields (f : α → Except (Error α) α) (a b : α) (n : Nat) (supply : Supplier σ α) (s : σ)
    (q : Quadrature α) : Method → Prop where
  | trapezoidal (hn : 2 ≤ n) (h : Quadrature.trapezoidal f a b n hn = .ok q) :
      Yields f a b n supply s q .trapezoidal
  | simpson (hn : 2 ≤ n) (h : Quadrature.simpson f a b n hn = .ok q) :
      Yields f a b n supply s q .simpson
  | midpoint (hn : 1 ≤ n) (h : Quadrature.midpoint f a b n = .ok q) :
      Yields f a b n supply s q .midpoint
  | monteCarlo (hn : 1 ≤ n) (draws : List α) (hdraws : ((supply n).run s).1 = .ok draws)
      (h : Quadrature.monteCarlo f a b n draws = .ok q) : Yields f a b n supply s q .monteCarlo

theorem yields_of_integrate {supply : Supplier σ α} {s : σ} {q : Quadrature α}
    (h : ((method.integrate f a b n supply).run s).1 = .ok q) :
    method.Yields f a b n supply s q := by
  by_cases hn : n < method.minPoints
  · rw [run_integrate_of_lt supply s hn] at h
    cases h
  · have henough := Nat.le_of_not_lt hn
    cases method with
    | trapezoidal =>
        rw [run_integrate_trapezoidal supply s henough] at h
        exact .trapezoidal henough h
    | simpson =>
        rw [run_integrate_simpson supply s henough] at h
        exact .simpson henough h
    | midpoint =>
        rw [run_integrate_midpoint supply s henough] at h
        exact .midpoint henough h
    | monteCarlo =>
        rw [run_integrate_monteCarlo supply s henough] at h
        obtain ⟨draws, hdraws, h⟩ := bind_eq_ok_iff.mp h
        exact .monteCarlo henough draws hdraws h

/-- Only Monte Carlo draws from the supply. -/
theorem run_integrate_snd (hgrid : method ≠ .monteCarlo) :
    ((method.integrate f a b n supply).run s).2 = s := by
  by_cases hn : n < method.minPoints
  · rw [run_integrate_of_lt supply s hn]
  · have henough := Nat.le_of_not_lt hn
    cases method with
    | trapezoidal => rw [run_integrate_trapezoidal supply s henough]
    | simpson => rw [run_integrate_simpson supply s henough]
    | midpoint => rw [run_integrate_midpoint supply s henough]
    | monteCarlo => exact absurd rfl hgrid

/-- A method on enough points visits its nodes, once Monte Carlo has its draws. -/
theorem verdict_integrate (hn : method.minPoints ≤ n)
    (hdraws : method = .monteCarlo → ((supply n).run s).1 = .ok draws) :
    verdict ((method.integrate f a b n supply).run s).1 =
      forM (method.nodes a b n draws) fun x => verdict (f x) := by
  cases method with
  | trapezoidal =>
      rw [run_integrate_trapezoidal supply s hn]
      exact Quadrature.verdict_trapezoidal hn
  | simpson =>
      rw [run_integrate_simpson supply s hn]
      exact Quadrature.verdict_simpson hn
  | midpoint =>
      rw [run_integrate_midpoint supply s hn]
      exact Quadrature.verdict_midpoint
  | monteCarlo =>
      rw [run_integrate_monteCarlo supply s hn, hdraws rfl]
      exact Quadrature.verdict_monteCarlo draws

theorem exists_integrate_eq_ok_iff (hn : method.minPoints ≤ n)
    (hdraws : method = .monteCarlo → ((supply n).run s).1 = .ok draws) :
    (∃ q, ((method.integrate f a b n supply).run s).1 = .ok q) ↔
      ∀ x ∈ method.nodes a b n draws, ∃ y, f x = .ok y := by
  rw [← verdict_eq_ok_iff, verdict_integrate supply s hn hdraws, forM_eq_ok_iff]
  simp only [verdict_eq_ok_iff]

/-- A failure of a method is one of the function at a node. -/
theorem exists_node_of_integrate_eq_error (hn : method.minPoints ≤ n)
    (hdraws : method = .monteCarlo → ((supply n).run s).1 = .ok draws) {fault : Error α}
    (h : ((method.integrate f a b n supply).run s).1 = .error fault) :
    ∃ x ∈ method.nodes a b n draws, f x = .error fault := by
  rw [← verdict_eq_error_iff, verdict_integrate supply s hn hdraws, forM_eq_error_iff] at h
  obtain ⟨before, x, after, hnodes, -, hx⟩ := h
  exact ⟨x, by simp [hnodes], verdict_eq_error_iff.mp hx⟩

/-- Two functions with the same outcomes at the nodes have the same integral. -/
theorem run_integrate_congr (hn : method.minPoints ≤ n)
    (hdraws : method = .monteCarlo → ((supply n).run s).1 = .ok draws)
    (h : ∀ x ∈ method.nodes a b n draws, f x = f' x) :
    (method.integrate f a b n supply).run s = (method.integrate f' a b n supply).run s := by
  cases method with
  | trapezoidal =>
      rw [run_integrate_trapezoidal supply s hn, run_integrate_trapezoidal supply s hn,
        Quadrature.trapezoidal_congr hn h]
  | simpson =>
      rw [run_integrate_simpson supply s hn, run_integrate_simpson supply s hn,
        Quadrature.simpson_congr hn h]
  | midpoint =>
      rw [run_integrate_midpoint supply s hn, run_integrate_midpoint supply s hn,
        Quadrature.midpoint_congr h]
  | monteCarlo =>
      rw [run_integrate_monteCarlo supply s hn, run_integrate_monteCarlo supply s hn, hdraws rfl,
        ok_bind, ok_bind, Quadrature.monteCarlo_congr draws h]

end Method

end DefiniteIntegral
