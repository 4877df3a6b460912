import DefiniteIntegral.Proofs.Quadrature.Nodes
import DefiniteIntegral.Random.Source

/-! # What a request comes to

A request that is computed fails as its expression does, or as the function does at one of its
nodes, or as its estimate is not finite; and it has a result in all other cases. -/

namespace DefiniteIntegral

variable {σ α : Type}

/-! ## Computations next to a supplier -/

namespace Drawing

variable {β γ : Type} {x : Drawing σ α β} {f : β → Drawing σ α γ} {s t : σ}

theorem run_bind_of_ok {b : β} (h : x.run s = (.ok b, t)) : (x >>= f).run s = (f b).run t := by
  rw [run_bind_stateM, h]

theorem run_bind_of_error {e : Error α} (h : x.run s = (.error e, t)) :
    (x >>= f).run s = (.error e, t) := by
  rw [run_bind_stateM, h]

end Drawing

theorem Source.run_draw {source : Source} {n : Nat} :
    ((Source.draw n).run source).1 = .ok (source.stream.take n).1 :=
  rfl

/-! ## Integrands -/

namespace Integrand

variable [Elementary α] {f : Integrand α} {x y : α}

theorem at_eq_ok_iff : f.at x = .ok y ↔ f.eval x = .ok y :=
  mapError_eq_ok_iff

theorem at_eq_error_iff {e : Error α} :
    f.at x = .error e ↔ ∃ fault, f.eval x = .error fault ∧ .evaluation x fault = e :=
  mapError_eq_error_iff

end Integrand

namespace Request

/-! ## Checks -/

section Checks

variable [Arithmetic α] {request : Request α}

/-- Whether the bounds of a request are finite and its number of points is in range. -/
def Admissible (request : Request α) : Prop :=
  Arithmetic.isFinite request.lower ∧ Arithmetic.isFinite request.upper ∧
    10 ≤ request.points ∧ request.points ≤ 10000

theorem validate_eq_ok (h : request.Admissible) : request.validate = .ok () := by
  obtain ⟨hlower, hupper, hmin, hmax⟩ := h
  simp [validate, hlower, hupper, minRequestPoints, maxRequestPoints, hmin, hmax]

theorem exists_validate_eq_error (h : ¬ request.Admissible) :
    ∃ fault, request.validate = .error (.invalidRequest fault) := by
  by_cases hbounds : Arithmetic.isFinite request.lower && Arithmetic.isFinite request.upper
  · have hpoints : ¬ (minRequestPoints ≤ request.points ∧ request.points ≤ maxRequestPoints) := by
      rintro ⟨hmin, hmax⟩
      obtain ⟨hlower, hupper⟩ := Bool.and_eq_true_iff.mp hbounds
      exact h ⟨hlower, hupper, hmin, hmax⟩
    exact ⟨_, by rw [validate, if_neg (not_not.mpr hbounds), if_pos hpoints]⟩
  · exact ⟨_, by rw [validate, if_pos hbounds]⟩

theorem admissible_of_validate (h : request.validate = .ok ()) : request.Admissible := by
  by_cases hadmissible : request.Admissible
  · exact hadmissible
  · obtain ⟨fault, hfault⟩ := exists_validate_eq_error hadmissible
    rw [h] at hfault
    cases hfault

theorem Admissible.enough (h : request.Admissible) :
    request.method.minPoints ≤ request.points := by
  obtain ⟨-, -, hmin, -⟩ := h
  have hleast : request.method.minPoints ≤ 2 := by
    cases request.method <;> decide
  omega

end Checks

/-! ## Computing -/

variable [Elementary α] {request : Request α} {f : Integrand α} {supply : Supplier σ α} {s t : σ}

/-- The points at which a request evaluates its function, in the order of evaluation. -/
def nodes (request : Request α) (draws : List α) : List α :=
  request.method.nodes request.lower request.upper request.points draws

/-- The record of an estimate. -/
def record (request : Request α) (q : Quadrature α) : Result α where
  value := q.value
  method := request.method
  points := request.points
  xs := q.xs
  ys := q.ys
  errorEstimate := q.errorEstimate

/-- What the method of a request gives for a function. -/
def estimate (request : Request α) (f : Integrand α) (supply : Supplier σ α) (s : σ) :
    Except (Error α) (Quadrature α) × σ :=
  (request.method.integrate f.at request.lower request.upper request.points supply).run s

theorem run_compute_of_compile_error {fault : ExpressionFault α}
    (h : Integrand.compile request.function = .error fault) :
    (request.compute supply).run s = (.error (.invalidExpression fault), s) := by
  rw [compute, h]
  rfl

/-- What a request comes to when its method has an estimate. -/
def conclude (request : Request α) (f : Integrand α) (q : Quadrature α) :
    Except (Error α) (Result α) :=
  if q.isFinite then .ok (request.record q)
  else .error (.invalidRequest (.overflow f.source request.lower request.upper))

theorem run_compute_of_compile (h : Integrand.compile request.function = .ok f) :
    (request.compute supply).run s =
      ((request.estimate f supply s).1 >>= request.conclude f,
        (request.estimate f supply s).2) := by
  have hcompiled : ∀ s : σ, (ExceptT.mk (pure ((Integrand.compile request.function).mapError
      Error.invalidExpression)) : Drawing σ α (Integrand α)).run s = (.ok f, s) := by
    intro s
    rw [h]
    rfl
  rw [compute, Drawing.run_bind_of_ok (hcompiled s)]
  rcases hestimate : request.estimate f supply s with ⟨fault | q, t⟩
  · exact Drawing.run_bind_of_error hestimate
  · rw [Drawing.run_bind_of_ok hestimate, ok_bind, conclude]
    by_cases hfinite : q.isFinite
    · rw [if_pos hfinite, if_pos hfinite]
      rfl
    · rw [if_neg hfinite, if_neg hfinite]
      rfl

section Nodes

variable {draws : List α} (f) (hn : request.method.minPoints ≤ request.points)
  (hdraws : request.method = .monteCarlo → ((supply request.points).run s).1 = .ok draws)

include hn hdraws

theorem exists_estimate_iff :
    (∃ q, (request.estimate f supply s).1 = .ok q) ↔
      ∀ x ∈ request.nodes draws, ∃ y, f.eval x = .ok y := by
  have hnodes := Method.exists_integrate_eq_ok_iff (f := f.at) (a := request.lower)
    (b := request.upper) supply s hn hdraws
  simp only [Integrand.at_eq_ok_iff] at hnodes
  exact hnodes

theorem exists_node_of_estimate_eq_error {e : Error α}
    (herror : (request.estimate f supply s).1 = .error e) :
    ∃ x ∈ request.nodes draws, ∃ fault, f.eval x = .error fault ∧ .evaluation x fault = e := by
  obtain ⟨x, hx, hfault⟩ :=
    Method.exists_node_of_integrate_eq_error supply s hn hdraws herror
  exact ⟨x, hx, Integrand.at_eq_error_iff.mp hfault⟩

/-- The fault is that of a node without a value. -/
theorem compute_of_undefined (hf : Integrand.compile request.function = .ok f)
    (hundefined : ∃ x ∈ request.nodes draws, ∃ fault, f.eval x = .error fault) :
    ∃ x ∈ request.nodes draws, ∃ fault, f.eval x = .error fault ∧
      ((request.compute supply).run s).1 = .error (.evaluation x fault) := by
  rw [run_compute_of_compile hf]
  cases hestimate : (request.estimate f supply s).1 with
  | error e =>
      obtain ⟨x, hx, fault, hfault, rfl⟩ := exists_node_of_estimate_eq_error f hn hdraws hestimate
      exact ⟨x, hx, fault, hfault, rfl⟩
  | ok q =>
      obtain ⟨x, hx, fault, hfault⟩ := hundefined
      obtain ⟨y, hy⟩ := (exists_estimate_iff f hn hdraws).mp ⟨q, hestimate⟩ x hx
      rw [hfault] at hy
      cases hy

theorem compute_of_defined (hf : Integrand.compile request.function = .ok f)
    (hdefined : ∀ x ∈ request.nodes draws, ∃ y, f.eval x = .ok y) :
    ∃ q, (request.estimate f supply s).1 = .ok q ∧
      ((request.compute supply).run s).1 = request.conclude f q := by
  obtain ⟨q, hq⟩ := (exists_estimate_iff f hn hdraws).mpr hdefined
  exact ⟨q, hq, by rw [run_compute_of_compile hf, hq, ok_bind]⟩

end Nodes

/-- Unless random numbers are missing, only the client can be the cause of an error. -/
theorem isClientError_of_compute_eq_error {draws : List α} (h : request.Admissible)
    (hdraws : request.method = .monteCarlo → ((supply request.points).run s).1 = .ok draws)
    {e : Error α} (he : ((request.compute supply).run s).1 = .error e) : e.isClientError := by
  cases hf : (Integrand.compile request.function : Except (ExpressionFault α) _) with
  | error fault =>
      rw [run_compute_of_compile_error hf] at he
      cases he
      rfl
  | ok f =>
      rw [run_compute_of_compile hf] at he
      cases hestimate : (request.estimate f supply s).1 with
      | error fault =>
          obtain ⟨x, -, cause, -, rfl⟩ :=
            exists_node_of_estimate_eq_error f h.enough hdraws hestimate
          rw [hestimate] at he
          cases he
          rfl
      | ok q =>
          rw [hestimate, ok_bind, conclude] at he
          split at he
          · cases he
          · cases he
            rfl

end Request

/-! ## Methods on a grid -/

section Grid

variable {τ : Type} [Elementary α]

/-- The estimate of a method on a grid does not depend on who would supply random numbers. -/
theorem Method.run_integrate_supply {method : Method} (hgrid : method ≠ .monteCarlo)
    (f : α → Except (Error α) α) (a b : α) (n : Nat) (supply : Supplier σ α) (s : σ)
    (supply' : Supplier τ α) (t : τ) :
    ((method.integrate f a b n supply).run s).1 = ((method.integrate f a b n supply').run t).1 := by
  by_cases hn : n < method.minPoints
  · rw [run_integrate_of_lt supply s hn, run_integrate_of_lt supply' t hn]
  · have henough := Nat.le_of_not_lt hn
    cases method with
    | trapezoidal =>
        rw [run_integrate_trapezoidal supply s henough,
          run_integrate_trapezoidal supply' t henough]
    | simpson =>
        rw [run_integrate_simpson supply s henough, run_integrate_simpson supply' t henough]
    | midpoint =>
        rw [run_integrate_midpoint supply s henough, run_integrate_midpoint supply' t henough]
    | monteCarlo => exact absurd rfl hgrid

theorem Request.run_compute_supply {request : Request α} (hgrid : request.method ≠ .monteCarlo)
    (supply : Supplier σ α) (s : σ) (supply' : Supplier τ α) (t : τ) :
    ((request.compute supply).run s).1 = ((request.compute supply').run t).1 := by
  cases hcompile : (Integrand.compile request.function : Except (ExpressionFault α) _) with
  | error fault => rw [run_compute_of_compile_error hcompile, run_compute_of_compile_error hcompile]
  | ok f =>
      have hestimate := Method.run_integrate_supply hgrid f.at request.lower request.upper
        request.points supply s supply' t
      rw [run_compute_of_compile hcompile, run_compute_of_compile hcompile, estimate, estimate,
        hestimate]

end Grid

end DefiniteIntegral
