import DefiniteIntegral.Proofs.Arithmetic.Exact
import DefiniteIntegral.Proofs.Integration.Outcomes
import Mathlib

/-! # The first failure

A request fails with an evaluation error exactly at the first of its nodes where the function has no
value, in the order in which they are evaluated. -/

namespace DefiniteIntegral

variable {σ α : Type}

namespace Request

variable [Elementary α] {request : Request α} {f : Integrand α} {supply : Supplier σ α} {s : σ}

theorem conclude_ne_evaluation {q : Quadrature α} {x : α} {fault : EvalFault α} :
    request.conclude f q ≠ .error (.evaluation x fault) := by
  rw [conclude]
  split <;> simp

section Nodes

variable {draws : List α} (f) (hn : request.method.minPoints ≤ request.points)
  (hdraws : request.method = .monteCarlo → ((supply request.points).run s).1 = .ok draws)

include hn hdraws

/-- Before the node of an evaluation error, the function has a value at every node. -/
theorem estimate_eq_evaluation_iff {x : α} {fault : EvalFault α} :
    (request.estimate f supply s).1 = .error (.evaluation x fault) ↔
      ∃ before after, request.nodes draws = before ++ x :: after ∧
        (∀ y ∈ before, ∃ v, f.eval y = .ok v) ∧ f.eval x = .error fault := by
  rw [← verdict_eq_error_iff, estimate, Method.verdict_integrate supply s hn hdraws,
    forM_eq_error_iff]
  simp only [verdict_eq_ok_iff, verdict_eq_error_iff, Integrand.at_eq_ok_iff,
    Integrand.at_eq_error_iff]
  constructor
  · rintro ⟨before, y, after, hnodes, hbefore, cause, hcause, herror⟩
    obtain ⟨rfl, rfl⟩ := Error.evaluation.inj herror
    exact ⟨before, after, hnodes, hbefore, hcause⟩
  · rintro ⟨before, after, hnodes, hbefore, hfault⟩
    exact ⟨before, x, after, hnodes, hbefore, fault, hfault, rfl⟩

theorem compute_eq_evaluation_iff (hf : Integrand.compile request.function = .ok f) {x : α}
    {fault : EvalFault α} :
    ((request.compute supply).run s).1 = .error (.evaluation x fault) ↔
      ∃ before after, request.nodes draws = before ++ x :: after ∧
        (∀ y ∈ before, ∃ v, f.eval y = .ok v) ∧ f.eval x = .error fault := by
  rw [run_compute_of_compile hf, bind_eq_error_iff, estimate_eq_evaluation_iff f hn hdraws]
  refine or_iff_left ?_
  rintro ⟨_, _, hconclude⟩
  exact conclude_ne_evaluation hconclude

end Nodes

/-- A request whose function has no value at some node fails at a point: at the first such node,
with the fault of the function there, when there have been values at all nodes before it. A request
whose function has values at all nodes does not fail at a point. -/
theorem compute_first_failure {request : Request α} {f : Integrand α} {draws : List α}
    (supply : Supplier σ α) (s : σ) (hf : Integrand.compile request.function = .ok f)
    (hn : request.method.minPoints ≤ request.points)
    (hdraws : request.method = .monteCarlo → ((supply request.points).run s).1 = .ok draws) :
    ((∃ x ∈ request.nodes draws, ∃ fault, f.eval x = .error fault) →
      ∃ x fault, ((request.compute supply).run s).1 = .error (.evaluation x fault)) ∧
    (∀ x fault, ((request.compute supply).run s).1 = .error (.evaluation x fault) ↔
      ∃ before after, request.nodes draws = before ++ x :: after ∧
        (∀ y ∈ before, ∃ v, f.eval y = .ok v) ∧ f.eval x = .error fault) ∧
    ((∀ x ∈ request.nodes draws, ∃ v, f.eval x = .ok v) →
      ∀ x fault, ((request.compute supply).run s).1 ≠ .error (.evaluation x fault)) := by
  refine ⟨fun hundefined => ?_, fun x fault => compute_eq_evaluation_iff f hn hdraws hf,
    fun hdefined x fault hcompute => ?_⟩
  · obtain ⟨x, -, fault, -, hcompute⟩ := compute_of_undefined f hn hdraws hf hundefined
    exact ⟨x, fault, hcompute⟩
  · obtain ⟨before, after, hnodes, -, hfault⟩ :=
      (compute_eq_evaluation_iff f hn hdraws hf).mp hcompute
    obtain ⟨v, hv⟩ := hdefined x (by simp [hnodes])
    rw [hfault] at hv
    cases hv

/-- A boundary of a cell fails when both middles and the boundary before it have values; and of two
draws without values the first one fails, whichever point is smaller. -/
theorem compute_first_failure_reciprocal :
    letI := Elementary.exact (fun _ x => x) (fun x _ => x) 3 3
    let onCells : Request ℚ := ⟨"1/(1-x)", 0, 2, 2, .midpoint⟩
    let onDraws : Request ℚ := ⟨"1/(1-x)/(2-x)", 4, 0, 2, .monteCarlo⟩
    let supply : Supplier Unit ℚ := fun _ => pure [1 / 2, 1 / 4]
    ((onCells.compute supply).run ()).1 = .error (.evaluation 1 .divisionByZero) ∧
    ((onDraws.compute supply).run ()).1 = .error (.evaluation 2 .divisionByZero) := by
  intro onCells onDraws supply
  let := Elementary.exact (fun _ x => x) (fun x _ => x) 3 3
  constructor
  · let f : Integrand ℚ :=
      ⟨"1/(1-x)", .binary .div (.number 1) (.binary .sub (.number 1) .var)⟩
    have hf : Integrand.compile onCells.function = .ok f := by cbv
    have hmiddle : f.eval (1 / 2) = .ok 2 := by cbv
    have hmiddle' : f.eval (3 / 2) = .ok (-2) := by cbv
    have hstart : f.eval 0 = .ok 1 := by cbv
    have hfault : f.eval 1 = .error .divisionByZero := by cbv
    have hnodes : onCells.nodes [] = [1 / 2, 3 / 2, 0] ++ 1 :: [2] := by cbv
    obtain ⟨-, hfirst, -⟩ := compute_first_failure supply () hf (by decide) (by simp [onCells])
    refine (hfirst 1 .divisionByZero).mpr ⟨_, _, hnodes, ?_, hfault⟩
    simp only [List.forall_mem_cons]
    exact ⟨⟨2, hmiddle⟩, ⟨-2, hmiddle'⟩, ⟨1, hstart⟩, List.forall_mem_nil _⟩
  · let f : Integrand ℚ :=
      ⟨"1/(1-x)/(2-x)", .binary .div (.binary .div (.number 1) (.binary .sub (.number 1) .var))
        (.binary .sub (.number 2) .var)⟩
    have hf : Integrand.compile onDraws.function = .ok f := by cbv
    have hfault : f.eval 2 = .error .divisionByZero := by cbv
    have hnodes : onDraws.nodes [1 / 2, 1 / 4] = [] ++ 2 :: [1] := by cbv
    obtain ⟨-, hfirst, -⟩ := compute_first_failure supply () hf (by decide) fun _ => rfl
    exact (hfirst 2 .divisionByZero).mpr ⟨_, _, hnodes, List.forall_mem_nil _, hfault⟩

end Request

end DefiniteIntegral
