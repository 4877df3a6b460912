import DefiniteIntegral.Proofs.Expr.Evaluation
import DefiniteIntegral.Proofs.Expr.Vocabulary
import DefiniteIntegral.Proofs.Integration.Failures
import DefiniteIntegral.Proofs.Integration.Randomness

/-! # Dependence on the point

Points can overflow between finite bounds. Whether that is noticed depends on whether the expression
mentions the variable, and on nothing else: without the variable it has everywhere the value that it
was found to have at zero, and with the variable it has no value at a point that is not finite. -/

namespace DefiniteIntegral

variable {σ α : Type} [Elementary α] {f : Integrand α} {x : α} {fault : EvalFault α}

/-! ## Integrands -/

namespace Integrand

theorem exists_forall_eval_eq {text : String} (hf : compile text = .ok f)
    (hvar : f.tree.mentionsVar = false) : ∃ v, ∀ x, f.eval x = .ok v := by
  obtain ⟨-, -, -, v, -, -, hzero⟩ := compile_eq_ok_iff.mp hf
  exact ⟨v, fun x => (Expr.eval_eq_of_not_mentionsVar hvar x Arithmetic.zero).trans hzero⟩

theorem exists_eval_eq_error (hvar : f.tree.mentionsVar) (hx : ¬ Arithmetic.isFinite x) :
    ∃ fault, f.eval x = .error fault := by
  cases heval : f.eval x with
  | error fault => exact ⟨fault, rfl⟩
  | ok v => exact absurd (Expr.isFinite_of_mentionsVar hvar heval) hx

end Integrand

/-! ## Requests -/

namespace Request

variable {request : Request α} {supply : Supplier σ α} {s : σ}

/-- If a function has values everywhere, an evaluation error is not one of the function. -/
theorem run_supply_of_compute_eq_evaluation (hf : Integrand.compile request.function = .ok f)
    (hdefined : ∀ x, ∃ v, f.eval x = .ok v)
    (h : ((request.compute supply).run s).1 = .error (.evaluation x fault)) :
    request.method = .monteCarlo ∧
      ((supply request.points).run s).1 = .error (.evaluation x fault) := by
  by_cases hn : request.points < request.method.minPoints
  · rw [asksNothing_of_lt hf hn] at h
    cases h
  have henough := Nat.le_of_not_lt hn
  -- With draws, the error would be that of a node.
  have hnodes : ∀ draws, ¬ (request.method = .monteCarlo →
      ((supply request.points).run s).1 = .ok draws) := by
    intro draws hdraws
    obtain ⟨_, _, -, -, hfault⟩ := (compute_eq_evaluation_iff f henough hdraws hf).mp h
    obtain ⟨v, hv⟩ := hdefined x
    rw [hfault] at hv
    cases hv
  have hmethod : request.method = .monteCarlo := by
    by_contra hgrid
    exact hnodes [] fun hmethod => absurd hmethod hgrid
  refine ⟨hmethod, ?_⟩
  cases hbatch : ((supply request.points).run s).1 with
  | error e =>
      rw [asksOnce_of_le hf hmethod henough, hbatch] at h
      rw [Except.error.inj h]
  | ok draws => exact absurd (fun _ => hbatch) (hnodes draws)

/-- A request with a result has a value at each of its nodes. -/
theorem exists_eval_of_compute_eq_ok {draws : List α} {r : Result α}
    (hf : Integrand.compile request.function = .ok f)
    (hdraws : request.method = .monteCarlo → ((supply request.points).run s).1 = .ok draws)
    (h : ((request.compute supply).run s).1 = .ok r) :
    ∀ x ∈ request.nodes draws, ∃ v, f.eval x = .ok v := by
  by_cases hn : request.points < request.method.minPoints
  · rw [asksNothing_of_lt hf hn] at h
    cases h
  rw [run_compute_of_compile hf] at h
  obtain ⟨q, hq, -⟩ := bind_eq_ok_iff.mp h
  exact (exists_estimate_iff f (Nat.le_of_not_lt hn) hdraws).mp ⟨q, hq⟩

/-- A constant expression that compiles has one value at all points, so that no request fails at a
point, whatever its bounds, method and number of points; only a supplier could fail with such an
error, and no source does. An expression with the variable fails at every point that is not finite,
so that no request with such a node has a result: with enough points, it fails at a node. -/
theorem compute_dependence (text : String) :
    (∀ f : Integrand α, Integrand.compile text = .ok f → f.tree.mentionsVar = false →
      (∃ v, ∀ x, f.eval x = .ok v) ∧
      ∀ (request : Request α) (supply : Supplier σ α) (s : σ) (x : α) (fault : EvalFault α),
        request.function = text →
        ((request.compute supply).run s).1 = .error (.evaluation x fault) →
        request.method = .monteCarlo ∧
          ((supply request.points).run s).1 = .error (.evaluation x fault)) ∧
    (∀ f : Integrand Float, Integrand.compile text = .ok f → f.tree.mentionsVar = false →
      ∀ (request : Request Float) (source : Source) (x : Float) (fault : EvalFault Float),
        request.function = text → source.compute request ≠ .error (.evaluation x fault)) ∧
    (∀ f : Integrand α, Integrand.compile text = .ok f → f.tree.mentionsVar →
      (∀ x, ¬ Arithmetic.isFinite x → ∃ fault, f.at x = .error (.evaluation x fault)) ∧
      ∀ (request : Request α) (supply : Supplier σ α) (s : σ) (draws : List α),
        request.function = text →
        (request.method = .monteCarlo → ((supply request.points).run s).1 = .ok draws) →
        (∃ x ∈ request.nodes draws, ¬ Arithmetic.isFinite x) →
        (∀ r, ((request.compute supply).run s).1 ≠ .ok r) ∧
        (request.method.minPoints ≤ request.points → ∃ x ∈ request.nodes draws, ∃ fault,
          ((request.compute supply).run s).1 = .error (.evaluation x fault))) := by
  refine ⟨fun f hf hvar => ?_, fun f hf hvar request source x fault => ?_,
    fun f hf hvar => ⟨?_, ?_⟩⟩
  · obtain ⟨v, hv⟩ := Integrand.exists_forall_eval_eq hf hvar
    refine ⟨⟨v, hv⟩, ?_⟩
    rintro request supply s x fault rfl hcompute
    exact run_supply_of_compute_eq_evaluation hf (fun x => ⟨v, hv x⟩) hcompute
  · rintro rfl hcompute
    obtain ⟨v, hv⟩ := Integrand.exists_forall_eval_eq hf hvar
    obtain ⟨-, hdraw⟩ :=
      run_supply_of_compute_eq_evaluation hf (fun x => ⟨v, hv x⟩) hcompute
    rw [Source.run_draw] at hdraw
    cases hdraw
  · intro x hx
    obtain ⟨fault, hfault⟩ := Integrand.exists_eval_eq_error hvar hx
    exact ⟨fault, Integrand.at_eq_error_iff.mpr ⟨fault, hfault, rfl⟩⟩
  · rintro request supply s draws rfl hdraws ⟨x, hx, hinfinite⟩
    obtain ⟨fault, hfault⟩ := Integrand.exists_eval_eq_error hvar hinfinite
    refine ⟨fun r hr => ?_, fun hn => ?_⟩
    · obtain ⟨v, hv⟩ := exists_eval_of_compute_eq_ok hf hdraws hr x hx
      rw [hfault] at hv
      cases hv
    · obtain ⟨y, hy, cause, -, hcompute⟩ :=
        compute_of_undefined f hn hdraws hf ⟨x, hx, fault, hfault⟩
      exact ⟨y, hy, cause, hcompute⟩

/-- Between bounds whose distance overflows, a constant has values at all nodes, and zero times the
variable has none at a node that is no number. -/
theorem compute_dependence_overflow :
    let constant : Request Float := ⟨"1/3", -1e308, 1e308, 10, .trapezoidal⟩
    let product : Request Float := { constant with function := "0*x" }
    let source := Source.ofKind 0 42 .seeded
    (∀ x fault, source.compute constant ≠ .error (.evaluation x fault)) ∧
    (∃ x ∈ product.nodes [], ¬ x.isFinite) ∧
    ∃ x ∈ product.nodes [], ∃ fault, source.compute product = .error (.evaluation x fault) := by
  intro constant product source
  have hconstant : Integrand.compile "1/3" =
      .ok (⟨"1/3", .binary .div (.number 1) (.number 3)⟩ : Integrand Float) :=
    toOption_eq_some_iff.mp (by decide +kernel)
  have hproduct : Integrand.compile "0*x" =
      .ok (⟨"0*x", .binary .mul (.number 0) .var⟩ : Integrand Float) :=
    toOption_eq_some_iff.mp (by decide +kernel)
  have hinfinite : ∃ x ∈ product.nodes [], ¬ x.isFinite := by decide +kernel
  obtain ⟨-, hsource, -⟩ := @compute_dependence Source Float _ "1/3"
  obtain ⟨-, -, hnodes⟩ := @compute_dependence Source Float _ "0*x"
  obtain ⟨-, hfails⟩ := hnodes _ hproduct rfl
  obtain ⟨-, hcompute⟩ := hfails product Source.draw source [] rfl nofun hinfinite
  exact ⟨fun x fault => hsource _ hconstant rfl constant source x fault rfl, hinfinite,
    hcompute (by decide)⟩

end Request

end DefiniteIntegral
