import DefiniteIntegral.Proofs.Expr.Evaluation
import DefiniteIntegral.Proofs.Expr.Vocabulary
import DefiniteIntegral.Proofs.Integration.Outcomes
import DefiniteIntegral.Proofs.Quadrature.Width
import DefiniteIntegral.Proofs.Random.Draws

/-! # Integrals over intervals without width

The width is a factor of every rule, next to what the rule sums up. A result is zero, then; but a
sum that overflows makes the product no number at all, so that there is no result. This takes
samples close to the largest finite numbers. -/

namespace DefiniteIntegral

open Binary64

variable {σ : Type} {a : Float} {v : ℝ} {n : ℕ}

/-! ## Methods -/

namespace Method

variable {method : Method}

/-- Samples of a magnitude up to this one leave room for all that a method sums up. Monte Carlo sums
up squares. -/
def tolerated : Method → Float
  | trapezoidal => 1e292
  | simpson => 1e292
  | midpoint => 1e292
  | monteCarlo => 1e145

/-- The exponent of a power of two that is no less than the tolerated magnitude. -/
def exponent : Method → ℤ
  | trapezoidal => 971
  | simpson => 971
  | midpoint => 971
  | monteCarlo => 485

theorem hasRoom (method : Method) : Quadrature.HasRoom method.exponent := by
  cases method <;> exact ⟨by decide, by decide⟩

theorem exists_value_tolerated (method : Method) :
    ∃ v, Value method.tolerated v ∧ v ≤ 2 ^ method.exponent := by
  have hlarge : Value (Float.ofBits 0x7CA0000000000000) (2 ^ (971 : ℤ)) :=
    value_two_pow (by decide) rfl
  have hsquare : Value (Float.ofBits 0x5E40000000000000) (2 ^ (485 : ℤ)) :=
    value_two_pow (by decide) rfl
  cases method with
  | trapezoidal => exact exists_value_le (by decide +kernel) hlarge (by decide +kernel)
  | simpson => exact exists_value_le (by decide +kernel) hlarge (by decide +kernel)
  | midpoint => exact exists_value_le (by decide +kernel) hlarge (by decide +kernel)
  | monteCarlo => exact exists_value_le (by decide +kernel) hsquare (by decide +kernel)

theorem between_of_abs_le {y : Float} (hy : y.isFinite) (h : y.abs ≤ method.tolerated) :
    Between (-1) 1 method.exponent y := by
  obtain ⟨v, hv⟩ := exists_value y hy
  obtain ⟨w, hw, hle⟩ := exists_value_tolerated method
  obtain ⟨hlow, hhigh⟩ := abs_le.mp ((hv.abs.le hw h).trans hle)
  exact ⟨v, hv, by simpa using hlow, by simpa using hhigh⟩

section Yields

variable {f : Float → Except (Error Float) Float} {supply : Supplier σ Float} {s : σ}
  {q : Quadrature Float} (ha : Value a v) (hleast : 1 ≤ n) (hmost : n ≤ 10000)

include ha hleast hmost

theorem Yields.isMultipleOfZero (h : method.Yields f a a n supply s q) : q.IsMultipleOfZero := by
  cases h with
  | trapezoidal hn h => exact Quadrature.trapezoidal_isMultipleOfZero ha h hmost
  | simpson hn h => exact Quadrature.simpson_isMultipleOfZero ha h hmost
  | midpoint hn h => exact Quadrature.midpoint_isMultipleOfZero ha h hleast hmost
  | monteCarlo hn draws hdraws h => exact Quadrature.monteCarlo_isMultipleOfZero ha h

theorem Yields.isZero {draws : List Float} (h : method.Yields f a a n supply s q)
    (hdraws : ((supply n).run s).1 = .ok draws) (hlength : draws.length = n)
    (hf : ∀ x ∈ method.nodes a a n draws, ∀ y, f x = .ok y → Between (-1) 1 method.exponent y) :
    q.IsZero := by
  have hroom := hasRoom method
  cases h with
  | trapezoidal hn h => exact Quadrature.trapezoidal_isZero hroom ha h hmost hf
  | simpson hn h => exact Quadrature.simpson_isZero hroom ha h hmost hf
  | midpoint hn h => exact Quadrature.midpoint_isZero hroom ha h hleast hmost hf
  | monteCarlo hn draws' hdraws' h =>
      obtain rfl := Except.ok.inj (hdraws.symm.trans hdraws')
      exact Quadrature.monteCarlo_isZero hroom ha h hleast hmost hlength
        ⟨by decide, by decide⟩ hf

end Yields

end Method

/-! ## Results -/

theorem Source.exists_value_of_mem_draws {source : Source} {u : Float}
    (hu : u ∈ (source.stream.take n).1) : ∃ w, Value u w := by
  obtain ⟨i, -, rfl⟩ := List.mem_map.mp hu
  exact ⟨_, value_drawAt source.stream.key (source.stream.place + i)⟩

namespace Request

variable {request : Request Float} {f : Integrand Float} {q : Quadrature Float}

theorem conclude_of_isMultipleOfZero (request : Request Float) (f : Integrand Float)
    (h : q.IsMultipleOfZero) :
    (∃ r, request.conclude f q = .ok r ∧ r.value == 0) ∨
      request.conclude f q =
        .error (.invalidRequest (.overflow f.source request.lower request.upper)) := by
  by_cases hfinite : q.isFinite
  · refine .inl ⟨request.record q, if_pos hfinite, ?_⟩
    obtain ⟨z, s, hz, hproduct⟩ := h
    obtain ⟨hvalue, -⟩ := Bool.and_eq_true_iff.mp hfinite
    change q.value.isFinite = true at hvalue
    rw [hproduct] at hvalue
    obtain ⟨w, hw⟩ := exists_value_of_zero_mul hz hvalue
    change q.value == 0
    rw [hproduct]
    exact (value_zero_mul hz hw).beq_zero
  · exact .inr (if_neg hfinite)

theorem conclude_of_isZero (h : q.IsZero) :
    ∃ r, request.conclude f q = .ok r ∧ r.value == 0 := by
  have hestimate : q.errorEstimate.all Arithmetic.isFinite :=
    (Option.all_eq_true _ _).mpr fun x hx => (h.errorEstimate x hx).isFinite
  have hfinite : q.isFinite := Bool.and_eq_true_iff.mpr ⟨h.value.isFinite, hestimate⟩
  exact ⟨request.record q, if_pos hfinite, h.value.beq_zero⟩

end Request

/-- An integral without width, of a function that has a value there, is zero or has a sum that
overflows; and it is zero if the function has a tolerated magnitude there. -/
theorem Source.compute_zero_width {source : Source} {request : Request Float}
    {f : Integrand Float} (hadmissible : request.Admissible)
    (hwidth : request.upper = request.lower) (hf : Integrand.compile request.function = .ok f)
    (hvalue : ∃ y, f.eval request.lower = .ok y) :
    ((∃ r, source.compute request = .ok r ∧ r.value == 0) ∨
      source.compute request = .error (.invalidRequest
        (.overflow request.function request.lower request.lower))) ∧
    ((∀ x y, x == request.lower → f.eval x = .ok y → y.abs ≤ request.method.tolerated) →
      ∃ r, source.compute request = .ok r ∧ r.value == 0) := by
  have henough := hadmissible.enough
  obtain ⟨hlower, -, hleast, hmost⟩ := hadmissible
  obtain ⟨-, hsource, -, zero, -, -, hzero⟩ := Integrand.compile_eq_ok_iff.mp hf
  obtain ⟨v, ha⟩ := exists_value request.lower hlower
  have hbound : ∀ x ∈ request.method.nodes request.lower request.lower request.points
      (source.stream.take request.points).1, IsBound request.lower x := fun x hx =>
    isBound_of_mem_nodes ha (by omega) (fun _ => exists_value_of_mem_draws) hx
  have hdefined : ∀ x ∈ request.nodes (source.stream.take request.points).1,
      ∃ y, f.eval x = .ok y := by
    rw [Request.nodes, hwidth]
    intro x hx
    rcases hbound x hx with rfl | ⟨rfl, -⟩
    · exact hvalue
    · exact ⟨zero, hzero⟩
  obtain ⟨q, hq, hcompute⟩ :=
    Request.compute_of_defined f henough (fun _ => Source.run_draw) hf hdefined
  have hconclude : source.compute request = request.conclude f q := hcompute
  have hyields := Method.yields_of_integrate hq
  rw [hwidth] at hyields
  rw [hconclude]
  constructor
  · have hproduct := hyields.isMultipleOfZero ha (by omega) hmost
    have hcases := request.conclude_of_isMultipleOfZero f hproduct
    rwa [hsource, hwidth] at hcases
  · intro htolerated
    refine Request.conclude_of_isZero
      (hyields.isZero ha (by omega) hmost Source.run_draw (by simp [Stream.take]) ?_)
    intro x hx y hy
    have hvalue : f.eval x = .ok y := Integrand.at_eq_ok_iff.mp hy
    exact Method.between_of_abs_le (Expr.isFinite_of_eval hvalue)
      (htolerated x y ((hbound x hx).beq ha) hvalue)

/-- Samples of just the tolerated magnitude, whose squares are summed up. -/
theorem Source.compute_zero_width_tolerated :
    ∃ r, (ofKind 0 42 .seeded).compute ⟨"1e145", 3, 3, 10, .monteCarlo⟩ = .ok r ∧
      r.value == 0 := by
  have hf : Integrand.compile "1e145" = .ok ⟨"1e145", .number 1e145⟩ :=
    toOption_eq_some_iff.mp (by decide +kernel)
  have heval : ∀ x, Integrand.eval ⟨"1e145", .number 1e145⟩ x = .ok (1e145 : Float) := fun _ =>
    Expr.eval_number (by decide +kernel)
  have hadmissible : Request.Admissible (⟨"1e145", 3, 3, 10, .monteCarlo⟩ : Request Float) :=
    ⟨by decide +kernel, by decide +kernel, by decide, by decide⟩
  refine (compute_zero_width hadmissible rfl hf ⟨_, heval 3⟩).2 fun x y _ hy => ?_
  obtain rfl := Except.ok.inj ((heval x).symm.trans hy)
  decide +kernel

/-- Ten samples of a larger magnitude, whose sum is not finite. -/
theorem Source.compute_zero_width_overflow :
    let request : Request Float := ⟨"1e308", 1, 1, 10, .trapezoidal⟩
    request.Admissible ∧
    (∃ f, Integrand.compile request.function = .ok f ∧ f.eval request.lower = .ok 1e308) ∧
    ∀ r, (ofKind 0 42 .seeded).compute request ≠ .ok r := by
  intro request
  have hf : Integrand.compile request.function = .ok ⟨"1e308", .number 1e308⟩ :=
    toOption_eq_some_iff.mp (by decide +kernel)
  have hfault : ¬ ((ofKind 0 42 .seeded).compute request).toBool := by decide +kernel
  refine ⟨⟨by decide +kernel, by decide +kernel, by decide, by decide⟩,
    ⟨_, hf, Expr.eval_number (by decide +kernel)⟩, fun r hr => ?_⟩
  rw [hr] at hfault
  exact hfault rfl

end DefiniteIntegral
