import DefiniteIntegral.Integration.Compute
import DefiniteIntegral.Proofs.Arithmetic.Exact
import DefiniteIntegral.Proofs.Expr.Evaluation
import DefiniteIntegral.Proofs.Quadrature.Nodes
import Mathlib

/-! # Soundness of a computed integral

What is returned with success: samples that lie on the graph of the function, and finite numbers.
Nothing is assumed of the operations on numbers or of the supplier of random numbers. -/

namespace DefiniteIntegral

variable {σ α β γ : Type}

/-! ## Computations next to a supplier -/

namespace Drawing

theorem run_mk_pure_eq_ok_iff {outcome : Except (Error α) β} {s s' : σ} {b : β} :
    (ExceptT.mk (pure outcome) : Drawing σ α β).run s = (.ok b, s') ↔
      outcome = .ok b ∧ s = s' := by
  constructor
  · intro h
    exact Prod.mk.inj h
  · rintro ⟨rfl, rfl⟩
    rfl

theorem run_pure_eq_ok_iff {b c : β} {s s' : σ} :
    (pure b : Drawing σ α β).run s = (.ok c, s') ↔ b = c ∧ s = s' := by
  constructor
  · intro h
    obtain ⟨hb, hs⟩ := Prod.mk.inj h
    exact ⟨Except.ok.inj hb, hs⟩
  · rintro ⟨rfl, rfl⟩
    rfl

theorem run_throw_ne_ok {e : Error α} {s s' : σ} {b : β} :
    (throw e : Drawing σ α β).run s ≠ (.ok b, s') := by
  intro h
  cases (Prod.mk.inj h).1

theorem run_bind_eq_ok_iff {x : Drawing σ α β} {f : β → Drawing σ α γ} {s s' : σ} {c : γ} :
    (x >>= f).run s = (.ok c, s') ↔ ∃ b t, x.run s = (.ok b, t) ∧ (f b).run t = (.ok c, s') := by
  rw [run_bind_stateM]
  rcases hx : x.run s with ⟨fault | b, t⟩
  · constructor
    · intro h
      cases (Prod.mk.inj h).1
    · rintro ⟨b, t', h, -⟩
      cases (Prod.mk.inj h).1
  · constructor
    · intro h
      exact ⟨b, t, rfl, h⟩
    · rintro ⟨b', t', h, hf⟩
      obtain ⟨hb, rfl⟩ := Prod.mk.inj h
      obtain rfl := Except.ok.inj hb
      exact hf

end Drawing

variable [Elementary α]

theorem Method.integrate_isSampled {method : Method} {f : α → Except (Error α) α} {a b : α}
    {n : Nat} {supply : Supplier σ α} {s s' : σ} {q : Quadrature α}
    (h : (method.integrate f a b n supply).run s = (.ok q, s')) : q.IsSampled f := by
  cases Method.yields_of_integrate (congrArg Prod.fst h) with
  | trapezoidal _ hrule => exact Quadrature.trapezoidal_isSampled hrule
  | simpson _ hrule => exact Quadrature.simpson_isSampled hrule
  | midpoint _ hrule => exact Quadrature.midpoint_isSampled hrule
  | monteCarlo _ _ _ hrule => exact Quadrature.monteCarlo_isSampled hrule

/-- What a successful answer is made of. -/
theorem Request.exists_of_compute {request : Request α} {supply : Supplier σ α} {s s' : σ}
    {r : Result α} (h : (request.compute supply).run s = (.ok r, s')) :
    ∃ f q, Integrand.compile request.function = .ok f ∧
      (request.method.integrate f.at request.lower request.upper request.points supply).run s =
        (.ok q, s') ∧
      q.isFinite ∧
      r = ⟨q.value, request.method, request.points, q.xs, q.ys, q.errorEstimate⟩ := by
  obtain ⟨f, t, hf, h⟩ := Drawing.run_bind_eq_ok_iff.mp h
  obtain ⟨hcompile, rfl⟩ := Drawing.run_mk_pure_eq_ok_iff.mp hf
  obtain ⟨q, t, hq, h⟩ := Drawing.run_bind_eq_ok_iff.mp h
  split at h
  · rename_i hfinite
    obtain ⟨rfl, rfl⟩ := Drawing.run_pure_eq_ok_iff.mp h
    exact ⟨f, q, mapError_eq_ok_iff.mp hcompile, hq, hfinite, rfl⟩
  · exact absurd h Drawing.run_throw_ne_ok

/-- A computed answer: its samples are points of the compiled function with the values there, all
values and estimates are finite, the points are too if the expression mentions the variable, and the
method and the number of points are those of the request. -/
theorem Request.compute_sound {request : Request α} {supply : Supplier σ α} {s s' : σ}
    {r : Result α} (h : (request.compute supply).run s = (.ok r, s')) :
    r.xs.length = r.ys.length ∧
    (∃ f, Integrand.compile request.function = .ok f ∧
      (∀ i (hx : i < r.xs.length) (hy : i < r.ys.length), f.eval r.xs[i] = .ok r.ys[i]) ∧
      (f.tree.mentionsVar → ∀ x ∈ r.xs, Arithmetic.isFinite x)) ∧
    (∀ y ∈ r.ys, Arithmetic.isFinite y) ∧
    Arithmetic.isFinite r.value ∧
    (∀ estimate ∈ r.errorEstimate, Arithmetic.isFinite estimate) ∧
    r.points = request.points ∧ r.method = request.method := by
  obtain ⟨f, q, hcompile, hq, hfinite, rfl⟩ := exists_of_compute h
  have hsampled : List.Forall₂ (fun x y => f.eval x = .ok y) q.xs q.ys :=
    (Method.integrate_isSampled hq).imp fun x y hxy => mapError_eq_ok_iff.mp hxy
  obtain ⟨hlength, hvalues⟩ := List.forall₂_iff_get.mp hsampled
  obtain ⟨hvalue, hestimate⟩ := Bool.and_eq_true_iff.mp hfinite
  refine ⟨hlength, ⟨f, hcompile, hvalues, ?_⟩, ?_, hvalue, ?_, rfl, rfl⟩
  · intro hvar x hx
    obtain ⟨i, hi, rfl⟩ := List.getElem_of_mem hx
    exact Expr.isFinite_of_mentionsVar hvar (hvalues i hi (hlength ▸ hi))
  · intro y hy
    obtain ⟨i, hi, rfl⟩ := List.getElem_of_mem hy
    exact Expr.isFinite_of_eval (hvalues i (hlength ▸ hi) hi)
  · intro estimate hmem
    have hsome : q.errorEstimate = some estimate := hmem
    simpa [hsome] using hestimate

/-- Two draws in falling order: the samples are sorted, and each point keeps its value. -/
theorem Request.compute_sound_falling_draws :
    letI := Elementary.exact (fun _ x => x) (fun x _ => x) 3 3
    ((⟨"x", 0, 2, 2, .monteCarlo⟩ : Request ℚ).compute
        fun _ => (pure [3 / 4, 1 / 4] : Drawing Unit ℚ (List ℚ))).run () =
      (.ok ⟨2, .monteCarlo, 2, [1 / 2, 3 / 2], [1 / 2, 3 / 2], some (1 / 4)⟩, ()) ∧
    ∃ f : Integrand ℚ, Integrand.compile "x" = .ok f ∧
      f.eval (1 / 2) = .ok (1 / 2) ∧ f.eval (3 / 2) = .ok (3 / 2) := by
  refine ⟨by cbv, ?_⟩
  obtain ⟨-, ⟨f, hf, hvalues, -⟩, -⟩ :=
    @Request.compute_sound Unit ℚ (Elementary.exact (fun _ x => x) (fun x _ => x) 3 3)
      ⟨"x", 0, 2, 2, .monteCarlo⟩ (fun _ => pure [3 / 4, 1 / 4]) () ()
      ⟨2, .monteCarlo, 2, [1 / 2, 3 / 2], [1 / 2, 3 / 2], some (1 / 4)⟩ (by cbv)
  exact ⟨f, hf, hvalues 0 (by simp) (by simp), hvalues 1 (by simp) (by simp)⟩

end DefiniteIntegral
