import DefiniteIntegral.Proofs.Integration.Outcomes

/-! # Random numbers

A request asks its supplier for nothing, or for one batch of as many random numbers as it has
points. It asks only when it is a Monte Carlo request with an expression and enough points, and then
the batch is all that it depends on. -/

namespace DefiniteIntegral

variable {σ τ α : Type}

/-- A supplier that also writes down how long the batches are that it is asked for. -/
def Supplier.logged (supply : Supplier σ α) : Supplier (σ × List Nat) α := fun n =>
  ExceptT.mk fun (s, asked) =>
    let (batch, t) := (supply n).run s
    (batch, t, asked ++ [n])

namespace Request

variable [Elementary α] {request : Request α} {f : Integrand α}

/-! ## Asking for nothing -/

/-- A request comes to one outcome whoever supplies random numbers, and leaves the supplier as it
is. -/
def AsksNothing (request : Request α) (outcome : Except (Error α) (Result α)) : Prop :=
  ∀ ⦃σ : Type⦄ (supply : Supplier σ α) (s : σ), (request.compute supply).run s = (outcome, s)

theorem asksNothing_of_compile_error {fault : ExpressionFault α}
    (h : Integrand.compile request.function = .error fault) :
    request.AsksNothing (.error (.invalidExpression fault)) := fun _ _ _ =>
  run_compute_of_compile_error h

theorem asksNothing_of_lt (hf : Integrand.compile request.function = .ok f)
    (hn : request.points < request.method.minPoints) :
    request.AsksNothing (.error (.invalidRequest (.tooFewPoints request.method request.points))) :=
  fun _ supply s => by
    rw [run_compute_of_compile hf, estimate, Method.run_integrate_of_lt supply s hn]
    rfl

theorem exists_asksNothing (hgrid : request.method ≠ .monteCarlo) :
    ∃ outcome, request.AsksNothing outcome := by
  cases hcompile : (Integrand.compile request.function : Except (ExpressionFault α) _) with
  | error fault => exact ⟨_, asksNothing_of_compile_error hcompile⟩
  | ok f =>
      -- The outcome is the one next to any supplier, such as one that has no numbers.
      let noSupply : Supplier Unit α := fun _ => pure []
      refine ⟨(request.estimate f noSupply ()).1 >>= request.conclude f, fun _ supply s => ?_⟩
      rw [run_compute_of_compile hcompile, estimate, Method.run_integrate_snd supply s hgrid,
        Method.run_integrate_supply hgrid _ _ _ _ supply s noSupply ()]
      rfl

/-! ## Asking once -/

/-- A request asks for one batch of as many random numbers as it has points. It fails as the batch
does, and otherwise comes to what the numbers give. -/
def AsksOnce (request : Request α) (answer : List α → Except (Error α) (Result α)) : Prop :=
  ∀ ⦃σ : Type⦄ (supply : Supplier σ α) (s : σ), (request.compute supply).run s =
    (((supply request.points).run s).1 >>= answer, ((supply request.points).run s).2)

theorem asksOnce_of_le (hf : Integrand.compile request.function = .ok f)
    (hmethod : request.method = .monteCarlo) (hn : request.method.minPoints ≤ request.points) :
    request.AsksOnce fun draws =>
      Quadrature.monteCarlo f.at request.lower request.upper request.points draws >>=
        request.conclude f := by
  intro σ supply s
  rw [hmethod] at hn
  rw [run_compute_of_compile hf, estimate, hmethod, Method.run_integrate_monteCarlo supply s hn,
    bind_assoc]

theorem AsksOnce.compute_eq {answer : List α → Except (Error α) (Result α)}
    (h : request.AsksOnce answer) {supply : Supplier σ α} {s : σ} {supply' : Supplier τ α} {t : τ}
    (hbatch : ((supply request.points).run s).1 = ((supply' request.points).run t).1) :
    ((request.compute supply).run s).1 = ((request.compute supply').run t).1 := by
  rw [h, h, hbatch]

/-! ## Every request -/

theorem asksNothing_or_asksOnce (request : Request α) :
    (∃ outcome, request.AsksNothing outcome) ∨ ∃ answer, request.AsksOnce answer := by
  cases hcompile : (Integrand.compile request.function : Except (ExpressionFault α) _) with
  | error fault => exact .inl ⟨_, asksNothing_of_compile_error hcompile⟩
  | ok f =>
      by_cases hmethod : request.method = .monteCarlo
      · by_cases hn : request.points < request.method.minPoints
        · exact .inl ⟨_, asksNothing_of_lt hcompile hn⟩
        · exact .inr ⟨_, asksOnce_of_le hcompile hmethod (Nat.le_of_not_lt hn)⟩
      · exact .inl (exists_asksNothing hmethod)

/-- Writing down the batches changes neither the outcome nor what becomes of the supplier. -/
theorem run_compute_logged (request : Request α) (supply : Supplier σ α) (s : σ)
    (asked : List Nat) :
    ((request.compute supply.logged).run (s, asked)).1 = ((request.compute supply).run s).1 ∧
      ((request.compute supply.logged).run (s, asked)).2.1 =
        ((request.compute supply).run s).2 := by
  rcases request.asksNothing_or_asksOnce with ⟨outcome, h⟩ | ⟨answer, h⟩
  · rw [h, h]
    exact ⟨rfl, rfl⟩
  · rw [h, h]
    exact ⟨rfl, rfl⟩

/-- Only a Monte Carlo request uses randomness. One with an expression and enough points asks for
one batch, of its number of points; it fails as the batch does, and equal batches make equal
outcomes. A request of another method, or one that is refused, asks for nothing. -/
theorem compute_randomness (request : Request Float) (supply : Supplier σ Float) (s : σ)
    (supply' : Supplier τ Float) (t : τ) :
    let run := (request.compute supply).run s
    let run' := (request.compute supply').run t
    let batch := (supply request.points).run s
    let batch' := (supply' request.points).run t
    let logged := (request.compute supply.logged).run (s, [])
    (logged.1 = run.1 ∧ logged.2.1 = run.2) ∧
    (request.method ≠ .monteCarlo →
      run.1 = run'.1 ∧ run.2 = s ∧ run'.2 = t ∧ logged.2.2 = []) ∧
    (request.method = .monteCarlo →
      (∀ fault : ExpressionFault Float, Integrand.compile request.function = .error fault →
        run = (.error (.invalidExpression fault), s) ∧ logged.2.2 = []) ∧
      ∀ f : Integrand Float, Integrand.compile request.function = .ok f →
        (request.points < request.method.minPoints →
          run = (.error (.invalidRequest (.tooFewPoints request.method request.points)), s) ∧
            logged.2.2 = []) ∧
        (request.method.minPoints ≤ request.points →
          logged.2.2 = [request.points] ∧ run.2 = batch.2 ∧
          (∀ e, batch.1 = .error e → run.1 = .error e) ∧
          (∀ draws, batch.1 = .ok draws → batch'.1 = .ok draws → run.1 = run'.1) ∧
          ∀ source : Source, ((request.compute Source.draw).run source).2 =
            ⟨source.kind, source.stream.key, source.stream.place + request.points⟩)) := by
  refine ⟨request.run_compute_logged supply s [], fun hgrid => ?_, fun hmethod =>
    ⟨fun fault hfault => ?_, fun f hf => ⟨fun hn => ?_, fun hn => ?_⟩⟩⟩
  · obtain ⟨outcome, h⟩ := exists_asksNothing hgrid
    simp only [h supply s, h supply' t, h supply.logged, and_self]
  · have h := asksNothing_of_compile_error hfault
    simp only [h supply s, h supply.logged, and_self]
  · have h := asksNothing_of_lt hf hn
    simp only [h supply s, h supply.logged, and_self]
  · have h := asksOnce_of_le hf hmethod hn
    refine ⟨?_, ?_, fun e he => ?_, fun draws hdraws hdraws' => ?_, fun source => ?_⟩
    · rw [h]
      rfl
    · rw [h]
    · rw [h, he]
      rfl
    · exact h.compute_eq (hdraws.trans hdraws'.symm)
    · rw [h]
      rfl

/-- A supplier without random numbers matters to a Monte Carlo request only. -/
theorem compute_randomness_broken :
    let broken : Supplier Unit Float := fun _ => throw (.server .noNetwork)
    let source := Source.ofKind 0 42 .seeded
    let sampled : Request Float := ⟨"x", 0, 1, 10, .monteCarlo⟩
    let even : Request Float := { sampled with method := .trapezoidal }
    ((even.compute broken).run ()).1 = ((even.compute Source.draw).run source).1 ∧
    ((even.compute Source.draw).run source).2 = source ∧
    ((sampled.compute broken).run ()).1 = .error (.server .noNetwork) ∧
    ((sampled.compute broken.logged).run ((), [])).2.2 = [10] ∧
    ((sampled.compute Source.draw).run source).2 = ⟨.seeded, source.stream.key, 10⟩ := by
  intro broken source sampled even
  have hf : Integrand.compile "x" = .ok (⟨"x", .var⟩ : Integrand Float) :=
    toOption_eq_some_iff.mp (by decide +kernel)
  obtain ⟨-, heven, -⟩ := compute_randomness even broken () Source.draw source
  obtain ⟨houtcome, -, hstate, -⟩ := heven nofun
  obtain ⟨-, -, hsampled⟩ := compute_randomness sampled broken () Source.draw source
  obtain ⟨-, henough⟩ := (hsampled rfl).2 _ hf
  obtain ⟨hasked, -, hfails, -, hadvanced⟩ := henough (by decide)
  exact ⟨houtcome, hstate, hfails _ rfl, hasked, hadvanced source⟩

end Request

end DefiniteIntegral
