import DefiniteIntegral.Integration.Request
import DefiniteIntegral.Quadrature.Rules

/-! Computing an integral: the expression is compiled, the method samples it, and the estimate has
to be finite. Random numbers come from a supplier with a state; a computation says what it does to
that state, whether it succeeds or not. -/

namespace DefiniteIntegral

/-- A computation that can fail with an error, next to a supplier of random numbers in a state. -/
abbrev Drawing (σ α : Type) := ExceptT (Error α) (StateM σ)

/-- A supplier of random numbers: a batch of some size, or a failure, from the state it is in. -/
abbrev Supplier (σ α : Type) := Nat → Drawing σ α (List α)

variable {σ α : Type} [Elementary α]

/-- The integral of a function by a method. Only Monte Carlo asks for random numbers, once. -/
def Method.integrate (method : Method) (f : α → Except (Error α) α) (a b : α) (n : Nat)
    (supply : Supplier σ α) : Drawing σ α (Quadrature α) :=
  if h : n < method.minPoints then throw (.invalidRequest (.tooFewPoints method n))
  else
    match method, h with
    | .trapezoidal, h => liftExcept (Quadrature.trapezoidal f a b n (Nat.le_of_not_lt h))
    | .simpson, h => liftExcept (Quadrature.simpson f a b n (Nat.le_of_not_lt h))
    | .midpoint, _ => liftExcept (Quadrature.midpoint f a b n)
    | .monteCarlo, _ => do
      let draws ← supply n
      liftExcept (Quadrature.monteCarlo f a b n draws)
where
  liftExcept {β : Type} (outcome : Except (Error α) β) : Drawing σ α β :=
    ExceptT.mk (pure outcome)

/-- An integrand as a function that fails with an error at a point. -/
def Integrand.at (f : Integrand α) (x : α) : Except (Error α) α :=
  (f.eval x).mapError (.evaluation x)

/-- Whether an estimate and its error, if there is one, are finite. -/
def Quadrature.isFinite (q : Quadrature α) : Bool :=
  Arithmetic.isFinite q.value && q.errorEstimate.all Arithmetic.isFinite

/-- The answer to a request. Finite samples can still sum up to a value that is not. -/
def Request.compute (request : Request α) (supply : Supplier σ α) : Drawing σ α (Result α) := do
  let f ← ExceptT.mk (pure ((Integrand.compile request.function).mapError .invalidExpression))
  let q ← request.method.integrate f.at request.lower request.upper request.points supply
  if q.isFinite then
    return {
      value := q.value
      method := request.method
      points := request.points
      xs := q.xs
      ys := q.ys
      errorEstimate := q.errorEstimate }
  else
    throw (.invalidRequest (.overflow f.source request.lower request.upper))

end DefiniteIntegral
