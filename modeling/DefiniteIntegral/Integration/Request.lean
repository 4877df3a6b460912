import DefiniteIntegral.Error

/-! Requests for an integral and the records that answer them. -/

namespace DefiniteIntegral

/-- A request: an expression, the bounds, the number of points asked for and the method. -/
structure Request (α : Type) where
  function : String
  lower : α
  upper : α
  points : Nat
  method : Method
deriving DecidableEq, Repr

/-- The number of points of a request that names none. -/
def standardPoints : Nat := 100

/-- The answer to a request. The number of points is the one that was asked for; how many were
sampled is the length of the lists. -/
structure Result (α : Type) where
  value : α
  method : Method
  points : Nat
  xs : List α
  ys : List α
  errorEstimate : Option α
deriving DecidableEq, Repr

/-- Whether a request may be computed: its bounds are finite and its number of points is in range.
The expression is checked when it is compiled. -/
def Request.validate {α : Type} [Arithmetic α] (request : Request α) : Except (Error α) Unit :=
  if ¬ (Arithmetic.isFinite request.lower && Arithmetic.isFinite request.upper) then
    .error (.invalidRequest (.boundsNotFinite request.lower request.upper))
  else if ¬ (minRequestPoints ≤ request.points ∧ request.points ≤ maxRequestPoints) then
    .error (.invalidRequest (.pointsOutOfRange request.points))
  else .ok ()

end DefiniteIntegral
