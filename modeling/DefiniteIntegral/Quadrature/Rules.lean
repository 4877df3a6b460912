import DefiniteIntegral.Quadrature.Samples
import DefiniteIntegral.Quadrature.Method

/-! The quadrature rules. Each gives its estimate, the points sampled for plotting with the values
there, and an error estimate if there are enough samples for one. Bounds in falling order give the
negated integral. -/

namespace DefiniteIntegral

/-- What a rule finds. -/
structure Quadrature (α : Type) where
  value : α
  xs : List α
  ys : List α
  errorEstimate : Option α
deriving DecidableEq, Repr

namespace Quadrature

open Arithmetic

variable {α ε : Type} [Arithmetic α]

/-- The trapezoidal rule on `n` nodes: half weight at the two ends, full weight between them. The
error estimate is `|b - a| ^ 3 / (12 n ^ 2)` times the second divided difference of the first three
values, with the width of a step cancelled. -/
def trapezoidal (f : α → Except ε α) (a b : α) (n : Nat) (hn : 2 ≤ n) :
    Except ε (Quadrature α) := do
  let xs := grid a b n
  let ⟨ys, hy⟩ ← sample f xs
  have length_ys : ys.length = n := by simpa [xs] using hy
  let steps : α := ((n - 1 : Nat) : α)
  let h := (b - a) / steps
  let interior := sum (slice ys 1 (n - 1) (by omega))
  let value := h * (half * ys[0] + interior + half * ys[n - 1])
  let errorEstimate :=
    if enough : 2 < n then
      some (abs (b - a) * steps * steps * secondDifference ys (by omega) /
        (((12 : Nat) : α) * (n : α) * (n : α)))
    else none
  return { value, xs, ys, errorEstimate }

/-- The least odd number that is no less than `n`. -/
def oddCount (n : Nat) : Nat :=
  if n % 2 = 0 then n + 1 else n

/-- Simpson's rule on an odd number of nodes, one more than asked for if that is even. -/
def simpson (f : α → Except ε α) (a b : α) (n : Nat) (hn : 2 ≤ n) :
    Except ε (Quadrature α) := do
  let n := oddCount n
  have three_le : 3 ≤ n := by simp only [n, oddCount]; split <;> omega
  let xs := grid a b n
  let ⟨ys, hy⟩ ← sample f xs
  have length_ys : ys.length = n := by simpa [xs] using hy
  let steps : α := ((n - 1 : Nat) : α)
  let h := (b - a) / steps
  let odd := sum (everyOther (slice ys 1 (n - 1) (by omega)))
  let even := sum (everyOther (slice ys 2 (n - 1) (by omega)))
  let value := h / ((3 : Nat) : α) *
    (ys[0] + ys[n - 1] + ((4 : Nat) : α) * odd + ((2 : Nat) : α) * even)
  let errorEstimate :=
    if enough : 4 < n then
      some (abs (b - a) * fourthPower steps * fourthDifference ys (by omega) /
        (((180 : Nat) : α) * fourthPower (n : α)))
    else none
  return { value, xs, ys, errorEstimate }

/-- The midpoint rule on `n` cells. The value uses the middles of the cells; the samples are their
`n + 1` boundaries, evaluated afterwards. -/
def midpoint (f : α → Except ε α) (a b : α) (n : Nat) : Except ε (Quadrature α) := do
  let h := (b - a) / (n : α)
  let ⟨middles, _⟩ ← sample f (midpoints a b n)
  let value := h * sum middles
  let xs := grid a b (n + 1)
  let ⟨ys, hy⟩ ← sample f xs
  have length_ys : ys.length = n + 1 := by simpa [xs] using hy
  let errorEstimate :=
    if enough : 2 < n then
      some (abs (b - a) * secondDifference ys (by omega) / ((24 : Nat) : α))
    else none
  return { value, xs, ys, errorEstimate }

/-- The point of an interval, in either order of its bounds, that a draw from `[0, 1)` stands
for. -/
def drawnPoint (a b u : α) : α :=
  let (low, high) := if le a b then (a, b) else (b, a)
  low + (high - low) * u

/-- The Monte Carlo estimate from the points of a list of `n` draws: the width times the mean of the
values, with the standard error of the mean. The samples are sorted by their points, and equal
points keep the order of the draws. -/
def monteCarlo (f : α → Except ε α) (a b : α) (n : Nat) (draws : List α) :
    Except ε (Quadrature α) := do
  let points := draws.map (drawnPoint a b)
  let ⟨values, _⟩ ← sample f points
  let count : α := (n : α)
  let mean := sum values / count
  let variance := sum (values.map fun v => square (v - mean)) / count
  let samples := (points.zip values).mergeSort fun p q => precedes p.1 q.1
  return {
    value := (b - a) * mean
    xs := samples.map Prod.fst
    ys := samples.map Prod.snd
    errorEstimate := some (abs (b - a) * sqrt variance / sqrt count) }

end Quadrature

end DefiniteIntegral
