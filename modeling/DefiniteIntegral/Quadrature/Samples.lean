import DefiniteIntegral.Arithmetic

/-! Sampling a function: the points of an even grid, the values there up to the first failure, and
the parts of a list of values that the rules use. -/

namespace DefiniteIntegral

variable {α ε : Type}

/-- `n` evenly spaced points from `start` to `stop`, both included; the last one is `stop` itself.
The points fall if `stop` is below `start`. -/
def grid [Arithmetic α] (start stop : α) : Nat → List α
  | 0 => []
  | 1 => [start]
  | n + 2 =>
    let step := (stop - start) / ((n + 1 : Nat) : α)
    (List.range (n + 1)).map (fun (i : Nat) => start + (i : α) * step) ++ [stop]

@[simp] theorem length_grid [Arithmetic α] (start stop : α) (n : Nat) :
    (grid start stop n).length = n := by
  match n with
  | 0 => rfl
  | 1 => rfl
  | n + 2 => simp [grid]

/-- The middles of `n` equal cells between `a` and `b`. -/
def midpoints [Arithmetic α] (a b : α) (n : Nat) : List α :=
  let h := (b - a) / (n : α)
  (List.range n).map fun (i : Nat) => a + ((i : α) + Arithmetic.half) * h

/-- The values of a function at the points of a list, in order, up to the first failure. -/
def sample (f : α → Except ε α) : (xs : List α) → Except ε { ys : List α // ys.length = xs.length }
  | [] => .ok ⟨[], rfl⟩
  | x :: xs => do
    let y ← f x
    let ys ← sample f xs
    return ⟨y :: ys.val, by simp [ys.property]⟩

/-- The values from position `first` up to, and without, position `stop`. -/
def slice (ys : List α) (first stop : Nat) (_ : first ≤ stop ∧ stop ≤ ys.length) : List α :=
  (ys.take stop).drop first

/-- Every other value, from the first one on. -/
def everyOther : List α → List α
  | y :: _ :: ys => y :: everyOther ys
  | ys => ys

/-- The second difference of the first three values, without its sign. -/
def secondDifference [Arithmetic α] (ys : List α) (h : 3 ≤ ys.length) : α :=
  Arithmetic.abs (ys[2] - ((2 : Nat) : α) * ys[1] + ys[0])

/-- The fourth difference of the first five values, without its sign. -/
def fourthDifference [Arithmetic α] (ys : List α) (h : 5 ≤ ys.length) : α :=
  Arithmetic.abs (ys[4] - ((4 : Nat) : α) * ys[3] + ((6 : Nat) : α) * ys[2] -
    ((4 : Nat) : α) * ys[1] + ys[0])

end DefiniteIntegral
