import DefiniteIntegral.Number.Decimal

/-! The shortest decimal that reads back as a given floating-point number. For one digit, two, and
so on, the two neighbours of the number on that decimal grid are tried; the first grid with a hit
wins, and of two hits the nearer one. -/

namespace DefiniteIntegral

/-- Which neighbour is taken if two are equally near. -/
inductive Tie
  | up
  | even
deriving DecidableEq, Repr

/-- A positive number as a ratio, with the ends of the interval of reals that round to it over the
same denominator. The ends belong to the interval if the significand is even. -/
structure Rounding where
  den : Nat
  num : Nat
  low : Nat
  high : Nat
  closed : Bool
deriving Repr

namespace Rounding

/-- The interval of `significand * 2 ^ exponent`. Below a power of two the numbers lie twice as
dense, except at the bottom of the range. -/
def ofDyadic (d : Dyadic) : Rounding :=
  let atPower := d.significand = Nat.pow 2 52 ∧ Binary64.minExponent < d.exponent
  let scale := if 0 ≤ d.exponent then Nat.pow 2 d.exponent.toNat else 1
  { den := 4 * (if 0 ≤ d.exponent then 1 else Nat.pow 2 (-d.exponent).toNat)
    num := 4 * d.significand * scale
    low := (4 * d.significand - (if atPower then 1 else 2)) * scale
    high := (4 * d.significand + 2) * scale
    closed := d.significand % 2 = 0 }

/-- Whether `n * step / den` lies in the interval. -/
def contains (r : Rounding) (n step : Nat) : Bool :=
  let x := n * step
  if r.closed then r.low ≤ x && x ≤ r.high else r.low < x && x < r.high

/-- The nearest neighbour of the number among the multiples of `step / den` that lie in the
interval, if any does. -/
def hit? (r : Rounding) (tie : Tie) (step : Nat) : Option Nat :=
  let below := r.num / step
  let rest := r.num % step
  match r.contains below step, r.contains (below + 1) step with
  | false, false => none
  | true, false => some below
  | false, true => some (below + 1)
  | true, true =>
    if 2 * rest < step then some below
    else if step < 2 * rest then some (below + 1)
    else match tie with
      | .up => some (below + 1)
      | .even => some (below + below % 2)

/-- The first hit on the grids of `10 ^ (top - k)` for rising `k`, with `fuel` grids left. -/
def search (r : Rounding) (tie : Tie) : (fuel : Nat) → (exponent : Int) → Decimal
  | 0, exponent => ⟨0, exponent⟩
  | fuel + 1, exponent =>
    let (scaled, step) :=
      if 0 ≤ exponent then (r, r.den * Nat.pow 10 exponent.toNat)
      else
        let s := Nat.pow 10 (-exponent).toNat
        ({ r with num := r.num * s, low := r.low * s, high := r.high * s }, r.den)
    match scaled.hit? tie step with
    | some digits => ⟨digits, exponent⟩
    | none => search r tie fuel (exponent - 1)

end Rounding

/-- The decimal exponent of the leading digit of the positive ratio `num / den`. -/
def leadingExponent (num den : Nat) : Int :=
  let guess : Int := (digitCount num : Int) - digitCount den
  let reached :=
    if 0 ≤ guess then den * Nat.pow 10 guess.toNat ≤ num
    else den ≤ num * Nat.pow 10 (-guess).toNat
  if reached then guess else guess - 1

/-- The decimal with the fewest digits that reads back as the finite number `x`, without its sign,
the nearest one of those. -/
def shortest (tie : Tie) (x : Float) : Decimal :=
  let d := Binary64.decode x
  if d.significand = 0 then ⟨0, 0⟩
  else
    let r := Rounding.ofDyadic d
    Decimal.dropZeros 18 (r.search tie 18 (leadingExponent r.num r.den))

end DefiniteIntegral
