import DefiniteIntegral.Number.Decimal

/-! Numbers in JSON texts. Whole numbers of 64 bits are kept as they are. Any other numeral becomes
a floating-point number in two steps: its digits are gathered into a 64-bit significand, as many as
fit, and the significand is then scaled by powers of ten, rounding each time. -/

namespace DefiniteIntegral.Json

/-- The first natural number that does not fit 64 bits. -/
def wordBound : Nat := UInt64.size

/-- A number that a JSON text holds. -/
inductive Number
  | natural (n : Nat)
  | negative (n : Int)
  | real (x : Float)
deriving Repr

/-- The parts of a numeral. -/
structure NumeralText where
  negative : Bool
  whole : List Char
  fraction : List Char
  exponent : Option (Bool × List Char)
deriving DecidableEq, Repr

/-- The digits of the fraction at the head of a text, if there is one, and what follows. After a
point there has to be a digit. -/
def spanPoint? (cs : List Char) : Option (List Char × List Char) :=
  match cs with
  | '.' :: cs =>
    match cs.span Char.isDigit with
    | ([], _) => none
    | (digits, rest) => some (digits, rest)
  | _ => some ([], cs)

/-- The sign at the head of a text, whether it is a minus, and what follows. -/
def dropSign (cs : List Char) : Bool × List Char :=
  match cs with
  | '+' :: cs => (false, cs)
  | '-' :: cs => (true, cs)
  | _ => (false, cs)

/-- The exponent at the head of a text, if there is one, and what follows. After its mark there has
to be a digit. -/
def spanPower? (cs : List Char) : Option (Option (Bool × List Char) × List Char) :=
  match cs with
  | [] => some (none, [])
  | c :: tail =>
    if c = 'e' ∨ c = 'E' then
      match (dropSign tail).2.span Char.isDigit with
      | ([], _) => none
      | (digits, rest) => some (some ((dropSign tail).1, digits), rest)
    else some (none, cs)

/-- The numeral at the head of a text after its sign, and what follows. A leading zero stands
alone. -/
def spanUnsigned? (negative : Bool) (cs : List Char) : Option (NumeralText × List Char) := do
  let (whole, rest) := cs.span Char.isDigit
  if whole = [] ∨ (whole.head? = some '0' ∧ 1 < whole.length) then none
  else
    let (fraction, rest) ← spanPoint? rest
    let (exponent, rest) ← spanPower? rest
    return (⟨negative, whole, fraction, exponent⟩, rest)

/-- The numeral at the head of a text, and what follows it: perhaps a minus sign, digits without a
leading zero, then digits after a point and an exponent, both optional but not empty. -/
def spanNumeral? (cs : List Char) : Option (NumeralText × List Char) :=
  match cs with
  | '-' :: cs => spanUnsigned? true cs
  | _ => spanUnsigned? false cs

/-- Digits gathered into a significand while it fits 64 bits, with the number of digits left. -/
def gather (significand : Nat) : List Char → Nat × Nat
  | [] => (significand, 0)
  | c :: cs =>
    let next := 10 * significand + (c.toNat - '0'.toNat)
    if next < wordBound then gather next cs else (significand, cs.length + 1)

/-- The largest exponent with a power of ten below infinity. -/
def maxPower : Nat := 308

/-- The number `10 ^ k`. -/
def powerOfTen (k : Nat) : Float :=
  Decimal.toFloat ⟨1, k⟩

/-- A number scaled by `10 ^ exponent`, in steps where the exponent is far below zero; none if the
result is too large. -/
def scale (x : Float) (exponent : Int) : Option Float :=
  if 0 ≤ exponent then
    if exponent ≤ maxPower then
      let y := x * powerOfTen exponent.toNat
      if y.isInf then none else some y
    else if x == 0.0 then some x
    else none
  else if -(maxPower : Int) ≤ exponent then some (x / powerOfTen (-exponent).toNat)
  else if x == 0.0 then some x
  else scale (x / powerOfTen maxPower) (exponent + maxPower)
termination_by (-exponent).toNat
decreasing_by simp only [maxPower] at *; omega

/-- The range that exponents are held to. -/
def exponentLimit : Nat := Nat.pow 2 31

/-- The value of a numeral; none if it is too large for a floating-point number. -/
def NumeralText.value? (n : NumeralText) : Option Number :=
  let (significand, left) := gather 0 n.whole
  if left = 0 ∧ n.fraction = [] ∧ n.exponent = none then
    if ¬ n.negative then some (.natural significand)
    else if significand = 0 ∨ Nat.pow 2 63 < significand then
      some (.real (-(UInt64.ofNat significand).toFloat))
    else some (.negative (-(significand : Int)))
  else
    let (significand, dropped) := gather significand n.fraction
    let start : Int := (left : Int) - ((n.fraction.length - dropped : Nat) : Int)
    let magnitude : Option Float := match n.exponent with
      | none => scale (UInt64.ofNat significand).toFloat start
      | some (below, ds) =>
        let shift := valueOfDigits ds
        if exponentLimit ≤ shift then
          if significand ≠ 0 ∧ ¬ below then none else some 0.0
        else
          let total := if below then start - shift else start + shift
          let held := max (-(exponentLimit : Int)) (min ((exponentLimit : Int) - 1) total)
          scale (UInt64.ofNat significand).toFloat held
    magnitude.map fun x => .real (if n.negative then -x else x)

end DefiniteIntegral.Json
