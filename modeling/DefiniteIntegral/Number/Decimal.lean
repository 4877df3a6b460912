import DefiniteIntegral.Number.Binary64

/-! Decimal numerals: a whole number of units `10 ^ exponent`, written down, read, and rounded to a
binary floating-point number. -/

namespace DefiniteIntegral

/-- The exact value `digits * 10 ^ exponent`. -/
structure Decimal where
  digits : Nat
  exponent : Int
deriving DecidableEq, Repr

/-- The number of decimal digits of a natural number; zero has one. -/
def digitCount (n : Nat) : Nat :=
  n.repr.length

/-- The value of a list of decimal digits. -/
def valueOfDigits (cs : List Char) : Nat :=
  cs.foldl (fun n c => 10 * n + (c.toNat - '0'.toNat)) 0

namespace Decimal

/-- The value as a ratio of natural numbers. -/
def toRatio (d : Decimal) : Nat × Nat :=
  if 0 ≤ d.exponent then (d.digits * Nat.pow 10 d.exponent.toNat, 1)
  else (d.digits, Nat.pow 10 (-d.exponent).toNat)

/-- The floating-point number nearest to the value. Far above the largest one this is infinity and
far below the smallest one zero, without forming the power of ten. -/
def toFloat (d : Decimal) : Float :=
  let magnitude := (digitCount d.digits : Int) + d.exponent
  if d.digits = 0 ∨ magnitude < -330 then 0.0
  else if 310 < magnitude then Float.ofBits (UInt64.ofNat Binary64.infinityBits)
  else
    let (num, den) := d.toRatio
    Binary64.ofRatio num den

/-- The same value with as few digits as can be, at most `fuel` of them taken off. -/
def dropZeros : Nat → Decimal → Decimal
  | 0, d => d
  | fuel + 1, d =>
    if d.digits ≠ 0 ∧ d.digits % 10 = 0 then dropZeros fuel ⟨d.digits / 10, d.exponent + 1⟩ else d

end Decimal

/-! ## Reading -/

/-- A numeral split where its notation changes: whole digits, digits after the point if there is a
point, exponent if there is one. -/
structure Numeral where
  whole : List Char
  fraction : List Char
  exponent : Option (Bool × List Char)
deriving DecidableEq, Repr

namespace Numeral

/-- The value, if the numeral has a digit before its exponent. -/
def value? (n : Numeral) : Option Decimal :=
  if n.whole = [] ∧ n.fraction = [] then none
  else
    let shift : Int := match n.exponent with
      | none => 0
      | some (negative, ds) => if negative then -(valueOfDigits ds : Int) else valueOfDigits ds
    some ⟨valueOfDigits (n.whole ++ n.fraction), shift - n.fraction.length⟩

end Numeral

/-- The longest start of a text that has the shape of a numeral, `12`, `1.`, `.5` or `1.5e-3`, as
it stands there, its parts, and what follows. An exponent belongs to it only with a digit. -/
def spanNumeral (cs : List Char) : List Char × Numeral × List Char :=
  let (whole, rest) := cs.span Char.isDigit
  let (point, fraction, rest) := match rest with
    | '.' :: tail => let (ds, rest) := tail.span Char.isDigit; (['.'], ds, rest)
    | _ => ([], [], rest)
  let (mark, tail) := match rest with
    | 'e' :: tail => (['e'], tail)
    | 'E' :: tail => (['E'], tail)
    | _ => ([], rest)
  let (sign, tail) := match tail with
    | '+' :: tail => (['+'], tail)
    | '-' :: tail => (['-'], tail)
    | _ => ([], tail)
  let (ds, tail) := tail.span Char.isDigit
  if mark = [] ∨ ds = [] then (whole ++ point ++ fraction, ⟨whole, fraction, none⟩, rest)
  else (whole ++ point ++ fraction ++ mark ++ sign ++ ds,
    ⟨whole, fraction, some (sign = ['-'], ds)⟩, tail)

/-- An unsigned floating-point text: a numeral, or the name of infinity or of no number, in any
case of letters. -/
def readMagnitude? (cs : List Char) : Option Float :=
  let name := String.ofList (cs.map Char.toLower)
  if name = "inf" ∨ name = "infinity" then some (Float.ofBits (UInt64.ofNat Binary64.infinityBits))
  else if name = "nan" then some (0.0 / 0.0)
  else
    match spanNumeral cs with
    | (_, numeral, []) => numeral.value?.map Decimal.toFloat
    | _ => none

/-- A floating-point text with or without a sign. Nothing may stand around it. -/
def readFloat? (text : String) : Option Float :=
  match text.toList with
  | '-' :: cs => (readMagnitude? cs).map (- ·)
  | '+' :: cs => readMagnitude? cs
  | cs => readMagnitude? cs

/-- A natural number below `bound`: digits, after at most one plus sign. -/
def readNat? (bound : Nat) (text : String) : Option Nat :=
  let ds := match text.toList with
    | '+' :: cs => cs
    | cs => cs
  if ds ≠ [] ∧ ds.all Char.isDigit ∧ valueOfDigits ds < bound then some (valueOfDigits ds) else none

end DefiniteIntegral
