import DefiniteIntegral.Number.Shortest

/-! The written forms of floating-point numbers: one record says what a text format decides, and
the digits come from the shortest decimal or from rounding to a fixed number of places. -/

namespace DefiniteIntegral

/-- The decisions of a text format about floating-point numbers. -/
structure Layout where
  /-- Which neighbour is taken if two shortest decimals are equally near. -/
  tie : Tie
  /-- The exponents of the leading digit that are written without an exponent part, if bounded:
  the least one and the first one above them. -/
  positional : Option (Int × Int)
  /-- What follows a whole number that has no exponent part. -/
  wholeEnd : String
  /-- What stands before a positive exponent. -/
  plus : String
  nan : String
  infinity : String
  minusInfinity : String
deriving Repr

namespace Layout

/-- Messages, comma-separated rows and summaries: never an exponent, nothing after whole
numbers, and a half goes up. -/
def plain : Layout where
  tie := .up
  positional := none
  wholeEnd := ""
  plus := ""
  nan := "NaN"
  infinity := "inf"
  minusInfinity := "-inf"

/-- JSON: an exponent part below `10 ^ -5` and from `10 ^ 16` on, with its sign, a half goes to the
even neighbour, and `null` for what JSON has no numeral for. -/
def json : Layout where
  tie := .even
  positional := some (-5, 16)
  wholeEnd := ".0"
  plus := "+"
  nan := "null"
  infinity := "null"
  minusInfinity := "null"

end Layout

/-- `n` zeros. -/
def zeros (n : Nat) : String :=
  "".pushn '0' n

/-- The digits with a point before the last `places` of them. -/
def withPoint (digits : Nat) (places : Nat) : String :=
  let text := digits.repr
  let padded := zeros (places + 1 - text.length) ++ text
  let whole := padded.toList.take (padded.length - places)
  let fraction := padded.toList.drop (padded.length - places)
  String.ofList whole ++ "." ++ String.ofList fraction

/-- A decimal without an exponent part. -/
def Decimal.positional (wholeEnd : String) (d : Decimal) : String :=
  if 0 ≤ d.exponent then d.digits.repr ++ zeros d.exponent.toNat ++ wholeEnd
  else withPoint d.digits (-d.exponent).toNat

/-- Digits with a point after the first, if there are others, and an exponent part. -/
def scientific (plus : String) (digits : Nat) (leading : Int) : String :=
  let mantissa := match digits.repr.toList with
    | c :: d :: ds => String.ofList (c :: '.' :: d :: ds)
    | cs => String.ofList cs
  mantissa ++ "e" ++ (if 0 ≤ leading then plus ++ leading.toNat.repr
    else "-" ++ (-leading).toNat.repr)

/-- The exponent of the leading digit. -/
def Decimal.leading (d : Decimal) : Int :=
  d.exponent + digitCount d.digits - 1

/-- The text of a decimal in a layout. -/
def Layout.writeDecimal (layout : Layout) (d : Decimal) : String :=
  match layout.positional with
  | none => d.positional layout.wholeEnd
  | some (least, above) =>
    if d.digits = 0 ∨ (least ≤ d.leading ∧ d.leading < above) then d.positional layout.wholeEnd
    else scientific layout.plus d.digits d.leading

/-- A number that is not finite, or the given text for a finite one after the sign. -/
def Layout.withSign (layout : Layout) (x : Float) (finite : String) : String :=
  if x.isNaN then layout.nan
  else if x.isInf then if x < 0 then layout.minusInfinity else layout.infinity
  else if (Binary64.decode x).negative then "-" ++ finite else finite

/-- The text of a number with the fewest digits that read back. -/
def Layout.write (layout : Layout) (x : Float) : String :=
  layout.withSign x (layout.writeDecimal (shortest layout.tie x))

/-- A number in plain notation. -/
def plainText (x : Float) : String :=
  Layout.plain.write x

/-! ## Rounded to a number of places -/

/-- A number with `places` digits after the point, a half going to the even digit. -/
def fixedText (places : Nat) (x : Float) : String :=
  let d := Binary64.decode x
  let scaled := d.significand * Nat.pow 10 places
  let rounded :=
    if 0 ≤ d.exponent then scaled * Nat.pow 2 d.exponent.toNat
    else roundHalfEven scaled (Nat.pow 2 (-d.exponent).toNat)
  Layout.plain.withSign x (withPoint rounded places)

/-- The first `places + 1` digits of a positive ratio, a half going to the even digit, and the
exponent of the leading one. -/
def significantDigits (places : Nat) (num den : Nat) : Nat × Int :=
  let leading := leadingExponent num den
  let shift := leading - places
  let rounded :=
    if 0 ≤ shift then roundHalfEven num (den * Nat.pow 10 shift.toNat)
    else roundHalfEven (num * Nat.pow 10 (-shift).toNat) den
  if rounded < Nat.pow 10 (places + 1) then (rounded, leading) else (rounded / 10, leading + 1)

/-- A number with one digit before the point, `places` after it and an exponent part. -/
def scientificText (places : Nat) (x : Float) : String :=
  let d := Binary64.decode x
  let finite :=
    if d.significand = 0 then withPoint 0 places ++ "e0"
    else
      let (num, den) :=
        if 0 ≤ d.exponent then (d.significand * Nat.pow 2 d.exponent.toNat, 1)
        else (d.significand, Nat.pow 2 (-d.exponent).toNat)
      let (digits, leading) := significantDigits places num den
      scientific "" digits leading
  Layout.plain.withSign x finite

end DefiniteIntegral
