/-! Binary floating-point numbers as exact values: a finite number is a sign and a whole number of
units `2 ^ exponent`, and a ratio of whole numbers has a nearest such number. -/

namespace DefiniteIntegral

/-- The whole number nearest to `num / den`; a half goes to the even neighbour. -/
def roundHalfEven (num den : Nat) : Nat :=
  let q := num / den
  let r := num % den
  if 2 * r < den then q
  else if den < 2 * r then q + 1
  else q + q % 2

/-- The exact value `significand * 2 ^ exponent`, negated if `negative`. -/
structure Dyadic where
  negative : Bool
  significand : Nat
  exponent : Int
deriving DecidableEq, Repr

namespace Binary64

/-- The exponent of the smallest positive number. -/
def minExponent : Int := -1074

/-- The bit pattern of infinity, the first one above those of the finite numbers. -/
def infinityBits : Nat := 0x7FF * Nat.pow 2 52

/-- The exact value of a finite number. -/
def decode (x : Float) : Dyadic :=
  let bits := x.toBits.toNat
  let field : Nat := bits / Nat.pow 2 52 % Nat.pow 2 11
  let fraction : Nat := bits % Nat.pow 2 52
  { negative := decide (Nat.pow 2 63 ≤ bits)
    significand := if field = 0 then fraction else Nat.pow 2 52 + fraction
    exponent := if field = 0 then minExponent else Int.ofNat field + minExponent - 1 }

/-- The ratio `num / den` in units of `2 ^ exponent`, as a ratio again. -/
def inUnits (num den : Nat) (exponent : Int) : Nat × Nat :=
  if 0 ≤ exponent then (num, den * Nat.pow 2 exponent.toNat)
  else (num * Nat.pow 2 (-exponent).toNat, den)

/-- The exponent of the unit in the last place next to `num / den`: the significand then has 53
bits, or fewer where the exponent can go no lower. -/
def unitExponent (num den : Nat) : Int :=
  let guess := max ((Nat.log2 num : Int) - Nat.log2 den - 52) minExponent
  let (n, d) := inUnits num den guess
  if n < Nat.pow 2 52 * d ∧ minExponent < guess then guess - 1 else guess

/-- The bit pattern of the number nearest to `num / den`, ties to even. A carry out of the
significand moves on to the next exponent, and out of the last one to infinity. -/
def nearestBits (num den : Nat) : Nat :=
  let exponent := unitExponent num den
  let (n, d) := inUnits num den exponent
  let significand := roundHalfEven n d
  let bits :=
    if significand < Nat.pow 2 52 then significand
    else (exponent - minExponent).toNat * Nat.pow 2 52 + significand
  min bits infinityBits

/-- The number nearest to `num / den`, ties to even; infinity above all finite numbers. -/
def ofRatio (num den : Nat) : Float :=
  if num = 0 then 0.0 else Float.ofBits (UInt64.ofNat (nearestBits num den))

/-- An order key: larger bit patterns for larger numbers, with `-0.0` below `0.0` and the numbers
that are none at the two ends. -/
def orderKey (x : Float) : UInt64 :=
  if x.toBits < 0x8000000000000000 then x.toBits ||| 0x8000000000000000 else ~~~ x.toBits

end Binary64

end DefiniteIntegral
