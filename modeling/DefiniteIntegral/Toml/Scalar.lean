import DefiniteIntegral.Text.Hex
import DefiniteIntegral.Toml.Moment
import DefiniteIntegral.Toml.Space
import DefiniteIntegral.Toml.Value

/-! Values written as one word: numbers, truth values, dates and times. -/

namespace DefiniteIntegral.Toml

/-- The digits of a number without the underscores, each of which stands between two digits. -/
def ungroup? (isDigit : Char → Bool) : List Char → Option (List Char)
  | [] => none
  | [c] => if isDigit c then some [c] else none
  | c :: '_' :: rest => if isDigit c then (ungroup? isDigit rest).map (c :: ·) else none
  | c :: rest => if isDigit c then (ungroup? isDigit rest).map (c :: ·) else none

/-- A sign, and what follows it. -/
def splitSign : List Char → Bool × List Char
  | '-' :: rest => (true, rest)
  | '+' :: rest => (false, rest)
  | cs => (false, cs)

/-- Decimal digits that do not start with a superfluous zero. -/
def decimalDigits? (cs : List Char) : Option (List Char) :=
  match cs with
  | '0' :: _ :: _ => none
  | cs => ungroup? Char.isDigit cs

/-- The number of digits in a base. -/
def baseNumber? (base : Nat) (isDigit : Char → Bool) (cs : List Char) : Option Nat := do
  (← ungroup? isDigit cs).foldlM (fun n c => (hexValue? c).map (base * n + ·)) 0

/-- A whole number in any base, if it has 64 bits. -/
def integer? (cs : List Char) : Option Int := do
  let n : Int ← match cs with
    | '0' :: 'x' :: ds => (baseNumber? 16 (fun c => (hexValue? c).isSome) ds).map Int.ofNat
    | '0' :: 'o' :: ds => (baseNumber? 8 (fun c => '0' ≤ c && c ≤ '7') ds).map Int.ofNat
    | '0' :: 'b' :: ds => (baseNumber? 2 (fun c => c = '0' || c = '1') ds).map Int.ofNat
    | cs => do
      let (negative, ds) := splitSign cs
      let n := Int.ofNat (valueOfDigits (← decimalDigits? ds))
      pure (if negative then -n else n)
  if -Int.pow 2 63 ≤ n ∧ n < Int.pow 2 63 then some n else none

/-- Whether a character begins the exponent of a number. -/
def isExponentMark (c : Char) : Bool :=
  c = 'e' || c = 'E'

/-- A number with a fraction or an exponent, split where its notation changes. -/
def numeral? (cs : List Char) : Option Numeral := do
  let whole ← decimalDigits? (cs.takeWhile fun c => c.isDigit || c = '_')
  let rest := cs.dropWhile fun c => c.isDigit || c = '_'
  let (fraction, rest) ← match rest with
    | '.' :: rest => do
      let ds ← ungroup? Char.isDigit (rest.takeWhile fun c => !isExponentMark c)
      pure (ds, rest.dropWhile fun c => !isExponentMark c)
    | c :: rest => if isExponentMark c then some ([], c :: rest) else none
    | [] => none
  match rest with
  | [] => return ⟨whole, fraction, none⟩
  | _ :: rest =>
    let (negative, ds) := splitSign rest
    return ⟨whole, fraction, some (negative, ← ungroup? Char.isDigit ds)⟩

/-- A floating-point number. One that is rounded to infinity needs the minus sign, since the named
infinity takes either sign. -/
def float? (cs : List Char) : Option Float := do
  let (negative, ds) := splitSign cs
  let x ←
    if ds = ['i', 'n', 'f'] then some (1.0 / 0.0)
    else if ds = ['n', 'a', 'n'] then some (0.0 / 0.0)
    else do
      let x := (← (← numeral? ds).value?).toFloat
      if x.isInf ∧ !negative then none else some x
  return if negative then -x else x

/-- Whether a character can be part of a word. -/
def isWordCharacter (c : Char) : Bool :=
  c.isAlphanum || c = '_' || c = '+' || c = '-' || c = '.' || c = ':'

/-- The value of a word. -/
def wordValue? (cs : List Char) : Option Value :=
  if cs = ['t', 'r', 'u', 'e'] then some (.boolean true)
  else if cs = ['f', 'a', 'l', 's', 'e'] then some (.boolean false)
  else if isMoment cs then some (.datetime (String.ofList cs))
  else match integer? cs with
    | some n => some (.integer n)
    | none => (float? cs).map .float

/-- A value of one word. A blank may stand for the letter between a day and a time. -/
def readScalar : Reader Value := fun cs =>
  let word := cs.takeWhile isWordCharacter
  let rest := cs.dropWhile isWordCharacter
  let time := match rest with
    | ' ' :: tail => tail.takeWhile isWordCharacter
    | _ => []
  if isDate word ∧ isTimeWithOffset time then
    some (.datetime (String.ofList (word ++ ' ' :: time)), rest.drop (time.length + 1))
  else (wordValue? word).map fun value => (value, rest)

end DefiniteIntegral.Toml
