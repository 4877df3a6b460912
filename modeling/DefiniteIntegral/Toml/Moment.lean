import DefiniteIntegral.Number.Decimal

/-! The notation of dates and times of day. -/

namespace DefiniteIntegral.Toml

/-- The number of two digits, if it is at most a bound. -/
def twoDigits? (bound : Nat) (a b : Char) : Option Nat :=
  if a.isDigit ∧ b.isDigit ∧ valueOfDigits [a, b] ≤ bound then some (valueOfDigits [a, b]) else none

/-- The number of days of a month. -/
def daysOfMonth (year month : Nat) : Nat :=
  if month = 2 then
    if year % 4 = 0 ∧ (year % 100 ≠ 0 ∨ year % 400 = 0) then 29 else 28
  else if month ∈ [4, 6, 9, 11] then 30
  else 31

/-- Whether a text is a day, as in `2024-02-29`. -/
def isDate (cs : List Char) : Bool :=
  match cs with
  | [a, b, c, d, '-', e, f, '-', g, h] =>
    [a, b, c, d].all Char.isDigit &&
      match twoDigits? 12 e f, twoDigits? 31 g h with
      | some month, some day =>
        1 ≤ month && 1 ≤ day && day ≤ daysOfMonth (valueOfDigits [a, b, c, d]) month
      | _, _ => false
  | _ => false

/-- Whether a text is an hour and a minute, as in `23:59`. -/
def isHourMinute (cs : List Char) : Bool :=
  match cs with
  | [a, b, ':', c, d] => (twoDigits? 23 a b).isSome && (twoDigits? 59 c d).isSome
  | _ => false

/-- Whether a text is a difference from the universal time, as in `Z` or `+01:00`, or empty. -/
def isOffset (cs : List Char) : Bool :=
  match cs with
  | [] => true
  | ['Z'] => true
  | ['z'] => true
  | '+' :: rest => isHourMinute rest
  | '-' :: rest => isHourMinute rest
  | _ => false

/-- The text after a time of day, as in `23:59:60.5`. -/
def afterTime? (cs : List Char) : Option (List Char) :=
  match cs with
  | a :: b :: ':' :: c :: d :: ':' :: e :: f :: rest =>
    if isHourMinute [a, b, ':', c, d] ∧ (twoDigits? 60 e f).isSome then
      match rest with
      | '.' :: rest =>
        if rest.takeWhile Char.isDigit = [] then none else some (rest.dropWhile Char.isDigit)
      | rest => some rest
    else none
  | _ => none

/-- Whether a text is a time of day with or without an offset. -/
def isTimeWithOffset (cs : List Char) : Bool :=
  (afterTime? cs).any isOffset

/-- Whether a text without blanks is a day, a time of day, or both. -/
def isMoment (cs : List Char) : Bool :=
  isDate cs || afterTime? cs = some [] ||
    (isDate (cs.take 10) &&
      match cs.drop 10 with
      | 'T' :: rest => isTimeWithOffset rest
      | 't' :: rest => isTimeWithOffset rest
      | _ => false)

end DefiniteIntegral.Toml
