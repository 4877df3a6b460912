import DefiniteIntegral.Json.Number
import DefiniteIntegral.Text.Hex

/-! Reading JSON texts from the left. What is read of a text that is not well formed is still a
value, cut off where the text goes wrong, so that a fault in what comes before can be found
first. -/

namespace DefiniteIntegral.Json

/-- What a text holds, as far as it could be read. -/
inductive Reading
  | null
  | bool (b : Bool)
  /-- A number; none if it is too large. -/
  | number (value : Option Number)
  /-- A string; none if it holds half of a surrogate pair. -/
  | string (text : Option String)
  /-- The elements read, and whether the array is complete. -/
  | array (items : List Reading) (closed : Bool)
  /-- The members read, and whether the object is complete. Only the first name can be something
  other than a string, and the object then ends there. -/
  | object (members : List (Reading × Reading)) (closed : Bool)
  /-- No value. -/
  | broken
deriving Repr

/-- Whether a character may stand between the parts of a text. -/
def isSpace (c : Char) : Bool :=
  c = ' ' || c = '\n' || c = '\t' || c = '\r'

/-- A text without the spaces at its start. -/
def skipSpace (cs : List Char) : List Char :=
  cs.dropWhile isSpace

/-! ## Strings -/

/-- A character of a string, or a 16-bit code unit written as an escape. -/
inductive StringUnit
  | char (c : Char)
  | code (n : Nat)
deriving DecidableEq, Repr

/-- The character of a short escape. -/
def shortEscape? (c : Char) : Option Char :=
  match c with
  | '"' => some '"'
  | '\\' => some '\\'
  | '/' => some '/'
  | 'b' => some '\x08'
  | 'f' => some '\x0C'
  | 'n' => some '\n'
  | 'r' => some '\r'
  | 't' => some '\t'
  | _ => none

/-- The units of a string after its opening quote, and what follows the closing one. -/
def readUnits : List Char → Option (List StringUnit × List Char)
  | [] => none
  | '"' :: rest => some ([], rest)
  | '\\' :: 'u' :: a :: b :: c :: d :: rest => do
    let n ← hexNumber? [a, b, c, d]
    let (units, rest) ← readUnits rest
    return (.code n :: units, rest)
  | '\\' :: c :: rest => do
    let c ← shortEscape? c
    let (units, rest) ← readUnits rest
    return (.char c :: units, rest)
  | c :: rest => do
    if c.toNat < 0x20 ∨ c = '\\' then none
    let (units, rest) ← readUnits rest
    return (.char c :: units, rest)

/-- The characters of a list of units: two code units that are a surrogate pair make one
character, and half a pair makes none. -/
def joinUnits : List StringUnit → Option (List Char)
  | [] => some []
  | .char c :: units => (joinUnits units).map (c :: ·)
  | .code high :: .code low :: units =>
    if 0xD800 ≤ high ∧ high < 0xDC00 then
      if 0xDC00 ≤ low ∧ low < 0xE000 then
        (joinUnits units).map (Char.ofNat (0x10000 + 0x400 * (high - 0xD800) + (low - 0xDC00)) :: ·)
      else none
    else if 0xDC00 ≤ high ∧ high < 0xE000 then none
    else (joinUnits (.code low :: units)).map (Char.ofNat high :: ·)
  | .code n :: units =>
    if 0xD800 ≤ n ∧ n < 0xE000 then none else (joinUnits units).map (Char.ofNat n :: ·)

/-! ## Values -/

mutual

/-- The value at the head of a text, and what follows it, if the value is complete. Each level of
nesting takes one unit of fuel, and every element one. -/
def readValue : (fuel : Nat) → List Char → Reading × Option (List Char)
  | 0, _ => (.broken, none)
  | fuel + 1, cs =>
    match skipSpace cs with
    | 'n' :: 'u' :: 'l' :: 'l' :: rest => (.null, some rest)
    | 't' :: 'r' :: 'u' :: 'e' :: rest => (.bool true, some rest)
    | 'f' :: 'a' :: 'l' :: 's' :: 'e' :: rest => (.bool false, some rest)
    | '"' :: rest =>
      match readUnits rest with
      | some (units, rest) => (.string ((joinUnits units).map String.ofList), some rest)
      | none => (.broken, none)
    | '[' :: rest =>
      match skipSpace rest with
      | ']' :: rest => (.array [] true, some rest)
      | rest =>
        let (items, rest) := readItems fuel rest
        (.array items rest.isSome, rest)
    | '\x7b' :: rest =>
      match skipSpace rest with
      | '\x7d' :: rest => (.object [] true, some rest)
      | '"' :: rest =>
        let (members, rest) := readMembers fuel rest
        (.object members rest.isSome, rest)
      | rest => (.object [((readValue fuel rest).1, .broken)] false, none)
    | rest =>
      match spanNumeral? rest with
      | some (numeral, rest) => (.number numeral.value?, some rest)
      | none => (.broken, none)

/-- The elements of an array up to its closing bracket, from an element on. -/
def readItems : (fuel : Nat) → List Char → List Reading × Option (List Char)
  | 0, _ => ([], none)
  | fuel + 1, cs =>
    match readValue fuel cs with
    | (item, none) => ([item], none)
    | (item, some rest) =>
      match skipSpace rest with
      | ']' :: rest => ([item], some rest)
      | ',' :: rest =>
        match skipSpace rest with
        | ']' :: _ => ([item], none)
        | rest =>
          let (items, rest) := readItems fuel rest
          (item :: items, rest)
      | _ => ([item], none)

/-- The members of an object up to its closing brace, from after the quote that opens a name. -/
def readMembers : (fuel : Nat) → List Char → List (Reading × Reading) × Option (List Char)
  | 0, _ => ([], none)
  | fuel + 1, cs =>
    match readUnits cs with
    | none => ([(.broken, .broken)], none)
    | some (units, rest) =>
      let name := Reading.string ((joinUnits units).map String.ofList)
      match skipSpace rest with
      | ':' :: rest =>
        match readValue fuel rest with
        | (value, none) => ([(name, value)], none)
        | (value, some rest) =>
          match skipSpace rest with
          | '\x7d' :: rest => ([(name, value)], some rest)
          | ',' :: rest =>
            match skipSpace rest with
            | '"' :: rest =>
              let (members, rest) := readMembers fuel rest
              ((name, value) :: members, rest)
            | _ => ([(name, value)], none)
          | _ => ([(name, value)], none)
      | _ => ([(name, .broken)], none)

end

/-- What a text holds, and what follows it, if the value is complete. Every step of the reader takes
a character, so the fuel lasts. -/
def read (text : String) : Reading × Option (List Char) :=
  let cs := text.toList
  readValue (2 * cs.length + 2) cs

end DefiniteIntegral.Json
