import DefiniteIntegral.Number.Layout

/-! JSON values and their two written forms: compact, and one element to a line. -/

namespace DefiniteIntegral.Json

/-- A JSON value. The members of an object keep their order. -/
inductive Value
  | null
  | bool (b : Bool)
  | natural (n : Nat)
  | real (x : Float)
  | string (text : String)
  | array (items : List Value)
  | object (members : List (String × Value))
deriving Repr

/-- A hexadecimal digit, in small letters. -/
def hexDigit (n : Nat) : Char :=
  if n < 10 then Char.ofNat ('0'.toNat + n) else Char.ofNat ('a'.toNat + (n - 10))

/-- A character as it stands in a JSON string: quotes, backslashes and control characters are
escaped, all others stand for themselves. -/
def escape (c : Char) : List Char :=
  if c = '"' then ['\\', '"']
  else if c = '\\' then ['\\', '\\']
  else if c = '\x08' then ['\\', 'b']
  else if c = '\t' then ['\\', 't']
  else if c = '\n' then ['\\', 'n']
  else if c = '\x0C' then ['\\', 'f']
  else if c = '\r' then ['\\', 'r']
  else if c.toNat < 0x20 then
    ['\\', 'u', '0', '0', hexDigit (c.toNat / 16), hexDigit (c.toNat % 16)]
  else [c]

/-- A text in quotes. -/
def quote (text : String) : String :=
  "\"" ++ String.ofList (text.toList.flatMap escape) ++ "\""

/-- How a written form breaks a value into lines. -/
structure Form where
  /-- What stands between a name and its value. -/
  colon : String
  /-- What stands before an element at some depth, and before the closing bracket. -/
  lineBreak : Nat → String

/-- Nothing but the value. -/
def Form.compact : Form where
  colon := ":"
  lineBreak _ := ""

/-- Every element on a line of its own, indented by two blanks for each level. -/
def Form.pretty : Form where
  colon := ": "
  lineBreak depth := "\n" ++ "".pushn ' ' (2 * depth)

/-- Elements in brackets, separated by commas. -/
def bracketed (form : Form) (depth : Nat) (left right : String) : List String → String
  | [] => left ++ right
  | items => left ++ form.lineBreak (depth + 1) ++
      ("," ++ form.lineBreak (depth + 1)).intercalate items ++ form.lineBreak depth ++ right

mutual

/-- The text of a value that begins at some depth. -/
def write (form : Form) (depth : Nat) : Value → String
  | .null => "null"
  | .bool b => if b then "true" else "false"
  | .natural n => n.repr
  | .real x => Layout.json.write x
  | .string text => quote text
  | .array items => bracketed form depth "[" "]" (writeItems form (depth + 1) items)
  | .object members => bracketed form depth "\x7b" "\x7d" (writeMembers form (depth + 1) members)

/-- The texts of the elements of an array. -/
def writeItems (form : Form) (depth : Nat) : List Value → List String
  | [] => []
  | item :: items => write form depth item :: writeItems form depth items

/-- The texts of the members of an object. -/
def writeMembers (form : Form) (depth : Nat) : List (String × Value) → List String
  | [] => []
  | (name, value) :: members =>
    (quote name ++ form.colon ++ write form depth value) :: writeMembers form depth members

end

/-- The compact text of a value. -/
def Value.compact (v : Value) : String :=
  write .compact 0 v

/-- The text of a value with one element to a line. -/
def Value.pretty (v : Value) : String :=
  write .pretty 0 v

end DefiniteIntegral.Json
