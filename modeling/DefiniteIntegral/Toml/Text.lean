import DefiniteIntegral.Text.Hex
import DefiniteIntegral.Toml.Space

/-! Texts in quotes, in four forms: with escapes or literal, on one line or on several. Each form
has a reader and a writer, and a text is written in the first form that shows it without escapes. -/

namespace DefiniteIntegral.Toml

/-! ## Reading -/

/-- The character of a short escape. -/
def shortEscape? : Char → Option Char
  | 'b' => some '\x08'
  | 't' => some '\t'
  | 'n' => some '\n'
  | 'f' => some '\x0C'
  | 'r' => some '\r'
  | '"' => some '"'
  | '\\' => some '\\'
  | _ => none

/-- The character of a code point in hexadecimal notation; half of a surrogate pair is none. -/
def escapedCode? (digits : List Char) : Option Char := do
  let n ← hexNumber? digits
  if n.isValidChar then some (Char.ofNat n) else none

/-- A character in front of a text that has been read. -/
def push (c : Char) (found : List Char × List Char) : List Char × List Char :=
  (c :: found.1, found.2)

/-- A text with escapes, from after its opening quote. -/
def readBasic : Reader (List Char)
  | '"' :: rest => some ([], rest)
  | '\\' :: 'u' :: a :: b :: c :: d :: rest => do
    let char ← escapedCode? [a, b, c, d]
    return push char (← readBasic rest)
  | '\\' :: 'U' :: a :: b :: c :: d :: e :: f :: g :: h :: rest => do
    let char ← escapedCode? [a, b, c, d, e, f, g, h]
    return push char (← readBasic rest)
  | '\\' :: c :: rest => do
    let char ← shortEscape? c
    return push char (← readBasic rest)
  | c :: rest => if isPlain c ∧ c ≠ '\\' then (readBasic rest).map (push c) else none
  | [] => none

/-- A literal text, from after its opening quote. -/
def readLiteral : Reader (List Char)
  | '\'' :: rest => some ([], rest)
  | c :: rest => if isPlain c then (readLiteral rest).map (push c) else none
  | [] => none

/-- Up to two quotes that belong to a text, from after the three that close it: the last three of a
row of quotes do. -/
def closingQuotes (quote : Char) : List Char → List Char × List Char
  | a :: b :: rest =>
    if a ≠ quote then ([], a :: b :: rest)
    else if b ≠ quote then ([quote], b :: rest)
    else ([quote, quote], rest)
  | [a] => if a = quote then ([quote], []) else ([], [a])
  | [] => ([], [])

/-- Whether a line ends here, blanks aside. -/
def atLineEnd (cs : List Char) : Bool :=
  (newline? (skipSpace cs)).isSome

/-- A text with escapes on several lines. A backslash at the end of a line hides what lies between
it and the next visible character; `hidden` says that it has been met. -/
def readLongBasic : (hidden : Bool) → Reader (List Char)
  | _, '"' :: '"' :: '"' :: rest => some (closingQuotes '"' rest)
  | _, '\\' :: 'u' :: a :: b :: c :: d :: rest => do
    let char ← escapedCode? [a, b, c, d]
    return push char (← readLongBasic false rest)
  | _, '\\' :: 'U' :: a :: b :: c :: d :: e :: f :: g :: h :: rest => do
    let char ← escapedCode? [a, b, c, d, e, f, g, h]
    return push char (← readLongBasic false rest)
  | _, '\\' :: c :: rest =>
    if atLineEnd (c :: rest) then readLongBasic true (c :: rest)
    else do
      let char ← shortEscape? c
      return push char (← readLongBasic false rest)
  | hidden, '\r' :: '\n' :: rest =>
    if hidden then readLongBasic true rest else (readLongBasic false rest).map (push '\n')
  | hidden, c :: rest =>
    if hidden ∧ (isSpace c ∨ c = '\n') then readLongBasic true rest
    else if (isPlain c ∧ c ≠ '\\') ∨ c = '\n' then (readLongBasic false rest).map (push c)
    else none
  | _, [] => none

/-- A literal text on several lines. -/
def readLongLiteral : Reader (List Char)
  | '\'' :: '\'' :: '\'' :: rest => some (closingQuotes '\'' rest)
  | '\r' :: '\n' :: rest => (readLongLiteral rest).map (push '\n')
  | c :: rest => if isPlain c ∨ c = '\n' then (readLongLiteral rest).map (push c) else none
  | [] => none

/-- The text after a line end that stands first on it. -/
def skipNewline (cs : List Char) : List Char :=
  (newline? cs).getD cs

/-- A text in quotes in any form. -/
def readQuoted (cs : List Char) : Option (String × List Char) :=
  let found := match cs with
    | '"' :: '"' :: '"' :: rest => readLongBasic false (skipNewline rest)
    | '\'' :: '\'' :: '\'' :: rest => readLongLiteral (skipNewline rest)
    | '"' :: rest => readBasic rest
    | '\'' :: rest => readLiteral rest
    | _ => none
  found.map fun (text, rest) => (String.ofList text, rest)

/-! ## Writing -/

/-- The forms of a text in quotes. -/
inductive Form
  | basic
  | literal
  | longBasic
  | longLiteral
deriving DecidableEq, Repr

/-- Whether a character can only be written as an escape. -/
def isControl (c : Char) : Bool :=
  (c.toNat < 0x20 || c.toNat = 0x7F) && c != '\t' && c != '\n'

/-- Whether a character stands three times in a row somewhere in a text. -/
def hasTriple (quote : Char) : List Char → Bool
  | a :: b :: c :: rest =>
    (a = quote && b = quote && c = quote) || hasTriple quote (b :: c :: rest)
  | _ => false

/-- The form that a text is written in. -/
def formOf (cs : List Char) : Form :=
  let control := cs.any isControl
  let backslash := cs.contains '\\'
  let newline := cs.contains '\n'
  if !control && !backslash && !cs.contains '"' && !newline then .basic
  else if !control && !cs.contains '\'' && !newline then .literal
  else if !control && !backslash && !hasTriple '"' cs then .longBasic
  else if !control && !hasTriple '\'' cs then .longLiteral
  else if newline then .longBasic
  else .basic

/-- A hexadecimal digit, in capital letters. -/
def capitalHexDigit (n : Nat) : Char :=
  if n < 10 then Char.ofNat ('0'.toNat + n) else Char.ofNat ('A'.toNat + (n - 10))

/-- A character other than a line end or a quote, as it stands in a text with escapes. -/
def escape (c : Char) : List Char :=
  if c = '\x08' then ['\\', 'b']
  else if c = '\t' then ['\\', 't']
  else if c = '\x0C' then ['\\', 'f']
  else if c = '\r' then ['\\', 'r']
  else if c = '\\' then ['\\', '\\']
  else if isControl c then
    ['\\', 'u', '0', '0', capitalHexDigit (c.toNat / 16), capitalHexDigit (c.toNat % 16)]
  else [c]

/-- A character as it stands in a text with escapes on one line. -/
def basicCharacter (c : Char) : List Char :=
  if c = '\n' then ['\\', 'n'] else if c = '"' then ['\\', '"'] else escape c

/-- The characters of a text with escapes on several lines, after so many quotes in a row: a third
one is escaped. -/
def longBasicCharacters : (quotes : Nat) → List Char → List Char
  | _, [] => []
  | quotes, c :: cs =>
    if c = '"' then
      if quotes = 2 then '\\' :: '"' :: longBasicCharacters 0 cs
      else '"' :: longBasicCharacters (quotes + 1) cs
    else if c = '\n' then '\n' :: longBasicCharacters 0 cs
    else escape c ++ longBasicCharacters 0 cs

/-- A text between marks. If it has several lines, the first one begins below the mark. -/
def betweenMarks (mark : List Char) (lines : Bool) (cs : List Char) : List Char :=
  mark ++ (if lines then '\n' :: cs else cs) ++ mark

/-- A text in quotes. -/
def quote (text : String) : String :=
  let cs := text.toList
  let lines := cs.contains '\n'
  String.ofList <| match formOf cs with
    | .basic => '"' :: cs.flatMap basicCharacter ++ ['"']
    | .literal => '\'' :: cs ++ ['\'']
    | .longBasic => betweenMarks ['"', '"', '"'] lines (longBasicCharacters 0 cs)
    | .longLiteral => betweenMarks ['\'', '\'', '\''] lines cs

end DefiniteIntegral.Toml
