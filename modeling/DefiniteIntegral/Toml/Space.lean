/-! What stands between the parts of a configuration text: blanks, line ends and comments. -/

namespace DefiniteIntegral.Toml

/-- A reader takes something from the start of a text and leaves the rest. -/
abbrev Reader (α : Type) := List Char → Option (α × List Char)

/-- Whether a character is a blank within a line. -/
def isSpace (c : Char) : Bool :=
  c = ' ' || c = '\t'

/-- Whether a character can stand for itself in a comment or a string: no control character but the
tabulator. -/
def isPlain (c : Char) : Bool :=
  c = '\t' || (0x20 ≤ c.toNat && c.toNat != 0x7F)

/-- A text without the blanks at its start. -/
def skipSpace (cs : List Char) : List Char :=
  cs.dropWhile isSpace

/-- The text after a line end. -/
def newline? : List Char → Option (List Char)
  | '\n' :: rest => some rest
  | '\r' :: '\n' :: rest => some rest
  | _ => none

/-- The text after a comment, which ends with its line. -/
def skipComment : List Char → List Char
  | '#' :: rest => rest.dropWhile isPlain
  | cs => cs

/-- The text after what remains of a line without values. -/
def lineEnd? (cs : List Char) : Option (List Char) :=
  match skipComment (skipSpace cs) with
  | [] => some []
  | rest => newline? rest

/-- A text without the blanks, line ends and comments at its start. -/
def skipLines : List Char → List Char
  | [] => []
  | ' ' :: rest => skipLines rest
  | '\t' :: rest => skipLines rest
  | '\n' :: rest => skipLines rest
  | '\r' :: '\n' :: rest => skipLines rest
  | '#' :: rest => skipLines (rest.dropWhile isPlain)
  | cs => cs
termination_by cs => cs.length
decreasing_by
  all_goals simp_wf
  all_goals have := (List.dropWhile_sublist (l := rest) isPlain).length_le
  all_goals omega

end DefiniteIntegral.Toml
