import DefiniteIntegral.Toml.Scalar
import DefiniteIntegral.Toml.Text

/-! Reading configuration texts: values, keys, and lines with entries or headers. -/

namespace DefiniteIntegral.Toml

/-- How many levels of brackets and braces a value can have, and how many names a dotted key. -/
def deepest : Nat := 79

/-! ## Keys -/

/-- Whether a character can stand in a name without quotes. -/
def isBareCharacter (c : Char) : Bool :=
  c.isAlphanum || c = '_' || c = '-'

/-- A name, bare or in quotes on one line. -/
def readName : Reader String
  | '"' :: rest => (readBasic rest).map fun (text, rest) => (String.ofList text, rest)
  | '\'' :: rest => (readLiteral rest).map fun (text, rest) => (String.ofList text, rest)
  | cs =>
    let name := cs.takeWhile isBareCharacter
    if name = [] then none else some (String.ofList name, cs.dropWhile isBareCharacter)

/-- The names of a dotted key, at most so many of them, with blanks around each. -/
def readNames : (most : Nat) → Reader (List String)
  | 0, _ => none
  | most + 1, cs => do
    let (name, rest) ← readName (skipSpace cs)
    match skipSpace rest with
    | '.' :: rest =>
      let (names, rest) ← readNames most rest
      return (name :: names, rest)
    | rest => return ([name], rest)

/-- A key, with blanks around it. -/
def readKey : Reader Key := fun cs => do
  let (names, rest) ← readNames deepest cs
  let name ← names.getLast?
  return (⟨names.dropLast, name⟩, rest)

/-! ## Values -/

/-- The elements of an array up to its closing bracket. Every element takes a character. -/
def readItems (item : Reader Value) : (fuel : Nat) → Reader (List Value)
  | 0, _ => none
  | fuel + 1, cs =>
    match skipLines cs with
    | ']' :: rest => some ([], rest)
    | cs => do
      let (value, rest) ← item cs
      match skipLines rest with
      | ',' :: rest =>
        let (values, rest) ← readItems item fuel rest
        return (value :: values, rest)
      | ']' :: rest => return ([value], rest)
      | _ => none

/-- A key and the value that an equals sign gives it. -/
def readEntry (value : Reader Value) : Reader (Key × Value) := fun cs => do
  let (key, rest) ← readKey cs
  match rest with
  | '=' :: rest =>
    let (v, rest) ← value (skipSpace rest)
    return ((key, v), rest)
  | _ => none

/-- The entries of a table up to its closing brace, at least one of them. -/
def readPairs (value : Reader Value) : (fuel : Nat) → Reader (List (Key × Value))
  | 0, _ => none
  | fuel + 1, cs => do
    let (entry, rest) ← readEntry value cs
    match skipSpace rest with
    | ',' :: rest =>
      let (entries, rest) ← readPairs value fuel rest
      return (entry :: entries, rest)
    | '\x7d' :: rest => return ([entry], rest)
    | _ => none

/-- A table between braces, from after the first one. -/
def readTable (value : Reader Value) : Reader Value := fun cs => do
  let (pairs, rest) ← match skipSpace cs with
    | '\x7d' :: rest => some ([], rest)
    | cs => readPairs value cs.length cs
  return (.table .inline (← Entries.ofPairs pairs), rest)

/-- A value with at most so many levels of brackets and braces. -/
def readValue : (levels : Nat) → Reader Value
  | levels, cs =>
    match levels, cs with
    | levels + 1, '[' :: rest =>
      (readItems (readValue levels) (rest.length + 1) rest).map fun (items, rest) =>
        (.array items, rest)
    | levels + 1, '\x7b' :: rest => readTable (readValue levels) rest
    | _, '"' :: rest => (readQuoted ('"' :: rest)).map fun (text, rest) => (.string text, rest)
    | _, '\'' :: rest => (readQuoted ('\'' :: rest)).map fun (text, rest) => (.string text, rest)
    | _, cs => readScalar cs

/-! ## Lines -/

/-- A line that is not empty. -/
inductive Statement
  | entry (key : Key) (value : Value)
  | table (key : Key)
  | element (key : Key)
deriving Repr

/-- A line up to the end of what it says. -/
def readStatement : Reader Statement
  | '[' :: '[' :: rest => do
    let (key, rest) ← readKey rest
    match rest with
    | ']' :: ']' :: rest => return (.element key, rest)
    | _ => none
  | '[' :: rest => do
    let (key, rest) ← readKey rest
    match rest with
    | ']' :: rest => return (.table key, rest)
    | _ => none
  | cs => (readEntry (readValue deepest) cs).map fun ((key, value), rest) =>
    (.entry key value, rest)

/-- The lines of a text that say something. Each takes a character. -/
def readStatements : (fuel : Nat) → List Char → Option (List Statement)
  | 0, _ => none
  | fuel + 1, cs =>
    match skipLines cs with
    | [] => some []
    | cs => do
      let (statement, rest) ← readStatement cs
      let rest ← lineEnd? rest
      return statement :: (← readStatements fuel rest)

/-! ## Documents -/

/-- What has been built so far, and the way to the table that entries go to. -/
structure Draft where
  root : Entries
  current : List String
deriving Repr

/-- The way through all names of a key. -/
def Key.path (key : Key) : List String :=
  key.way ++ [key.name]

/-- The draft after one more line. -/
def Draft.add (d : Draft) : Statement → Option Draft
  | .entry key value => do
    let root ← Entries.update false (fun _ inner => inner.insert key value) .header d.current d.root
    return { d with root }
  | .table key => do
    return ⟨← d.root.openTable key, key.path⟩
  | .element key => do
    return ⟨← d.root.addTable key, key.path⟩

/-- The entries of a text. A byte order mark in front of it is skipped. -/
def read (text : String) : Option Entries := do
  let cs := match text.toList with
    | '\uFEFF' :: cs => cs
    | cs => cs
  let statements ← readStatements (cs.length + 1) cs
  let draft ← statements.foldlM Draft.add ⟨[], []⟩
  return draft.root

end DefiniteIntegral.Toml
