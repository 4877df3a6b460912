/-! Configuration values and tables, and how a table grows: a header opens a table, and a dotted key
adds to one. A table cannot be opened twice, and only a key's own dots add to a table without a
header. -/

namespace DefiniteIntegral.Toml

/-- How a table came about. -/
inductive Origin
  /-- It stands between braces. -/
  | inline
  /-- It has a header. -/
  | header
  /-- It holds a table that has a header. -/
  | passed
  /-- It is named by a dot in a key. -/
  | dotted
deriving DecidableEq, Repr

/-- A value. -/
inductive Value
  | string (text : String)
  | integer (n : Int)
  | float (x : Float)
  | boolean (b : Bool)
  | datetime (text : String)
  | array (items : List Value)
  | table (origin : Origin) (entries : List (String × Value))
  /-- Tables that share one header, written once for each. -/
  | tables (elements : List (List (String × Value)))
deriving Repr

/-- The entries of a table. -/
abbrev Entries := List (String × Value)

/-- A dotted key: the names before the last dot, and the last name. -/
structure Key where
  way : List String
  name : String
deriving DecidableEq, Repr

namespace Entries

/-- The value of a name. -/
def get? (entries : Entries) (name : String) : Option Value :=
  List.lookup name entries

/-- The entries with a value for a name, in the place of the old one if there was one. -/
def put (name : String) (value : Value) : Entries → Entries
  | [] => [(name, value)]
  | (n, v) :: entries =>
    if n = name then (n, value) :: entries else (n, v) :: put name value entries

/-- The entries after a change to the table at the end of a way. Tables that are missing on the way
are made. A way leads through the last of several tables with one header; the way of a dotted key
does not lead through a table that has a header of its own. -/
def update (dotted : Bool) (change : Origin → Entries → Option Entries) :
    Origin → (way : List String) → Entries → Option Entries
  | origin, [], entries => change origin entries
  | _, name :: way, entries =>
    match entries.get? name with
    | none => do
      let origin := if dotted then Origin.dotted else .passed
      let inner ← update dotted change origin way []
      return entries.put name (.table origin inner)
    | some (.table origin inner) =>
      if origin = .inline ∨ (dotted ∧ origin = .header) then none
      else do
        let inner ← update dotted change origin way inner
        return entries.put name (.table origin inner)
    | some (.tables elements) =>
      match elements.getLast? with
      | none => none
      | some inner => do
        let inner ← update dotted change .header way inner
        return entries.put name (.tables (elements.dropLast ++ [inner]))
    | some _ => none

/-- The entries with one more, under a key. The last table of a way with dots must be one that dots
have made. -/
def insert (key : Key) (value : Value) (entries : Entries) : Option Entries :=
  update true
    (fun origin inner =>
      if (key.way ≠ [] ∧ origin ≠ .dotted) ∨ (inner.get? key.name).isSome then none
      else some (inner.put key.name value))
    .header key.way entries

/-- The entries with the table of a header: a new one, or one that has only been passed. -/
def openTable (key : Key) (entries : Entries) : Option Entries :=
  update false
    (fun _ inner =>
      match inner.get? key.name with
      | none => some (inner.put key.name (.table .header []))
      | some (.table .passed found) => some (inner.put key.name (.table .header found))
      | some _ => none)
    .header key.way entries

/-- The entries with one more table under a header that several tables share. -/
def addTable (key : Key) (entries : Entries) : Option Entries :=
  update false
    (fun _ inner =>
      match inner.get? key.name with
      | none => some (inner.put key.name (.tables [[]]))
      | some (.tables elements) => some (inner.put key.name (.tables (elements ++ [[]])))
      | some _ => none)
    .header key.way entries

/-- The entries of a table written between braces. -/
def ofPairs (pairs : List (Key × Value)) : Option Entries :=
  pairs.foldlM (fun entries (key, value) => entries.insert key value) []

end Entries

end DefiniteIntegral.Toml
