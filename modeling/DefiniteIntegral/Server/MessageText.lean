import DefiniteIntegral.Json.ResultText
import DefiniteIntegral.Server.Message

/-! The messages of a server as their readers take them: an object whose member for the type tells
what the others are, or an array with the type first. The type may stand behind the members that
depend on it, so these are kept until the end, and what is kept has to be complete. -/

namespace DefiniteIntegral

/-! ## Values that are kept -/

namespace Json

mutual

/-- Whether a value is complete, with all of its numbers and strings. -/
def Reading.isWhole : Reading → Bool
  | .null => true
  | .bool _ => true
  | .number value => value.isSome
  | .string text => text.isSome
  | .array items closed => areWhole items && closed
  | .object members closed => membersAreWhole members && closed
  | .broken => false

/-- Whether all elements of an array are complete. -/
def areWhole : List Reading → Bool
  | [] => true
  | item :: items => item.isWhole && areWhole items

/-- Whether all members of an object are complete. -/
def membersAreWhole : List (Reading × Reading) → Bool
  | [] => true
  | (name, value) :: members => name.isWhole && value.isWhole && membersAreWhole members

end

end Json

namespace Message

open Json

/-! ## The type -/

/-- The type of a message. -/
inductive Kind
  | result
  | update
  | error
deriving DecidableEq, Repr

/-- All types, in the order they are listed. -/
def Kind.all : List Kind :=
  [result, update, error]

/-- The name of a type. -/
def Kind.name : Kind → String
  | result => "result"
  | update => "update"
  | error => "error"

/-- The type that a value names. -/
def kindOf (path : List Json.Step) : Reading → Except Fault Kind
  | .string (some name) => variantOfName Kind.all Kind.name path name
  | value => .error (value.wrongType "variant identifier" path)

/-! ## The other members -/

/-- The only field of a message besides its type, among members with other names. -/
def onlyField {β : Type} (name : String) (decode : Reading → Except Fault β)
    (members : List (Reading × Reading)) : Except Fault β := do
  let add (held : Option β) (key : String) (value : Reading) : Except Fault (Option β) :=
    if key = name then freshField name held (decode value) else return held
  let held ← readFields add none members
  requireField name held

/-- The only element of a message behind its type. -/
def onlyElement {β : Type} (expected : String) (decode : Reading → Except Fault β) :
    List Reading → Except Fault β
  | [] => .error (.misfit [] (.wrongLength 0 (expected ++ " with 1 element")))
  | item :: items => do
    let value ← decode item
    if items.isEmpty then return value
    else throw (.misfit [] (.wrongLength (items.length + 1) "1 element in sequence"))

/-- The message of a type with the members besides it. -/
def ofMembers (kind : Kind) (members : List (Reading × Reading)) : Except Fault Message :=
  match kind with
  | .result => (onlyField "data" Reading.toResult members).map result
  | .update => (onlyField "data" Reading.toResult members).map update
  | .error => (onlyField "message" (Reading.toText [.name "message"]) members).map error

/-- The message of a type with the elements behind it. -/
def ofItems (kind : Kind) (items : List Reading) : Except Fault Message :=
  match kind with
  | .result =>
    (onlyElement "struct variant ServerMessage::Result" Reading.toResult items).map result
  | .update =>
    (onlyElement "struct variant ServerMessage::Update" Reading.toResult items).map update
  | .error =>
    (onlyElement "struct variant ServerMessage::Error" (Reading.toText [.index 1]) items).map error

/-! ## Messages -/

/-- The members of a message that have been read: its type, and those that are kept. -/
structure Draft where
  kind : Option Kind
  kept : List (Reading × Reading)
deriving Repr

/-- The draft with one more member. -/
def Draft.addMember (d : Draft) (name : String) (value : Reading) : Except Fault Draft := do
  if name = "type" then
    return { d with kind := ← freshField name d.kind (kindOf [.name name] value) }
  else if value.isWhole then
    return { d with kept := d.kept ++ [(.string (some name), value)] }
  else throw .malformed

/-- The message that a value stands for. -/
def ofReading : Reading → Except Fault Message
  | .object members closed => do
    let draft ← readFields Draft.addMember ⟨none, []⟩ members
    if closed then ofMembers (← requireField "type" draft.kind) draft.kept else throw .malformed
  | .array items closed => do
    match ← element? items closed 0 with
    | some item =>
      let kind ← kindOf [.index 0] item
      if closed ∧ areWhole items.tail then ofItems kind items.tail else throw .malformed
    | none => throw (.misfit [] (.missingField "type"))
  | value => .error (value.wrongType "internally tagged enum ServerMessage" [])

/-- The message of a text that holds nothing else. -/
def ofText (text : String) : Except Fault Message :=
  Json.ofText ofReading text

end Message

end DefiniteIntegral
