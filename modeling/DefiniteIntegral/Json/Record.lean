import DefiniteIntegral.Json.Fault

/-! Records in JSON texts. The members of an object come in any order and each at most once, the
elements of an array in the order of the fields. Of several faults the leftmost counts. -/

namespace DefiniteIntegral.Json

variable {β δ : Type}

/-- A field that must not have been read before. -/
def freshField (name : String) (old : Option β) (new : Except Fault β) : Except Fault (Option β) :=
  match old with
  | some _ => .error (.misfit [] (.duplicateField name))
  | none => new.map some

/-- A field that must have been read. -/
def requireField (name : String) (field : Option β) : Except Fault β :=
  match field with
  | some value => .ok value
  | none => .error (.misfit [] (.missingField name))

/-- What has been read of a record after a list of members, from left to right. -/
def readFields (add : δ → String → Reading → Except Fault δ) (held : δ) :
    List (Reading × Reading) → Except Fault δ
  | [] => .ok held
  | (.string (some name), value) :: members => do
    let held ← add held name value
    readFields add held members
  | _ => .error .malformed

/-- The element at a position of an array: none if the array ends before it. -/
def element? (items : List Reading) (closed : Bool) (n : Nat) : Except Fault (Option Reading) :=
  match items[n]? with
  | some item => .ok (some item)
  | none => if closed then .ok none else .error .malformed

/-- An element of an array that must be there. -/
def requireElement (expected : String) (items : List Reading) (closed : Bool) (n : Nat) :
    Except Fault Reading := do
  match ← element? items closed n with
  | some item => return item
  | none => throw (.misfit [] (.wrongLength n expected))

/-- What is called by a name, out of all that there is. -/
def variantOfName (all : List β) (nameOf : β → String) (path : List Step) (name : String) :
    Except Fault β :=
  match all.find? fun b => nameOf b = name with
  | some b => .ok b
  | none => .error (.misfit path (.unknownVariant name (all.map nameOf)))

/-- What a text stands for that holds one value and nothing else. -/
def ofText (decode : Reading → Except Fault β) (text : String) : Except Fault β := do
  let (value, rest) := read text
  let decoded ← decode value
  match rest.map skipSpace with
  | some [] => return decoded
  | _ => throw .malformed

end DefiniteIntegral.Json
