import DefiniteIntegral.Config.Document

/-! Where a configuration is kept: one file in a directory of its own. Loading a configuration that
has never been saved saves the standard one. -/

namespace DefiniteIntegral

/-- What stands in the place of the configuration file. -/
inductive Store
  /-- Nothing, as at first. -/
  | empty
  /-- A file, with its text if its bytes are one. -/
  | file (content : Option String)
  /-- A directory. -/
  | directory
  /-- Nothing, and the directory of the file cannot be made. -/
  | blocked
deriving DecidableEq, Repr

namespace Store

/-- A file with the given bytes. -/
def ofBytes (bytes : List UInt8) : Store :=
  .file (String.fromUTF8? (ByteArray.mk bytes.toArray))

/-- The text of the file, if there is one. -/
def text? : Store → Option String
  | .file content => content
  | _ => none

/-- Saving a configuration. A fault leaves the store as it was. -/
def save (store : Store) (config : Config) : Except ConfigFault Store := do
  if store = .blocked then throw (.directoryRefused .exists)
  let text ← config.toText
  if store = .directory then throw (.unwritable .isADirectory)
  return .file (some text)

/-- Loading the configuration, with the store after it. -/
def load : Store → Except ConfigFault (Config × Store)
  | .file (some text) => do
    let config ← Config.ofText text
    return (config, .file (some text))
  | .file none => .error (.unreadable .notText)
  | .directory => .error (.unreadable .isADirectory)
  | store => do
    let store ← store.save .standard
    return (.standard, store)

end Store

end DefiniteIntegral
