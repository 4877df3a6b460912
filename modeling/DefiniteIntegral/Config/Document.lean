import DefiniteIntegral.Config.Settings
import DefiniteIntegral.Toml.Reading

/-! The text of a configuration: one section for the defaults of an integration and one for the
server. A text need not have all entries, and what it has beyond them is skipped. -/

namespace DefiniteIntegral

/-! ## Writing -/

/-- An array of texts: on one line if it has at most one element, else with a line for each. -/
def Toml.textArray : List String → String
  | [] => "[]"
  | [text] => "[" ++ Toml.quote text ++ "]"
  | texts =>
    "[\n" ++ String.join (texts.map fun text => "    " ++ Toml.quote text ++ ",\n") ++ "]"

namespace Config

/-- The written value of an entry. -/
def valueText (config : Config) : ConfigKey → String
  | .method => Toml.quote config.method
  | .points => config.points.toNat.repr
  | .format => Toml.quote config.format
  | .source => Toml.quote config.source
  | .seed => config.seed.toNat.repr
  | .host => Toml.quote config.host
  | .port => config.port.toNat.repr
  | .origins => Toml.textArray config.origins

/-- The line of an entry. -/
def entryText (config : Config) (key : ConfigKey) : String :=
  key.field ++ " = " ++ config.valueText key ++ "\n"

/-- A section with its heading and its entries in order. -/
def sectionText (config : Config) (heading : String) : String :=
  "[" ++ heading ++ "]\n" ++
    String.join ((ConfigKey.all.filter fun key => key.heading = heading).map config.entryText)

/-- The text of a configuration. Its whole numbers have to be below `2 ^ 63`. -/
def toText (config : Config) : Except ConfigFault String :=
  if Nat.pow 2 63 ≤ config.points.toNat ∨ Nat.pow 2 63 ≤ config.seed.toNat then .error .outOfRange
  else .ok (config.sectionText "defaults" ++ "\n" ++ config.sectionText "server")

/-! ## Reading -/

/-- What a section gives for its fields, in order. Instead of a table it can be an array with the
values in the order of the fields. A section that is missing, or a date, gives nothing. -/
def sectionFields? (fields : List String) : Option Toml.Value → Option (List (Option Toml.Value))
  | none => some (fields.map fun _ => none)
  | some (.table _ entries) => some (fields.map (Toml.Entries.get? entries))
  | some (.array items) => some ((List.range fields.length).map fun i => items[i]?)
  | some (.datetime _) => some (fields.map fun _ => none)
  | some _ => none

/-- A text. -/
def textOf? : Toml.Value → Option String
  | .string text => some text
  | _ => none

/-- A natural number below a bound. -/
def naturalOf? (bound : Nat) : Toml.Value → Option Nat
  | .integer n => if 0 ≤ n ∧ n < bound then some n.toNat else none
  | _ => none

/-- A list of texts. -/
def textsOf? : Toml.Value → Option (List String)
  | .array items => items.mapM textOf?
  | _ => none

/-- A field in its place, or what stands there otherwise. A value that does not fit is none. -/
def fieldOr? {β : Type} (otherwise : β) (decode : Toml.Value → Option β) :
    Option (Option Toml.Value) → Option β
  | some (some value) => decode value
  | _ => some otherwise

/-- The configuration of the entries of a text. -/
def ofEntries? (entries : Toml.Entries) : Option Config := do
  let fieldsOf (heading : String) :=
    (ConfigKey.all.filter fun key => key.heading = heading).map ConfigKey.field
  let defaults ← sectionFields? (fieldsOf "defaults") (entries.get? "defaults")
  let server ← sectionFields? (fieldsOf "server") (entries.get? "server")
  return {
    method := ← fieldOr? standard.method textOf? defaults[0]?
    points := UInt64.ofNat (← fieldOr? standard.points.toNat (naturalOf? UInt64.size) defaults[1]?)
    format := ← fieldOr? standard.format textOf? defaults[2]?
    source := ← fieldOr? standard.source textOf? defaults[3]?
    seed := UInt64.ofNat (← fieldOr? standard.seed.toNat (naturalOf? UInt64.size) defaults[4]?)
    host := ← fieldOr? standard.host textOf? server[0]?
    port := UInt16.ofNat (← fieldOr? standard.port.toNat (naturalOf? UInt16.size) server[1]?)
    origins := ← fieldOr? standard.origins textsOf? server[2]? }

/-- The configuration of a text. -/
def ofText (text : String) : Except ConfigFault Config :=
  match (Toml.read text).bind ofEntries? with
  | some config => .ok config
  | none => .error .unparsable

end Config

end DefiniteIntegral
