import DefiniteIntegral.Error
import DefiniteIntegral.Text.Blank
import DefiniteIntegral.Text.Pieces

/-! The configuration: what an integration uses when the user says nothing else, and where the
server listens. Each entry has a key, a text that shows it, and a way to set it from a text. -/

namespace DefiniteIntegral

/-- A configuration. The method, the format and the random source are kept by name, and only looked
up when they are used. -/
structure Config where
  method : String
  points : UInt64
  format : String
  source : String
  seed : UInt64
  host : String
  port : UInt16
  origins : List String
deriving DecidableEq, Repr

/-- The configuration of a user who has set nothing. -/
def Config.standard : Config where
  method := "trapezoidal"
  points := 100
  format := "json"
  source := "pseudo"
  seed := 42
  host := "127.0.0.1"
  port := 8000
  origins := ["http://localhost:4200"]

/-- The keys of a configuration. -/
inductive ConfigKey
  | method
  | points
  | format
  | source
  | seed
  | host
  | port
  | origins
deriving DecidableEq, Repr

namespace ConfigKey

/-- All keys, in the order they are listed. -/
def all : List ConfigKey :=
  [method, points, format, source, seed, host, port, origins]

/-- The section of a key. -/
def heading : ConfigKey → String
  | method => "defaults"
  | points => "defaults"
  | format => "defaults"
  | source => "defaults"
  | seed => "defaults"
  | host => "server"
  | port => "server"
  | origins => "server"

/-- The name of a key within its section. -/
def field : ConfigKey → String
  | method => "method"
  | points => "num_points"
  | format => "format"
  | source => "rng"
  | seed => "seed"
  | host => "host"
  | port => "port"
  | origins => "allowed_origins"

/-- The whole name of a key. -/
def name (key : ConfigKey) : String :=
  key.heading ++ "." ++ key.field

/-- The key of a name. -/
def ofName? (text : String) : Option ConfigKey :=
  all.find? fun key => key.name = text

end ConfigKey

/-- The origins of a text: its pieces between commas without the blanks around them, and without
the empty ones. -/
def originsOfText (text : String) : List String :=
  (((pieces ',' text.toList).map trimBlank).filter (· ≠ [])).map String.ofList

namespace Config

/-- The text of an entry. -/
def get (config : Config) : ConfigKey → String
  | .method => config.method
  | .points => config.points.toNat.repr
  | .format => config.format
  | .source => config.source
  | .seed => config.seed.toNat.repr
  | .host => config.host
  | .port => config.port.toNat.repr
  | .origins => ",".intercalate config.origins

/-- The number of a text, if it is below a bound. -/
def numberOf (key : ConfigKey) (bound : Nat) (value : String) : Except ConfigFault Nat :=
  match readNat? bound value with
  | some n => .ok n
  | none => .error (.invalidValue key.field value)

/-- The configuration with an entry set from a text. A method takes its canonical name. -/
def set (config : Config) (key : ConfigKey) (value : String) : Except ConfigFault Config :=
  match key with
  | .method =>
    match Method.ofName? value with
    | some method => .ok { config with method := method.name }
    | none => .error (.unknownMethod value)
  | .points =>
    (numberOf key UInt64.size value).map fun n => { config with points := UInt64.ofNat n }
  | .format => .ok { config with format := value }
  | .source => .ok { config with source := value }
  | .seed => (numberOf key UInt64.size value).map fun n => { config with seed := UInt64.ofNat n }
  | .host => .ok { config with host := value }
  | .port => (numberOf key UInt16.size value).map fun n => { config with port := UInt16.ofNat n }
  | .origins => .ok { config with origins := originsOfText value }

/-- The text of the entry of a name. -/
def getNamed? (config : Config) (name : String) : Option String :=
  (ConfigKey.ofName? name).map config.get

/-- The configuration with the entry of a name set from a text. -/
def setNamed (config : Config) (name value : String) : Except ConfigFault Config :=
  match ConfigKey.ofName? name with
  | some key => config.set key value
  | none => .error (.unknownKey name)

/-- The method that the configuration names. -/
def defaultMethod (config : Config) : Except ConfigFault Method :=
  match Method.ofName? config.method with
  | some method => .ok method
  | none => .error (.unknownMethod config.method)

/-- Where the server listens: host and port. -/
def address (config : Config) : String :=
  config.host ++ ":" ++ config.port.toNat.repr

end Config

end DefiniteIntegral
