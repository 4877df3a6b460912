import DefiniteIntegral.Command.Action
import DefiniteIntegral.Command.Line
import DefiniteIntegral.Identity
import DefiniteIntegral.Output.Format
import DefiniteIntegral.Random.Source
import DefiniteIntegral.Server.Address

/-! Running commands: what a command prints, and what it does to the stored configuration and to the
working directory. A command that fails prints nothing but the error. -/

namespace DefiniteIntegral

open DefiniteIntegral.Action

/-- A text with blanks after it, up to a width. -/
def padRight (width : Nat) (text : String) : String :=
  text.pushn ' ' (width - text.length)

/-- A line of a list of names with their descriptions. -/
def listLine (width : Nat) (name description : String) : String :=
  "  " ++ padRight width name ++ " - " ++ description ++ "\n"

/-- The list of methods. -/
def methodList : String :=
  "Available integration methods:\n" ++
    String.join (Method.all.map fun m => listLine 12 m.name m.description)

/-- The list of formats. -/
def formatList : String :=
  "Available output formats:\n" ++
    String.join (OutputFormat.all.map fun f => listLine 5 f.name f.description)

/-! ## Integration -/

namespace IntegrateOptions

/-- The method: the one given, or else that of the configuration. -/
def chooseMethod (options : IntegrateOptions) (config : Config) : Except (Error Float) Method :=
  match options.method with
  | some name =>
    match Method.ofName? name with
    | some method => .ok method
    | none => .error (.invalidRequest (.unknownMethod name))
  | none => config.defaultMethod.mapError .config

/-- The request that the options make. -/
def request (options : IntegrateOptions) (config : Config) :
    Except (Error Float) (Request Float) := do
  match options.function, options.lower, options.upper with
  | none, _, _ => throw (.invalidRequest .noFunction)
  | some function, some lower, some upper =>
    let method ← options.chooseMethod config
    let points := options.points.getD config.points
    return ⟨function, lower, upper, points.toNat, method⟩
  | some _, _, _ => throw (.invalidRequest .boundMissing)

/-- The format: the one given, or else that of the configuration. -/
def chooseFormat (options : IntegrateOptions) (config : Config) :
    Except (Error Float) OutputFormat :=
  let name := options.format.getD config.format
  match OutputFormat.ofName? name with
  | some format => .ok format
  | none => .error (.invalidRequest (.unknownFormat name))

/-- The random source: the seeded one if a seed is given, or else that of the configuration. -/
def chooseSource (entropy : UInt64) (options : IntegrateOptions) (config : Config) :
    Except (Error Float) Source :=
  match options.seed with
  | some seed => .ok (Source.ofKind entropy seed .seeded)
  | none => Source.ofName entropy config.source config.seed

/-- The text of the result that the options ask for. -/
def outputText (entropy : UInt64) (options : IntegrateOptions) (config : Config) :
    Except (Error Float) String := do
  let request ← options.request config
  request.validate
  let format ← options.chooseFormat config
  let source ← options.chooseSource entropy config
  let result ← source.compute request
  return format.write request result

/-- A text that ends with its last line. -/
def withLineEnd (text : String) : String :=
  if text.endsWith "\n" then text else text ++ "\n"

/-- Listing what there is, or integrating. -/
def run (entropy : UInt64) (options : IntegrateOptions) : Action Printed := do
  if options.listMethods then return .answer methodList
  if options.listFormats then return .answer formatList
  let config ← loadConfig
  let text ← settle (options.outputText entropy config)
  match options.output with
  | some path =>
    writeFile path text
    return ⟨"", "Output written to " ++ path ++ "\n"⟩
  | none => return .answer (withLineEnd text)

end IntegrateOptions

/-! ## Configuration -/

/-- Showing or changing the configuration. -/
def ConfigOptions.run (options : ConfigOptions) : Action Printed := do
  if options.path then
    let place ← get
    return .answer (place.configRoot ++ "/" ++ programName ++ "/config.toml\n")
  if options.reset then
    saveConfig .standard
    return .answer "Configuration reset to defaults\n"
  let config ← loadConfig
  match options.key, options.value with
  | none, none => return .answer (← settle (config.toText.mapError .config))
  | some key, none =>
    match config.getNamed? key with
    | some value => return .answer (value ++ "\n")
    | none => throw (.config (.noSuchKey key (ConfigKey.all.map ConfigKey.name)))
  | some key, some value =>
    let config ← settle ((config.setNamed key value).mapError .config)
    saveConfig config
    return .answer (key ++ " = " ++ value ++ "\n")
  | none, some _ => throw (.config .keyMissing)

/-! ## Status -/

/-- The report about the program. -/
def statusText (config : Config) : String :=
  programName ++ " v" ++ programVersion ++ "\n\nMethods:\n" ++
    String.join (Method.all.map fun m =>
      listLine 12 m.name
        (m.description ++ " (error estimate from n >= " ++ m.minPointsForError.repr ++ ")")) ++
    "\nRandom sources (current: " ++ config.source ++ "):\n" ++
    String.join (SourceKind.all.map fun kind => listLine 12 kind.name kind.description)

/-- Reporting the status. A server is looked for where the configuration says, and none is found. -/
def StatusOptions.run (options : StatusOptions) : Action Printed := do
  let config ← loadConfig
  let server :=
    if options.server then "Server: NOT RUNNING on " ++ config.address ++ "\n\n" else ""
  return .answer (server ++ statusText config)

/-! ## Server -/

/-- The configuration of a server, with the host and the port that are given. -/
def ServeOptions.applyTo (options : ServeOptions) (config : Config) : Config :=
  { config with host := options.host.getD config.host, port := options.port.getD config.port }

/-- Starting a server: the address is checked, and there is no network to listen on. -/
def ServeOptions.run (options : ServeOptions) : Action Printed := do
  let config ← loadConfig
  settle ((options.applyTo config).checkAddress.mapError .server)
  throw (.server .noNetwork)

/-! ## Commands -/

/-- What a command does. `entropy` is what a random source without a seed goes by. -/
def Command.run (entropy : UInt64) : Command → Action Printed
  | .integrate options => options.run entropy
  | .serve options => options.run
  | .config options => options.run
  | .status options => options.run

/-- What is left when the program has ended: the exit status and what has been printed. -/
structure Ending where
  status : Nat
  out : String
  remarks : String
deriving DecidableEq, Repr

/-- What is printed when a command line asks for help or is refused. -/
def usage : String :=
  "Usage: " ++ programName ++ " <COMMAND>\n\nCommands: " ++
    ", ".intercalate (Command.names ++ ["help"]) ++ "\n"

/-- How the program ends without running a command. -/
def Halt.ending : Halt → Ending
  | .help => ⟨0, usage, ""⟩
  | .version => ⟨0, programName ++ " " ++ programVersion ++ "\n", ""⟩
  | .refused => ⟨2, "", usage⟩

/-- Running a command line. -/
def runLine (entropy : UInt64) (words : List String) (place : Workplace) : Ending × Workplace :=
  match Command.ofLine words with
  | .error halt => (halt.ending, place)
  | .ok command =>
    match (command.run entropy).run place with
    | (.ok printed, place) => (⟨0, printed.out, printed.remarks⟩, place)
    | (.error e, place) => (⟨1, "", "Error: " ++ e.message ++ "\n"⟩, place)

end DefiniteIntegral
