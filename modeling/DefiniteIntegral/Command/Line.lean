import DefiniteIntegral.Command.Words
import DefiniteIntegral.Number.Decimal

/-! The command lines of the program. -/

namespace DefiniteIntegral

/-- What an integration is asked to do. -/
structure IntegrateOptions where
  function : Option String
  lower : Option Float
  upper : Option Float
  points : Option UInt64
  method : Option String
  format : Option String
  seed : Option UInt64
  output : Option String
  listMethods : Bool
  listFormats : Bool
deriving Repr

/-- What a server is asked to do. -/
structure ServeOptions where
  host : Option String
  port : Option UInt16
deriving Repr

/-- What is to be done with the configuration. -/
structure ConfigOptions where
  key : Option String
  value : Option String
  path : Bool
  reset : Bool
deriving Repr

/-- What a report of the status is to include. -/
structure StatusOptions where
  server : Bool
deriving Repr

/-- A command. -/
inductive Command
  | integrate (options : IntegrateOptions)
  | serve (options : ServeOptions)
  | config (options : ConfigOptions)
  | status (options : StatusOptions)
deriving Repr

/-! ## Switches -/

/-- A value for something that has none yet; a second one is refused. -/
def setOnce {α : Type} (old : Option α) (new : Option α) : Option (Option α) :=
  match old with
  | some _ => none
  | none => new.map some

/-- A flag that has not been set yet. -/
def raiseFlag (old : Bool) : Option Bool :=
  if old then none else some true

/-- A natural number that fits 64 bits. -/
def readNat64? (text : String) : Option UInt64 :=
  (readNat? UInt64.size text).map UInt64.ofNat

/-- A natural number that fits 16 bits. -/
def readNat16? (text : String) : Option UInt16 :=
  (readNat? UInt16.size text).map UInt16.ofNat

/-- The words of an integration. Only bounds can be words that look like switches, since they can be
negative. -/
def IntegrateOptions.grammar : WordGrammar IntegrateOptions where
  switches := [
    ⟨"lower", some 'a', .valued true fun v o =>
      (setOnce o.lower (readFloat? v)).map fun lower => { o with lower }⟩,
    ⟨"upper", some 'b', .valued true fun v o =>
      (setOnce o.upper (readFloat? v)).map fun upper => { o with upper }⟩,
    ⟨"points", some 'n', .valued false fun v o =>
      (setOnce o.points (readNat64? v)).map fun points => { o with points }⟩,
    ⟨"method", some 'm', .valued false fun v o =>
      (setOnce o.method (some v)).map fun method => { o with method }⟩,
    ⟨"format", some 'f', .valued false fun v o =>
      (setOnce o.format (some v)).map fun format => { o with format }⟩,
    ⟨"seed", none, .valued false fun v o =>
      (setOnce o.seed (readNat64? v)).map fun seed => { o with seed }⟩,
    ⟨"output", some 'o', .valued false fun v o =>
      (setOnce o.output (some v)).map fun output => { o with output }⟩,
    ⟨"list-methods", some 'M', .alone fun o =>
      (raiseFlag o.listMethods).map fun listMethods => { o with listMethods }⟩,
    ⟨"list-formats", some 'F', .alone fun o =>
      (raiseFlag o.listFormats).map fun listFormats => { o with listFormats }⟩]
  word v o := (setOnce o.function (some v)).map fun function => { o with function }

/-- The words of a server. -/
def ServeOptions.grammar : WordGrammar ServeOptions where
  switches := [
    ⟨"host", none, .valued false fun v o =>
      (setOnce o.host (some v)).map fun host => { o with host }⟩,
    ⟨"port", some 'p', .valued false fun v o =>
      (setOnce o.port (readNat16? v)).map fun port => { o with port }⟩]
  word _ _ := none

/-- The words about the configuration. -/
def ConfigOptions.grammar : WordGrammar ConfigOptions where
  switches := [
    ⟨"path", none, .alone fun o => (raiseFlag o.path).map fun path => { o with path }⟩,
    ⟨"reset", none, .alone fun o => (raiseFlag o.reset).map fun reset => { o with reset }⟩]
  word v o :=
    match o.key with
    | none => some { o with key := some v }
    | some _ => (setOnce o.value (some v)).map fun value => { o with value }

/-- The words about the status. -/
def StatusOptions.grammar : WordGrammar StatusOptions where
  switches := [
    ⟨"server", none, .alone fun o => (raiseFlag o.server).map fun server => { o with server }⟩]
  word _ _ := none

/-! ## Commands -/

namespace Command

/-- The names of the commands. -/
def names : List String :=
  ["integrate", "serve", "config", "status"]

/-- The command of a name and the words after it. An integration needs a function, unless it only
lists what there is. -/
def ofWords? (name : String) (words : List String) : Option (Except Halt Command) :=
  match name with
  | "integrate" => some do
    let options ← IntegrateOptions.grammar.read none
      ⟨none, none, none, none, none, none, none, none, false, false⟩ words
    if options.function.isNone ∧ !options.listMethods ∧ !options.listFormats then throw .refused
    return .integrate options
  | "serve" => some ((ServeOptions.grammar.read none ⟨none, none⟩ words).map .serve)
  | "config" =>
    some ((ConfigOptions.grammar.read none ⟨none, none, false, false⟩ words).map .config)
  | "status" => some ((StatusOptions.grammar.read none ⟨false⟩ words).map .status)
  | _ => none

/-- How the words after a request for help are answered: they name at most one command. -/
def helpFor (words : List String) : Halt :=
  match words with
  | [] => .help
  | [name] => if name ∈ names ∨ name = "help" then .help else .refused
  | _ => .refused

/-- The command of a command line. -/
def ofLine : List String → Except Halt Command
  | [] => .error .refused
  | name :: words =>
    match ofWords? name words with
    | some command => command
    | none =>
      match name.toList with
      | ['h', 'e', 'l', 'p'] => .error (helpFor words)
      | ['-', '-', 'h', 'e', 'l', 'p'] => .error .help
      | ['-', '-', 'v', 'e', 'r', 's', 'i', 'o', 'n'] => .error .version
      | '-' :: 'h' :: _ => .error .help
      | '-' :: 'V' :: _ => .error .version
      | _ => .error .refused

end Command

end DefiniteIntegral
