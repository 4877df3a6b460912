/-! Command lines as words: switches with a long name and perhaps a letter, with or without a value,
and the words that stand for themselves. Words are read from left to right, and the first one that
ends the reading decides how. -/

namespace DefiniteIntegral

/-- Why a command line is not run. -/
inductive Halt
  /-- It asks for help. -/
  | help
  /-- It asks for the version. -/
  | version
  /-- It is no command line. -/
  | refused
deriving DecidableEq, Repr

/-- What a switch does to what has been read; none if it is refused. -/
inductive SwitchEffect (σ : Type)
  /-- It stands alone. -/
  | alone (apply : σ → Option σ)
  /-- It has a value: the rest of its word or the next word. That word must not look like a switch,
  unless `any` says that it can be any word. -/
  | valued (any : Bool) (apply : String → σ → Option σ)

/-- A switch: its name after two dashes, its letter after one, and what it does. -/
structure Switch (σ : Type) where
  long : String
  short : Option Char
  effect : SwitchEffect σ

/-- What a command takes: its switches, and what a word that stands for itself does. -/
structure WordGrammar (σ : Type) where
  switches : List (Switch σ)
  word : String → σ → Option σ

/-- A switch that still needs its value. -/
structure PendingSwitch (σ : Type) where
  any : Bool
  apply : String → σ → Option σ

namespace WordGrammar

variable {σ : Type}

/-- A change that may be refused. -/
def orRefuse : Option σ → Except Halt σ
  | some s => .ok s
  | none => .error .refused

/-- A word that begins with two dashes, without them. A value follows an equals sign. -/
def readLong (g : WordGrammar σ) (s : σ) (cs : List Char) :
    Except Halt (σ × Option (PendingSwitch σ)) :=
  let name := String.ofList (cs.takeWhile (· ≠ '='))
  let attached := match cs.dropWhile (· ≠ '=') with
    | _ :: value => some (String.ofList value)
    | [] => none
  match g.switches.find? (·.long = name), attached with
  | some ⟨_, _, .alone apply⟩, none => (orRefuse (apply s)).map fun s => (s, none)
  | some ⟨_, _, .valued _ apply⟩, some value =>
    (orRefuse (apply value s)).map fun s => (s, none)
  | some ⟨_, _, .valued any apply⟩, none => .ok (s, some ⟨any, apply⟩)
  | some ⟨_, _, .alone _⟩, some _ => .error .refused
  | none, none => .error (if name = "help" then .help else .refused)
  | none, some _ => .error .refused

/-- A word that begins with one dash, without it: letters of switches. The value of a switch is the
rest of the word, after an equals sign if there is one. -/
def readShort (g : WordGrammar σ) (s : σ) :
    List Char → Except Halt (σ × Option (PendingSwitch σ))
  | [] => .ok (s, none)
  | c :: cs =>
    match g.switches.find? (·.short = some c) with
    | some ⟨_, _, .alone apply⟩ => do
      let s ← orRefuse (apply s)
      g.readShort s cs
    | some ⟨_, _, .valued any apply⟩ =>
      match cs with
      | [] => .ok (s, some ⟨any, apply⟩)
      | '=' :: value => (orRefuse (apply (String.ofList value) s)).map fun s => (s, none)
      | value => (orRefuse (apply (String.ofList value) s)).map fun s => (s, none)
    | none => .error (if c = 'h' then .help else .refused)

/-- Whether a word looks like a switch. -/
def looksLikeSwitch (word : String) : Bool :=
  match word.toList with
  | '-' :: _ :: _ => true
  | _ => false

/-- Words that all stand for themselves. -/
def readPlain (g : WordGrammar σ) (s : σ) (words : List String) : Except Halt σ :=
  orRefuse (words.foldlM (fun s word => g.word word s) s)

/-- Words from left to right. After a word of two dashes all others stand for themselves. -/
def read (g : WordGrammar σ) : Option (PendingSwitch σ) → σ → List String → Except Halt σ
  | none, s, [] => .ok s
  | some _, _, [] => .error .refused
  | some pending, s, word :: words =>
    if !pending.any && looksLikeSwitch word then .error .refused
    else do
      let s ← orRefuse (pending.apply word s)
      g.read none s words
  | none, s, word :: words =>
    match word.toList with
    | ['-', '-'] => g.readPlain s words
    | '-' :: '-' :: cs => do
      let (s, pending) ← g.readLong s cs
      g.read pending s words
    | '-' :: c :: cs => do
      let (s, pending) ← g.readShort s (c :: cs)
      g.read pending s words
    | _ => do
      let s ← orRefuse (g.word word s)
      g.read none s words

end WordGrammar

end DefiniteIntegral
