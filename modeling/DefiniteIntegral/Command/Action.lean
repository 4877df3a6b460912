import DefiniteIntegral.Command.Folder
import DefiniteIntegral.Config.Store

/-! What a command works on, what it prints, and the actions that it is made of. -/

namespace DefiniteIntegral

/-- What commands work on. -/
structure Workplace where
  /-- The directory that holds the configurations of all programs. -/
  configRoot : String
  store : Store
  folder : Folder
deriving DecidableEq, Repr

/-- What a command prints: its answer, and remarks about it. -/
structure Printed where
  out : String
  remarks : String
deriving DecidableEq, Repr

/-- An action on a workplace. What it has done before it fails stays done. -/
abbrev Action (α : Type) := ExceptT (Error Float) (StateM Workplace) α

namespace Action

/-- An outcome that does not concern the workplace. -/
def settle {α : Type} (outcome : Except (Error Float) α) : Action α :=
  ExceptT.mk (pure outcome)

/-- Loading the configuration. -/
def loadConfig : Action Config := do
  let place ← get
  let (config, store) ← settle (place.store.load.mapError .config)
  set { place with store }
  return config

/-- Saving a configuration. -/
def saveConfig (config : Config) : Action Unit := do
  let place ← get
  let store ← settle ((place.store.save config).mapError .config)
  set { place with store }

/-- Writing a file. -/
def writeFile (path text : String) : Action Unit := do
  let place ← get
  let folder ← settle ((place.folder.write path text).mapError .io)
  set { place with folder }

end Action

/-- An answer without remarks. -/
def Printed.answer (out : String) : Printed :=
  ⟨out, ""⟩

end DefiniteIntegral
