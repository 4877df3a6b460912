import DefiniteIntegral.Command.Run

/-! The program: the words of the command line are run on the files of the user. -/

namespace DefiniteIntegral

/-- The directory that holds the configurations of all programs. -/
def findConfigRoot : IO String := do
  match ← IO.getEnv "XDG_CONFIG_HOME" with
  | some root => return root
  | none => return (← IO.getEnv "HOME").getD "" ++ "/.config"

/-- What stands in the place of the configuration file. -/
def findStore (path : String) : IO Store := do
  try
    let bytes ← IO.FS.readBinFile path
    return Store.ofBytes bytes.toList
  catch _ => return .empty

/-- The command of a command line, and what it leaves. -/
def runProgram (words : List String) : IO UInt32 := do
  let root ← findConfigRoot
  let directory := root ++ "/" ++ programName
  let path := directory ++ "/config.toml"
  let entropy := (← IO.getRandomBytes 8).toUInt64LE!
  let place : Workplace := ⟨root, ← findStore path, .empty⟩
  let (ending, after) := runLine entropy words place
  if after.store ≠ place.store then
    if let some text := after.store.text? then
      IO.FS.createDirAll directory
      IO.FS.writeFile path text
  for (name, text) in after.folder.files ++ after.folder.outside do
    IO.FS.writeFile name text
  IO.print ending.out
  IO.eprint ending.remarks
  return UInt32.ofNat ending.status

end DefiniteIntegral

/-- The program. -/
def main (words : List String) : IO UInt32 :=
  DefiniteIntegral.runProgram words
