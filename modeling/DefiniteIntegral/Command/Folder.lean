import DefiniteIntegral.Error
import DefiniteIntegral.Text.Pieces

/-! The working directory and the files outside of it, as far as a command writes them.

There are no directories here but the working one: none in it, and outside of it none that a path
could name. A write either leaves its whole text or fails, and one that fails leaves nothing behind:
it has no directory to return. -/

namespace DefiniteIntegral

/-- A directory. -/
structure Folder where
  /-- The names and the texts of its files. -/
  files : List (String × String)
  /-- The texts of the files outside of it, by the paths that have led to them. -/
  outside : List (String × String)
deriving DecidableEq, Repr

/-- Where a path leads. -/
inductive Destination
  /-- To a file of the directory. -/
  | inside (name : String)
  /-- To a file outside of it, which goes by the path. -/
  | outside (path : String)
  /-- To the device that keeps nothing. -/
  | nowhere
deriving DecidableEq, Repr

namespace Folder

/-- A directory without files. -/
def empty : Folder :=
  ⟨[], []⟩

/-- The longest name that a file can have, in bytes. -/
def maxNameLength : Nat := 255

/-- The longest path, in bytes. -/
def maxPathLength : Nat := 4095

/-- Files after one of them has been given a text. -/
def put (files : List (String × String)) (name text : String) : List (String × String) :=
  files.filter (fun file => file.1 ≠ name) ++ [(name, text)]

/-- Checks that the parts of a path lead to a file outside the directory. There are no directories
that they could name. -/
def resolveOutside : List String → Except FileFault Unit
  | [] => .error .isADirectory
  | part :: parts =>
    if part = "" ∨ part = "." ∨ part = ".." then resolveOutside parts
    else if maxNameLength < part.utf8ByteSize then .error .nameTooLong
    else if parts = [] then .ok ()
    else if parts.all (· = "") then .error .isADirectory
    else .error .notFound

/-- The name of the file that the parts of a path lead to; none for a file outside the directory.
Empty parts and single points lead nowhere else, and there are no directories in the directory. -/
def resolve (folder : Folder) : List String → Except FileFault (Option String)
  | [] => .error .isADirectory
  | part :: parts =>
    if part = "" ∨ part = "." then folder.resolve parts
    else if part = ".." then (resolveOutside parts).map fun () => none
    else if maxNameLength < part.utf8ByteSize then .error .nameTooLong
    else if parts = [] then .ok (some part)
    else if parts.all (· = "") then .error .isADirectory
    else if folder.files.any fun file => file.1 = part then .error .notADirectory
    else .error .notFound

/-- Where a path leads: a path that begins with a slash leads out of the directory. -/
def target (folder : Folder) (path : String) : Except FileFault Destination :=
  let parts := (pieces '/' path.toList).map String.ofList
  if path.contains '\x00' then .error .nulInName
  else if path = "" then .error .notFound
  else if maxPathLength < path.utf8ByteSize then .error .nameTooLong
  else if path = "/dev/null" then .ok .nowhere
  else if path.startsWith "/" then (resolveOutside parts).map fun () => .outside path
  else (folder.resolve parts).map fun
    | some name => .inside name
    | none => .outside path

/-- The directory after a text has been written to a path. -/
def write (folder : Folder) (path text : String) : Except FileFault Folder :=
  (folder.target path).map fun
    | .inside name => { folder with files := put folder.files name text }
    | .outside path => { folder with outside := put folder.outside path text }
    | .nowhere => folder

end Folder

end DefiniteIntegral
