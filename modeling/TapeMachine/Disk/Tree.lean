import TapeMachine.Disk
import TapeMachine.Text.Split

/-! # File trees

A file tree is a disk held in memory: a set of directories and regular files, and a directory from
which relative paths start. A path is walked component by component. Only a directory can be walked
through, also by `.`, by `..` and by a slash at the end of a path.
-/

namespace TapeMachine

/-- What stands at a place of a file tree. -/
inductive TreeEntry where
  | directory
  | file (bytes : List UInt8)
  /-- A regular file whose read fails, and why. -/
  | unreadable (why : String)
deriving DecidableEq, Repr

/-- A place in a tree: the names that lead to it, from the root. -/
abbrev Place := List (List Char)

/-- A file tree. The directories above an entry need no entries of their own. -/
structure FileTree where
  /-- The entries; of two for the same place the later one counts. -/
  entries : List (Place × TreeEntry)
  /-- The directory from which relative paths start. -/
  workingDirectory : Place
deriving DecidableEq, Repr

/-- The components of a path, cut at the slashes; some may be empty. -/
def components (path : List Char) : List (List Char) :=
  Text.splitAtEach '/' path

/-- The longest name of a file, in bytes. -/
def maxNameBytes : Nat := 255

/-- The longest path, in bytes. -/
def maxPathBytes : Nat := 4095

/-- Whether a path can name anything: it is neither empty nor too long and holds no NUL. -/
def isUsablePath (path : String) : Bool :=
  !path.isEmpty && path.utf8ByteSize ≤ maxPathBytes && path.toList.all (· ≠ '\x00')

namespace FileTree

/-- What stands at a place. -/
def entry? (t : FileTree) (place : Place) : Option TreeEntry :=
  match t.entries.reverse.find? (·.1 == place) with
  | some (_, entry) => some entry
  | none =>
    if (t.workingDirectory :: t.entries.map (·.1)).any (place.isPrefixOf ·) then some .directory
    else none

/-- The place one component further, if the place so far is a directory and the next one exists. -/
def enter? (t : FileTree) (place : Place) (name : List Char) : Option Place :=
  if t.entry? place ≠ some .directory then none
  else if name = [] ∨ name = ['.'] then some place
  else if name = ['.', '.'] then some place.dropLast
  else if maxNameBytes < (String.ofList name).utf8ByteSize then none
  else if (t.entry? (place ++ [name])).isSome then some (place ++ [name])
  else none

/-- What stands at the end of a path. -/
def walk? (t : FileTree) (path : String) : Option TreeEntry :=
  if !isUsablePath path then none
  else
    let start := if path.toList.head? = some '/' then [] else t.workingDirectory
    ((components path.toList).foldlM t.enter? start).bind t.entry?

/-- The tree as a disk. -/
def disk (t : FileTree) : Disk := fun path =>
  match t.walk? path with
  | some (.file bytes) => .content bytes
  | some (.unreadable why) => .unreadable why
  | _ => .absent

end FileTree

end TapeMachine
