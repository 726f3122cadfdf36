/-! # Disks

A path is looked up on a disk. What matters of the answer is whether a regular file stands there and
whether it can be read.
-/

namespace TapeMachine

/-- What stands at a path. -/
inductive Probe where
  /-- No regular file. -/
  | absent
  /-- A regular file that cannot be read, and why. -/
  | unreadable (why : String)
  /-- A regular file with this content. -/
  | content (bytes : List UInt8)
deriving DecidableEq, Repr

/-- What stands at each path. -/
abbrev Disk := String → Probe

/-- The content as text, if it can be read and is valid UTF-8. -/
def Probe.text? : Probe → Option String
  | .content bytes => String.fromUTF8? ⟨bytes.toArray⟩
  | _ => none

/-! ## Paths -/

/-- A path followed by a name. A slash is put between them unless the path is empty or already ends
with one. -/
def joinPath (path name : String) : String :=
  if path.isEmpty || path.toList.getLast? = some '/' then path ++ name else path ++ "/" ++ name

/-- The last component of a path. -/
def fileName (path : List Char) : List Char :=
  (path.reverse.takeWhile (· ≠ '/')).reverse

/-- What follows the last dot of a file name. A name whose only dot is its first character has no
extension. -/
def extension? (name : List Char) : Option (List Char) :=
  match name.reverse.dropWhile (· ≠ '.') with
  | [] => none
  | [_] => none
  | _ => some (name.reverse.takeWhile (· ≠ '.')).reverse

end TapeMachine
