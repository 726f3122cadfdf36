import TapeMachine.Action
import TapeMachine.Disk

/-! # Program files

A program is given inline or in a file whose name ends in `.b` or `.bf`. Either way only the command
characters count. A file need not be valid text: a byte is a command if it is the ASCII code of one.
-/

namespace TapeMachine

/-! ## Commands -/

/-- The command characters of a text. -/
def commandsOfText (text : String) : String :=
  String.ofList (text.toList.filter isCommand)

/-- The command characters of a sequence of bytes. -/
def commandsOfBytes (bytes : List UInt8) : String :=
  String.ofList ((bytes.map fun b => Char.ofNat b.toNat).filter isCommand)

/-! ## Files -/

/-- Why a program file was not loaded. -/
inductive ProgramFileError where
  /-- No regular file stands at the path. -/
  | missing (path : String)
  /-- The file's name is not that of a program. -/
  | misnamed (path : String)
  /-- The file cannot be read. -/
  | unreadable (path why : String)
deriving DecidableEq, Repr

/-- What went wrong, in one line. -/
def ProgramFileError.message : ProgramFileError → String
  | .missing path => s!"Input error: cannot open {path} (no such file)"
  | .misnamed path => s!"Input error: incorrect filetype for {path} (must be .b or .bf)"
  | .unreadable path why => s!"Input error: failed to read {path}: {why}"

/-- A program file that was read. -/
structure ProgramFile where
  /-- The number of bytes of the file. -/
  size : Nat
  /-- The command characters. -/
  code : String
deriving DecidableEq, Repr

namespace ProgramFile

/-- The extensions of program files. -/
def extensions : List (List Char) := [['b'], ['b', 'f']]

/-- Whether a path is named like a program file. -/
def isNamed (path : String) : Bool :=
  match extension? (fileName path.toList) with
  | some ext => extensions.contains ext
  | none => false

/-- Loads a program file. A missing file is reported before a wrong name, and that before a failed
read. -/
def load (disk : Disk) (path : String) : Except ProgramFileError ProgramFile :=
  match disk path with
  | .absent => .error (.missing path)
  | .unreadable why =>
    if isNamed path then .error (.unreadable path why) else .error (.misnamed path)
  | .content bytes =>
    if isNamed path then .ok ⟨bytes.length, commandsOfBytes bytes⟩ else .error (.misnamed path)

end ProgramFile

end TapeMachine
