import TapeMachine.Settings.Basic
import TapeMachine.Text.Blank
import TapeMachine.Text.Numeral

/-! # The text of a setting

Each setting is read from a text. Blanks around it do not matter. Sizes are numerals, units are
named by their symbols, and end-of-input policies by their names in upper or lower case.
-/

namespace TapeMachine

/-- The largest number of cells that a tape may start with, two to the power of 28. -/
def memoryLimit : Nat := 268435456

/-- Why the text of a setting is refused. -/
inductive ValueError where
  /-- The text is not one of the cell sizes. -/
  | cellSize (text : String)
  /-- A tape has at least one cell. -/
  | noMemory
  /-- The number of cells is above the limit. -/
  | tooMuchMemory
  /-- The number of cells is no numeral. -/
  | memoryNumeral (cause : Text.NumeralError)
  /-- The text is no symbol of a unit. -/
  | timeUnit (text : String)
  /-- The text is no name of a policy. -/
  | endPolicy (text : String)
deriving DecidableEq, Repr

/-- What is wrong with the text, in words. -/
def ValueError.message : ValueError → String
  | .cellSize text => s!"cell size must be one of 4, 8, 16, 32 (got '{text}')"
  | .noMemory => "memory size must be at least 1 cell"
  | .tooMuchMemory => s!"memory size must be at most {memoryLimit} cells"
  | .memoryNumeral cause => s!"memory size must be a positive integer ({cause.message})"
  | .timeUnit text => s!"runtime units must be one of ns, us, ms, s (got '{text}')"
  | .endPolicy text => s!"eof policy must be one of error, zero, unchanged (got '{text}')"

/-- Reads a cell size. A refusal shows the text with its blanks. -/
def CellSize.ofText (text : String) : Except ValueError CellSize :=
  match Text.readNumeral Text.word32Bound (Text.trimChars text.toList) with
  | .error _ => .error (.cellSize text)
  | .ok bits =>
    match CellSize.ofBits? bits with
    | none => .error (.cellSize text)
    | some size => .ok size

/-- Reads a number of cells. -/
def memorySizeOfText (text : String) : Except ValueError Nat :=
  match Text.readNumeral Text.word64Bound (Text.trimChars text.toList) with
  | .error cause => .error (.memoryNumeral cause)
  | .ok n =>
    if n = 0 then .error .noMemory
    else if memoryLimit < n then .error .tooMuchMemory
    else .ok n

/-- The value that a name stands for, or the refusal of the name. -/
def valueOfName {α : Type} (find? : String → Option α) (refusal : String → ValueError)
    (name : String) : Except ValueError α :=
  match find? name with
  | some value => .ok value
  | none => .error (refusal name)

namespace TimeUnit

/-- The unit with exactly this symbol. -/
def ofSymbol? (text : String) : Option TimeUnit :=
  [nanosecond, microsecond, millisecond, second].find? (·.symbol == text)

/-- Reads a unit without regard to blanks at its ends. -/
def ofText (text : String) : Except ValueError TimeUnit :=
  valueOfName ofSymbol? .timeUnit (Text.trim text)

end TimeUnit

namespace EndPolicy

/-- The policy with exactly this name. -/
def ofName? (text : String) : Option EndPolicy :=
  [fail, zero, keep].find? (·.name == text)

/-- Reads a policy without regard to case and to blanks at its ends. -/
def ofText (text : String) : Except ValueError EndPolicy :=
  valueOfName ofName? .endPolicy ((Text.trim text).map Char.toLower)

end EndPolicy

end TapeMachine
