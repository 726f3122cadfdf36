import TapeMachine.Interpretation

/-! # Diagnostics

Errors are shown on one line behind the program's name. A stray bracket also shows the code around
it, with a caret below the bracket. On a terminal the headline of the message stands out.
-/

namespace TapeMachine

/-- How messages are headed. -/
structure DiagnosticStyle where
  /-- The name in front of the message, if any. -/
  program : Option String
  /-- Whether the reader is a terminal. -/
  terminal : Bool
  /-- Makes a text stand out on a terminal. -/
  emphasize : String → String

namespace DiagnosticStyle

/-- The headline of a message. -/
def headline (style : DiagnosticStyle) (message : String) : String :=
  let text := match style.program with
    | some program => s!"{program}: {message}"
    | none => message
  if style.terminal then style.emphasize text else text

/-- A message on a line of its own. -/
def errorLine (style : DiagnosticStyle) (message : String) : String :=
  style.headline message ++ "\n"

end DiagnosticStyle

/-! ## Excerpts -/

namespace Excerpt

/-- The number of characters shown on each side of a position. -/
def radius : Nat := 32

/-- The position of the first character shown. -/
def start (position : Nat) : Nat := position - radius

/-- The number of characters in front of the position that are shown: the caret stands below the
next one. -/
def indent (position : Nat) : Nat := position - start position

/-- The characters shown around a position. -/
def chars (code : List Char) (position : Nat) : List Char :=
  (code.drop (start position)).take (indent position + radius + 1)

/-- A headline, the code around a position, and a caret below it. -/
def text (headline : String) (code : List Char) (position : Nat) : String :=
  s!"{headline} at instruction {position}\n" ++
    "  " ++ String.ofList (chars code position) ++ "\n" ++
    "  " ++ String.ofList (List.replicate (indent position) ' ') ++ "^\n"

end Excerpt

/-! ## Errors of an interpretation -/

/-- How the error of an interpretation is shown. -/
def DiagnosticStyle.explain (style : DiagnosticStyle) (code : String) : InterpretError → String
  | .stray e =>
    Excerpt.text (style.headline s!"Parse error: unmatched bracket {e.bracket.quoted}") code.toList
      e.position
  | .runtime (.offTape pointer delta) =>
    style.errorLine s!"Runtime error: pointer out of bounds (ptr={pointer}, move={delta})"
  | .runtime .noInput => style.errorLine "Runtime error: input exhausted"
  | .runtime (.stream fault) => style.errorLine s!"I/O error: {fault.text}"

end TapeMachine
