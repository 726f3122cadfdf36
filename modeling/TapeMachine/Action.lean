/-! # Commands and actions

A program text is read character by character. Eight characters are commands:

* `>` and `<` move the data pointer, `+` and `-` change the current cell, `.` writes it and `,`
  reads it. These six stand for an action and a signed step (`Action.ofChar?`).
* `[` and `]` delimit a loop and stand for no action.

Every other character is a comment.
-/

namespace TapeMachine

/-- The eight command characters. -/
def commandChars : List Char :=
  ['>', '<', '+', '-', '.', ',', '[', ']']

/-- Whether `c` is one of the eight command characters. -/
def isCommand (c : Char) : Bool :=
  commandChars.contains c

/-- What a machine can do in one go, and repeat. -/
inductive Action where
  /-- Move the data pointer. -/
  | move
  /-- Add to the current cell. -/
  | add
  /-- Write the current cell. -/
  | output
  /-- Read into the current cell. -/
  | input
deriving DecidableEq, Repr

namespace Action

/-- The action that a character stands for and the signed step it contributes; brackets and comments
have none. -/
def ofChar? : Char → Option (Action × Int)
  | '>' => some (.move, 1)
  | '<' => some (.move, -1)
  | '+' => some (.add, 1)
  | '-' => some (.add, -1)
  | '.' => some (.output, 1)
  | ',' => some (.input, 1)
  | _ => none

/-- The word for the action in a listing. -/
def word : Action → String
  | .move => "move"
  | .add => "add"
  | .output => "out"
  | .input => "in"

end Action

end TapeMachine
