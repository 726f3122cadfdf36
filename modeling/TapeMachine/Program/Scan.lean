import TapeMachine.Program.Basic

/-! # Programs from text

A text is scanned once, from left to right.

* Consecutive characters of one action fold into one node with their net count, so `+-+` is `add 1`
  and `+-` is `add 0`. A bracket, a comment or another action ends the run.
* A loop body is attached to the sequence around it when its `]` is read.
* A `]` with no open loop is reported where it stands; if loops are still open at the end, the
  innermost `[` is reported. Positions count characters.
-/

namespace TapeMachine

/-- The two loop brackets. -/
inductive Bracket where
  | opening
  | closing
deriving DecidableEq, Repr

namespace Bracket

/-- The character a bracket is written as. -/
def char : Bracket → Char
  | .opening => '['
  | .closing => ']'

/-- The bracket in single quotes, as messages show it. -/
def quoted : Bracket → String
  | .opening => "'['"
  | .closing => "']'"

end Bracket

/-- A bracket without its partner, and the position at which it stands. -/
structure StrayBracket where
  position : Nat
  bracket : Bracket
deriving DecidableEq, Repr

/-- What went wrong, in one line. -/
def StrayBracket.message (e : StrayBracket) : String :=
  s!"Unmatched bracket {e.bracket.quoted} at instruction {e.position}"

/-! ## The scan -/

/-- A loop whose `]` has not been read yet: where its `[` stands, and the nodes that precede it in
the sequence around it, newest first. -/
structure OpenLoop where
  position : Nat
  before : List Node
deriving DecidableEq, Repr

/-- What is known after part of the text has been read. -/
structure Scan where
  /-- The number of characters read. -/
  position : Nat
  /-- The run that may still go on, and its net count so far. -/
  run : Option (Action × Int)
  /-- The finished nodes of the innermost sequence, newest first. -/
  body : List Node
  /-- The open loops, innermost first. -/
  enclosing : List OpenLoop
deriving DecidableEq, Repr

namespace Scan

/-- Nothing has been read. -/
def start : Scan := ⟨0, none, [], []⟩

/-- The nodes of the innermost sequence, newest first, once the run has ended. -/
def finished (s : Scan) : List Node :=
  match s.run with
  | none => s.body
  | some (action, count) => .act action count :: s.body

/-- A character of an action goes on with a run of that action, and otherwise starts a new one. -/
def count (s : Scan) (action : Action) (step : Int) : Scan :=
  match s.run with
  | some (a, n) =>
    if a = action then { s with position := s.position + 1, run := some (action, n + step) }
    else { s with position := s.position + 1, run := some (action, step), body := s.finished }
  | none => { s with position := s.position + 1, run := some (action, step) }

/-- A comment ends the run and adds nothing. -/
def skip (s : Scan) : Scan :=
  { s with position := s.position + 1, run := none, body := s.finished }

/-- `[` starts a new innermost sequence. -/
def openLoop (s : Scan) : Scan :=
  ⟨s.position + 1, none, [], ⟨s.position, s.finished⟩ :: s.enclosing⟩

/-- `]` turns the innermost sequence into a loop of the sequence around it. -/
def closeLoop (s : Scan) : Except StrayBracket Scan :=
  match s.enclosing with
  | [] => .error ⟨s.position, .closing⟩
  | o :: outer => .ok ⟨s.position + 1, none, .loop s.finished.reverse :: o.before, outer⟩

/-- Reads one character. -/
def feed (s : Scan) (c : Char) : Except StrayBracket Scan :=
  if c = '[' then .ok s.openLoop
  else if c = ']' then s.closeLoop
  else match Action.ofChar? c with
    | some (action, step) => .ok (s.count action step)
    | none => .ok s.skip

/-- The program, if no loop is open. -/
def finish (s : Scan) : Except StrayBracket Program :=
  match s.enclosing with
  | [] => .ok s.finished.reverse
  | o :: _ => .error ⟨o.position, .opening⟩

end Scan

namespace Program

/-- The program that a sequence of characters stands for. -/
def ofChars (source : List Char) : Except StrayBracket Program :=
  source.foldlM Scan.feed Scan.start >>= Scan.finish

/-- The program that a text stands for. -/
def ofText (source : String) : Except StrayBracket Program :=
  ofChars source.toList

end Program

end TapeMachine
