import TapeMachine.Program.Basic
import TapeMachine.Text.Split

/-! # Listings

A listing shows a program with one line per action and two lines, `loop` and `end`, around each
loop body. Bodies are indented by two spaces per level:

    add 2
    loop
      move -1
    end

* `Program.lines` gives the lines with their depths, `Program.listing` the text.
* `Program.ofListing?` reads a listing: it takes one line per action and pairs each `loop` line
  with its `end` line.
-/

namespace TapeMachine

/-- What a line of a listing says. -/
inductive Line where
  /-- An action and its count. -/
  | act (action : Action) (count : Int)
  /-- A loop body starts. -/
  | loop
  /-- The innermost loop body ends. -/
  | finish
deriving DecidableEq, Repr

namespace Line

/-- The line without its indentation. -/
def words : Line → String
  | .act action count => s!"{action.word} {count}"
  | .loop => "loop"
  | .finish => "end"

/-- The line as it is written at a nesting depth, line end included. -/
def text (depth : Nat) (line : Line) : String :=
  String.ofList (List.replicate (2 * depth) ' ') ++ line.words ++ "\n"

end Line

namespace Program

/-- The lines of a program that stands at a nesting depth, each with its own depth. -/
def lines (p : Program) : Nat → List (Nat × Line) :=
  p.fold (fun _ => [])
    (fun action count rest depth => (depth, .act action count) :: rest depth)
    (fun body rest depth =>
      (depth, .loop) :: (body (depth + 1) ++ (depth, .finish) :: rest depth))

/-- The text that shows a program. -/
def listing (p : Program) : String :=
  String.join ((p.lines 0).map fun line => line.2.text line.1)

end Program

/-! ## Reading a listing -/

/-- The number that digits stand for, at least one. -/
def natOfDigits? (cs : List Char) : Option Nat :=
  if cs ≠ [] ∧ cs.all Char.isDigit then some (Nat.ofDigitChars 10 cs 0) else none

/-- The number that digits stand for, perhaps behind a minus sign. -/
def intOfDigits? : List Char → Option Int
  | '-' :: cs => (natOfDigits? cs).map fun (n : Nat) => -(n : Int)
  | cs => (natOfDigits? cs).map fun (n : Nat) => (n : Int)

/-- The line with these words. -/
def Line.ofWords? (words : List Char) : Option Line :=
  if words = "loop".toList then some .loop
  else if words = "end".toList then some .finish
  else
    let name := String.ofList (words.takeWhile (· ≠ ' '))
    let count := (words.dropWhile (· ≠ ' ')).drop 1
    match [Action.move, .add, .output, .input].find? (·.word == name), intOfDigits? count with
    | some action, some n => some (.act action n)
    | _, _ => none

namespace Program

/-- Puts lines together: `body` holds the finished nodes of the innermost sequence and `outer` those
of the sequences around it, all newest first. -/
def assemble (body : List Node) (outer : List (List Node)) : List Line → Option Program
  | [] => if outer.isEmpty then some body.reverse else none
  | .act action count :: rest => assemble (.act action count :: body) outer rest
  | .loop :: rest => assemble [] (body :: outer) rest
  | .finish :: rest =>
    match outer with
    | [] => none
    | before :: outer => assemble (.loop body.reverse :: before) outer rest

/-- The program that a listing shows. Indentation carries no meaning. -/
def ofListing? (text : String) : Option Program :=
  let written := (Text.lines text.toList).dropLast
  (written.mapM fun line => Line.ofWords? (line.dropWhile (· = ' '))).bind (assemble [] [])

end Program

end TapeMachine
