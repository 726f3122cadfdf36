import TapeMachine.Program.Basic

/-! # Canonical programs

Many texts stand for the same program. `Program.render` picks one of them, and the canonical
programs are those that some text without comments stands for.

* `Canonical p`: at every nesting level no two neighbours have the same action, and every count of a
  write or a read is positive.
* `Program.render p`: each action as a run of one character, or as a run that cancels out if its
  count is zero, and each loop in brackets.
* `Program.merge p`: at every nesting level, neighbours of one action become one node with the sum
  of their counts.
-/

namespace TapeMachine

/-! ## Canonical form -/

/-- The action of the first node, if it has one. -/
def Program.firstAction? : Program → Option Action
  | .act action _ :: _ => some action
  | _ => none

/-- Whether a run of characters can have this count: writes and reads only count up. -/
def IsRunCount (action : Action) (count : Int) : Prop :=
  action = .output ∨ action = .input → 1 ≤ count

/-- At every nesting level no two neighbours have the same action, and writes and reads have
positive counts. -/
inductive Canonical : Program → Prop where
  | nil : Canonical []
  | act {action : Action} {count : Int} {rest : Program} :
      IsRunCount action count → rest.firstAction? ≠ some action → Canonical rest →
      Canonical (.act action count :: rest)
  | loop {body rest : Program} :
      Canonical body → Canonical rest → Canonical (.loop body :: rest)

/-! ## The text of a program -/

/-- A run with a signed count; a zero count is written as one character of each sign. -/
def signedRun (up down : Char) (count : Int) : List Char :=
  if count = 0 then [up, down]
  else if 0 < count then List.replicate count.toNat up
  else List.replicate (-count).toNat down

/-- The characters of an action and its count. -/
def runChars (action : Action) (count : Int) : List Char :=
  match action with
  | .move => signedRun '>' '<' count
  | .add => signedRun '+' '-' count
  | .output => List.replicate count.toNat '.'
  | .input => List.replicate count.toNat ','

namespace Program

/-- The characters of a program. -/
def render (p : Program) : List Char :=
  p.fold [] (fun action count rest => runChars action count ++ rest)
    (fun body rest => '[' :: (body ++ ']' :: rest))

/-! ## Merging neighbours -/

/-- Puts an action in front of a program; a first node with the same action takes up its count. -/
def mergeAct (action : Action) (count : Int) : Program → Program
  | .act a n :: rest =>
    if a = action then .act action (count + n) :: rest else .act action count :: .act a n :: rest
  | rest => .act action count :: rest

/-- Joins neighbours with the same action at every nesting level. -/
def merge (p : Program) : Program :=
  p.fold [] mergeAct (fun body rest => .loop body :: rest)

end Program

end TapeMachine
