import TapeMachine.Machine

/-! # Character-by-character execution

The plain reading of a program text: characters are executed one by one where they stand, with no
tree and no folding of runs.

* `>`, `<`, `+`, `-` and `.` act once each. A `,` acts unless the character before it is a `,` too,
  so a run of reads takes a single byte.
* `[` on a zero cell goes on behind its `]`, and `]` goes back to its `[`, which is tested again.
* Every other character does nothing.

The text is held as a cursor, so a jump is a walk along the text that counts brackets.
-/

namespace TapeMachine.Charwise

/-- A place in a text: the characters before it, nearest first, and those after it. -/
structure Cursor where
  before : List Char
  after : List Char
deriving DecidableEq, Repr

/-- Walks forward past the `]` that closes a loop whose `[` has been passed; `depth` further loops
have been entered on the way. -/
def skipForward (depth : Nat) (before : List Char) : List Char → Option Cursor
  | [] => none
  | c :: after =>
    if c = '[' then skipForward (depth + 1) (c :: before) after
    else if c = ']' then
      match depth with
      | 0 => some ⟨c :: before, after⟩
      | depth + 1 => skipForward depth (c :: before) after
    else skipForward depth (c :: before) after

/-- Walks back to the `[` of a loop whose `]` comes next; `depth` further loops have been entered,
from their ends, on the way. -/
def skipBack (depth : Nat) (after : List Char) : List Char → Option Cursor
  | [] => none
  | c :: before =>
    if c = ']' then skipBack (depth + 1) (c :: after) before
    else if c = '[' then
      match depth with
      | 0 => some ⟨before, c :: after⟩
      | depth + 1 => skipBack depth (c :: after) before
    else skipBack depth (c :: after) before

/-- What one step leads to. -/
inductive Transition where
  | next (cursor : Cursor) (machine : Machine)
  | halt (outcome : Outcome)

/-- Goes on at a cursor. A bracket without a partner ends the execution. -/
def goOn (m : Machine) : Option Cursor → Transition
  | some cursor => .next cursor m
  | none => .halt ⟨none, m⟩

/-- Goes on at a cursor after an action, unless it failed. -/
def goOnAfter (cursor : Cursor) : Outcome → Transition
  | ⟨none, m⟩ => .next cursor m
  | stopped => .halt stopped

/-- Executes the character at the cursor. -/
def step (cursor : Cursor) (m : Machine) : Transition :=
  match cursor.after with
  | [] => .halt ⟨none, m⟩
  | c :: after =>
    let passed : Cursor := ⟨c :: cursor.before, after⟩
    if c = '[' then
      if m.tape.cell m.pointer = 0 then goOn m (skipForward 0 passed.before after)
      else .next passed m
    else if c = ']' then goOn m (skipBack 0 cursor.after cursor.before)
    else if c = ',' ∧ cursor.before.head? = some ',' then .next passed m
    else match Action.ofChar? c with
      | some (action, count) => goOnAfter passed (m.perform action count)
      | none => .next passed m

/-- Executes from a cursor in at most `steps` steps; `none` if they do not suffice. -/
def execute (steps : Nat) (cursor : Cursor) (m : Machine) : Option Outcome :=
  match steps with
  | 0 => none
  | steps + 1 =>
    match step cursor m with
    | .next cursor m => execute steps cursor m
    | .halt outcome => some outcome

/-- Executes a text from its start in at most `steps` steps. -/
def run (steps : Nat) (source : List Char) (m : Machine) : Option Outcome :=
  execute steps ⟨[], source⟩ m

end TapeMachine.Charwise
