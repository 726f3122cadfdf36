import TapeMachine.Program.Basic
import TapeMachine.Stream
import TapeMachine.Tape

/-! # The machine

A machine owns a tape, a data pointer and its streams. It executes a program one node at a time.

* `Machine.perform` carries out one action and `Machine.step` one node: a loop whose current cell is
  not zero puts its body, and itself again, in front of what follows.
* `Machine.execute` takes at most a given number of steps. `none` means that they were not enough;
  more steps never change an answer.
* `Machine.run` executes a program and then flushes the sink once, also after an error.
-/

namespace TapeMachine

/-- What a read does at the end of input. -/
inductive EndPolicy where
  /-- Stop with an error. -/
  | fail
  /-- Store zero. -/
  | zero
  /-- Leave the cell as it is. -/
  | keep
deriving DecidableEq, Repr

/-- The policy's name. -/
def EndPolicy.name : EndPolicy → String
  | .fail => "error"
  | .zero => "zero"
  | .keep => "unchanged"

/-- Why a machine stopped before the end of its program. -/
inductive RuntimeError where
  /-- A move by `delta` from cell `pointer` leaves the addressable cells. -/
  | offTape (pointer : Nat) (delta : Int)
  /-- A read found the end of input under the policy `fail`. -/
  | noInput
  /-- A read, a write or a flush failed. -/
  | stream (fault : Fault)
deriving DecidableEq, Repr

/-- What went wrong, in one line. -/
def RuntimeError.message : RuntimeError → String
  | .offTape pointer delta =>
    s!"Pointer out of bounds: moving {delta} from cell {pointer} goes below cell 0"
  | .noInput => "Input exhausted: no more bytes to read"
  | .stream fault => s!"I/O error: {fault.text}"

/-- A tape was lengthened from `before` to `after` cells to make `index` addressable. -/
structure Growth where
  before : Nat
  after : Nat
  index : Nat
deriving DecidableEq, Repr

/-- A tape with a data pointer, an end-of-input policy and streams. -/
structure Machine where
  tape : Tape
  pointer : Nat
  endPolicy : EndPolicy
  streams : Streams
  /-- The growths of the tape, newest first. -/
  growths : List Growth
deriving DecidableEq, Repr

/-- A machine that has stopped, and the error that stopped it, if any. -/
structure Outcome where
  error? : Option RuntimeError
  machine : Machine
deriving DecidableEq, Repr

/-- The addressable cells are those below this number, two to the power of 63. A signed word holds
the numbers from its negative up to it, not included. -/
def addressLimit : Nat := 9223372036854775808

namespace Machine

/-- A machine at the first cell of a fresh tape. -/
def fresh (tape : Tape) (endPolicy : EndPolicy) (streams : Streams) : Machine :=
  ⟨tape, 0, endPolicy, streams, []⟩

/-! ## Actions -/

/-- A number as a signed word, if it fits. -/
def signed? (n : Nat) : Option Int :=
  if n < addressLimit then some n else none

/-- The sum of two signed words, if it fits. -/
def signedSum? (a b : Int) : Option Int :=
  if -(addressLimit : Int) ≤ a + b ∧ a + b < addressLimit then some (a + b) else none

/-- A signed word as a number, if it is not negative. -/
def unsigned? (a : Int) : Option Nat :=
  if 0 ≤ a then some a.toNat else none

/-- The cell that a move by `delta` leads to. The sum is formed in signed words. -/
def target? (pointer : Nat) (delta : Int) : Option Nat := do
  let start ← signed? pointer
  let sum ← signedSum? start delta
  unsigned? sum

/-- A move leads to the sum, if both its ends are addressable. -/
theorem target?_eq_some_iff {pointer target : Nat} {delta : Int} :
    target? pointer delta = some target ↔
      pointer < addressLimit ∧ target < addressLimit ∧ (target : Int) = pointer + delta := by
  simp only [target?, signed?, signedSum?, unsigned?, Option.bind_eq_bind, Option.bind_eq_some_iff,
    Option.ite_none_right_eq_some, Option.some.injEq]
  constructor
  · rintro ⟨_, ⟨hpointer, rfl⟩, _, ⟨hrange, rfl⟩, hnonneg, rfl⟩
    omega
  · rintro ⟨hpointer, htarget, hsum⟩
    exact ⟨_, ⟨hpointer, rfl⟩, _, ⟨by omega, rfl⟩, by omega, by omega⟩

/-- From an addressable cell, the three conversions come to one test of the sum's range. -/
theorem target?_eq_none_iff {pointer : Nat} {delta : Int} (hpointer : pointer < addressLimit) :
    target? pointer delta = none ↔
      (pointer : Int) + delta < 0 ∨ (addressLimit : Int) ≤ pointer + delta := by
  rw [Option.eq_none_iff_forall_ne_some]
  simp only [ne_eq, target?_eq_some_iff]
  constructor
  · intro h
    have hsum := h ((pointer : Int) + delta).toNat
    omega
  · rintro h target ⟨-, htarget, hsum⟩
    omega

/-- Moves the pointer and makes its cell addressable. A move off the tape changes nothing. -/
def move (m : Machine) (delta : Int) : Outcome :=
  match target? m.pointer delta with
  | none => ⟨some (.offTape m.pointer delta), m⟩
  | some target =>
    let before := m.tape.length
    let tape := m.tape.growTo target
    let growths :=
      if target < before then m.growths else ⟨before, tape.length, target⟩ :: m.growths
    ⟨none, { m with tape, pointer := target, growths }⟩

/-- Adds to the current cell. -/
def add (m : Machine) (delta : Int) : Outcome :=
  ⟨none, { m with tape := m.tape.add m.pointer delta }⟩

/-- Writes the low byte of the current cell `count` times (never, if `count` is negative), then
flushes, so that the bytes have arrived before anything is read. -/
def write (m : Machine) (count : Int) : Outcome :=
  let (value, tape) := m.tape.get m.pointer
  let m := { m with tape }
  match m.streams.writeMany (UInt8.ofNat value) count.toNat with
  | (some fault, streams) => ⟨some (.stream fault), { m with streams }⟩
  | (none, streams) =>
    let (fault?, streams) := streams.flush
    ⟨fault?.map .stream, { m with streams }⟩

/-- Reads one byte into the current cell. -/
def read (m : Machine) : Outcome :=
  let (reply, streams) := m.streams.read
  let m := { m with streams }
  match reply with
  | .byte value => ⟨none, { m with tape := m.tape.set m.pointer value.toNat }⟩
  | .fault fault => ⟨some (.stream fault), m⟩
  | .endOfInput =>
    match m.endPolicy with
    | .fail => ⟨some .noInput, m⟩
    | .zero => ⟨none, { m with tape := m.tape.set m.pointer 0 }⟩
    | .keep => ⟨none, m⟩

/-- Carries out one action. A run of reads takes a single byte, whatever its count. -/
def perform (m : Machine) (action : Action) (count : Int) : Outcome :=
  match action with
  | .move => m.move count
  | .add => m.add count
  | .output => m.write count
  | .input => m.read

/-! ## Execution -/

/-- What one step leads to: more nodes to execute, or the end. -/
inductive Transition where
  | next (todo : Program) (machine : Machine)
  | halt (outcome : Outcome)
deriving DecidableEq, Repr

/-- Executes the first of the nodes that are still to do. -/
def step (m : Machine) : Program → Transition
  | [] => .halt ⟨none, m⟩
  | .act action count :: rest =>
    match m.perform action count with
    | ⟨none, m⟩ => .next rest m
    | stopped => .halt stopped
  | .loop body :: rest =>
    let (value, tape) := m.tape.get m.pointer
    let m := { m with tape }
    if value = 0 then .next rest m else .next (body ++ .loop body :: rest) m

/-- Executes nodes in at most `steps` steps; `none` if they do not suffice. -/
def execute (steps : Nat) (todo : Program) (m : Machine) : Option Outcome :=
  match steps with
  | 0 => none
  | steps + 1 =>
    match m.step todo with
    | .next todo m => execute steps todo m
    | .halt outcome => some outcome

/-- More steps keep an answer. -/
theorem execute_add {steps : Nat} {todo : Program} {m : Machine} {o : Outcome}
    (h : execute steps todo m = some o) (more : Nat) :
    execute (steps + more) todo m = some o := by
  induction steps generalizing todo m with
  | zero => simp [execute] at h
  | succ steps ih =>
    rw [Nat.add_right_comm]
    unfold execute at h ⊢
    split at h
    · exact ih h
    · exact h

/-- Flushes the sink at the end of a run. The error of the run itself comes before that of the
flush. -/
def settle (o : Outcome) : Outcome :=
  let (fault?, streams) := o.machine.streams.flush
  ⟨o.error? <|> fault?.map .stream, { o.machine with streams }⟩

/-- Executes a program in at most `steps` steps and flushes the sink. -/
def run (steps : Nat) (program : Program) (m : Machine) : Option Outcome :=
  (execute steps program m).map settle

end Machine

end TapeMachine
