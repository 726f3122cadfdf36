import Mathlib.Algebra.Group.Nat.Defs
import Mathlib.Tactic.ByContra
import TapeMachine.Proofs.Exchange
import TapeMachine.Proofs.Session

/-! # Narrower cells

A machine with narrow cells does what a machine with wider cells does, with every number reduced.
Only a loop can tell the two apart: a value may be zero in the narrow cell and not in the wide one.

* `Machine.narrow size m`: the machine with its cells, and the bytes it has written, reduced to a
  size.
* `Machine.loopTests`: the values that loops look at.
* `step_narrow` and `execute_narrow`: if no loop sees a value that only vanishes when it is reduced,
  a step, and then a whole execution, of the reduced machine leaves the reduced outcome.
* `run_narrow`: so a run with narrow cells can be read off the run with wide ones.
-/

namespace TapeMachine

/-! ## Model -/

/-- The byte that is left of a byte in a cell of this size. -/
def CellSize.reduceByte (size : CellSize) (byte : UInt8) : UInt8 :=
  UInt8.ofNat (byte.toNat % size.modulus)

/-- The tape with every cell reduced to a size. -/
def Tape.narrow (size : CellSize) (t : Tape) : Tape :=
  ⟨t.cells.map (· % size.modulus), size⟩

/-- The call with the byte that it writes reduced. -/
def Call.narrow (size : CellSize) : Call → Call
  | .write byte reply => .write (size.reduceByte byte) reply
  | call => call

/-- The streams with all bytes written so far reduced. -/
def Streams.narrow (size : CellSize) (s : Streams) : Streams :=
  { s with trace := s.trace.map (Call.narrow size) }

/-- The machine with its cells and the bytes written so far reduced. -/
def Machine.narrow (size : CellSize) (m : Machine) : Machine :=
  { m with tape := m.tape.narrow size, streams := m.streams.narrow size }

/-- The outcome with its machine reduced. -/
def Outcome.narrow (size : CellSize) (o : Outcome) : Outcome :=
  ⟨o.error?, o.machine.narrow size⟩

/-- The transition with its machine reduced. -/
def Machine.Transition.narrow (size : CellSize) : Machine.Transition → Machine.Transition
  | .next todo m => .next todo (m.narrow size)
  | .halt o => .halt (o.narrow size)

/-- The value that decides about a loop, if the first of the nodes is one. -/
def Machine.tested? (m : Machine) : Program → Option Nat
  | .loop _ :: _ => some (m.tape.cell m.pointer)
  | _ => none

/-- The values that the loops of an execution look at within some number of steps, in order. -/
def Machine.loopTests (steps : Nat) (todo : Program) (m : Machine) : List Nat :=
  match steps with
  | 0 => []
  | steps + 1 =>
    (m.tested? todo).toList ++
      match m.step todo with
      | .next todo m => loopTests steps todo m
      | .halt _ => []

/-! ## Cells -/

namespace CellSize

theorem modulus_dvd {size size' : CellSize} (h : size.bits ≤ size'.bits) :
    size.modulus ∣ size'.modulus :=
  Nat.pow_dvd_pow 2 h

/-- The low byte of a number, reduced, is the low byte of the reduced number. -/
theorem reduceByte_ofNat (size : CellSize) (n : Nat) :
    size.reduceByte (UInt8.ofNat n) = UInt8.ofNat (n % size.modulus) := by
  have hmodulus : size.modulus = 2 ^ size.bits := rfl
  apply UInt8.toNat.inj
  simp only [reduceByte, UInt8.toNat_ofNat', hmodulus]
  rcases Nat.le_total size.bits 8 with hle | hle
  · -- a cell holds no more than a byte
    rw [Nat.mod_mod_of_dvd n (Nat.pow_dvd_pow 2 hle)]
  · -- a byte fits into a cell
    have hlt : n % 2 ^ 8 < 2 ^ size.bits :=
      Nat.lt_of_lt_of_le (Nat.mod_lt n (by decide)) (Nat.pow_le_pow_right (by decide) hle)
    rw [Nat.mod_eq_of_lt hlt, Nat.mod_mod, Nat.mod_mod_of_dvd n (Nat.pow_dvd_pow 2 hle)]

/-- Cells of at least a byte keep every byte. -/
theorem reduceByte_of_le {size : CellSize} (h : 8 ≤ size.bits) (byte : UInt8) :
    size.reduceByte byte = byte := by
  have hlt : byte.toNat < size.modulus :=
    Nat.lt_of_lt_of_le byte.toNat_lt (Nat.pow_le_pow_right (by decide) h)
  rw [reduceByte, Nat.mod_eq_of_lt hlt, UInt8.ofNat_toNat]

/-- Cells of four bits keep bytes modulo sixteen. -/
theorem reduceByte_of_eq {size : CellSize} (h : size.bits = 4) (byte : UInt8) :
    size.reduceByte byte = byte % 16 := by
  have hmodulus : size.modulus = 2 ^ size.bits := rfl
  have hsixteen : (16 : UInt8).toNat = 16 := rfl
  apply UInt8.toNat.inj
  rw [reduceByte, UInt8.toNat_ofNat', hmodulus, h, UInt8.toNat_mod, hsixteen]
  omega

end CellSize

namespace Tape

variable {size : CellSize} {t : Tape}

@[simp]
theorem length_narrow (size : CellSize) (t : Tape) : (t.narrow size).length = t.length := by
  simp only [narrow, length, Array.size_map]

@[simp]
theorem cellSize_narrow (size : CellSize) (t : Tape) : (t.narrow size).cellSize = size := rfl

@[simp]
theorem cell_narrow (size : CellSize) (t : Tape) (i : Nat) :
    (t.narrow size).cell i = t.cell i % size.modulus := by
  simp only [narrow, cell, Array.getD_eq_getD_getElem?, Array.getElem?_map]
  cases t.cells[i]? with
  | none => exact (Nat.zero_mod _).symm
  | some value => rfl

/-- A fresh tape is a fresh tape in every size. -/
theorem narrow_zeros (size size' : CellSize) (length : Nat) :
    (zeros length size').narrow size = zeros length size := by
  simp only [narrow, zeros, Array.map_replicate, Nat.zero_mod]

/-- Both tapes grow by the same zeros. -/
theorem narrow_growTo (size : CellSize) (t : Tape) (index : Nat) :
    (t.narrow size).growTo index = (t.growTo index).narrow size := by
  unfold growTo
  rw [length_narrow]
  by_cases h : index < t.length
  · rw [if_pos h, if_pos h]
  · rw [if_neg h, if_neg h]
    simp only [narrow, Array.map_append, Array.map_replicate, Nat.zero_mod]

/-- What is stored in the narrow cell is what is stored in the wide one, reduced. -/
theorem narrow_set (hdvd : size.modulus ∣ t.cellSize.modulus) (index value : Nat) :
    (t.narrow size).set index value = (t.set index value).narrow size := by
  have hvalue : value % t.cellSize.modulus % size.modulus = value % size.modulus :=
    Nat.mod_mod_of_dvd value hdvd
  simp only [set, narrow_growTo, cellSize_narrow, cellSize_growTo]
  simp only [narrow, Array.map_setIfInBounds, hvalue]

/-- Only the number modulo the narrow cell's modulus matters to it. -/
theorem set_mod (t : Tape) {index value value' : Nat}
    (h : value % t.cellSize.modulus = value' % t.cellSize.modulus) :
    t.set index value = t.set index value' := by
  simp only [set, cellSize_growTo, h]

/-- Both sums are the same number modulo the narrow cell's modulus. -/
theorem narrow_add (hdvd : size.modulus ∣ t.cellSize.modulus) (index : Nat) (delta : Int) :
    (t.narrow size).add index delta = (t.add index delta).narrow size := by
  rw [add_eq_set, add_eq_set, ← narrow_set hdvd, cell_narrow, cellSize_narrow]
  apply set_mod
  rw [cellSize_narrow]
  have hpos : (size.modulus : Int) ≠ 0 := by
    have h := size.modulus_pos
    omega
  have hpos' : (t.cellSize.modulus : Int) ≠ 0 := by
    have h := t.cellSize.modulus_pos
    omega
  have hdvd' : (size.modulus : Int) ∣ t.cellSize.modulus := Int.natCast_dvd_natCast.mpr hdvd
  apply Int.natCast_inj.mp
  push_cast
  rw [Int.toNat_of_nonneg (Int.emod_nonneg delta hpos),
    Int.toNat_of_nonneg (Int.emod_nonneg delta hpos')]
  calc ((t.cell index : Int) % size.modulus + delta % size.modulus) % size.modulus
      = (t.cell index + delta) % size.modulus := (Int.add_emod _ _ _).symm
    _ = (t.cell index + delta % t.cellSize.modulus) % size.modulus := by
      rw [Int.add_emod, ← Int.emod_emod_of_dvd delta hdvd', ← Int.add_emod]

end Tape

/-! ## Streams -/

namespace Call

variable (size : CellSize) (call : Call)

@[simp]
theorem taken?_narrow : (call.narrow size).taken? = call.taken? := by
  cases call <;> rfl

@[simp]
theorem isRead_narrow : (call.narrow size).isRead = call.isRead := by
  cases call <;> rfl

@[simp]
theorem isWrite_narrow : (call.narrow size).isWrite = call.isWrite := by
  cases call <;> rfl

@[simp]
theorem isFlush_narrow : (call.narrow size).isFlush = call.isFlush := by
  cases call <;> rfl

@[simp]
theorem written?_narrow :
    (call.narrow size).written? = call.written?.map size.reduceByte := by
  cases call with
  | read reply => rfl
  | flush reply => rfl
  | write byte reply => cases reply <;> rfl

end Call

namespace Streams

variable (size : CellSize) (s : Streams)

/-- The bytes written are reduced. -/
theorem output_narrow : (s.narrow size).output = s.output.map size.reduceByte := by
  simp only [output, narrow, List.filterMap_map, List.map_reverse, List.map_filterMap,
    Function.comp_def, Call.written?_narrow]

theorem consumed_narrow : (s.narrow size).consumed = s.consumed := by
  simp only [consumed, narrow, List.filterMap_map, Function.comp_def, Call.taken?_narrow]

theorem readCount_narrow : (s.narrow size).readCount = s.readCount := by
  simp only [readCount, narrow, List.countP_map, Function.comp_def, Call.isRead_narrow]

theorem writeCount_narrow : (s.narrow size).writeCount = s.writeCount := by
  simp only [writeCount, narrow, List.countP_map, Function.comp_def, Call.isWrite_narrow]

theorem flushCount_narrow : (s.narrow size).flushCount = s.flushCount := by
  simp only [flushCount, narrow, List.countP_map, Function.comp_def, Call.isFlush_narrow]

/-- Reading does not look at what was written. -/
theorem read_narrow : (s.narrow size).read = (s.read.1, s.read.2.narrow size) := by
  have hcalls : ∀ a : Attempt ReadReply,
      (a.calls Call.read).map (Call.narrow size) = a.calls Call.read := by
    intro a
    simp only [Attempt.calls, List.map_cons, List.map_map]
    rfl
  rw [read_eq_attempt, read_eq_attempt]
  simp only [narrow, List.map_append, hcalls]

/-- The sink does not look at the byte. -/
theorem write_narrow (byte : UInt8) :
    (s.narrow size).write (size.reduceByte byte) =
      ((s.write byte).1, (s.write byte).2.narrow size) := by
  have hcalls : ∀ a : Attempt WriteReply,
      (a.calls (Call.write byte)).map (Call.narrow size) =
        a.calls (Call.write (size.reduceByte byte)) := by
    intro a
    simp only [Attempt.calls, List.map_cons, List.map_map]
    rfl
  rw [write_eq_attempt, write_eq_attempt]
  simp only [narrow, List.map_append, hcalls]

theorem flush_narrow : (s.narrow size).flush = (s.flush.1, s.flush.2.narrow size) := by
  rw [flush_eq_head, flush_eq_head]
  rfl

theorem writeMany_narrow (byte : UInt8) (count : Nat) :
    (s.narrow size).writeMany (size.reduceByte byte) count =
      ((s.writeMany byte count).1, (s.writeMany byte count).2.narrow size) := by
  induction count generalizing s with
  | zero => rfl
  | succ count ih =>
    unfold writeMany
    rw [write_narrow]
    rcases s.write byte with ⟨_ | fault, s'⟩
    · exact ih s'
    · rfl

end Streams

/-! ## Actions and steps -/

namespace Machine

variable {size : CellSize} {m : Machine}

theorem move_narrow (size : CellSize) (m : Machine) (delta : Int) :
    (m.narrow size).move delta = (m.move delta).narrow size := by
  have hpointer : (m.narrow size).pointer = m.pointer := rfl
  unfold move
  rw [hpointer]
  cases target? m.pointer delta with
  | none => rfl
  | some target =>
    -- both tapes have the same length, so they grow at the same moves
    simp only [narrow, Tape.narrow_growTo, Tape.length_narrow]
    rfl

theorem add_narrow (hdvd : size.modulus ∣ m.tape.cellSize.modulus) (delta : Int) :
    (m.narrow size).add delta = (m.add delta).narrow size := by
  simp only [add, narrow, Outcome.narrow, Tape.narrow_add hdvd]

theorem write_narrow (size : CellSize) (m : Machine) (count : Int) :
    (m.narrow size).write count = (m.write count).narrow size := by
  unfold write
  simp only [Tape.get_fst, Tape.get_snd, narrow, Tape.cell_narrow, Tape.narrow_growTo,
    ← CellSize.reduceByte_ofNat, Streams.writeMany_narrow]
  rcases m.streams.writeMany (UInt8.ofNat (m.tape.cell m.pointer)) count.toNat
    with ⟨_ | fault, s⟩
  · simp only [Streams.flush_narrow]
    rfl
  · rfl

theorem read_narrow (hdvd : size.modulus ∣ m.tape.cellSize.modulus) :
    (m.narrow size).read = m.read.narrow size := by
  have hread : (m.narrow size).streams.read = (m.streams.read.1, m.streams.read.2.narrow size) :=
    m.streams.read_narrow size
  have hset : ∀ value, (m.tape.narrow size).set m.pointer value =
      (m.tape.set m.pointer value).narrow size := Tape.narrow_set hdvd m.pointer
  unfold read
  rw [hread]
  rcases m.streams.read with ⟨reply, s⟩
  cases reply with
  | byte value => simp only [narrow, Outcome.narrow, hset]
  | fault fault => rfl
  | endOfInput =>
    cases hpolicy : m.endPolicy with
    | fail => simp only [narrow, Outcome.narrow, hpolicy]
    | zero => simp only [narrow, Outcome.narrow, hpolicy, hset]
    | keep => simp only [narrow, Outcome.narrow, hpolicy]

/-- The reduced machine carries out an action with the reduced outcome. -/
theorem perform_narrow (hdvd : size.modulus ∣ m.tape.cellSize.modulus) (action : Action)
    (count : Int) :
    (m.narrow size).perform action count = (m.perform action count).narrow size := by
  cases action with
  | move => exact m.move_narrow size count
  | add => exact add_narrow hdvd count
  | output => exact m.write_narrow size count
  | input => exact read_narrow hdvd

/-- No step changes the size of the cells. -/
theorem cellSize_step (m : Machine) (todo : Program) :
    (m.step todo).machine.tape.cellSize = m.tape.cellSize := by
  cases m.step_effect todo with
  | moved target _ _ _ htape _ => rw [htape, Tape.cellSize_growTo]
  | stayed _ htape _ => exact htape.cellSize_eq

/-- If the value that a loop looks at, should there be one, does not vanish when it is reduced, the
step of the reduced machine is the reduced step. -/
theorem step_narrow (hdvd : size.modulus ∣ m.tape.cellSize.modulus) {todo : Program}
    (htest : ∀ value, m.tested? todo = some value → value ≠ 0 → ¬ size.modulus ∣ value) :
    (m.narrow size).step todo = (m.step todo).narrow size := by
  cases todo with
  | nil => rfl
  | cons node rest =>
    cases node with
    | act action count =>
      rw [step_act, step_act, perform_narrow hdvd]
      have herror : ((m.perform action count).narrow size).error? =
          (m.perform action count).error? := rfl
      rw [herror]
      cases (m.perform action count).error? with
      | none => rfl
      | some error => rfl
    | loop body =>
      have hcell : (m.narrow size).tape.cell (m.narrow size).pointer =
          m.tape.cell m.pointer % size.modulus := m.tape.cell_narrow size m.pointer
      have hzero : m.tape.cell m.pointer % size.modulus = 0 ↔ m.tape.cell m.pointer = 0 := by
        constructor
        · intro hmod
          by_contra hne
          exact htest _ rfl hne (Nat.dvd_of_mod_eq_zero hmod)
        · intro heq
          rw [heq, Nat.zero_mod]
      have hgrow : (m.narrow size).tape.growTo (m.narrow size).pointer =
          (m.tape.growTo m.pointer).narrow size := m.tape.narrow_growTo size m.pointer
      rw [step_loop, step_loop, hcell, hgrow]
      simp only [hzero]
      rfl

/-! ## Executions and runs -/

/-- If no value that a loop looks at vanishes when it is reduced, an execution of the reduced
machine has the reduced outcome. -/
theorem execute_narrow {steps : Nat} {todo : Program}
    (hdvd : size.modulus ∣ m.tape.cellSize.modulus)
    (htests : ∀ value ∈ loopTests steps todo m, value ≠ 0 → ¬ size.modulus ∣ value) :
    execute steps todo (m.narrow size) = (execute steps todo m).map (Outcome.narrow size) := by
  -- over the number of steps: the loop tests of the first step and those of the rest are all there
  -- are
  induction steps generalizing todo m with
  | zero => rfl
  | succ steps ih =>
    have hsize := m.cellSize_step todo
    unfold loopTests at htests
    have hfirst : ∀ value, m.tested? todo = some value → value ≠ 0 → ¬ size.modulus ∣ value := by
      intro value hvalue
      apply htests
      simp [hvalue]
    unfold execute
    rw [step_narrow hdvd hfirst]
    cases hstep : m.step todo with
    | halt o => rfl
    | next todo' m' =>
      rw [hstep] at hsize htests
      have hsize' : m'.tape.cellSize = m.tape.cellSize := hsize
      apply ih
      · rw [hsize']
        exact hdvd
      · intro value hvalue
        exact htests value (List.mem_append_right _ hvalue)

theorem settle_narrow (size : CellSize) (o : Outcome) :
    settle (o.narrow size) = (settle o).narrow size := by
  have hflush : (o.narrow size).machine.streams.flush =
      (o.machine.streams.flush.1, o.machine.streams.flush.2.narrow size) :=
    o.machine.streams.flush_narrow size
  unfold settle
  rw [hflush]
  rfl

/-- Without loops there is nothing to test. -/
theorem loopTests_eq_nil {todo : Program} (h : todo.loopTotal = 0) (steps : Nat) (m : Machine) :
    loopTests steps todo m = [] := by
  induction steps generalizing todo m with
  | zero => rfl
  | succ steps ih =>
    cases todo with
    | nil => rfl
    | cons node rest =>
      cases node with
      | loop body =>
        rw [Program.loopTotal_loop] at h
        omega
      | act action count =>
        rw [Program.loopTotal_act] at h
        unfold loopTests
        rw [step_act]
        cases (m.perform action count).error? with
        | none => exact ih h _
        | some error => rfl

end Machine

/-- Narrow cells are the wide cells reduced. If a run with wide cells halts, and no loop in it looks
at a value that is not zero but divisible by `2 ^ bits` of the narrow cells, as when there are no
loops, then the run with narrow cells halts with the same result, pointer, length of the tape and
number of bytes read, after the same numbers of reads, writes and flushes. Its cells are the wide
cells modulo `2 ^ bits`, and so are the bytes that it writes. -/
theorem run_narrow (narrow wide : CellSize) (hle : narrow.bits ≤ wide.bits) (program : Program)
    (length : Nat) (policy : EndPolicy) (reads : List ReadReply) (writes : List WriteReply)
    (flushes : List FlushReply) (steps : Nat) (o : Outcome)
    (h : Machine.run steps program
      (.fresh (.zeros length wide) policy ⟨reads, writes, flushes, []⟩) = some o)
    (htests : program.loopTotal = 0 ∨
      ∀ value ∈ Machine.loopTests steps program
        (.fresh (.zeros length wide) policy ⟨reads, writes, flushes, []⟩),
        value ≠ 0 → ¬ 2 ^ narrow.bits ∣ value) :
    ∃ o', Machine.run steps program
        (.fresh (.zeros length narrow) policy ⟨reads, writes, flushes, []⟩) = some o' ∧
      o'.error? = o.error? ∧
      o'.machine.pointer = o.machine.pointer ∧
      o'.machine.tape.length = o.machine.tape.length ∧
      o'.machine.streams.consumed = o.machine.streams.consumed ∧
      o'.machine.streams.readCount = o.machine.streams.readCount ∧
      o'.machine.streams.writeCount = o.machine.streams.writeCount ∧
      o'.machine.streams.flushCount = o.machine.streams.flushCount ∧
      (∀ i, o'.machine.tape.cell i = o.machine.tape.cell i % 2 ^ narrow.bits) ∧
      (8 ≤ narrow.bits → o'.machine.streams.output = o.machine.streams.output) ∧
      (narrow.bits = 4 → o'.machine.streams.output = o.machine.streams.output.map (· % 16)) := by
  obtain ⟨e, he, rfl⟩ := Option.map_eq_some_iff.mp h
  generalize hm : Machine.fresh (.zeros length wide) policy ⟨reads, writes, flushes, []⟩ = m at *
  have hstart : Machine.fresh (.zeros length narrow) policy ⟨reads, writes, flushes, []⟩ =
      m.narrow narrow := by
    rw [← hm]
    simp only [Machine.fresh, Machine.narrow, Tape.narrow_zeros, Streams.narrow, List.map_nil]
  have hdvd : narrow.modulus ∣ m.tape.cellSize.modulus := by
    rw [← hm]
    exact CellSize.modulus_dvd hle
  have hkept : ∀ value ∈ Machine.loopTests steps program m,
      value ≠ 0 → ¬ narrow.modulus ∣ value := by
    rcases htests with hloops | hkept
    · rw [Machine.loopTests_eq_nil hloops]
      simp
    · exact hkept
  have hrun : Machine.run steps program (m.narrow narrow) =
      some ((Machine.settle e).narrow narrow) := by
    unfold Machine.run
    rw [Machine.execute_narrow hdvd hkept, he, Option.map_some, Option.map_some,
      Machine.settle_narrow]
  generalize hsettled : Machine.settle e = o at *
  rw [hstart]
  refine ⟨o.narrow narrow, hrun, rfl, rfl, o.machine.tape.length_narrow narrow,
    o.machine.streams.consumed_narrow narrow, o.machine.streams.readCount_narrow narrow,
    o.machine.streams.writeCount_narrow narrow, o.machine.streams.flushCount_narrow narrow,
    o.machine.tape.cell_narrow narrow, ?_, ?_⟩
  · intro hbits
    have hbyte : narrow.reduceByte = id := funext (CellSize.reduceByte_of_le hbits)
    have houtput := o.machine.streams.output_narrow narrow
    rw [hbyte, List.map_id] at houtput
    exact houtput
  · intro hbits
    have hbyte : narrow.reduceByte = (· % 16) := funext (CellSize.reduceByte_of_eq hbits)
    have houtput := o.machine.streams.output_narrow narrow
    rw [hbyte] at houtput
    exact houtput

/-- Cells of four bits do with `5` what cells of eight bits do with `37`, also in a loop. -/
theorem run_narrow_four_of_eight :
    ∃ o', Machine.run 6 [.act .add 37, .act .output 2, .loop [.act .add (-37)]]
        (.fresh (.zeros 1 .bits4) .fail ⟨[], [], [], []⟩) = some o' ∧
      o'.error? = none ∧ o'.machine.streams.output = [5, 5] ∧
      o'.machine.streams.flushCount = 2 := by
  have hrun : ∃ o, Machine.run 6 [.act .add 37, .act .output 2, .loop [.act .add (-37)]]
      (.fresh (.zeros 1 .bits8) .fail ⟨[], [], [], []⟩) = some o ∧
      o.error? = none ∧ o.machine.streams.output = [37, 37] ∧
      o.machine.streams.flushCount = 2 := by
    refine ⟨_, rfl, ?_⟩
    decide
  have htests : Machine.loopTests 6 [.act .add 37, .act .output 2, .loop [.act .add (-37)]]
      (.fresh (.zeros 1 .bits8) .fail ⟨[], [], [], []⟩) = [37, 0] := rfl
  obtain ⟨o, ho, herror, houtput, hflushes⟩ := hrun
  obtain ⟨o', ho', herror', _, _, _, _, _, hflushes', _, _, houtput'⟩ :=
    run_narrow .bits4 .bits8 (by decide) _ 1 .fail [] [] [] 6 o ho (Or.inr (by
      rw [htests]
      decide))
  refine ⟨o', ho', herror'.trans herror, ?_, hflushes'.trans hflushes⟩
  rw [houtput' rfl, houtput]
  rfl

end TapeMachine
