import Mathlib.Data.List.TakeWhile
import TapeMachine.Program.Scan
import TapeMachine.Proofs.Folding

/-! # Echoing the input

The text `,[.,]` copies its input to its output until a byte is read that is zero in a cell, or until
the input ends.

* `Streams.Carried taken written s s'`, and the same for machines: all that happened to reliable
  streams is that `taken` was read and `written` was written.
* `Program.echo`: the program of the text. After each byte that is not zero in a cell, what is still
  to do is the whole program again, so one induction over the input covers all turns of its loop
  (`execute_echo`).
* `run_echo`: what a run of the text writes, reads and reports.
-/

namespace TapeMachine

/-! ## Model -/

/-- The program that echoes its input. -/
def Program.echo : Program :=
  [.act .input 1, .loop [.act .output 1, .act .input 1]]

/-- The longest prefix of an input without a byte that is zero in a cell. -/
def CellSize.visible (size : CellSize) (input : List UInt8) : List UInt8 :=
  input.takeWhile fun byte => byte.toNat % size.modulus ≠ 0

/-- What a read reports at the end of input. -/
def EndPolicy.error? : EndPolicy → Option RuntimeError
  | .fail => some .noInput
  | .zero => none
  | .keep => none

/-- From `s` to `s'` the bytes `taken` were read, the sink took `written`, and no more. -/
structure Streams.Carried (taken written : List UInt8) (s s' : Streams) : Prop where
  reads_eq : s.reads = taken.map .byte ++ s'.reads
  output_eq : s'.output = s.output ++ written
  consumed_eq : s'.consumed = s.consumed + taken.length
  reliable : s'.Reliable

/-- From `m` to `m'` that is all that happened to the streams, and cell size and policy stayed. -/
structure Machine.Carried (taken written : List UInt8) (m m' : Machine) : Prop where
  cellSize_eq : m'.tape.cellSize = m.tape.cellSize
  endPolicy_eq : m'.endPolicy = m.endPolicy
  streams : m.streams.Carried taken written m'.streams

/-! ## Traffic -/

namespace Streams

variable {s s' s'' : Streams} {taken taken' written written' : List UInt8}

theorem Carried.refl (h : s.Reliable) : Carried [] [] s s :=
  ⟨rfl, (List.append_nil _).symm, rfl, h⟩

theorem Carried.trans (h : Carried taken written s s') (h' : Carried taken' written' s' s'') :
    Carried (taken ++ taken') (written ++ written') s s'' where
  reads_eq := by rw [h.reads_eq, h'.reads_eq, List.map_append, List.append_assoc]
  output_eq := by rw [h'.output_eq, h.output_eq, List.append_assoc]
  consumed_eq := by
    rw [h'.consumed_eq, h.consumed_eq, List.length_append]
    omega
  reliable := h'.reliable

theorem Wrote.carried (h : Wrote written s s') : Carried [] written s s' where
  reads_eq := h.reads_eq.symm
  output_eq := h.output_eq
  consumed_eq := h.consumed_eq
  reliable := h.reliable

/-- A byte that comes next is read. -/
theorem read_of_byte {byte : UInt8} {rest : List ReadReply} (h : s.reads = .byte byte :: rest)
    (hs : s.Reliable) : s.read.1 = .byte byte ∧ Carried [byte] [] s s.read.2 := by
  have hread : s.read =
      (.byte byte, { s with reads := rest, trace := .read (.byte byte) :: s.trace }) := by
    simp only [read, h]
    rfl
  rw [hread]
  exact ⟨rfl, h, (List.append_nil _).symm, rfl, hs.writes, hs.flushes⟩

/-- Behind the last byte a read finds the end of input. -/
theorem read_of_nil (h : s.reads = []) (hs : s.Reliable) :
    s.read.1 = .endOfInput ∧ Carried [] [] s s.read.2 := by
  have hread : s.read =
      (.endOfInput, { s with reads := [], trace := .read .endOfInput :: s.trace }) := by
    simp only [read, h]
    rfl
  rw [hread]
  exact ⟨rfl, h, (List.append_nil _).symm, rfl, hs.writes, hs.flushes⟩

end Streams

namespace Machine

variable {m m' m'' : Machine} {taken taken' written written' : List UInt8}

theorem Carried.trans (h : Carried taken written m m') (h' : Carried taken' written' m' m'') :
    Carried (taken ++ taken') (written ++ written') m m'' where
  cellSize_eq := h'.cellSize_eq.trans h.cellSize_eq
  endPolicy_eq := h'.endPolicy_eq.trans h.endPolicy_eq
  streams := h.streams.trans h'.streams

/-- Reading a byte stores it in the current cell. -/
theorem perform_input_of_byte {byte : UInt8} {rest : List ReadReply} (count : Int)
    (h : m.streams.reads = .byte byte :: rest) (hm : m.streams.Reliable) :
    ∃ m', m.perform .input count = ⟨none, m'⟩ ∧ Carried [byte] [] m m' ∧
      m'.tape.cell m'.pointer = byte.toNat % m.tape.cellSize.modulus := by
  obtain ⟨hreply, hcarried⟩ := Streams.read_of_byte h hm
  refine ⟨{ m with tape := m.tape.set m.pointer byte.toNat, streams := m.streams.read.2 },
    ?_, ⟨Tape.cellSize_set _ _ _, rfl, hcarried⟩, ?_⟩
  · simp only [perform, read, hreply]
  · show (m.tape.set m.pointer byte.toNat).cell m.pointer = _
    rw [Tape.cell_set, if_pos rfl]

/-- At the end of input the policy decides. -/
theorem perform_input_of_nil (count : Int) (h : m.streams.reads = []) (hm : m.streams.Reliable)
    (hpolicy : m.endPolicy ≠ .keep) :
    ∃ m', m.perform .input count = ⟨m.endPolicy.error?, m'⟩ ∧ Carried [] [] m m' ∧
      (m.endPolicy = .zero → m'.tape.cell m'.pointer = 0) := by
  obtain ⟨hreply, hcarried⟩ := Streams.read_of_nil h hm
  simp only [perform, read, hreply]
  cases hend : m.endPolicy with
  | keep => exact absurd hend hpolicy
  | fail => exact ⟨_, rfl, ⟨rfl, hend.symm, hcarried⟩, by simp⟩
  | zero =>
    refine ⟨_, rfl, ⟨Tape.cellSize_set _ _ _, hend.symm, hcarried⟩, ?_⟩
    intro _
    rw [Tape.cell_set, if_pos rfl, Nat.zero_mod]

/-- With a reliable sink, the low byte of the current cell is written. -/
theorem perform_output_one (hm : m.streams.Reliable) :
    ∃ m', m.perform .output 1 = ⟨none, m'⟩ ∧
      Carried [] [UInt8.ofNat (m.tape.cell m.pointer)] m m' := by
  obtain ⟨s, hwrite, hwrote⟩ := write_eq hm 1
  exact ⟨_, hwrite, ⟨Tape.cellSize_growTo _ _, rfl, hwrote.carried⟩⟩

/-- A loop on a zero cell is passed, and behind it the execution ends. -/
theorem execute_loop_of_zero (body : Program) (h : m.tape.cell m.pointer = 0)
    (hm : m.streams.Reliable) :
    ∃ m', execute 2 [.loop body] m = some ⟨none, m'⟩ ∧ Carried [] [] m m' := by
  have hstep := m.step_loop body []
  rw [if_pos h] at hstep
  refine ⟨{ m with tape := m.tape.growTo m.pointer }, ?_,
    ⟨Tape.cellSize_growTo m.tape m.pointer, rfl, .refl hm⟩⟩
  rw [execute_of_next hstep]
  rfl

/-- A loop on any other cell is entered. -/
theorem execute_loop_of_ne_zero (body : Program) (h : m.tape.cell m.pointer ≠ 0)
    (hm : m.streams.Reliable) :
    ∃ m', (∀ steps, execute (steps + 1) [.loop body] m =
        execute steps (body ++ [.loop body]) m') ∧
      Carried [] [] m m' ∧ m'.tape.cell m'.pointer = m.tape.cell m.pointer := by
  have hstep := m.step_loop body []
  rw [if_neg h] at hstep
  exact ⟨_, execute_of_next hstep, ⟨Tape.cellSize_growTo m.tape m.pointer, rfl, .refl hm⟩,
    Tape.cell_growTo _ _ _⟩

/-! ## One turn, then all -/

/-- At the end of input the echo ends as the policy says. -/
theorem execute_echo_of_nil (h : m.streams.reads = []) (hm : m.streams.Reliable)
    (hpolicy : m.endPolicy ≠ .keep) :
    ∃ m', execute 3 Program.echo m = some ⟨m.endPolicy.error?, m'⟩ ∧ Carried [] [] m m' := by
  obtain ⟨m₁, hread, hcarried, hcell⟩ := perform_input_of_nil 1 h hm hpolicy
  cases hend : m.endPolicy with
  | keep => exact absurd hend hpolicy
  | fail =>
    rw [hend] at hread
    exact ⟨m₁, execute_act_of_error hread 2 _, hcarried⟩
  | zero =>
    rw [hend] at hread
    obtain ⟨m₂, hexecute, hcarried₂⟩ :=
      execute_loop_of_zero [.act .output 1, .act .input 1] (hcell hend)
        hcarried.streams.reliable
    refine ⟨m₂, ?_, hcarried.trans hcarried₂⟩
    rw [Program.echo, execute_act hread, hexecute]
    rfl

/-- A byte that is zero in a cell ends the echo. -/
theorem execute_echo_of_zero {byte : UInt8} {rest : List ReadReply}
    (h : m.streams.reads = .byte byte :: rest) (hm : m.streams.Reliable)
    (hzero : byte.toNat % m.tape.cellSize.modulus = 0) :
    ∃ m', execute 3 Program.echo m = some ⟨none, m'⟩ ∧ Carried [byte] [] m m' := by
  obtain ⟨m₁, hread, hcarried, hcell⟩ := perform_input_of_byte 1 h hm
  rw [hzero] at hcell
  obtain ⟨m₂, hexecute, hcarried₂⟩ :=
    execute_loop_of_zero [.act .output 1, .act .input 1] hcell hcarried.streams.reliable
  refine ⟨m₂, ?_, hcarried.trans hcarried₂⟩
  rw [Program.echo, execute_act hread, hexecute]

/-- Any other byte is written, and the echo starts again. -/
theorem execute_echo_of_ne_zero {byte : UInt8} {rest : List ReadReply}
    (h : m.streams.reads = .byte byte :: rest) (hm : m.streams.Reliable)
    (hne : byte.toNat % m.tape.cellSize.modulus ≠ 0) :
    ∃ m', (∀ steps, execute (steps + 3) Program.echo m = execute steps Program.echo m') ∧
      Carried [byte] [UInt8.ofNat (byte.toNat % m.tape.cellSize.modulus)] m m' := by
  obtain ⟨m₁, hread, hcarried₁, hcell₁⟩ := perform_input_of_byte 1 h hm
  have hne₁ : m₁.tape.cell m₁.pointer ≠ 0 := by
    rw [hcell₁]
    exact hne
  obtain ⟨m₂, hloop, hcarried₂, hcell₂⟩ :=
    execute_loop_of_ne_zero [.act .output 1, .act .input 1] hne₁ hcarried₁.streams.reliable
  obtain ⟨m₃, hwrite, hcarried₃⟩ := perform_output_one hcarried₂.streams.reliable
  rw [hcell₂, hcell₁] at hcarried₃
  refine ⟨m₃, ?_, (hcarried₁.trans hcarried₂).trans hcarried₃⟩
  intro steps
  -- behind the output, the read at the end of the body and the loop are the program again
  rw [Program.echo, execute_act hread, hloop, List.cons_append, execute_act hwrite]
  rfl

/-- The echo writes what is visible of its input and stops at the byte behind it, or at the end. -/
theorem execute_echo (input : List UInt8) (h : m.streams.reads = input.map .byte)
    (hm : m.streams.Reliable) (hpolicy : m.endPolicy ≠ .keep) :
    ∃ steps o, execute steps Program.echo m = some o ∧
      Carried (input.take ((m.tape.cellSize.visible input).length + 1))
        ((m.tape.cellSize.visible input).map fun byte =>
          UInt8.ofNat (byte.toNat % m.tape.cellSize.modulus)) m o.machine ∧
      ((∃ byte ∈ input, byte.toNat % m.tape.cellSize.modulus = 0) → o.error? = none) ∧
      ((∀ byte ∈ input, byte.toNat % m.tape.cellSize.modulus ≠ 0) →
        o.error? = m.endPolicy.error?) := by
  -- over the input: each byte that is not the last one leads to the echo of the others
  induction input generalizing m with
  | nil =>
    obtain ⟨m', hexecute, hcarried⟩ := execute_echo_of_nil h hm hpolicy
    exact ⟨3, _, hexecute, hcarried, by simp, fun _ => rfl⟩
  | cons byte input ih =>
    by_cases hzero : byte.toNat % m.tape.cellSize.modulus = 0
    · obtain ⟨m', hexecute, hcarried⟩ := execute_echo_of_zero h hm hzero
      have hvisible : m.tape.cellSize.visible (byte :: input) = [] := by
        simp [CellSize.visible, hzero]
      rw [hvisible]
      refine ⟨3, _, hexecute, hcarried, fun _ => rfl, ?_⟩
      intro hall
      exact absurd hzero (hall byte List.mem_cons_self)
    · obtain ⟨m₁, hagain, hcarried₁⟩ := execute_echo_of_ne_zero h hm hzero
      have hreads₁ : m₁.streams.reads = input.map .byte := by
        have hreads := hcarried₁.streams.reads_eq
        rw [h] at hreads
        simpa using hreads.symm
      have hpolicy₁ : m₁.endPolicy ≠ .keep := by
        rw [hcarried₁.endPolicy_eq]
        exact hpolicy
      obtain ⟨steps, o, hexecute, hcarried, hend, hall⟩ :=
        ih hreads₁ hcarried₁.streams.reliable hpolicy₁
      rw [hcarried₁.cellSize_eq] at hcarried hend hall
      rw [hcarried₁.endPolicy_eq] at hall
      have hvisible : m.tape.cellSize.visible (byte :: input) =
          byte :: m.tape.cellSize.visible input := by
        simp [CellSize.visible, hzero]
      rw [hvisible]
      refine ⟨steps + 3, o, (hagain steps).trans hexecute, hcarried₁.trans hcarried, ?_, ?_⟩
      · rintro ⟨b, hb, hbzero⟩
        rcases List.mem_cons.mp hb with rfl | hb
        · exact absurd hbzero hzero
        · exact hend ⟨b, hb, hbzero⟩
      · intro hne
        exact hall fun b hb => hne b (List.mem_cons_of_mem byte hb)

/-- The last flush of a reliable sink reports nothing and carries nothing. -/
theorem settle_of_reliable {o : Outcome} (h : o.machine.streams.Reliable) :
    (settle o).error? = o.error? ∧ Carried [] [] o.machine (settle o).machine := by
  obtain ⟨hnone, hwrote⟩ := h.flush
  refine ⟨?_, rfl, rfl, hwrote.carried⟩
  simp only [settle, hnone, Option.map_none]
  cases o.error? <;> rfl

end Machine

namespace CellSize

variable {size : CellSize} {input : List UInt8}

/-- An input without a byte that is zero in a cell is visible. -/
theorem visible_eq_self (h : ∀ byte ∈ input, byte.toNat % size.modulus ≠ 0) :
    size.visible input = input := by
  rw [visible, List.takeWhile_eq_self_iff]
  simpa using h

/-- A byte that is zero in a cell is not visible. -/
theorem length_visible_lt (h : ∃ byte ∈ input, byte.toNat % size.modulus = 0) :
    (size.visible input).length < input.length := by
  obtain ⟨byte, hmem, hzero⟩ := h
  have hprefix : size.visible input <+: input := List.takeWhile_prefix _
  refine Nat.lt_of_le_of_ne hprefix.length_le ?_
  intro hlength
  have hself := hprefix.eq_of_length hlength
  rw [visible, List.takeWhile_eq_self_iff] at hself
  simpa [hzero] using hself byte hmem

end CellSize

/-- The text `,[.,]`, run on a fresh tape with an input that holds some bytes, a reliable sink and a
policy other than `keep`, halts. It writes the low bytes of the longest prefix of its input in which
no byte is zero in a cell. If there is a byte behind that prefix, the run succeeds and has read the
prefix and that byte; otherwise it has read everything, and ends as the policy says. -/
theorem run_echo (input : List UInt8) (size : CellSize) (length : Nat) (policy : EndPolicy)
    (streams : Streams) (hpolicy : policy = .zero ∨ policy = .fail)
    (hinput : streams.reads = input.map .byte) (hsink : streams.Reliable)
    (hfresh : streams.trace = []) :
    ∃ program o, Program.ofText ",[.,]" = .ok program ∧
      Machine.RunsTo program (.fresh (.zeros length size) policy streams) o ∧
      o.machine.streams.output.map UInt8.toNat =
        (size.visible input).map (fun byte => byte.toNat % size.modulus % 256) ∧
      ((∃ byte ∈ input, byte.toNat % size.modulus = 0) →
        o.error? = none ∧
        o.machine.streams.consumed = (size.visible input).length + 1 ∧
        o.machine.streams.reads = (input.drop ((size.visible input).length + 1)).map .byte) ∧
      ((∀ byte ∈ input, byte.toNat % size.modulus ≠ 0) →
        o.machine.streams.consumed = input.length ∧
        (policy = .zero → o.error? = none) ∧
        (policy = .fail → o.error? = some .noInput)) := by
  have hkeep : policy ≠ .keep := by
    rcases hpolicy with rfl | rfl <;> decide
  obtain ⟨steps, o, hexecute, hcarried, hend, hall⟩ :=
    Machine.execute_echo (m := .fresh (.zeros length size) policy streams) input hinput hsink hkeep
  obtain ⟨herror, hsettle⟩ := Machine.settle_of_reliable hcarried.streams.reliable
  -- from the fresh streams to those behind the last flush
  have htotal : streams.Carried (input.take ((size.visible input).length + 1))
      ((size.visible input).map fun byte => UInt8.ofNat (byte.toNat % size.modulus))
      (Machine.settle o).machine.streams := by
    have h := (hcarried.trans hsettle).streams
    rwa [List.append_nil, List.append_nil] at h
  have hreads : (Machine.settle o).machine.streams.reads =
      (input.drop ((size.visible input).length + 1)).map .byte := by
    have h := htotal.reads_eq
    rw [hinput] at h
    nth_rewrite 1 [← List.take_append_drop ((size.visible input).length + 1) input] at h
    rw [List.map_append] at h
    exact (List.append_cancel_left h).symm
  have hconsumed : (Machine.settle o).machine.streams.consumed =
      min ((size.visible input).length + 1) input.length := by
    rw [htotal.consumed_eq, List.length_take]
    simp [Streams.consumed, hfresh]
  refine ⟨Program.echo, Machine.settle o, by cbv, ⟨steps, ?_⟩, ?_, ?_, ?_⟩
  · rw [Machine.run, hexecute]
    rfl
  · rw [htotal.output_eq]
    simp [Streams.output, hfresh]
  · intro hzero
    have hlt := CellSize.length_visible_lt hzero
    refine ⟨herror.trans (hend hzero), ?_, hreads⟩
    rw [hconsumed]
    omega
  · intro hne
    have hself := CellSize.visible_eq_self hne
    have herror' : (Machine.settle o).error? = policy.error? := herror.trans (hall hne)
    refine ⟨?_, ?_, ?_⟩
    · rw [hconsumed, hself]
      omega
    · rintro rfl
      exact herror'
    · rintro rfl
      exact herror'

/-- With cells of four bits the second byte is zero, and the third is not read. Without it the input
runs out. The sink is interrupted once. -/
theorem run_echo_four_bits :
    (∃ program o, Program.ofText ",[.,]" = .ok program ∧
      Machine.RunsTo program (.fresh (.zeros 0 .bits4) .fail
        ⟨[.byte 65, .byte 32, .byte 7], [.fault .interruption], [], []⟩) o ∧
      o.machine.streams.output.map UInt8.toNat = [1] ∧ o.error? = none ∧
      o.machine.streams.consumed = 2 ∧ o.machine.streams.reads = [.byte 7]) ∧
    (∃ program o, Program.ofText ",[.,]" = .ok program ∧
      Machine.RunsTo program (.fresh (.zeros 0 .bits4) .fail
        ⟨[.byte 65], [.fault .interruption], [], []⟩) o ∧
      o.machine.streams.output.map UInt8.toNat = [1] ∧ o.error? = some .noInput ∧
      o.machine.streams.consumed = 1) := by
  have hsink : ∀ reads, (⟨reads, [.fault .interruption], [], []⟩ : Streams).Reliable := by
    intro reads
    exact ⟨by simp [WriteReply.isInterruption, Fault.interruption], by simp⟩
  constructor
  · obtain ⟨program, o, hprogram, hrun, houtput, hzero, _⟩ :=
      run_echo [65, 32, 7] .bits4 0 .fail ⟨[.byte 65, .byte 32, .byte 7], [.fault .interruption],
        [], []⟩ (Or.inr rfl) rfl (hsink _) rfl
    obtain ⟨hnone, hconsumed, hreads⟩ := hzero ⟨32, by simp, by decide⟩
    exact ⟨program, o, hprogram, hrun, houtput, hnone, hconsumed, hreads⟩
  · obtain ⟨program, o, hprogram, hrun, houtput, _, hall⟩ :=
      run_echo [65] .bits4 0 .fail ⟨[.byte 65], [.fault .interruption], [], []⟩ (Or.inr rfl) rfl
        (hsink _) rfl
    obtain ⟨hconsumed, _, hfail⟩ := hall (List.forall_mem_singleton.mpr (by decide))
    exact ⟨program, o, hprogram, hrun, houtput, hfail rfl, hconsumed⟩

end TapeMachine
