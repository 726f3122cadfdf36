import TapeMachine.Proofs.Streams

/-! # Runs that do not meet the end of input

What a read does at the end of input, and what input comes after the last byte that is read, can
matter only to a run that gets there.

* `Streams.endCount` counts the reads that found the end of input. It never falls, so a run that
  leaves it as it was met no end in any of its steps.
* `Machine.supply policy more`: the machine with another policy, and with more input behind its own.
* `step_supply` and `execute_supply`: a step, and then a whole execution, that meets no end does the
  same on the supplied machine, and leaves what the supply left of it.
* `run_supply`: so result, tape, pointer and traffic are the same.
-/

namespace TapeMachine

/-! ## Meeting the end of input -/

/-- Whether the call is a read that found the end of input. -/
def Call.isEnd : Call → Bool
  | .read .endOfInput => true
  | _ => false

namespace Streams

/-- The number of reads that found the end of input. -/
def endCount (s : Streams) : Nat := s.trace.countP Call.isEnd

/-- Calls that were made stay made. -/
theorem Extends.endCount_le {s s' : Streams} (h : s.Extends s') : s.endCount ≤ s'.endCount :=
  List.IsSuffix.countP_le h

/-- Further replies behind those that are left for reads. -/
def supply (s : Streams) (more : List ReadReply) : Streams :=
  { s with reads := s.reads ++ more }

end Streams

theorem countP_isEnd_cons (trace : List Call) :
    (Call.read .endOfInput :: trace).countP Call.isEnd = trace.countP Call.isEnd + 1 :=
  List.countP_cons_of_pos rfl

/-- A read that finds the end of input is counted. -/
theorem countP_isEnd_readCalls {reads : List ReadReply} {trace : List Call}
    (h : (readCalls reads trace).1 = .endOfInput) :
    trace.countP Call.isEnd < (readCalls reads trace).2.2.countP Call.isEnd := by
  induction reads generalizing trace with
  | nil =>
    have hend := countP_isEnd_cons trace
    show trace.countP Call.isEnd < (Call.read .endOfInput :: trace).countP Call.isEnd
    omega
  | cons reply rest ih =>
    unfold readCalls at h ⊢
    split at h
    · -- the call is made again, and the end is found later
      rename_i hinterrupted
      rw [if_pos hinterrupted]
      have hlater := ih h
      have hcons : trace.countP Call.isEnd ≤ (Call.read reply :: trace).countP Call.isEnd :=
        (List.sublist_cons_self _ _).countP_le
      omega
    · rename_i hinterrupted
      rw [if_neg hinterrupted]
      have hreply : reply = .endOfInput := h
      subst hreply
      have hend := countP_isEnd_cons trace
      show trace.countP Call.isEnd < (Call.read .endOfInput :: trace).countP Call.isEnd
      omega

/-- Up to a reply that is not the end of input, further replies are not looked at. -/
theorem readCalls_append {reads : List ReadReply} {trace : List Call}
    (h : (readCalls reads trace).1 ≠ .endOfInput) (more : List ReadReply) :
    readCalls (reads ++ more) trace =
      ((readCalls reads trace).1, (readCalls reads trace).2.1 ++ more,
        (readCalls reads trace).2.2) := by
  induction reads generalizing trace with
  | nil => exact absurd rfl h
  | cons reply rest ih =>
    rw [List.cons_append]
    unfold readCalls at h ⊢
    split at h
    · rename_i hinterrupted
      rw [if_pos hinterrupted, if_pos hinterrupted]
      exact ih h
    · rename_i hinterrupted
      rw [if_neg hinterrupted, if_neg hinterrupted]

namespace Streams

variable {s : Streams}

/-- A read that leaves the number of ends as it was found none. -/
theorem read_ne_endOfInput (h : s.read.2.endCount = s.endCount) : s.read.1 ≠ .endOfInput := by
  intro hend
  have hlt : s.endCount < s.read.2.endCount := countP_isEnd_readCalls hend
  omega

theorem read_supply (h : s.read.1 ≠ .endOfInput) (more : List ReadReply) :
    (s.supply more).read = (s.read.1, s.read.2.supply more) := by
  have hcalls : readCalls (s.supply more).reads (s.supply more).trace =
      (s.read.1, s.read.2.reads ++ more, s.read.2.trace) := readCalls_append h more
  unfold read
  rw [hcalls]
  rfl

theorem write_supply (s : Streams) (byte : UInt8) (more : List ReadReply) :
    (s.supply more).write byte = ((s.write byte).1, (s.write byte).2.supply more) := rfl

theorem writeMany_supply (s : Streams) (byte : UInt8) (count : Nat) (more : List ReadReply) :
    (s.supply more).writeMany byte count =
      ((s.writeMany byte count).1, (s.writeMany byte count).2.supply more) := by
  induction count generalizing s with
  | zero => rfl
  | succ count ih =>
    unfold writeMany
    rw [write_supply]
    rcases s.write byte with ⟨_ | fault, s'⟩
    · exact ih s'
    · rfl

theorem flush_supply (s : Streams) (more : List ReadReply) :
    (s.supply more).flush = (s.flush.1, s.flush.2.supply more) := by
  rcases s with ⟨reads, writes, flushes, trace⟩
  cases flushes with
  | nil => rfl
  | cons reply rest => rfl

end Streams

/-! ## Supplied machines -/

/-- The machine with another policy, and with further replies behind those that are left for
reads. -/
def Machine.supply (m : Machine) (policy : EndPolicy) (more : List ReadReply) : Machine :=
  { m with endPolicy := policy, streams := m.streams.supply more }

/-- The outcome with the machine supplied. -/
def Outcome.supply (o : Outcome) (policy : EndPolicy) (more : List ReadReply) : Outcome :=
  ⟨o.error?, o.machine.supply policy more⟩

/-- The transition with the machine supplied. -/
def Machine.Transition.supply (policy : EndPolicy) (more : List ReadReply) :
    Machine.Transition → Machine.Transition
  | .next todo m => .next todo (m.supply policy more)
  | .halt o => .halt (o.supply policy more)

namespace Machine

variable {m : Machine} (policy : EndPolicy) (more : List ReadReply)

theorem write_supply (m : Machine) (count : Int) :
    (m.supply policy more).write count = (m.write count).supply policy more := by
  have hmany := m.streams.writeMany_supply (UInt8.ofNat (m.tape.cell m.pointer)) count.toNat more
  unfold write
  simp only [Tape.get_fst, Tape.get_snd, supply, hmany]
  rcases m.streams.writeMany (UInt8.ofNat (m.tape.cell m.pointer)) count.toNat
    with ⟨_ | fault, s⟩
  · simp only [Streams.flush_supply]
    rfl
  · rfl

/-- A read leaves its calls on the streams, whatever the reply. -/
theorem streams_read (m : Machine) : m.read.machine.streams = m.streams.read.2 := by
  unfold read
  rcases m.streams.read with ⟨reply, s⟩
  cases reply with
  | byte value => rfl
  | fault fault => rfl
  | endOfInput =>
    cases m.endPolicy with
    | fail => rfl
    | zero => rfl
    | keep => rfl

/-- A read that meets no end does not look at the policy. -/
theorem read_supply (h : m.read.machine.streams.endCount = m.streams.endCount) :
    (m.supply policy more).read = m.read.supply policy more := by
  rw [streams_read] at h
  have hreply := Streams.read_ne_endOfInput h
  have hread : (m.supply policy more).streams.read =
      (m.streams.read.1, m.streams.read.2.supply more) := Streams.read_supply hreply more
  unfold read
  rw [hread]
  generalize m.streams.read = r at *
  rcases r with ⟨reply, s⟩
  cases reply with
  | byte value => rfl
  | fault fault => rfl
  | endOfInput => exact absurd rfl hreply

/-- An action that meets no end does the same on the supplied machine. -/
theorem perform_supply {action : Action} {count : Int}
    (h : (m.perform action count).machine.streams.endCount = m.streams.endCount) :
    (m.supply policy more).perform action count =
      (m.perform action count).supply policy more := by
  cases action with
  | move =>
    have hpointer : (m.supply policy more).pointer = m.pointer := rfl
    unfold perform move
    rw [hpointer]
    cases target? m.pointer count with
    | none => rfl
    | some target => rfl
  | add => rfl
  | output => exact m.write_supply policy more count
  | input => exact read_supply policy more h

/-- A step that meets no end does the same on the supplied machine. -/
theorem step_supply {todo : Program}
    (h : (m.step todo).machine.streams.endCount = m.streams.endCount) :
    (m.supply policy more).step todo = (m.step todo).supply policy more := by
  cases todo with
  | nil => rfl
  | cons node rest =>
    cases node with
    | act action count =>
      rw [machine_step_act] at h
      have herror : ((m.perform action count).supply policy more).error? =
          (m.perform action count).error? := rfl
      rw [step_act, step_act, perform_supply policy more h, herror]
      cases (m.perform action count).error? with
      | none => rfl
      | some error => rfl
    | loop body =>
      -- neither the cell nor what it decides has to do with the input
      rw [step_loop, step_loop]
      rfl

/-- An execution that meets no end does the same on the supplied machine. -/
theorem execute_supply {steps : Nat} {todo : Program} {o : Outcome}
    (h : execute steps todo m = some o)
    (hend : o.machine.streams.endCount = m.streams.endCount) :
    execute steps todo (m.supply policy more) = some (o.supply policy more) := by
  induction steps generalizing todo m with
  | zero => cases h
  | succ steps ih =>
    have hfirst := (m.extends_step todo).endCount_le
    unfold execute at h ⊢
    cases hstep : m.step todo with
    | next todo' m' =>
      rw [hstep] at h hfirst
      -- the number of ends lies between equal ones, before and behind the first step
      have hrest := (extends_execute h).endCount_le
      have hnone : m'.streams.endCount = m.streams.endCount := by
        have hle : m.streams.endCount ≤ m'.streams.endCount := hfirst
        omega
      have hsupply : (m.supply policy more).step todo = (m.step todo).supply policy more := by
        apply step_supply
        rw [hstep]
        exact hnone
      rw [hsupply, hstep]
      exact ih h (by omega)
    | halt o' =>
      rw [hstep] at h
      cases h
      have hsupply : (m.supply policy more).step todo = (m.step todo).supply policy more := by
        apply step_supply
        rw [hstep]
        exact hend
      rw [hsupply, hstep]
      rfl

/-- The last flush has nothing to do with the input. -/
theorem settle_supply (o : Outcome) :
    settle (o.supply policy more) = (settle o).supply policy more := by
  have hflush : (o.supply policy more).machine.streams.flush =
      (o.machine.streams.flush.1, o.machine.streams.flush.2.supply more) :=
    o.machine.streams.flush_supply more
  unfold settle
  rw [hflush]
  rfl

/-- A run that meets no end does the same on the supplied machine. -/
theorem RunsTo.supply {program : Program} {o : Outcome} (h : RunsTo program m o)
    (hend : o.machine.streams.endCount = m.streams.endCount) :
    RunsTo program (m.supply policy more) (o.supply policy more) := by
  rcases h with ⟨steps, h⟩
  rcases Option.map_eq_some_iff.mp h with ⟨e, he, rfl⟩
  have hbefore := (extends_execute he).endCount_le
  have hflush : e.machine.streams.endCount ≤ (settle e).machine.streams.endCount :=
    e.machine.streams.extends_flush.endCount_le
  refine ⟨steps, ?_⟩
  unfold run
  rw [execute_supply policy more he (by omega), Option.map_some, settle_supply]

end Machine

/-- The policy for the end of input and the input that is not read are not observable before the end
of input is met. If a run halts, with or without an error, and none of its reads found the end of
input, then with any other policy and any input behind the given one it halts with the same result,
pointer, tape, output and number of bytes read, after the same numbers of reads, writes and
flushes. -/
theorem run_supply (program : Program) (m : Machine) (o : Outcome)
    (h : Machine.RunsTo program m o) (hend : o.machine.streams.endCount = m.streams.endCount)
    (policy : EndPolicy) (more : List ReadReply) :
    ∃ o', Machine.RunsTo program (m.supply policy more) o' ∧
      o'.error? = o.error? ∧
      o'.machine.pointer = o.machine.pointer ∧
      o'.machine.tape = o.machine.tape ∧
      o'.machine.streams.output = o.machine.streams.output ∧
      o'.machine.streams.consumed = o.machine.streams.consumed ∧
      o'.machine.streams.readCount = o.machine.streams.readCount ∧
      o'.machine.streams.writeCount = o.machine.streams.writeCount ∧
      o'.machine.streams.flushCount = o.machine.streams.flushCount :=
  ⟨o.supply policy more, h.supply policy more hend, rfl, rfl, rfl, rfl, rfl, rfl, rfl, rfl⟩

/-- A loop that writes what it reads until it reads a zero byte, after an interruption. The policy
`fail` and the byte behind the zero do not show. -/
theorem run_supply_zero_byte :
    ∃ o', Machine.RunsTo [.act .input 1, .loop [.act .output 1, .act .input 1]]
        (.fresh (.zeros 0 .bits8) .zero
          ⟨[.byte 65, .fault .interruption, .byte 0, .byte 66], [], [], []⟩) o' ∧
      o'.error? = none ∧ o'.machine.streams.output = [65] ∧
      o'.machine.streams.consumed = 2 ∧ o'.machine.streams.readCount = 3 := by
  have hrun : Machine.RunsTo [.act .input 1, .loop [.act .output 1, .act .input 1]]
      (.fresh (.zeros 0 .bits8) .fail ⟨[.byte 65, .fault .interruption, .byte 0], [], [], []⟩)
      ⟨none, ⟨⟨#[0], .bits8⟩, 0, .fail, ⟨[], [], [], [.flush .done, .read (.byte 0),
        .read (.fault .interruption), .flush .done, .write 65 .accepted, .read (.byte 65)]⟩,
        []⟩⟩ := by
    exact ⟨6, rfl⟩
  rcases run_supply _ _ _ hrun (by decide) .zero [.byte 66] with
    ⟨o', ho', herror, _, _, houtput, hconsumed, hreads, _⟩
  exact ⟨o', ho', herror, houtput, hconsumed, hreads⟩

end TapeMachine
