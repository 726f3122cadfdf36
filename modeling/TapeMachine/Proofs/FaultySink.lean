import TapeMachine.Proofs.Failure

/-! # Sinks that fail

A sink may fail at any write and at any flush. All that this does to a run is to cut it short.

* `Outcome.SinkError`: a run ended with an error of its sink and not of its input.
* `Streams.SameBytes`: two streams have the same input left, and have carried the same bytes.
* `answer_faulty`: to every request a faulty sink gives the same answer as a reliable one, or it
  fails and has taken a part of the bytes.
* `execute_faulty`: so an execution is the same, or stops early at a request to write.
* `run_faulty_sink`: the output is a part of what a reliable sink gets, from its start, and unless
  the sink is to blame for the result everything is the same.
-/

namespace TapeMachine

/-! ## Model -/

/-- The fault with which a call failed. An interrupted read or write has not failed: it is made
again. -/
def Call.fault? : Call → Option Fault
  | .read (.fault fault) => if fault.kind = .interrupted then none else some fault
  | .read _ => none
  | .write _ reply => if reply.isInterruption then none else reply.fault?
  | .flush reply => reply.fault?

/-- The error is the fault of a call to the sink, since the machine was `m`, and no read failed. -/
def Outcome.SinkError (m : Machine) (o : Outcome) : Prop :=
  ∃ fault calls, o.error? = some (.stream fault) ∧
    o.machine.streams.trace = calls ++ m.streams.trace ∧
    (∃ call ∈ calls, call.isRead = false ∧ call.fault? = some fault) ∧
    ∀ call ∈ calls, call.isRead = true → call.fault? = none

/-- The machine with another sink. -/
def Machine.withSink (m : Machine) (writes : List WriteReply) (flushes : List FlushReply) :
    Machine :=
  m.withStreams { m.streams with writes, flushes }

/-- The same input left, the same output, and the same number of bytes read. -/
structure Streams.SameBytes (s s' : Streams) : Prop where
  reads_eq : s'.reads = s.reads
  output_eq : s'.output = s.output
  consumed_eq : s'.consumed = s.consumed

/-! ## Which calls fail -/

namespace Exchange

variable {request : Request} {answer : Answer} {calls : List Call}

/-- If a request for input has no fault as its answer, no read has failed. -/
theorem reads_unfailed (h : Exchange request answer calls)
    (hanswer : request = .receive → ∀ fault, answer ≠ .fault fault) :
    ∀ call ∈ calls, call.isRead = true → call.fault? = none := by
  intro call hcall hread
  cases h with
  | nothing => cases hcall
  | @received reply tries htries hreply =>
    rcases List.mem_cons.mp hcall with rfl | hmem
    · cases reply with
      | byte value => rfl
      | endOfInput => rfl
      | fault fault => exact absurd rfl (hanswer rfl fault)
    · obtain ⟨r, hr, rfl⟩ := List.mem_map.mp hmem
      have hinterrupted := htries r hr
      cases r with
      | byte value => rfl
      | endOfInput => rfl
      | fault fault => simpa [Call.fault?, ReadReply.isInterruption] using hinterrupted
  | broken _ _ _ _ =>
    rcases List.mem_cons.mp hcall with rfl | hmem
    · cases hread
    · obtain ⟨r, _, rfl⟩ := List.mem_map.mp hmem
      cases hread
  | flushed reply _ =>
    rcases List.mem_cons.mp hcall with rfl | hmem
    · cases hread
    · obtain ⟨r, _, rfl⟩ := List.mem_map.mp hmem
      cases hread

/-- If a request to write has a fault as its answer, it is that of a call to the sink. -/
theorem sink_failed {byte : UInt8} {count : Nat} {fault : Fault}
    (h : Exchange (.emit byte count) (.fault fault) calls) :
    ∃ call ∈ calls, call.isRead = false ∧ call.fault? = some fault := by
  generalize hanswer : Answer.fault fault = answer at h
  cases h with
  | @broken _ _ taken reply fault' replies _ _ hlast hreply =>
    cases hanswer
    refine ⟨.write byte reply, List.mem_cons_self, rfl, ?_⟩
    simp only [Call.fault?, hlast, hreply, Bool.false_eq_true, if_false]
  | flushed reply _ =>
    cases reply with
    | done => cases hanswer
    | fault fault' =>
      cases hanswer
      exact ⟨_, List.mem_cons_self, rfl, rfl⟩

end Exchange

/-- As long as the execution goes on, no read has failed. -/
theorem Machine.LeadsTo.reads_unfailed {todo todo' : Program} {m m' : Machine}
    (h : LeadsTo todo m todo' m') :
    ∃ calls, m'.streams.trace = calls ++ m.streams.trace ∧
      ∀ call ∈ calls, call.isRead = true → call.fault? = none := by
  refine LeadsTo.keeps (P := fun _ m' => ∃ calls, m'.streams.trace = calls ++ m.streams.trace ∧
    ∀ call ∈ calls, call.isRead = true → call.fault? = none) ?_ h ⟨[], rfl, by simp⟩
  rintro todo₁ todo₂ m₁ m₂ hstep ⟨earlier, hearlier, hunfailed⟩
  obtain ⟨answer, calls, htrace, hexchange, hanswer⟩ := exchange_of_next hstep
  refine ⟨calls ++ earlier, ?_, ?_⟩
  · rw [htrace, hearlier, List.append_assoc]
  · intro call hcall
    rcases List.mem_append.mp hcall with hmem | hmem
    · exact hexchange.reads_unfailed (fun _ => hanswer) call hmem
    · exact hunfailed call hmem

/-! ## Requests to a faulty sink -/

namespace Streams

theorem reads_writeMany (s : Streams) (byte : UInt8) (count : Nat) :
    (s.writeMany byte count).2.reads = s.reads := by
  induction count generalizing s with
  | zero => rfl
  | succ count ih =>
    have hwrite : (s.write byte).2.reads = s.reads := rfl
    unfold writeMany
    generalize s.write byte = r at *
    rcases r with ⟨_ | fault, s₁⟩
    · exact (ih s₁).trans hwrite
    · exact hwrite

theorem reads_flush (s : Streams) : s.flush.2.reads = s.reads := by
  rw [flush_eq_head]

theorem reads_emit (s : Streams) (byte : UInt8) (count : Nat) :
    (s.emit byte count).2.reads = s.reads := by
  have hmany := s.reads_writeMany byte count
  unfold emit
  generalize s.writeMany byte count = r at *
  rcases r with ⟨_ | fault, s₁⟩
  · exact s₁.reads_flush.trans hmany
  · exact hmany

/-- A reliable sink takes all bytes. -/
theorem Reliable.emit {s : Streams} (h : s.Reliable) (byte : UInt8) (count : Nat) :
    (s.emit byte count).1 = none ∧
      Wrote (List.replicate count byte) s (s.emit byte count).2 := by
  obtain ⟨hnone, hwrote⟩ := h.writeMany byte count
  unfold Streams.emit
  generalize s.writeMany byte count = r at *
  rcases r with ⟨fault?, s₁⟩
  cases hnone
  obtain ⟨hnone', hflushed⟩ := hwrote.reliable.flush
  refine ⟨hnone', ?_⟩
  have hboth := hwrote.trans hflushed
  rwa [List.append_nil] at hboth

/-- Streams with the same input left make the same read calls. -/
theorem read_of_reads_eq {s s' : Streams} (h : s'.reads = s.reads) :
    s'.read.1 = s.read.1 ∧ s'.read.2.reads = s.read.2.reads ∧
      ∃ calls, s.read.2.trace = calls ++ s.trace ∧ s'.read.2.trace = calls ++ s'.trace := by
  rw [read_eq_attempt, read_eq_attempt, h]
  exact ⟨rfl, rfl, _, (List.cons_append ..).symm, (List.cons_append ..).symm⟩

/-- To a request a faulty sink gives the answer of a reliable one, or it fails, and has taken a part
of the bytes. -/
theorem answer_faulty {s s' : Streams} (hs : s.Reliable) (h : SameBytes s s') (request : Request) :
    ((s'.answer request).1 = (s.answer request).1 ∧ (s.answer request).2.Reliable ∧
      SameBytes (s.answer request).2 (s'.answer request).2) ∨
    (∃ byte count fault, request = .emit byte count ∧ (s'.answer request).1 = .fault fault ∧
      (s'.answer request).2.output <+: (s.answer request).2.output) := by
  cases request with
  | nothing => exact Or.inl ⟨rfl, hs, h⟩
  | receive =>
    obtain ⟨hreply, hleft, calls, htrace, htrace'⟩ := read_of_reads_eq h.reads_eq
    refine Or.inl ⟨congrArg Answer.ofRead hreply, ⟨hs.writes, hs.flushes⟩, hleft, ?_, ?_⟩
    · show s'.read.2.output = s.read.2.output
      rw [output_append htrace, output_append htrace', h.output_eq]
    · show s'.read.2.consumed = s.read.2.consumed
      rw [consumed_append htrace, consumed_append htrace', h.consumed_eq]
  | emit byte count =>
    obtain ⟨hnone, hwrote⟩ := hs.emit byte count
    have hdone : (s.answer (.emit byte count)).1 = .done := by
      simp only [answer, hnone, Answer.ofFault?]
    have hfull : (s.answer (.emit byte count)).2.output =
        s.output ++ List.replicate count byte := hwrote.output_eq
    obtain ⟨calls, htrace, hexchange⟩ := s'.exchange_answer (.emit byte count)
    obtain ⟨taken, hwritten, htaken, hle, hanswer⟩ := hexchange.emitted
    have houtput : (s'.answer (.emit byte count)).2.output =
        s.output ++ List.replicate taken byte := by
      rw [output_append htrace, hwritten, List.reverse_replicate, h.output_eq]
    rcases hanswer with ⟨hanswer, hcount⟩ | ⟨fault, hanswer⟩
    · refine Or.inl ⟨hanswer.trans hdone.symm, hwrote.reliable, ?_, ?_, ?_⟩
      · show (s'.emit byte count).2.reads = (s.emit byte count).2.reads
        rw [s'.reads_emit, s.reads_emit, h.reads_eq]
      · rw [houtput, hfull, hcount]
      · have hconsumed : (s.answer (.emit byte count)).2.consumed = s.consumed :=
          hwrote.consumed_eq
        rw [consumed_append htrace, htaken, hconsumed, h.consumed_eq, List.length_nil, Nat.zero_add]
    · refine Or.inr ⟨byte, count, fault, rfl, hanswer, ?_⟩
      obtain ⟨missing, hmissing⟩ := Nat.le.dest hle
      rw [houtput, hfull, ← hmissing, ← List.replicate_append_replicate, ← List.append_assoc]
      exact List.prefix_append _ _

end Streams

/-! ## Executions -/

namespace Machine

variable {m : Machine} {s : Streams} {todo : Program} {o : Outcome}

/-- What the first step leaves on the streams stays there. -/
theorem extends_of_execute_succ {steps : Nat} (h : execute (steps + 1) todo m = some o) :
    (m.step todo).machine.streams.Extends o.machine.streams := by
  unfold execute at h
  cases hstep : m.step todo with
  | next todo' m' =>
    rw [hstep] at h
    exact extends_execute h
  | halt o' =>
    rw [hstep] at h
    cases h
    exact .refl _

/-- The execution stopped at a request to write, since the sink failed. -/
def SinkFailed (todo : Program) (m : Machine) (o : Outcome) : Prop :=
  ∃ todo' m' byte count fault, LeadsTo todo m todo' m' ∧ m'.step todo' = .halt o ∧
    m'.request todo' = .emit byte count ∧ (m'.streams.answer (.emit byte count)).1 = .fault fault

/-- With a faulty sink an execution is the same, or it stops early at a request to write. -/
theorem execute_faulty {steps : Nat} (hm : m.streams.Reliable)
    (hs : Streams.SameBytes m.streams s) (h : execute steps todo m = some o) :
    ∃ o', execute steps todo (m.withStreams s) = some o' ∧
      ((∃ t, o' = o.withStreams t ∧ o.machine.streams.Reliable ∧
        Streams.SameBytes o.machine.streams t) ∨
      (SinkFailed todo (m.withStreams s) o' ∧
        o'.machine.streams.output <+: o.machine.streams.output)) := by
  -- over the number of steps: as long as the answers are the same, so are the machines
  induction steps generalizing todo m s with
  | zero => cases h
  | succ steps ih =>
    have hrequest : (m.withStreams s).request todo = m.request todo := rfl
    have hstreams := m.streams_step todo
    have hstreams' := (m.withStreams s).streams_step todo
    have hlater := Streams.Extends.output_prefix (extends_of_execute_succ h)
    unfold execute at h ⊢
    rcases Streams.answer_faulty hm hs (m.request todo) with
      ⟨hanswer, hreliable, hsame⟩ | ⟨byte, count, fault, hemit, hfault, hpart⟩
    · rw [m.step_withStreams s todo hanswer]
      rw [← hstreams] at hreliable hsame
      cases hstep : m.step todo with
      | next todo₁ m₁ =>
        rw [hstep] at h hreliable hsame
        obtain ⟨o', hexecute, hcase⟩ := ih hreliable hsame h
        refine ⟨o', hexecute, ?_⟩
        rcases hcase with hsame' | ⟨⟨todo', m', byte, count, fault, hleads, hrest⟩, hcut⟩
        · exact Or.inl hsame'
        · have hfirst : (m.withStreams s).step todo =
              .next todo₁ (m₁.withStreams (s.answer (m.request todo)).2) := by
            rw [m.step_withStreams s todo hanswer, hstep]
            rfl
          exact Or.inr ⟨⟨todo', m', byte, count, fault, .head hfirst hleads, hrest⟩, hcut⟩
      | halt o₁ =>
        rw [hstep] at h hreliable hsame
        cases h
        exact ⟨_, rfl, Or.inl ⟨_, rfl, hreliable, hsame⟩⟩
    · have hfault' : ((m.withStreams s).streams.answer ((m.withStreams s).request todo)).1 =
          .fault fault := hfault
      obtain ⟨o', hhalt, _⟩ := step_of_fault hfault'
      rw [hemit] at hfault hrequest
      rw [hhalt]
      have hfailed : SinkFailed todo (m.withStreams s) o' :=
        ⟨todo, _, byte, count, fault, .refl _ _, hhalt, hrequest, hfault⟩
      refine ⟨o', rfl, Or.inr ⟨hfailed, ?_⟩⟩
      -- what the sink has taken is a part of what the reliable one has taken at this step
      rw [hhalt] at hstreams'
      rw [hstreams] at hlater
      have hsink : o'.machine.streams = (s.answer (m.request todo)).2 := hstreams'
      rw [hsink]
      exact hpart.trans hlater

/-- The error of an execution that stopped like this is the sink's. -/
theorem SinkFailed.sinkError (h : SinkFailed todo m o) : o.SinkError m := by
  obtain ⟨todo', m', byte, count, fault, hleads, hhalt, hrequest, hfault⟩ := h
  obtain ⟨earlier, hearlier, hunfailed⟩ := hleads.reads_unfailed
  obtain ⟨calls, htrace, hexchange⟩ := m'.exchange_step todo'
  have herror : o.error? = some (.stream fault) := by
    have hfault' := hfault
    rw [← hrequest] at hfault'
    obtain ⟨o', hhalt', herror⟩ := step_of_fault hfault'
    rw [hhalt] at hhalt'
    cases hhalt'
    exact herror
  rw [hhalt] at htrace
  rw [hrequest, hfault] at hexchange
  refine ⟨fault, calls ++ earlier, herror, ?_, ?_, ?_⟩
  · rw [List.append_assoc, ← hearlier]
    exact htrace
  · obtain ⟨call, hcall, hsink⟩ := hexchange.sink_failed
    exact ⟨call, List.mem_append_left _ hcall, hsink⟩
  · intro call hcall
    rcases List.mem_append.mp hcall with hmem | hmem
    · exact hexchange.reads_unfailed (by simp) call hmem
    · exact hunfailed call hmem

end Machine

/-! ## Whole runs -/

/-- The last flush does not take the blame from the sink. -/
theorem Outcome.SinkError.settle {m : Machine} {o : Outcome} (h : o.SinkError m) :
    (Machine.settle o).SinkError m := by
  obtain ⟨fault, calls, herror, htrace, ⟨call, hcall, hsink⟩, hreads⟩ := h
  obtain ⟨reply, _, hlast⟩ := Machine.settle_calls o
  refine ⟨fault, .flush reply :: calls, ?_, ?_, ⟨call, List.mem_cons_of_mem _ hcall, hsink⟩, ?_⟩
  · simp only [Machine.settle, herror]
    rfl
  · rw [hlast, htrace, List.cons_append]
  · intro call' hcall'
    rcases List.mem_cons.mp hcall' with rfl | hmem
    · intro hread
      cases hread
    · exact hreads call' hmem

/-- If the last flush gives the error, it is the sink's. -/
theorem Machine.sinkError_of_flush {steps : Nat} {program : Program} {m : Machine} {o : Outcome}
    {fault : Fault} (h : execute steps program m = some o) (hnone : o.error? = none)
    (hfault : o.machine.streams.flush.1 = some fault) : (settle o).SinkError m := by
  obtain ⟨todo, m', hleads, hhalt⟩ := leadsTo_of_execute h
  obtain ⟨calls, htrace, hreads⟩ := hleads.reads_unfailed
  obtain ⟨reply, hreply, hlast⟩ := settle_calls o
  obtain ⟨_, rfl⟩ := halt_of_no_error hhalt hnone
  refine ⟨fault, .flush reply :: calls, ?_, ?_, ⟨.flush reply, List.mem_cons_self, rfl, ?_⟩, ?_⟩
  · simp only [settle, hfault]
    rfl
  · rw [List.cons_append, ← htrace]
    exact hlast
  · exact hreply.symm.trans hfault
  · intro call hcall
    rcases List.mem_cons.mp hcall with rfl | hmem
    · intro hread
      cases hread
    · exact hreads call hmem

theorem Machine.output_settle (o : Outcome) :
    (settle o).machine.streams.output = o.machine.streams.output := by
  obtain ⟨reply, _, hlast⟩ := settle_calls o
  have hcalls : (settle o).machine.streams.trace = [.flush reply] ++ o.machine.streams.trace := by
    rw [hlast, List.singleton_append]
  rw [Streams.output_append hcalls]
  exact List.append_nil _

theorem Machine.consumed_settle (o : Outcome) :
    (settle o).machine.streams.consumed = o.machine.streams.consumed := by
  obtain ⟨reply, _, hlast⟩ := settle_calls o
  have hcalls : (settle o).machine.streams.trace = [.flush reply] ++ o.machine.streams.trace := by
    rw [hlast, List.singleton_append]
  rw [Streams.consumed_append hcalls]
  exact Nat.zero_add _

/-- A faulty sink only cuts a run short. If a run halts with a sink that never fails, it halts with
every other sink, and what that sink has taken is a part of the output, from its start. If the
result is no error of the sink, then result, pointer, tape, output and number of bytes read are the
same. -/
theorem run_faulty_sink (program : Program) (m : Machine) (hm : m.streams.Reliable) (o : Outcome)
    (h : Machine.RunsTo program m o) (writes : List WriteReply) (flushes : List FlushReply) :
    ∃ o', Machine.RunsTo program (m.withSink writes flushes) o' ∧
      o'.machine.streams.output <+: o.machine.streams.output ∧
      (¬ o'.SinkError m →
        o'.error? = o.error? ∧
        o'.machine.pointer = o.machine.pointer ∧
        o'.machine.tape = o.machine.tape ∧
        o'.machine.streams.output = o.machine.streams.output ∧
        o'.machine.streams.consumed = o.machine.streams.consumed) := by
  obtain ⟨steps, hrun⟩ := h
  obtain ⟨e, he, rfl⟩ := Option.map_eq_some_iff.mp hrun
  have hsame : Streams.SameBytes m.streams { m.streams with writes, flushes } := ⟨rfl, rfl, rfl⟩
  obtain ⟨e', he', hcase⟩ := Machine.execute_faulty hm hsame he
  have hrun' : Machine.RunsTo program (m.withSink writes flushes) (Machine.settle e') :=
    ⟨steps, Option.map_eq_some_iff.mpr ⟨e', he', rfl⟩⟩
  refine ⟨Machine.settle e', hrun', ?_⟩
  simp only [Machine.output_settle, Machine.consumed_settle]
  rcases hcase with ⟨t, rfl, hreliable, hbytes⟩ | ⟨hfailed, hcut⟩
  · -- both executions are the same: the last flush decides
    refine ⟨?_, ?_⟩
    · show t.output <+: _
      simp only [hbytes.output_eq, List.prefix_rfl]
    · intro hblame
      refine ⟨?_, rfl, rfl, hbytes.output_eq, hbytes.consumed_eq⟩
      have hnone := hreliable.flush.1
      cases herror : e.error? with
      | some error => simp only [Machine.settle, Outcome.withStreams, herror]; rfl
      | none =>
        have hnone' : t.flush.1 = none := by
          cases hfault : t.flush.1 with
          | none => rfl
          | some fault => exact absurd (Machine.sinkError_of_flush he' herror hfault) hblame
        simp only [Machine.settle, Outcome.withStreams, Machine.withStreams, herror, hnone, hnone']
  · refine ⟨hcut, ?_⟩
    intro hblame
    exact absurd hfailed.sinkError.settle hblame

/-- Two bytes are written and then a move leads off the tape. A sink that is interrupted at first
and fails at the last flush does not hide that error. -/
theorem run_faulty_sink_masked :
    ∃ o', Machine.RunsTo [.act .output 2, .act .move (-1)]
        (.fresh (.zeros 1 .bits8) .fail
          ⟨[], [.fault .interruption], [.done, .fault ⟨.brokenPipe, "closed"⟩], []⟩) o' ∧
      o'.error? = some (.offTape 0 (-1)) ∧ o'.machine.streams.output = [0, 0] := by
  have hrun : Machine.RunsTo [.act .output 2, .act .move (-1)]
      (.fresh (.zeros 1 .bits8) .fail ⟨[], [], [], []⟩)
      ⟨some (.offTape 0 (-1)), ⟨⟨#[0], .bits8⟩, 0, .fail, ⟨[], [], [],
        [.flush .done, .flush .done, .write 0 .accepted, .write 0 .accepted]⟩, []⟩⟩ := ⟨2, rfl⟩
  have hfaulty : Machine.RunsTo [.act .output 2, .act .move (-1)]
      (.fresh (.zeros 1 .bits8) .fail
        ⟨[], [.fault .interruption], [.done, .fault ⟨.brokenPipe, "closed"⟩], []⟩)
      ⟨some (.offTape 0 (-1)), ⟨⟨#[0], .bits8⟩, 0, .fail, ⟨[], [], [],
        [.flush (.fault ⟨.brokenPipe, "closed"⟩), .flush .done, .write 0 .accepted,
          .write 0 .accepted, .write 0 (.fault .interruption)]⟩, []⟩⟩ := ⟨2, rfl⟩
  have hreliable : Streams.Reliable ⟨[], [], [], []⟩ := ⟨by simp, by simp⟩
  obtain ⟨o', hrun', _, hsame⟩ := run_faulty_sink _ _ hreliable _ hrun
    [.fault .interruption] [.done, .fault ⟨.brokenPipe, "closed"⟩]
  have ho' := hrun'.unique hfaulty
  have hblame : ¬ o'.SinkError (.fresh (.zeros 1 .bits8) .fail ⟨[], [], [], []⟩) := by
    rintro ⟨fault, _, herror, _⟩
    rw [ho'] at herror
    cases herror
  obtain ⟨herror, _, _, houtput, _⟩ := hsame hblame
  exact ⟨o', hrun', herror, houtput⟩

end TapeMachine
