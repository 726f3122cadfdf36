import Mathlib.Algebra.Ring.Nat
import TapeMachine.Proofs.Exchange
import TapeMachine.Proofs.Session

/-! # Flushes

A byte that the sink has accepted may wait there until the next flush. A machine never reads while
a byte waits, so whoever answers the read has seen all that was written.

* `Settled`: no byte waits. `FlushedBeforeReads`: none ever waited when a read was made.
* `Streams.InOrder` is the invariant. Every node keeps it, except one whose write fails: it leaves a
  byte waiting and stops the machine, and then the flush at the end of the run repairs it.
* `Session.RunStep`: sessions in which every call is a `run`. They keep the invariant
  (`runReaches_inOrder`).
* `Delivers`: a flush for each output node executed, and as many bytes as their counts ask for.
* `flush_discipline` puts this together.
-/

namespace TapeMachine

/-! ## Model -/

/-- No byte waits in the sink: in the trace, newest first, each accepted byte has a flush in front
of it. -/
def Settled (trace : List Call) : Prop :=
  ∀ newer byte older, trace = newer ++ .write byte .accepted :: older →
    ∃ reply, .flush reply ∈ newer

/-- Whenever a read was made, no byte was waiting in the sink. -/
def FlushedBeforeReads (trace : List Call) : Prop :=
  ∀ newer reply older, trace = newer ++ .read reply :: older → Settled older

/-- No byte waits, and none did at a read. -/
structure Streams.InOrder (s : Streams) : Prop where
  settled : Settled s.trace
  flushed : FlushedBeforeReads s.trace

/-- One step of a session in which every call is a `run`. -/
structure Session.RunStep (s s' : Session) : Prop where
  step : Session.Step s s'
  run_before : ∀ todo, s.phase ≠ .busy .execute todo
  run_after : ∀ todo, s'.phase ≠ .busy .execute todo

/-- Any number of steps of a session in which every call is a `run`. -/
abbrev Session.RunReaches : Session → Session → Prop := Relation.ReflTransGen Session.RunStep

/-- The count of an output node. -/
def Node.output? : Node → Option Int
  | .act .output count => some count
  | _ => none

/-- The nodes that are executed, in order, in at most `steps` steps. -/
def Machine.executed (steps : Nat) (todo : Program) (m : Machine) : List Node :=
  match steps with
  | 0 => []
  | steps + 1 =>
    match m.step todo with
    | .next todo' m' => todo.head?.toList ++ executed steps todo' m'
    | .halt _ => todo.head?.toList

/-- The counts of the output nodes that are executed, in order. -/
def Machine.outputCounts (steps : Nat) (todo : Program) (m : Machine) : List Int :=
  (executed steps todo m).filterMap Node.output?

/-- The calls flush once for each count, and put as many bytes into the sink as the positive ones
add up to. -/
structure Delivers (counts : List Int) (calls : List Call) : Prop where
  flushes : calls.countP Call.isFlush = counts.length
  bytes : (calls.filterMap Call.written?).length = (counts.map Int.toNat).sum

/-! ## Bytes that wait -/

section

variable {call : Call} {calls trace : List Call}

theorem settled_nil : Settled [] := by
  intro newer byte older h
  have habsurd := congrArg List.length h
  simp at habsurd

/-- After a flush no byte waits. -/
theorem settled_flush (reply : FlushReply) (trace : List Call) :
    Settled (.flush reply :: trace) := by
  intro newer byte older h
  rcases List.cons_eq_append_iff.mp h with ⟨_, hhead⟩ | ⟨newer', rfl, _⟩
  · cases hhead
  · exact ⟨reply, List.mem_cons_self⟩

/-- A call that puts no byte into the sink makes none wait. -/
theorem Settled.cons (h : Settled trace) (hcall : call.written? = none) :
    Settled (call :: trace) := by
  intro newer byte older heq
  rcases List.cons_eq_append_iff.mp heq with ⟨_, hhead⟩ | ⟨newer', rfl, htrace⟩
  · cases hhead
    cases hcall
  · obtain ⟨reply, hreply⟩ := h newer' byte older htrace
    exact ⟨reply, List.mem_cons_of_mem call hreply⟩

theorem Settled.append (h : Settled trace) (hcalls : ∀ call ∈ calls, call.written? = none) :
    Settled (calls ++ trace) := by
  induction calls with
  | nil => exact h
  | cons call calls ih =>
    have hrest := ih fun call' hmem => hcalls call' (List.mem_cons_of_mem call hmem)
    exact hrest.cons (hcalls call List.mem_cons_self)

theorem flushedBeforeReads_nil : FlushedBeforeReads [] := by
  intro newer reply older h
  have habsurd := congrArg List.length h
  simp at habsurd

/-- Only a read needs the sink to be settled. -/
theorem FlushedBeforeReads.cons (h : FlushedBeforeReads trace)
    (hcall : call.isRead = true → Settled trace) : FlushedBeforeReads (call :: trace) := by
  intro newer reply older heq
  rcases List.cons_eq_append_iff.mp heq with ⟨_, hhead⟩ | ⟨newer', rfl, htrace⟩
  · cases hhead
    exact hcall rfl
  · exact h newer' reply older htrace

/-- Calls that read nothing may be added at any time. -/
theorem FlushedBeforeReads.append_of_unread (h : FlushedBeforeReads trace)
    (hcalls : ∀ call ∈ calls, call.isRead = false) : FlushedBeforeReads (calls ++ trace) := by
  induction calls with
  | nil => exact h
  | cons call calls ih =>
    have hrest := ih fun call' hmem => hcalls call' (List.mem_cons_of_mem call hmem)
    refine hrest.cons fun hread => ?_
    rw [hcalls call List.mem_cons_self] at hread
    cases hread

/-- Calls that write nothing may be added while no byte waits. -/
theorem FlushedBeforeReads.append_of_unwritten (h : FlushedBeforeReads trace)
    (hsettled : Settled trace) (hcalls : ∀ call ∈ calls, call.written? = none) :
    FlushedBeforeReads (calls ++ trace) := by
  induction calls with
  | nil => exact h
  | cons call calls ih =>
    have hcalls' : ∀ call' ∈ calls, call'.written? = none :=
      fun call' hmem => hcalls call' (List.mem_cons_of_mem call hmem)
    exact (ih hcalls').cons fun _ => hsettled.append hcalls'

end

/-! ## What one node does -/

/-- The calls of a request never read while a byte waits, and leave one waiting only if they
fail. -/
theorem Exchange.inOrder {request : Request} {answer : Answer} {calls trace : List Call}
    (h : Exchange request answer calls) (hsettled : Settled trace)
    (hflushed : FlushedBeforeReads trace) :
    FlushedBeforeReads (calls ++ trace) ∧
      (Settled (calls ++ trace) ∨ ∃ fault, answer = .fault fault) := by
  have hunread : ∀ (byte : UInt8) (replies : List WriteReply),
      ∀ call ∈ replies.map (Call.write byte), call.isRead = false := by
    intro byte replies call hcall
    obtain ⟨reply, _, rfl⟩ := List.mem_map.mp hcall
    rfl
  cases h with
  | nothing => exact ⟨hflushed, Or.inl hsettled⟩
  | @received reply tries _ _ =>
    have hunwritten : ∀ call ∈ Call.read reply :: tries.map .read, call.written? = none := by
      intro call hcall
      rw [← List.map_cons] at hcall
      obtain ⟨_, _, rfl⟩ := List.mem_map.mp hcall
      rfl
    exact ⟨hflushed.append_of_unwritten hsettled hunwritten,
      Or.inl (hsettled.append hunwritten)⟩
  | @broken byte _ _ reply fault replies _ _ _ _ =>
    refine ⟨?_, Or.inr ⟨fault, rfl⟩⟩
    exact hflushed.append_of_unread (hunread byte (reply :: replies))
  | @flushed byte _ replies reply _ =>
    have hwrites := hflushed.append_of_unread (hunread byte replies)
    refine ⟨hwrites.cons ?_, Or.inl (settled_flush reply _)⟩
    intro hread
    cases hread

namespace Delivers

variable {counts counts' : List Int} {calls calls' : List Call}

theorem append (h : Delivers counts calls) (h' : Delivers counts' calls') :
    Delivers (counts ++ counts') (calls' ++ calls) := by
  constructor
  · rw [List.countP_append, List.length_append, h.flushes, h'.flushes, Nat.add_comm]
  · rw [List.filterMap_append, List.length_append, List.map_append, List.sum_append, h.bytes,
      h'.bytes, Nat.add_comm]

/-- Reads leave the sink alone. -/
theorem reads (replies : List ReadReply) : Delivers [] (replies.map .read) := by
  constructor
  · rw [List.countP_map]
    exact List.countP_eq_zero.mpr fun _ _ => Bool.false_ne_true
  · have hnone : (replies.map Call.read).filterMap Call.written? = [] := by
      rw [List.filterMap_map]
      exact List.filterMap_eq_nil_iff.mpr fun _ _ => rfl
    rw [hnone]
    rfl

/-- The calls of an output node that did not fail. -/
theorem output {replies : List WriteReply} {count : Int} (h : Took count.toNat replies)
    (byte : UInt8) (reply : FlushReply) :
    Delivers [count] (.flush reply :: replies.map (.write byte)) := by
  have hwrites : (replies.map (Call.write byte)).countP Call.isFlush = 0 := by
    rw [List.countP_map]
    exact List.countP_eq_zero.mpr fun _ _ => Bool.false_ne_true
  have hwritten := h.written byte
  constructor
  · rw [List.countP_cons_of_pos rfl, hwrites]
    rfl
  · rw [List.filterMap_cons_none rfl, hwritten, List.length_replicate]
    simp

end Delivers

namespace Machine

variable {m m' : Machine} {todo todo' : Program}

/-- The calls for a node that did not fail deliver what the node asks for. -/
theorem delivers_of_exchange {answer : Answer} {calls : List Call}
    (h : Exchange (m.request todo) answer calls) (hanswer : ∀ fault, answer ≠ .fault fault) :
    Delivers (todo.head?.toList.filterMap Node.output?) calls := by
  have hnothing : ∀ {calls}, Exchange .nothing answer calls → Delivers [] calls := by
    intro calls hcalls
    cases hcalls
    exact .reads []
  cases todo with
  | nil => exact hnothing h
  | cons node rest =>
    cases node with
    | loop body => exact hnothing h
    | act action count =>
      cases action with
      | move => exact hnothing h
      | add => exact hnothing h
      | input =>
        cases h with
        | @received reply tries _ _ => exact .reads (reply :: tries)
      | output =>
        cases h with
        | broken _ _ _ _ => exact absurd rfl (hanswer _)
        | flushed reply htook => exact .output htook _ reply

/-- A node that did not fail keeps the streams in order. -/
theorem inOrder_next (h : m.step todo = .next todo' m') (hm : m.streams.InOrder) :
    m'.streams.InOrder := by
  obtain ⟨answer, calls, htrace, hexchange, hanswer⟩ := exchange_of_next h
  obtain ⟨hflushed, hcase⟩ := hexchange.inOrder hm.settled hm.flushed
  constructor
  · rw [htrace]
    rcases hcase with hsettled | ⟨fault, hfault⟩
    · exact hsettled
    · exact absurd hfault (hanswer fault)
  · rw [htrace]
    exact hflushed

/-- At the end of a run the streams are in order again, whatever stopped the machine. -/
theorem inOrder_settle {o : Outcome} (h : m.step todo = .halt o) (hm : m.streams.InOrder) :
    (settle o).machine.streams.InOrder := by
  obtain ⟨calls, htrace, hexchange⟩ := m.exchange_step todo
  rw [h] at htrace
  obtain ⟨hflushed, _⟩ := hexchange.inOrder hm.settled hm.flushed
  rw [← htrace] at hflushed
  obtain ⟨reply, _, hlast⟩ := settle_calls o
  constructor
  · rw [hlast]
    exact settled_flush reply _
  · rw [hlast]
    refine FlushedBeforeReads.cons hflushed ?_
    intro hread
    cases hread

/-! ## Whole calls -/

/-- An execution that ends without an error delivers what its output nodes ask for. -/
theorem delivers_execute {steps : Nat} {o : Outcome} (h : execute steps todo m = some o)
    (hnone : o.error? = none) :
    ∃ calls, o.machine.streams.trace = calls ++ m.streams.trace ∧
      Delivers (outputCounts steps todo m) calls := by
  induction steps generalizing todo m with
  | zero => cases h
  | succ steps ih =>
    unfold execute at h
    unfold outputCounts executed
    cases hstep : m.step todo with
    | next todo₁ m₁ =>
      rw [hstep] at h
      obtain ⟨answer, calls, htrace, hexchange, hanswer⟩ := exchange_of_next hstep
      obtain ⟨calls', htrace', hdelivers⟩ := ih h
      refine ⟨calls' ++ calls, ?_, ?_⟩
      · rw [htrace', htrace, List.append_assoc]
      · simp only [List.filterMap_append]
        exact (delivers_of_exchange hexchange hanswer).append hdelivers
    | halt o' =>
      rw [hstep] at h
      cases h
      obtain ⟨rfl, rfl⟩ := halt_of_no_error hstep hnone
      exact ⟨[], rfl, .reads []⟩

/-- The calls of a run: the last one is a flush, and without an error the ones before deliver what
the output nodes ask for. -/
theorem calls_of_run {steps : Nat} {program : Program} {o : Outcome}
    (h : run steps program m = some o) :
    ∃ reply calls, o.machine.streams.trace = .flush reply :: (calls ++ m.streams.trace) ∧
      (o.error? = none → Delivers (outputCounts steps program m) calls) := by
  obtain ⟨o', ho', rfl⟩ := Option.map_eq_some_iff.mp h
  obtain ⟨reply, _, hlast⟩ := settle_calls o'
  cases herror : o'.error? with
  | none =>
    obtain ⟨calls, htrace, hdelivers⟩ := delivers_execute ho' herror
    refine ⟨reply, calls, ?_, fun _ => hdelivers⟩
    rw [hlast, htrace]
  | some error =>
    obtain ⟨calls, htrace⟩ := extends_execute ho'
    refine ⟨reply, calls, ?_, ?_⟩
    · rw [hlast, htrace]
    · -- the last flush cannot hide the error
      intro hnone
      simp only [settle, herror] at hnone
      cases hnone

end Machine

/-! ## Whole sessions -/

namespace Session

/-- A step of a session of runs keeps the streams in order. -/
theorem RunStep.inOrder {s s' : Session} (h : RunStep s s') (hs : s.machine.streams.InOrder) :
    s'.machine.streams.InOrder := by
  obtain ⟨hstep, hrun, _⟩ := h
  cases hstep with
  | call m method program => exact hs
  | node hnext => exact Machine.inOrder_next hnext hs
  | @stop m method todo o hhalt =>
    cases method with
    | execute => exact absurd rfl (hrun todo)
    | run => exact Machine.inOrder_settle hhalt hs

theorem runReaches_inOrder {s s' : Session} (h : RunReaches s s') (hs : s.machine.streams.InOrder) :
    s'.machine.streams.InOrder := by
  induction h with
  | refl => exact hs
  | tail _ hstep ih => exact hstep.inOrder ih

theorem run_ne_execute (todo todo' : Program) :
    Phase.busy .run todo ≠ .busy .execute todo' := by
  simp

theorem idle_ne_execute (todo : Program) : Phase.idle ≠ .busy .execute todo := by
  simp

/-- The nodes of a run are executed in a session of runs. -/
theorem runReaches_of_execute {steps : Nat} {todo : Program} {m : Machine} {o : Outcome}
    (h : Machine.execute steps todo m = some o) :
    RunReaches ⟨.busy .run todo, m⟩ (idle (Machine.settle o).machine) := by
  induction steps generalizing todo m with
  | zero => cases h
  | succ steps ih =>
    unfold Machine.execute at h
    cases hstep : m.step todo with
    | next todo' m' =>
      rw [hstep] at h
      exact .head ⟨.node hstep, run_ne_execute todo, run_ne_execute todo'⟩ (ih h)
    | halt o' =>
      rw [hstep] at h
      cases h
      exact .single ⟨.stop hstep, run_ne_execute todo, idle_ne_execute⟩

/-- A run that halts is a part of a session of runs. -/
theorem runReaches_run {steps : Nat} {program : Program} {m : Machine} {o : Outcome}
    (h : Machine.run steps program m = some o) : RunReaches (idle m) (idle o.machine) := by
  obtain ⟨o', ho', rfl⟩ := Option.map_eq_some_iff.mp h
  have hcall : RunStep (idle m) ⟨.busy .run program, m⟩ :=
    ⟨.call m .run program, idle_ne_execute, run_ne_execute program⟩
  exact .head hcall (runReaches_of_execute ho')

end Session

/-- Whatever programs a machine is made to run, one after the other and on whatever input and sink:

* at every moment, between a byte that the sink has accepted and a read after it there is a flush;
* the last call of a run is a flush, also after an error;
* a run without an error flushes once for each output node executed, and once more, and the sink
  accepts as many bytes as the positive counts of these nodes add up to. -/
theorem flush_discipline (m : Machine) (hm : m.streams.trace = []) (s : Session)
    (h : Session.RunReaches (.idle m) s) :
    FlushedBeforeReads s.machine.streams.trace ∧
    (s.phase = .idle → ∀ steps program o, Machine.run steps program s.machine = some o →
      Session.RunReaches s (.idle o.machine) ∧
      ∃ calls, o.machine.streams.trace = calls ++ s.machine.streams.trace ∧
        (∃ reply, calls.head? = some (.flush reply)) ∧
        (o.error? = none →
          calls.countP Call.isFlush =
            (Machine.outputCounts steps program s.machine).length + 1 ∧
          (calls.filterMap Call.written?).length =
            ((Machine.outputCounts steps program s.machine).map Int.toNat).sum)) := by
  have hstart : m.streams.InOrder := by
    constructor
    · rw [hm]
      exact settled_nil
    · rw [hm]
      exact flushedBeforeReads_nil
  refine ⟨(Session.runReaches_inOrder h hstart).flushed, ?_⟩
  rcases s with ⟨phase, m'⟩
  rintro rfl steps program o hrun
  obtain ⟨reply, calls, htrace, hdelivers⟩ := Machine.calls_of_run hrun
  refine ⟨Session.runReaches_run hrun, .flush reply :: calls, htrace, ⟨reply, rfl⟩, ?_⟩
  intro hnone
  have hcalls := hdelivers hnone
  constructor
  · rw [List.countP_cons_of_pos rfl, hcalls.flushes]
  · rw [List.filterMap_cons_none rfl, hcalls.bytes]

/-- A byte is left waiting by a write that fails, and the next run begins with a read. -/
theorem flush_discipline_after_failure :
    ∃ o o' : Outcome,
      Machine.run 1 [.act .output 2]
        (.fresh (.zeros 0 .bits8) .fail ⟨[.byte 7], [.accepted, .stalled], [], []⟩) = some o ∧
      o.error? = some (.stream .stalled) ∧
      Machine.run 4 [.act .input 1, .act .output (-2), .act .output 1] o.machine = some o' ∧
      o'.error? = none ∧
      FlushedBeforeReads o'.machine.streams.trace ∧
      ∃ calls, o'.machine.streams.trace = calls ++ o.machine.streams.trace ∧
        calls.countP Call.isFlush = 3 ∧ (calls.filterMap Call.written?).length = 1 := by
  generalize hm : Machine.fresh (.zeros 0 .bits8) .fail
    ⟨[.byte 7], [.accepted, .stalled], [], []⟩ = m
  have htrace : m.streams.trace = [] := by
    rw [← hm]
    rfl
  have hfirst : ∃ o, Machine.run 1 [.act .output 2] m = some o ∧
      o.error? = some (.stream .stalled) ∧
      ∃ o', Machine.run 4 [.act .input 1, .act .output (-2), .act .output 1] o.machine = some o' ∧
        o'.error? = none ∧
        Machine.outputCounts 4 [.act .input 1, .act .output (-2), .act .output 1]
          (Session.idle o.machine).machine = [-2, 1] := by
    rw [← hm]
    exact ⟨_, rfl, rfl, _, rfl, rfl, rfl⟩
  obtain ⟨o, hrun, herror, o', hrun', hnone, hcounts⟩ := hfirst
  obtain ⟨_, hafter⟩ := flush_discipline m htrace (.idle o.machine) (Session.runReaches_run hrun)
  obtain ⟨hreaches, calls, hcalls, _, hdelivered⟩ := hafter rfl _ _ _ hrun'
  rw [hcounts] at hdelivered
  obtain ⟨hflushes, hbytes⟩ := hdelivered hnone
  have hreached := (Session.runReaches_run hrun).trans hreaches
  obtain ⟨hordered, _⟩ := flush_discipline m htrace (.idle o'.machine) hreached
  exact ⟨o, o', hrun, herror, hrun', hnone, hordered, calls, hcalls, hflushes, hbytes⟩

end TapeMachine
