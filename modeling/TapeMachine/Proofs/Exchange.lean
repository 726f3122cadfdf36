import TapeMachine.Proofs.Streams

/-! # What a step asks of the streams

A node asks at most one thing of the streams: to read a byte, or to write a byte some number of
times and flush. All that a machine sees of its streams is the answer.

* `Machine.request` is what the next node asks for, and `Streams.answer` makes the calls.
* `Exchange request answer calls` says what these calls are: an interrupted one is made again, and
  the first one that fails is the last (`exchange_answer`).
* `step_withStreams`: on other streams that give the same answer, a step does the same.
* `step_of_fault` and `halt_of_no_error`: a fault stops the machine, and without an error it stops
  at the end of the program only.
* `exchange_step` and `settle_calls`: the calls of a step and those of the end of a run.
-/

namespace TapeMachine

/-! ## Attempts -/

/-- One call, made again as long as it is interrupted: the reply that counts, the replies left, and
the interruptions before, newest first. -/
structure Attempt (α : Type) where
  reply : α
  left : List α
  tries : List α

/-- The attempt that a script answers; past its end every call gets the reply `default`. -/
def Attempt.ofScript {α : Type} (again : α → Bool) (default : α) (script : List α) : Attempt α where
  reply := (script.dropWhile again).headD default
  left := (script.dropWhile again).tail
  tries := (script.takeWhile again).reverse

/-- The records of the calls of an attempt, newest first. -/
def Attempt.calls {α : Type} (record : α → Call) (a : Attempt α) : List Call :=
  record a.reply :: a.tries.map record

/-- Reading one byte. -/
def readAttempt (reads : List ReadReply) : Attempt ReadReply :=
  .ofScript ReadReply.isInterruption .endOfInput reads

/-- Writing one byte. -/
def writeAttempt (writes : List WriteReply) : Attempt WriteReply :=
  .ofScript WriteReply.isInterruption .accepted writes

namespace Attempt

variable {α : Type} {again : α → Bool} {default : α} {script : List α}

/-- An interruption is one more try. -/
theorem ofScript_cons_again {reply : α} (h : again reply = true) :
    ofScript again default (reply :: script) =
      { ofScript again default script with
        tries := (ofScript again default script).tries ++ [reply] } := by
  simp [ofScript, h]

/-- Any other reply ends the attempt. -/
theorem ofScript_cons_not_again {reply : α} (h : again reply = false) :
    ofScript again default (reply :: script) = ⟨reply, script, []⟩ := by
  simp [ofScript, h]

theorem again_of_mem_tries {reply : α} (h : reply ∈ (ofScript again default script).tries) :
    again reply = true := by
  have hall := List.all_eq_true.mp (List.all_takeWhile (p := again) (l := script))
  exact hall reply (List.mem_reverse.mp h)

theorem not_again_reply (h : again default = false) :
    again (ofScript again default script).reply = false := by
  have hhead := List.head?_dropWhile_not again script
  simp only [ofScript, List.headD_eq_head?_getD]
  cases hrest : (script.dropWhile again).head? with
  | none => exact h
  | some reply =>
    rw [hrest] at hhead
    exact hhead

end Attempt

theorem readCalls_eq_attempt (reads : List ReadReply) (trace : List Call) :
    readCalls reads trace =
      ((readAttempt reads).reply, (readAttempt reads).left,
        (readAttempt reads).calls .read ++ trace) := by
  induction reads generalizing trace with
  | nil => rfl
  | cons reply rest ih =>
    unfold readCalls readAttempt
    cases h : reply.isInterruption with
    | true =>
      rw [if_pos rfl, ih, Attempt.ofScript_cons_again h]
      simp only [Attempt.calls, List.map_append, List.cons_append, List.append_assoc]
      rfl
    | false =>
      rw [if_neg Bool.false_ne_true, Attempt.ofScript_cons_not_again h]
      rfl

theorem writeCalls_eq_attempt (byte : UInt8) (writes : List WriteReply) (trace : List Call) :
    writeCalls byte writes trace =
      ((writeAttempt writes).reply, (writeAttempt writes).left,
        (writeAttempt writes).calls (.write byte) ++ trace) := by
  induction writes generalizing trace with
  | nil => rfl
  | cons reply rest ih =>
    unfold writeCalls writeAttempt
    cases h : reply.isInterruption with
    | true =>
      rw [if_pos rfl, ih, Attempt.ofScript_cons_again h]
      simp only [Attempt.calls, List.map_append, List.cons_append, List.append_assoc]
      rfl
    | false =>
      rw [if_neg Bool.false_ne_true, Attempt.ofScript_cons_not_again h]
      rfl

/-! ## Requests and answers -/

/-- What a node asks of the streams. -/
inductive Request where
  | nothing
  /-- Write a byte `count` times, then flush. -/
  | emit (byte : UInt8) (count : Nat)
  /-- Read one byte. -/
  | receive
deriving DecidableEq, Repr

/-- What the streams answer. -/
inductive Answer where
  | done
  | byte (value : UInt8)
  | endOfInput
  | fault (fault : Fault)
deriving DecidableEq, Repr

namespace Answer

/-- The answer of a sink that failed, or did not. -/
def ofFault? : Option Fault → Answer
  | none => .done
  | some f => .fault f

/-- The answer of the input. -/
def ofRead : ReadReply → Answer
  | .byte value => .byte value
  | .endOfInput => .endOfInput
  | .fault f => .fault f

/-- The error that an answer stops the machine with. -/
def error? : Answer → Option RuntimeError
  | .fault f => some (.stream f)
  | _ => none

theorem ofRead_injective {reply reply' : ReadReply} (h : ofRead reply = ofRead reply') :
    reply = reply' := by
  cases reply <;> cases reply' <;> simp_all [ofRead]

theorem error?_ofFault? (fault? : Option Fault) :
    (ofFault? fault?).error? = fault?.map .stream := by
  cases fault? with
  | none => rfl
  | some f => rfl

end Answer

/-- Writes one byte `count` times and flushes, up to the first failure. -/
def Streams.emit (s : Streams) (byte : UInt8) (count : Nat) : Option Fault × Streams :=
  match s.writeMany byte count with
  | (some fault, s) => (some fault, s)
  | (none, s) => s.flush

/-- Makes the calls for a request. -/
def Streams.answer (s : Streams) : Request → Answer × Streams
  | .nothing => (.done, s)
  | .emit byte count => (.ofFault? (s.emit byte count).1, (s.emit byte count).2)
  | .receive => (.ofRead s.read.1, s.read.2)

/-- What the first of the nodes asks for. -/
def Machine.request (m : Machine) : Program → Request
  | .act .output count :: _ => .emit (UInt8.ofNat (m.tape.cell m.pointer)) count.toNat
  | .act .input _ :: _ => .receive
  | _ => .nothing

/-! ## The calls of a request -/

/-- Replies to writes that put `count` bytes into the sink: all are accepted or interrupted. -/
structure Took (count : Nat) (replies : List WriteReply) : Prop where
  each : ∀ reply ∈ replies, reply = .accepted ∨ reply.isInterruption = true
  count_eq : replies.count .accepted = count

namespace Took

variable {count count' : Nat} {replies replies' : List WriteReply}

theorem append (h : Took count replies) (h' : Took count' replies') :
    Took (count + count') (replies ++ replies') := by
  constructor
  · intro reply hreply
    rcases List.mem_append.mp hreply with hmem | hmem
    · exact h.each reply hmem
    · exact h'.each reply hmem
  · rw [List.count_append, h.count_eq, h'.count_eq]

/-- Interruptions put no byte into the sink. -/
theorem of_interrupted (h : ∀ reply ∈ replies, reply.isInterruption = true) : Took 0 replies := by
  constructor
  · intro reply hreply
    exact Or.inr (h reply hreply)
  · rw [List.count_eq_zero]
    intro hmem
    have habsurd := h _ hmem
    cases habsurd

theorem accepted : Took 1 [.accepted] :=
  ⟨by simp, rfl⟩

/-- The calls put the byte into the sink `count` times. -/
theorem written (h : Took count replies) (byte : UInt8) :
    (replies.map (Call.write byte)).filterMap Call.written? = List.replicate count byte := by
  induction replies generalizing count with
  | nil =>
    have hcount := h.count_eq
    rw [List.count_nil] at hcount
    simp [← hcount]
  | cons reply replies ih =>
    have hrest : Took (replies.count .accepted) replies :=
      ⟨fun r hr => h.each r (List.mem_cons_of_mem _ hr), rfl⟩
    have hcount := h.count_eq
    rcases h.each reply List.mem_cons_self with rfl | hinterrupted
    · rw [List.count_cons_self] at hcount
      simp [Call.written?, ih hrest, ← hcount, List.replicate_succ]
    · -- an interrupted write leaves a record and no byte
      cases reply with
      | accepted => cases hinterrupted
      | stalled => cases hinterrupted
      | fault fault =>
        rw [List.count_cons_of_ne (by simp)] at hcount
        rw [hcount] at hrest
        exact ih hrest

end Took

/-- The calls, newest first, by which a request gets its answer. -/
inductive Exchange : Request → Answer → List Call → Prop where
  | nothing : Exchange .nothing .done []
  | received {reply : ReadReply} {tries : List ReadReply} :
      (∀ r ∈ tries, r.isInterruption = true) → reply.isInterruption = false →
      Exchange .receive (.ofRead reply) (.read reply :: tries.map .read)
  /-- A write failed before all bytes were in the sink. -/
  | broken {byte : UInt8} {count taken : Nat} {reply : WriteReply} {fault : Fault}
      {replies : List WriteReply} :
      Took taken replies → taken < count → reply.isInterruption = false →
      reply.fault? = some fault →
      Exchange (.emit byte count) (.fault fault) (.write byte reply :: replies.map (.write byte))
  /-- All bytes are in the sink: the flush decides. -/
  | flushed {byte : UInt8} {count : Nat} {replies : List WriteReply} (reply : FlushReply) :
      Took count replies →
      Exchange (.emit byte count) (.ofFault? reply.fault?)
        (.flush reply :: replies.map (.write byte))

/-- A request to write reads nothing. It puts the byte into the sink as often as asked, or it
fails. -/
theorem Exchange.emitted {byte : UInt8} {count : Nat} {answer : Answer} {calls : List Call}
    (h : Exchange (.emit byte count) answer calls) :
    ∃ taken, calls.filterMap Call.written? = List.replicate taken byte ∧
      calls.filterMap Call.taken? = [] ∧ taken ≤ count ∧
      (answer = .done ∧ taken = count ∨ ∃ fault, answer = .fault fault) := by
  have hnone : ∀ replies : List WriteReply,
      (replies.map (Call.write byte)).filterMap Call.taken? = [] := by
    intro replies
    simp [List.filterMap_eq_nil_iff, Call.taken?]
  cases h with
  | @broken _ _ taken reply fault replies htook hlt _ hfault =>
    refine ⟨taken, ?_, hnone replies, by omega, Or.inr ⟨fault, rfl⟩⟩
    have hlast : (Call.write byte reply).written? = none := by
      cases reply with
      | accepted => cases hfault
      | stalled => rfl
      | fault fault => rfl
    rw [List.filterMap_cons, hlast]
    exact htook.written byte
  | @flushed _ _ replies reply htook =>
    refine ⟨count, htook.written byte, hnone replies, Nat.le_refl count, ?_⟩
    cases reply with
    | done => exact Or.inl ⟨rfl, rfl⟩
    | fault fault => exact Or.inr ⟨fault, rfl⟩

namespace Streams

/-- A write makes one attempt. -/
theorem write_eq_attempt (s : Streams) (byte : UInt8) :
    s.write byte =
      ((writeAttempt s.writes).reply.fault?,
        { s with
          writes := (writeAttempt s.writes).left
          trace := (writeAttempt s.writes).calls (.write byte) ++ s.trace }) := by
  simp only [write, writeCalls_eq_attempt]

/-- A read makes one attempt. -/
theorem read_eq_attempt (s : Streams) :
    s.read =
      ((readAttempt s.reads).reply,
        { s with
          reads := (readAttempt s.reads).left
          trace := (readAttempt s.reads).calls .read ++ s.trace }) := by
  simp only [read, readCalls_eq_attempt]

/-- The write calls up to the first failure. -/
theorem writeMany_calls (s : Streams) (byte : UInt8) (count : Nat) :
    (∃ replies, (s.writeMany byte count).1 = none ∧ Took count replies ∧
      (s.writeMany byte count).2.trace = replies.map (.write byte) ++ s.trace) ∨
    (∃ fault taken reply replies, (s.writeMany byte count).1 = some fault ∧
      Took taken replies ∧ taken < count ∧ reply.isInterruption = false ∧
      reply.fault? = some fault ∧
      (s.writeMany byte count).2.trace =
        .write byte reply :: (replies.map (.write byte) ++ s.trace)) := by
  induction count generalizing s with
  | zero => exact Or.inl ⟨[], rfl, ⟨by simp, rfl⟩, rfl⟩
  | succ count ih =>
    have htries : Took 0 (writeAttempt s.writes).tries :=
      .of_interrupted fun r hr => Attempt.again_of_mem_tries hr
    have hreply : (writeAttempt s.writes).reply.isInterruption = false :=
      Attempt.not_again_reply rfl
    unfold writeMany
    rw [write_eq_attempt]
    generalize writeAttempt s.writes = a at *
    cases hfault : a.reply.fault? with
    | some fault =>
      refine Or.inr ⟨fault, 0, a.reply, a.tries, ?_⟩
      exact ⟨rfl, htries, Nat.succ_pos count, hreply, hfault, rfl⟩
    | none =>
      -- the byte is in the sink: the other bytes come on top
      have haccepted : a.reply = .accepted := by
        cases hcase : a.reply with
        | accepted => rfl
        | stalled => rw [hcase] at hfault; cases hfault
        | fault fault => rw [hcase] at hfault; cases hfault
      have hfirst : Took 1 (.accepted :: a.tries) := Took.accepted.append htries
      generalize hs : ({ s with writes := _, trace := _ } : Streams) = s₁
      have htrace : s₁.trace = (.accepted :: a.tries).map (.write byte) ++ s.trace := by
        rw [← hs, ← haccepted]
        rfl
      rcases ih s₁ with ⟨replies, hnone, htook, hcalls⟩ |
        ⟨fault, taken, reply, replies, hsome, htook, hlt, hlast, hreply', hcalls⟩
      · refine Or.inl ⟨replies ++ .accepted :: a.tries, hnone, htook.append hfirst, ?_⟩
        rw [hcalls, htrace, List.map_append, List.append_assoc]
      · refine Or.inr ⟨fault, taken + 1, reply, replies ++ .accepted :: a.tries, ?_⟩
        refine ⟨hsome, htook.append hfirst, by omega, hlast, hreply', ?_⟩
        rw [hcalls, htrace, List.map_append, List.append_assoc]

/-- The output of further calls comes behind the output so far. -/
theorem output_append {s t : Streams} {calls : List Call} (h : t.trace = calls ++ s.trace) :
    t.output = s.output ++ (calls.filterMap Call.written?).reverse := by
  simp only [output, h, List.filterMap_append, List.reverse_append]

/-- The bytes that further calls take are added to those taken so far. -/
theorem consumed_append {s t : Streams} {calls : List Call} (h : t.trace = calls ++ s.trace) :
    t.consumed = (calls.filterMap Call.taken?).length + s.consumed := by
  simp only [consumed, h, List.filterMap_append, List.length_append]

/-- A flush makes one call, whatever the reply. -/
theorem flush_eq_head (s : Streams) :
    s.flush =
      ((s.flushes.headD .done).fault?,
        { s with
          flushes := s.flushes.tail
          trace := .flush (s.flushes.headD .done) :: s.trace }) := by
  rcases s with ⟨reads, writes, flushes, trace⟩
  cases flushes with
  | nil => rfl
  | cons reply rest => rfl

theorem flush_calls (s : Streams) :
    ∃ reply : FlushReply, s.flush.1 = reply.fault? ∧ s.flush.2.trace = .flush reply :: s.trace := by
  rw [flush_eq_head]
  exact ⟨s.flushes.headD .done, rfl, rfl⟩

/-- Every answer comes from the calls of an exchange. -/
theorem exchange_answer (s : Streams) (request : Request) :
    ∃ calls, (s.answer request).2.trace = calls ++ s.trace ∧
      Exchange request (s.answer request).1 calls := by
  cases request with
  | nothing => exact ⟨[], rfl, .nothing⟩
  | receive =>
    have htries : ∀ r ∈ (readAttempt s.reads).tries, r.isInterruption = true :=
      fun r hr => Attempt.again_of_mem_tries hr
    have hreply : (readAttempt s.reads).reply.isInterruption = false :=
      Attempt.not_again_reply rfl
    simp only [answer, read_eq_attempt]
    exact ⟨_, rfl, .received htries hreply⟩
  | emit byte count =>
    have hcalls := s.writeMany_calls byte count
    show ∃ calls, (s.emit byte count).2.trace = calls ++ s.trace ∧
      Exchange (.emit byte count) (.ofFault? (s.emit byte count).1) calls
    unfold emit
    generalize s.writeMany byte count = r at *
    rcases r with ⟨fault?, s₁⟩
    rcases hcalls with ⟨replies, hnone, htook, htrace⟩ |
      ⟨fault, taken, reply, replies, hsome, htook, hlt, hlast, hreply, htrace⟩
    · have hnone' : fault? = none := hnone
      subst hnone'
      rcases s₁.flush_calls with ⟨reply, hfault, hflush⟩
      refine ⟨.flush reply :: replies.map (.write byte), ?_, ?_⟩
      · have htrace' : s₁.trace = replies.map (.write byte) ++ s.trace := htrace
        simp only [hflush, htrace', List.cons_append]
      · simp only [hfault]
        exact .flushed reply htook
    · have hsome' : fault? = some fault := hsome
      subst hsome'
      exact ⟨_, htrace, .broken htook hlt hlast hreply⟩

end Streams

/-! ## Steps and their answers -/

/-- The machine on other streams. -/
def Machine.withStreams (m : Machine) (s : Streams) : Machine := { m with streams := s }

/-- The outcome with other streams. -/
def Outcome.withStreams (o : Outcome) (s : Streams) : Outcome := ⟨o.error?, o.machine.withStreams s⟩

/-- The transition with other streams. -/
def Machine.Transition.withStreams (s : Streams) : Machine.Transition → Machine.Transition
  | .next todo m => .next todo (m.withStreams s)
  | .halt o => .halt (o.withStreams s)

namespace Machine

/-- Writing looks at the current cell and leaves the rest to the sink. -/
theorem write_eq_answer (m : Machine) (count : Int) :
    m.write count =
      ⟨(m.streams.answer (m.request [.act .output count])).1.error?,
        { m with
          tape := m.tape.growTo m.pointer
          streams := (m.streams.answer (m.request [.act .output count])).2 }⟩ := by
  simp only [request, Streams.answer, Answer.error?_ofFault?]
  unfold write Streams.emit
  simp only [Tape.get_fst, Tape.get_snd]
  generalize m.streams.writeMany _ _ = r
  rcases r with ⟨_ | fault, s⟩
  · rfl
  · rfl

/-- A step depends on its streams through their answer alone. -/
theorem step_withStreams (m : Machine) (s : Streams) (todo : Program)
    (h : (s.answer (m.request todo)).1 = (m.streams.answer (m.request todo)).1) :
    (m.withStreams s).step todo = (m.step todo).withStreams (s.answer (m.request todo)).2 := by
  cases todo with
  | nil => rfl
  | cons node rest =>
    cases node with
    | loop body =>
      rw [step_loop, step_loop]
      rfl
    | act action count =>
      rw [step_act, step_act]
      cases action with
      | add => rfl
      | move =>
        have hpointer : (m.withStreams s).pointer = m.pointer := rfl
        unfold perform move
        rw [hpointer]
        cases target? m.pointer count with
        | none => rfl
        | some target => rfl
      | output =>
        have hrequest : (m.withStreams s).request [.act .output count] =
          m.request (.act .output count :: rest) := rfl
        have hrequest' : m.request [.act .output count] =
          m.request (.act .output count :: rest) := rfl
        have hstreams : (m.withStreams s).streams = s := rfl
        simp only [perform, write_eq_answer, hrequest, hrequest', hstreams, h]
        cases (m.streams.answer (m.request (.act .output count :: rest))).1.error? with
        | none => rfl
        | some error => rfl
      | input =>
        have hreply : s.read.1 = m.streams.read.1 := Answer.ofRead_injective h
        show _ = Transition.withStreams s.read.2 _
        unfold perform read
        simp only [withStreams]
        generalize s.read = r at *
        generalize m.streams.read = r' at *
        rcases r with ⟨reply, s₁⟩
        rcases r' with ⟨reply', s₁'⟩
        cases hreply
        cases reply with
        | byte value => rfl
        | fault fault => rfl
        | endOfInput =>
          cases m.endPolicy with
          | fail => rfl
          | zero => rfl
          | keep => rfl

/-- A step leaves the streams as the answer left them. -/
theorem streams_step (m : Machine) (todo : Program) :
    (m.step todo).machine.streams = (m.streams.answer (m.request todo)).2 := by
  have hself : m.withStreams m.streams = m := rfl
  have hstep := m.step_withStreams m.streams todo rfl
  rw [hself] at hstep
  rw [hstep]
  cases m.step todo with
  | next todo' m' => rfl
  | halt o => rfl

/-- A machine stops without an error where no nodes are left. -/
theorem halt_of_no_error {m : Machine} {todo : Program} {o : Outcome} (h : m.step todo = .halt o)
    (hnone : o.error? = none) : todo = [] ∧ o = ⟨none, m⟩ := by
  cases todo with
  | nil =>
    cases h
    exact ⟨rfl, rfl⟩
  | cons node rest =>
    cases node with
    | loop body =>
      rw [step_loop] at h
      cases h
    | act action count =>
      rw [step_act] at h
      cases hperform : (m.perform action count).error? with
      | none =>
        rw [hperform] at h
        cases h
      | some error =>
        rw [hperform] at h
        cases h
        rw [hperform] at hnone
        cases hnone

/-- A fault stops the machine. -/
theorem step_of_fault {m : Machine} {todo : Program} {fault : Fault}
    (h : (m.streams.answer (m.request todo)).1 = .fault fault) :
    ∃ o, m.step todo = .halt o ∧ o.error? = some (.stream fault) := by
  cases todo with
  | nil => cases h
  | cons node rest =>
    cases node with
    | loop body => cases h
    | act action count =>
      rw [step_act]
      cases action with
      | move => cases h
      | add => cases h
      | output =>
        have hwrite : (m.write count).error? = some (.stream fault) := by
          have hrequest : m.request [.act .output count] =
            m.request (.act .output count :: rest) := rfl
          rw [write_eq_answer, hrequest, h]
          rfl
        exact ⟨m.write count, by simp only [perform, hwrite], hwrite⟩
      | input =>
        have hreply : m.streams.read.1 = .fault fault := Answer.ofRead_injective h
        have hread : m.read.error? = some (.stream fault) := by
          unfold read
          generalize m.streams.read = r at *
          rcases r with ⟨reply, s⟩
          cases hreply
          rfl
        exact ⟨m.read, by simp only [perform, hread], hread⟩

/-- The calls of a step are those by which its request gets an answer. -/
theorem exchange_step (m : Machine) (todo : Program) :
    ∃ calls, (m.step todo).machine.streams.trace = calls ++ m.streams.trace ∧
      Exchange (m.request todo) (m.streams.answer (m.request todo)).1 calls := by
  rw [streams_step]
  exact m.streams.exchange_answer (m.request todo)

/-- A step that goes on got an answer that is no fault. -/
theorem exchange_of_next {m m' : Machine} {todo todo' : Program}
    (h : m.step todo = .next todo' m') :
    ∃ answer calls, m'.streams.trace = calls ++ m.streams.trace ∧
      Exchange (m.request todo) answer calls ∧ ∀ fault, answer ≠ .fault fault := by
  obtain ⟨calls, htrace, hexchange⟩ := m.exchange_step todo
  rw [h] at htrace
  refine ⟨_, calls, htrace, hexchange, ?_⟩
  intro fault hfault
  obtain ⟨o, hhalt, _⟩ := step_of_fault hfault
  rw [h] at hhalt
  cases hhalt

/-- The flush at the end of a run is one call. -/
theorem settle_calls (o : Outcome) :
    ∃ reply : FlushReply, o.machine.streams.flush.1 = reply.fault? ∧
      (settle o).machine.streams.trace = .flush reply :: o.machine.streams.trace :=
  o.machine.streams.flush_calls

end Machine

end TapeMachine
