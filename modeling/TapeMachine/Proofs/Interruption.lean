import TapeMachine.Proofs.Exchange

/-! # Interruptions

A read or a write that is interrupted is made again. So interruptions may be put into the scripts of
the input and of the sink at any places: they cost calls, and show in nothing else.

* `Entry`: an item of a script, marked as given or as an interruption put in. From the marked script
  both scripts are read off, the one without (`given`) and the one with (`spliced`).
* `ofScript_spliced`: an attempt on either script ends with the same reply.
* `Streams.Resumed`: what two such streams have in common. No call can tell them apart.
* `execute_twin`: machines that differ in such streams only do so to the end.
* `run_interrupted`: a run is the same, but for one call more for each interruption used up.
-/

namespace TapeMachine

/-! ## Scripts with interruptions put in -/

/-- An item of a script: a reply, or an interruption put in, with its text. -/
inductive Entry (α : Type) where
  | given (reply : α)
  | inserted (text : String)
deriving DecidableEq, Repr

namespace Entry

variable {α : Type}

/-- Whether the item was put in. -/
def isInserted : Entry α → Bool
  | .given _ => false
  | .inserted _ => true

/-- The reply, unless the item was put in. -/
def given? : Entry α → Option α
  | .given reply => some reply
  | .inserted _ => none

/-- The item as a reply. -/
def reply (fault : Fault → α) : Entry α → α
  | .given reply => reply
  | .inserted text => fault ⟨.interrupted, text⟩

end Entry

section

variable {α : Type}

/-- The script without the interruptions. -/
def given (entries : List (Entry α)) : List α := entries.filterMap Entry.given?

/-- The script with the interruptions. -/
def spliced (fault : Fault → α) (entries : List (Entry α)) : List α :=
  entries.map (Entry.reply fault)

/-- The number of interruptions put in. -/
def insertions (entries : List (Entry α)) : Nat := entries.countP Entry.isInserted

/-- The number of interruptions put in among the items used up, when `left` items are left. -/
def insertionsUsed (entries : List (Entry α)) (left : Nat) : Nat :=
  insertions (entries.take (entries.length - left))

section

variable (fault : Fault → α) (reply : α) (text : String) (entries : List (Entry α))

@[simp]
theorem given_cons_given : given (.given reply :: entries) = reply :: given entries := rfl

@[simp]
theorem given_cons_inserted : given (.inserted text :: entries) = given entries := rfl

@[simp]
theorem spliced_cons_given :
    spliced fault (.given reply :: entries) = reply :: spliced fault entries := rfl

@[simp]
theorem spliced_cons_inserted :
    spliced fault (.inserted text :: entries) =
      fault ⟨.interrupted, text⟩ :: spliced fault entries := rfl

@[simp]
theorem insertions_cons_given : insertions (.given reply :: entries) = insertions entries :=
  List.countP_cons_of_neg Bool.false_ne_true

@[simp]
theorem insertions_cons_inserted :
    insertions (.inserted text :: entries) = insertions entries + 1 :=
  List.countP_cons_of_pos rfl

end

/-- What is used up and what is left share out the interruptions. -/
theorem insertionsUsed_add {left entries : List (Entry α)} (h : left <:+ entries) :
    insertionsUsed entries left.length + insertions left = insertions entries := by
  obtain ⟨used, rfl⟩ := h
  have htake : (used ++ left).take ((used ++ left).length - left.length) = used := by
    rw [List.length_append, Nat.add_sub_cancel, List.take_left]
  simp only [insertionsUsed, htake, insertions, List.countP_append]

/-- What one attempt makes of a script without interruptions and of the same script with them. -/
structure Attempt.Matches (fault : Fault → α) (entries left : List (Entry α)) (a a' : Attempt α) :
    Prop where
  suffix : left <:+ entries
  reply_eq : a'.reply = a.reply
  left_eq : a.left = given left
  left_eq' : a'.left = spliced fault left
  /-- Each interruption used up is one more try. -/
  length_tries : a'.tries.length + insertions left = a.tries.length + insertions entries

/-- An attempt on the script with interruptions ends with the same reply as one without. -/
theorem Attempt.ofScript_spliced {again : α → Bool} {fault : Fault → α}
    (hagain : ∀ text, again (fault ⟨.interrupted, text⟩) = true) (default : α)
    (entries : List (Entry α)) :
    ∃ left, Matches fault entries left (ofScript again default (given entries))
      (ofScript again default (spliced fault entries)) := by
  induction entries with
  | nil => exact ⟨[], List.suffix_refl [], rfl, rfl, rfl, rfl⟩
  | cons entry entries ih =>
    obtain ⟨left, hsuffix, hreply, hleft, hleft', htries⟩ := ih
    have hsuffix' := hsuffix.trans (List.suffix_cons entry entries)
    cases entry with
    | inserted text =>
      -- one more try, on the script with interruptions only
      rw [given_cons_inserted, spliced_cons_inserted, ofScript_cons_again (hagain text)]
      refine ⟨left, hsuffix', hreply, hleft, hleft', ?_⟩
      rw [List.length_append, List.length_singleton, insertions_cons_inserted]
      omega
    | given reply =>
      rw [given_cons_given, spliced_cons_given]
      cases hcase : again reply with
      | true =>
        -- one more try on both
        rw [ofScript_cons_again hcase, ofScript_cons_again hcase]
        refine ⟨left, hsuffix', hreply, hleft, hleft', ?_⟩
        rw [List.length_append, List.length_append, insertions_cons_given]
        omega
      | false =>
        rw [ofScript_cons_not_again hcase, ofScript_cons_not_again hcase]
        refine ⟨entries, List.suffix_cons _ _, rfl, rfl, rfl, ?_⟩
        rw [insertions_cons_given]

/-- A script without interruptions and the same script with them, after some calls: what is left of
them, and that each interruption used up was one more call. -/
def Resumes (fault : Fault → α) (entries : List (Entry α)) (script script' : List α)
    (calls calls' : Nat) : Prop :=
  ∃ left, left <:+ entries ∧ script = given left ∧ script' = spliced fault left ∧
    calls' + insertions left = calls + insertions entries

/-- The interruptions used up are told by the length of what is left. -/
theorem Resumes.calls_eq {fault : Fault → α} {entries : List (Entry α)} {script script' : List α}
    {calls calls' : Nat} (h : Resumes fault entries script script' calls calls') :
    calls' = calls + insertionsUsed entries script'.length := by
  obtain ⟨left, hsuffix, _, rfl, hcalls⟩ := h
  have hlength : (spliced fault left).length = left.length := List.length_map _
  have hused := insertionsUsed_add hsuffix
  rw [hlength]
  omega

/-- One more attempt on each of the two scripts. -/
theorem Resumes.attempt (again : α → Bool) {fault : Fault → α}
    (hagain : ∀ text, again (fault ⟨.interrupted, text⟩) = true) (default : α)
    {entries : List (Entry α)} {script script' : List α} {calls calls' : Nat}
    (h : Resumes fault entries script script' calls calls') :
    (Attempt.ofScript again default script').reply =
        (Attempt.ofScript again default script).reply ∧
      Resumes fault entries (Attempt.ofScript again default script).left
        (Attempt.ofScript again default script').left
        (calls + ((Attempt.ofScript again default script).tries.length + 1))
        (calls' + ((Attempt.ofScript again default script').tries.length + 1)) := by
  obtain ⟨left, hsuffix, rfl, rfl, hcalls⟩ := h
  obtain ⟨left', hmatches⟩ := Attempt.ofScript_spliced hagain default left
  refine ⟨hmatches.reply_eq, left', hmatches.suffix.trans hsuffix, hmatches.left_eq,
    hmatches.left_eq', ?_⟩
  have htries := hmatches.length_tries
  omega

end

/-! ## The records of an attempt -/

/-- Whether the call was interrupted, and so was made again. -/
def Call.isRetried : Call → Bool
  | .read reply => reply.isInterruption
  | .write _ reply => reply.isInterruption
  | .flush _ => false

namespace Attempt

variable {α : Type} {record : α → Call}

theorem countP_calls {p : Call → Bool} (h : ∀ reply, p (record reply) = true) (a : Attempt α) :
    (a.calls record).countP p = a.tries.length + 1 := by
  have hall : (a.calls record).countP p = (a.calls record).length := by
    rw [List.countP_eq_length]
    simp [calls, h]
  rw [hall, calls, List.length_cons, List.length_map]

theorem countP_calls_eq_zero {p : Call → Bool} (h : ∀ reply, p (record reply) = false)
    (a : Attempt α) : (a.calls record).countP p = 0 := by
  rw [List.countP_eq_zero]
  simp [calls, h]

/-- Of the calls of an attempt only the last was not interrupted. -/
theorem filter_calls (again : α → Bool) (record : α → Call)
    (hrecord : ∀ reply, (record reply).isRetried = again reply) {default : α}
    (hdefault : again default = false) (script : List α) :
    ((ofScript again default script).calls record).filter (!·.isRetried) =
      [record (ofScript again default script).reply] := by
  have htries : ((ofScript again default script).tries.map record).filter (!·.isRetried) = [] := by
    rw [List.filter_eq_nil_iff]
    intro call hcall
    obtain ⟨reply, hreply, rfl⟩ := List.mem_map.mp hcall
    simp [hrecord, again_of_mem_tries hreply]
  have hlast : (record (ofScript again default script).reply).isRetried = false := by
    rw [hrecord, not_again_reply hdefault]
  rw [calls, List.filter_cons, htries, hlast]
  rfl

end Attempt

/-! ## Streams with interruptions put in -/

namespace Streams

/-- The calls that were not interrupted. -/
def settledCalls (s : Streams) : List Call := s.trace.filter (!·.isRetried)

/-- Streams without interruptions and the same streams with them, after some calls. -/
structure Resumed (reads : List (Entry ReadReply)) (writes : List (Entry WriteReply))
    (s s' : Streams) : Prop where
  reads : Resumes ReadReply.fault reads s.reads s'.reads s.readCount s'.readCount
  writes : Resumes WriteReply.fault writes s.writes s'.writes s.writeCount s'.writeCount
  flushes_eq : s'.flushes = s.flushes
  settledCalls_eq : s'.settledCalls = s.settledCalls

section

variable (s : Streams) (byte : UInt8)

theorem readCount_read :
    s.read.2.readCount = s.readCount + ((readAttempt s.reads).tries.length + 1) := by
  rw [read_eq_attempt, readCount, List.countP_append, Attempt.countP_calls (fun _ => rfl),
    Nat.add_comm]
  rfl

theorem writeCount_read : s.read.2.writeCount = s.writeCount := by
  rw [read_eq_attempt, writeCount, List.countP_append,
    Attempt.countP_calls_eq_zero (fun _ => rfl), Nat.zero_add]
  rfl

theorem settledCalls_read :
    s.read.2.settledCalls = .read (readAttempt s.reads).reply :: s.settledCalls := by
  rw [read_eq_attempt, settledCalls, List.filter_append, readAttempt,
    Attempt.filter_calls ReadReply.isInterruption .read (fun _ => rfl) rfl]
  rfl

theorem writeCount_write :
    (s.write byte).2.writeCount = s.writeCount + ((writeAttempt s.writes).tries.length + 1) := by
  rw [write_eq_attempt, writeCount, List.countP_append, Attempt.countP_calls (fun _ => rfl),
    Nat.add_comm]
  rfl

theorem readCount_write : (s.write byte).2.readCount = s.readCount := by
  rw [write_eq_attempt, readCount, List.countP_append,
    Attempt.countP_calls_eq_zero (fun _ => rfl), Nat.zero_add]
  rfl

theorem settledCalls_write :
    (s.write byte).2.settledCalls =
      .write byte (writeAttempt s.writes).reply :: s.settledCalls := by
  rw [write_eq_attempt, settledCalls, List.filter_append, writeAttempt,
    Attempt.filter_calls WriteReply.isInterruption (.write byte) (fun _ => rfl) rfl]
  rfl

end

/-- What is read off the calls that were not interrupted is the same. -/
theorem filterMap_settledCalls {β : Type} {f : Call → Option β}
    (hf : ∀ call, call.isRetried = true → f call = none) (s : Streams) :
    s.settledCalls.filterMap f = s.trace.filterMap f := by
  rw [settledCalls, List.filterMap_filter]
  congr 1
  funext call
  cases hcall : call.isRetried with
  | true => simp [hf call hcall]
  | false => simp

namespace Resumed

variable {reads : List (Entry ReadReply)} {writes : List (Entry WriteReply)} {s s' : Streams}

theorem output_eq (h : Resumed reads writes s s') : s'.output = s.output := by
  have hnone : ∀ call : Call, call.isRetried = true → call.written? = none := by
    intro call hcall
    cases call with
    | read reply => rfl
    | flush reply => rfl
    | write byte reply =>
      cases reply with
      | accepted => cases hcall
      | stalled => rfl
      | fault fault => rfl
  unfold output
  rw [← s.filterMap_settledCalls hnone, ← s'.filterMap_settledCalls hnone, h.settledCalls_eq]

theorem consumed_eq (h : Resumed reads writes s s') : s'.consumed = s.consumed := by
  have hnone : ∀ call : Call, call.isRetried = true → call.taken? = none := by
    intro call hcall
    cases call with
    | write byte reply => rfl
    | flush reply => rfl
    | read reply =>
      cases reply with
      | byte value => cases hcall
      | endOfInput => rfl
      | fault fault => rfl
  unfold consumed
  rw [← s.filterMap_settledCalls hnone, ← s'.filterMap_settledCalls hnone, h.settledCalls_eq]

theorem flushCount_eq (h : Resumed reads writes s s') : s'.flushCount = s.flushCount := by
  have hflush : ∀ t : Streams, t.flushCount = t.settledCalls.countP Call.isFlush := by
    intro t
    rw [settledCalls, List.countP_filter]
    refine List.countP_congr fun call _ => ?_
    cases call <;> simp [Call.isFlush, Call.isRetried]
  rw [hflush s, hflush s', h.settledCalls_eq]

end Resumed

end Streams

variable {reads : List (Entry ReadReply)} {writes : List (Entry WriteReply)}

/-- No call can tell streams with interruptions from streams without. -/
theorem streamSimulation_resumed : StreamSimulation (Streams.Resumed reads writes) where
  read := by
    intro s s' h
    obtain ⟨hreply, hleft⟩ :=
      h.reads.attempt ReadReply.isInterruption (fun _ => rfl) .endOfInput
    refine ⟨?_, ?_, ?_, h.flushes_eq, ?_⟩
    · rw [s.read_eq_attempt, s'.read_eq_attempt]
      exact hreply.symm
    · rw [s.readCount_read, s'.readCount_read, s.read_eq_attempt, s'.read_eq_attempt]
      exact hleft
    · rw [s.writeCount_read, s'.writeCount_read]
      exact h.writes
    · rw [s.settledCalls_read, s'.settledCalls_read, h.settledCalls_eq]
      exact congrArg (fun reply => Call.read reply :: s.settledCalls) hreply
  write := by
    intro s s' byte h
    obtain ⟨hreply, hleft⟩ :=
      h.writes.attempt WriteReply.isInterruption (fun _ => rfl) .accepted
    refine ⟨?_, ?_, ?_, h.flushes_eq, ?_⟩
    · rw [s.write_eq_attempt, s'.write_eq_attempt]
      exact congrArg WriteReply.fault? hreply.symm
    · rw [s.readCount_write, s'.readCount_write]
      exact h.reads
    · rw [s.writeCount_write, s'.writeCount_write, s.write_eq_attempt, s'.write_eq_attempt]
      exact hleft
    · rw [s.settledCalls_write, s'.settledCalls_write, h.settledCalls_eq]
      exact congrArg (fun reply => Call.write byte reply :: s.settledCalls) hreply
  flush := by
    intro s s' h
    have hsettled := h.settledCalls_eq
    rw [s.flush_eq_head, s'.flush_eq_head, h.flushes_eq]
    refine ⟨rfl, h.reads, h.writes, rfl, ?_⟩
    exact congrArg (Call.flush (s.flushes.headD .done) :: ·) hsettled

/-! ## Machines that differ in their streams only -/

/-- The same outcome, but for the streams, which are related. -/
def Outcome.Twin (R : Streams → Streams → Prop) (o o' : Outcome) : Prop :=
  ∃ s, o' = o.withStreams s ∧ R o.machine.streams s

section

variable {R : Streams → Streams → Prop}

/-- Requests are answered alike if calls are. -/
theorem StreamSimulation.answer (hR : StreamSimulation R) {s s' : Streams} (h : R s s')
    (request : Request) :
    (s'.answer request).1 = (s.answer request).1 ∧
      R (s.answer request).2 (s'.answer request).2 := by
  cases request with
  | nothing => exact ⟨rfl, h⟩
  | receive =>
    obtain ⟨hreply, hs⟩ := hR.read h
    exact ⟨congrArg Answer.ofRead hreply.symm, hs⟩
  | emit byte count =>
    have hmany := hR.writeMany h byte count
    simp only [Streams.answer]
    unfold Streams.emit
    generalize s.writeMany byte count = r at *
    generalize s'.writeMany byte count = r' at *
    rcases r with ⟨fault?, s₁⟩
    rcases r' with ⟨fault?', s₁'⟩
    obtain ⟨hfault, hs⟩ := hmany
    cases hfault
    cases fault? with
    | some fault => exact ⟨rfl, hs⟩
    | none =>
      obtain ⟨hflush, hs'⟩ := hR.flush hs
      exact ⟨congrArg Answer.ofFault? hflush.symm, hs'⟩

namespace Machine

variable {m : Machine} {s : Streams}

/-- Machines that differ in their streams only do so to the end. -/
theorem execute_twin (hR : StreamSimulation R) (h : R m.streams s) (steps : Nat) (todo : Program) :
    Option.Rel (Outcome.Twin R) (execute steps todo m) (execute steps todo (m.withStreams s)) := by
  induction steps generalizing todo m s with
  | zero => exact .none
  | succ steps ih =>
    obtain ⟨hanswer, hs⟩ := hR.answer h (m.request todo)
    have hstreams := m.streams_step todo
    unfold execute
    rw [m.step_withStreams s todo hanswer]
    rw [← hstreams] at hs
    cases hstep : m.step todo with
    | next todo₁ m₁ =>
      rw [hstep] at hs
      exact ih hs todo₁
    | halt o =>
      rw [hstep] at hs
      exact .some ⟨_, rfl, hs⟩

theorem settle_twin (hR : StreamSimulation R) {o o' : Outcome} (h : Outcome.Twin R o o') :
    Outcome.Twin R (settle o) (settle o') := by
  obtain ⟨t, rfl, ht⟩ := h
  obtain ⟨hflush, ht'⟩ := hR.flush ht
  refine ⟨t.flush.2, ?_, ht'⟩
  simp only [settle, Outcome.withStreams, withStreams, hflush]

theorem RunsTo.twin (hR : StreamSimulation R) (h : R m.streams s) {program : Program} {o : Outcome}
    (hrun : RunsTo program m o) :
    ∃ o', RunsTo program (m.withStreams s) o' ∧ Outcome.Twin R o o' := by
  obtain ⟨steps, hsteps⟩ := hrun
  obtain ⟨e, he, rfl⟩ := Option.map_eq_some_iff.mp hsteps
  have htwin := execute_twin hR h steps program
  rw [he] at htwin
  generalize he' : execute steps program (m.withStreams s) = r at htwin
  cases htwin with
  | @some _ e' hrel =>
    exact ⟨settle e', ⟨steps, Option.map_eq_some_iff.mpr ⟨e', he', rfl⟩⟩, settle_twin hR hrel⟩

end Machine

end

/-! ## Whole runs -/

/-- The machine with other scripts for reads and writes. -/
def Machine.withScripts (m : Machine) (reads : List ReadReply) (writes : List WriteReply) :
    Machine :=
  m.withStreams { m.streams with reads, writes }

/-- Interruptions of reads and writes do not show. Put into the scripts at any places, they change
neither whether a run halts nor its result, pointer, tape, output, number of bytes read and number
of flushes. Each interruption that was used up is one more call. -/
theorem run_interrupted (program : Program) (m : Machine) (reads : List (Entry ReadReply))
    (writes : List (Entry WriteReply)) :
    (Machine.Halts program (m.withScripts (given reads) (given writes)) ↔
      Machine.Halts program (m.withScripts (spliced .fault reads) (spliced .fault writes))) ∧
    ∀ o o', Machine.RunsTo program (m.withScripts (given reads) (given writes)) o →
      Machine.RunsTo program (m.withScripts (spliced .fault reads) (spliced .fault writes)) o' →
      o'.error? = o.error? ∧
      o'.machine.pointer = o.machine.pointer ∧
      o'.machine.tape = o.machine.tape ∧
      o'.machine.streams.output = o.machine.streams.output ∧
      o'.machine.streams.consumed = o.machine.streams.consumed ∧
      o'.machine.streams.flushCount = o.machine.streams.flushCount ∧
      o'.machine.streams.readCount = o.machine.streams.readCount +
        insertionsUsed reads o'.machine.streams.reads.length ∧
      o'.machine.streams.writeCount = o.machine.streams.writeCount +
        insertionsUsed writes o'.machine.streams.writes.length := by
  have hstart : Streams.Resumed reads writes
      { m.streams with reads := given reads, writes := given writes }
      { m.streams with reads := spliced .fault reads, writes := spliced .fault writes } :=
    ⟨⟨reads, List.suffix_refl _, rfl, rfl, rfl⟩, ⟨writes, List.suffix_refl _, rfl, rfl, rfl⟩,
      rfl, rfl⟩
  have halike : Machine.Alike (Streams.Resumed reads writes)
      (m.withScripts (given reads) (given writes))
      (m.withScripts (spliced .fault reads) (spliced .fault writes)) :=
    ⟨.refl m.tape, rfl, rfl, hstart⟩
  constructor
  · exact (Machine.runsTo_alike streamSimulation_resumed halike program).1
  · intro o o' ho ho'
    obtain ⟨_, hrun, s, rfl, hs⟩ := ho.twin streamSimulation_resumed hstart
    -- the run on the other scripts has one outcome: the one that differs in the streams only
    rw [ho'.unique hrun]
    exact ⟨rfl, rfl, rfl, hs.output_eq, hs.consumed_eq, hs.flushCount_eq, hs.reads.calls_eq,
      hs.writes.calls_eq⟩

/-- An interruption before the only read, one between two writes of the same byte, and one that is
not met. -/
theorem run_interrupted_echo :
    ∃ o o' : Outcome,
      Machine.RunsTo [.act .input 1, .act .output 2]
        ((Machine.fresh (.zeros 0 .bits8) .fail ⟨[], [], [], []⟩).withScripts
          [.byte 7] [.accepted]) o ∧
      Machine.RunsTo [.act .input 1, .act .output 2]
        ((Machine.fresh (.zeros 0 .bits8) .fail ⟨[], [], [], []⟩).withScripts
          [.fault .interruption, .byte 7, .fault .interruption]
          [.accepted, .fault .interruption]) o' ∧
      o.machine.streams.output = [7, 7] ∧
      o'.machine.streams.output = o.machine.streams.output ∧
      o'.machine.streams.readCount = o.machine.streams.readCount + 1 ∧
      o'.machine.streams.writeCount = o.machine.streams.writeCount + 1 := by
  generalize hm : Machine.fresh (.zeros 0 .bits8) .fail ⟨[], [], [], []⟩ = m
  have hruns : ∃ o o', Machine.run 3 [.act .input 1, .act .output 2]
        (m.withScripts [.byte 7] [.accepted]) = some o ∧
      Machine.run 3 [.act .input 1, .act .output 2]
        (m.withScripts [.fault .interruption, .byte 7, .fault .interruption]
          [.accepted, .fault .interruption]) = some o' ∧
      o.machine.streams.output = [7, 7] ∧ o'.machine.streams.reads = [.fault .interruption] ∧
      o'.machine.streams.writes = [] := by
    rw [← hm]
    exact ⟨_, _, rfl, rfl, rfl, rfl, rfl⟩
  obtain ⟨o, o', ho, ho', houtput, hreads, hwrites⟩ := hruns
  obtain ⟨_, _, _, houtput', _, _, hreadCount, hwriteCount⟩ :=
    (run_interrupted [.act .input 1, .act .output 2] m
      [.inserted "interrupted", .given (.byte 7), .inserted "interrupted"]
      [.given .accepted, .inserted "interrupted"]).2 o o' ⟨3, ho⟩ ⟨3, ho'⟩
  rw [hreads] at hreadCount
  rw [hwrites] at hwriteCount
  exact ⟨o, o', ⟨3, ho⟩, ⟨3, ho'⟩, houtput, houtput', hreadCount, hwriteCount⟩

end TapeMachine
