import TapeMachine.Machine
import TapeMachine.Proofs.Tape

/-! # Machines that run alike

Two machines whose tapes stand for the same row, and whose streams answer the same, take the same
steps. The tapes may have any lengths and the streams may differ in what no call can tell.

* `StreamSimulation R`: streams related by `R` give the same replies and stay related;
* `Machine.Alike R m m'`: same row, pointer and policy, and streams related by `R`;
* `execute_alike`: alike machines execute alike, step for step, so one halts exactly if the other
  does (`run_alike` adds the last flush);
* `run_zeros`: the length of the tape at the start shows in nothing that a run does.
-/

namespace TapeMachine

/-! ## Steps -/

/-- A step at an action carries it out, and goes on unless it failed. -/
theorem Machine.step_act (m : Machine) (action : Action) (count : Int) (rest : Program) :
    m.step (.act action count :: rest) =
      match (m.perform action count).error? with
      | none => .next rest (m.perform action count).machine
      | some _ => .halt (m.perform action count) := by
  simp only [step]
  rcases m.perform action count with ⟨_ | error, m'⟩
  · rfl
  · rfl

/-- A step at a loop looks at the current cell, and passes the loop or enters it. -/
theorem Machine.step_loop (m : Machine) (body rest : Program) :
    m.step (.loop body :: rest) =
      .next (if m.tape.cell m.pointer = 0 then rest else body ++ .loop body :: rest)
        { m with tape := m.tape.growTo m.pointer } := by
  simp only [step, Tape.get_fst, Tape.get_snd]
  split
  · rfl
  · rfl

/-- The machine that a step leaves. -/
def Machine.Transition.machine : Machine.Transition → Machine
  | .next _ m => m
  | .halt o => o.machine

/-- A step at an action leaves what the action leaves, whether it failed or not. -/
theorem Machine.machine_step_act (m : Machine) (action : Action) (count : Int) (rest : Program) :
    (m.step (.act action count :: rest)).machine = (m.perform action count).machine := by
  rw [step_act]
  cases (m.perform action count).error? with
  | none => rfl
  | some error => rfl

/-- An execution goes on from where a step leads to. -/
theorem Machine.execute_of_next {m m' : Machine} {todo todo' : Program}
    (h : m.step todo = .next todo' m') (steps : Nat) :
    execute (steps + 1) todo m = execute steps todo' m' := by
  simp only [execute, h]

/-- An execution goes on behind an action that succeeds. -/
theorem Machine.execute_act {m m' : Machine} {action : Action} {count : Int}
    (h : m.perform action count = ⟨none, m'⟩) (steps : Nat) (rest : Program) :
    execute (steps + 1) (.act action count :: rest) m = execute steps rest m' := by
  apply execute_of_next
  rw [step_act, h]

/-- An execution ends at an action that fails. -/
theorem Machine.execute_act_of_error {m m' : Machine} {action : Action} {count : Int}
    {error : RuntimeError} (h : m.perform action count = ⟨some error, m'⟩) (steps : Nat)
    (rest : Program) :
    execute (steps + 1) (.act action count :: rest) m = some ⟨some error, m'⟩ := by
  simp only [execute, step_act, h]

/-! ## Halting -/

/-- A run of the program on the machine halts with this outcome. -/
def Machine.RunsTo (program : Program) (m : Machine) (o : Outcome) : Prop :=
  ∃ steps, Machine.run steps program m = some o

/-- A run of the program on the machine halts. -/
def Machine.Halts (program : Program) (m : Machine) : Prop :=
  ∃ o, Machine.RunsTo program m o

/-- Two numbers of steps that suffice give the same outcome. -/
theorem Machine.execute_unique {todo : Program} {m : Machine} {n n' : Nat} {o o' : Outcome}
    (h : execute n todo m = some o) (h' : execute n' todo m = some o') : o = o' := by
  have h₁ := execute_add h n'
  have h₂ := execute_add h' n
  rw [Nat.add_comm, h₂] at h₁
  exact (Option.some.inj h₁).symm

/-- A run has one outcome. -/
theorem Machine.RunsTo.unique {program : Program} {m : Machine} {o o' : Outcome}
    (h : RunsTo program m o) (h' : RunsTo program m o') : o = o' := by
  rcases h with ⟨n, hn⟩
  rcases h' with ⟨n', hn'⟩
  rcases Option.map_eq_some_iff.mp hn with ⟨e, he, rfl⟩
  rcases Option.map_eq_some_iff.mp hn' with ⟨e', he', rfl⟩
  rw [execute_unique he he']

/-- What a run shows at its end: its result, the pointer, the bytes written, the number of bytes
read and the row of cells. -/
structure Outcome.Agree (o o' : Outcome) : Prop where
  error_eq : o.error? = o'.error?
  pointer_eq : o.machine.pointer = o'.machine.pointer
  output_eq : o.machine.streams.output = o'.machine.streams.output
  consumed_eq : o.machine.streams.consumed = o'.machine.streams.consumed
  cell_eq : ∀ i, o.machine.tape.cell i = o'.machine.tape.cell i

/-! ## Alike streams -/

/-- Related streams give the same replies, and what each call leaves of them is related again. -/
structure StreamSimulation (R : Streams → Streams → Prop) : Prop where
  read : ∀ {s s'}, R s s' → s.read.1 = s'.read.1 ∧ R s.read.2 s'.read.2
  write : ∀ {s s'} byte, R s s' →
    (s.write byte).1 = (s'.write byte).1 ∧ R (s.write byte).2 (s'.write byte).2
  flush : ∀ {s s'}, R s s' → s.flush.1 = s'.flush.1 ∧ R s.flush.2 s'.flush.2

/-- Equal streams are alike. -/
theorem streamSimulation_eq : StreamSimulation (· = ·) where
  read := by
    rintro s _ rfl
    exact ⟨rfl, rfl⟩
  write := by
    rintro s _ byte rfl
    exact ⟨rfl, rfl⟩
  flush := by
    rintro s _ rfl
    exact ⟨rfl, rfl⟩

variable {R : Streams → Streams → Prop}

/-- Writing many bytes is alike if writing one is. -/
theorem StreamSimulation.writeMany (hR : StreamSimulation R) {s s' : Streams} (h : R s s')
    (byte : UInt8) (count : Nat) :
    (s.writeMany byte count).1 = (s'.writeMany byte count).1 ∧
      R (s.writeMany byte count).2 (s'.writeMany byte count).2 := by
  induction count generalizing s s' with
  | zero => exact ⟨rfl, h⟩
  | succ count ih =>
    have hwrite := hR.write byte h
    unfold Streams.writeMany
    generalize s.write byte = r at *
    generalize s'.write byte = r' at *
    rcases r with ⟨fault?, s₁⟩
    rcases r' with ⟨fault?', s₁'⟩
    rcases hwrite with ⟨hfault, hs₁⟩
    cases hfault
    cases fault? with
    | none => exact ih hs₁
    | some fault => exact ⟨rfl, hs₁⟩

/-! ## Alike machines -/

/-- The same row, pointer and policy, and related streams. -/
structure Machine.Alike (R : Streams → Streams → Prop) (m m' : Machine) : Prop where
  tape : m.tape.SameRow m'.tape
  pointer_eq : m.pointer = m'.pointer
  endPolicy_eq : m.endPolicy = m'.endPolicy
  streams : R m.streams m'.streams

/-- The same error, if any, and alike machines. -/
structure Outcome.Alike (R : Streams → Streams → Prop) (o o' : Outcome) : Prop where
  error_eq : o.error? = o'.error?
  machine : Machine.Alike R o.machine o'.machine

/-- The same nodes to do on alike machines, or alike outcomes. -/
inductive Machine.Transition.Alike (R : Streams → Streams → Prop) :
    Machine.Transition → Machine.Transition → Prop where
  | next {todo : Program} {m m' : Machine} :
      Machine.Alike R m m' → Alike R (.next todo m) (.next todo m')
  | halt {o o' : Outcome} : Outcome.Alike R o o' → Alike R (.halt o) (.halt o')

namespace Machine

variable {m m' : Machine}

theorem move_alike (h : Alike R m m') (delta : Int) :
    Outcome.Alike R (m.move delta) (m'.move delta) := by
  unfold move
  rw [h.pointer_eq]
  cases target? m'.pointer delta with
  | none => exact ⟨rfl, h⟩
  | some target =>
    -- each tape grows by as much as it needs
    exact ⟨rfl, h.tape.growTo target target, rfl, h.endPolicy_eq, h.streams⟩

theorem add_alike (h : Alike R m m') (delta : Int) :
    Outcome.Alike R (m.add delta) (m'.add delta) := by
  unfold add
  rw [h.pointer_eq]
  exact ⟨rfl, h.tape.add m'.pointer delta, rfl, h.endPolicy_eq, h.streams⟩

theorem write_alike (hR : StreamSimulation R) (h : Alike R m m') (count : Int) :
    Outcome.Alike R (m.write count) (m'.write count) := by
  have htape := h.tape.growTo m'.pointer m'.pointer
  unfold write
  simp only [Tape.get_fst, Tape.get_snd, h.pointer_eq, h.tape.cell_eq]
  have hmany := hR.writeMany h.streams (UInt8.ofNat (m'.tape.cell m'.pointer)) count.toNat
  generalize m.streams.writeMany _ _ = r at *
  generalize m'.streams.writeMany _ _ = r' at *
  rcases r with ⟨fault?, s⟩
  rcases r' with ⟨fault?', s'⟩
  rcases hmany with ⟨hfault, hs⟩
  cases hfault
  cases fault? with
  | some fault => exact ⟨rfl, htape, rfl, h.endPolicy_eq, hs⟩
  | none =>
    -- all bytes are written: the flush decides
    rcases hR.flush hs with ⟨hflush, hs'⟩
    refine ⟨?_, htape, rfl, h.endPolicy_eq, hs'⟩
    exact congrArg (Option.map RuntimeError.stream) hflush

theorem read_alike (hR : StreamSimulation R) (h : Alike R m m') :
    Outcome.Alike R m.read m'.read := by
  rcases hR.read h.streams with ⟨hreply, hs⟩
  unfold read
  rw [h.pointer_eq, h.endPolicy_eq]
  generalize m.streams.read = r at *
  generalize m'.streams.read = r' at *
  rcases r with ⟨reply, s⟩
  rcases r' with ⟨reply', s'⟩
  cases hreply
  cases reply with
  | byte value => exact ⟨rfl, h.tape.set _ _, rfl, rfl, hs⟩
  | fault fault => exact ⟨rfl, h.tape, rfl, rfl, hs⟩
  | endOfInput =>
    cases hpolicy : m'.endPolicy with
    | fail => exact ⟨rfl, h.tape, rfl, rfl, hs⟩
    | zero => exact ⟨rfl, h.tape.set _ _, rfl, rfl, hs⟩
    | keep => exact ⟨rfl, h.tape, rfl, rfl, hs⟩

/-- Alike machines carry out an action alike. -/
theorem perform_alike (hR : StreamSimulation R) (h : Alike R m m') (action : Action) (count : Int) :
    Outcome.Alike R (m.perform action count) (m'.perform action count) := by
  cases action with
  | move => exact move_alike h count
  | add => exact add_alike h count
  | output => exact write_alike hR h count
  | input => exact read_alike hR h

/-! ## Steps and runs -/

/-- Alike machines take alike steps. -/
theorem step_alike (hR : StreamSimulation R) (h : Alike R m m') (todo : Program) :
    Transition.Alike R (m.step todo) (m'.step todo) := by
  cases todo with
  | nil => exact .halt ⟨rfl, h⟩
  | cons node rest =>
    cases node with
    | act action count =>
      have hperform := perform_alike hR h action count
      rw [step_act, step_act, hperform.error_eq]
      cases herror : (m'.perform action count).error? with
      | none => exact .next hperform.machine
      | some error => exact .halt hperform
    | loop body =>
      -- both loops look at the same cell of the same row
      have hcell : m.tape.cell m.pointer = m'.tape.cell m'.pointer := by
        rw [h.pointer_eq, h.tape.cell_eq]
      rw [step_loop, step_loop, hcell]
      exact .next ⟨h.tape.growTo _ _, h.pointer_eq, h.endPolicy_eq, h.streams⟩

/-- Alike machines execute alike: with any number of steps neither halts, or both do. -/
theorem execute_alike (hR : StreamSimulation R) (h : Alike R m m') (steps : Nat) (todo : Program) :
    Option.Rel (Outcome.Alike R) (execute steps todo m) (execute steps todo m') := by
  -- over the number of steps, for all nodes and machines that are alike
  induction steps generalizing todo m m' with
  | zero => exact .none
  | succ steps ih =>
    have hstep := step_alike hR h todo
    unfold execute
    generalize m.step todo = r at *
    generalize m'.step todo = r' at *
    cases hstep with
    | next hm₁ => exact ih hm₁ _
    | halt ho => exact .some ho

/-- The last flush keeps outcomes alike. -/
theorem settle_alike (hR : StreamSimulation R) {o o' : Outcome} (h : Outcome.Alike R o o') :
    Outcome.Alike R (settle o) (settle o') := by
  rcases h with ⟨herror, hm⟩
  rcases hR.flush hm.streams with ⟨hflush, hs⟩
  refine ⟨?_, hm.tape, hm.pointer_eq, hm.endPolicy_eq, hs⟩
  simp only [settle, herror, hflush]

/-- Alike machines run alike. -/
theorem run_alike (hR : StreamSimulation R) (h : Alike R m m') (steps : Nat) (program : Program) :
    Option.Rel (Outcome.Alike R) (run steps program m) (run steps program m') := by
  have hexecute := execute_alike hR h steps program
  unfold run
  generalize execute steps program m = r at *
  generalize execute steps program m' = r' at *
  cases hexecute with
  | none => exact .none
  | some ho => exact .some (settle_alike hR ho)

/-- Of alike machines both halt or neither does, and then with alike outcomes. -/
theorem runsTo_alike (hR : StreamSimulation R) (h : Alike R m m') (program : Program) :
    (Halts program m ↔ Halts program m') ∧
      ∀ o o', RunsTo program m o → RunsTo program m' o' → Outcome.Alike R o o' := by
  have hforth : ∀ o, RunsTo program m o → ∃ o', RunsTo program m' o' ∧ Outcome.Alike R o o' := by
    rintro o ⟨steps, ho⟩
    have hrun := run_alike hR h steps program
    rw [ho] at hrun
    generalize ho' : run steps program m' = r at hrun
    cases hrun with
    | some halike => exact ⟨_, ⟨steps, ho'⟩, halike⟩
  refine ⟨⟨?_, ?_⟩, ?_⟩
  · rintro ⟨o, ho⟩
    rcases hforth o ho with ⟨o', ho', _⟩
    exact ⟨o', ho'⟩
  · rintro ⟨o', steps, ho'⟩
    have hrun := run_alike hR h steps program
    rw [ho'] at hrun
    generalize ho : run steps program m = r at hrun
    cases hrun
    exact ⟨_, steps, ho⟩
  · intro o o' ho ho'
    rcases hforth o ho with ⟨o'', ho'', halike⟩
    rw [ho'.unique ho'']
    exact halike

end Machine

/-! ## The length of the tape -/

/-- The number of cells at the start cannot be observed. With any two numbers (zero counts as one
cell) a run halts for both or for neither, and then with the same result, pointer, bytes and row of
cells, after the same numbers of reads, writes and flushes. -/
theorem run_zeros (program : Program) (size : CellSize) (policy : EndPolicy) (streams : Streams)
    (length length' : Nat) :
    (Machine.Halts program (.fresh (.zeros length size) policy streams) ↔
      Machine.Halts program (.fresh (.zeros length' size) policy streams)) ∧
    ∀ o o', Machine.RunsTo program (.fresh (.zeros length size) policy streams) o →
      Machine.RunsTo program (.fresh (.zeros length' size) policy streams) o' →
      o.Agree o' ∧
      o.machine.streams.readCount = o'.machine.streams.readCount ∧
      o.machine.streams.writeCount = o'.machine.streams.writeCount ∧
      o.machine.streams.flushCount = o'.machine.streams.flushCount := by
  have hstart : Machine.Alike (· = ·) (.fresh (.zeros length size) policy streams)
      (.fresh (.zeros length' size) policy streams) :=
    ⟨.zeros length length' size, rfl, rfl, rfl⟩
  rcases Machine.runsTo_alike streamSimulation_eq hstart program with ⟨hhalts, hruns⟩
  refine ⟨hhalts, ?_⟩
  intro o o' ho ho'
  rcases hruns o o' ho ho' with ⟨herror, htape, hpointer, _, hstreams⟩
  -- the streams are equal, so everything read off their trace is
  refine ⟨⟨herror, hpointer, ?_, ?_, htape.cell_eq⟩, ?_, ?_, ?_⟩
  all_goals rw [hstreams]

end TapeMachine
