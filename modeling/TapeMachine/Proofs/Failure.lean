import Mathlib.Algebra.Group.Int.Defs
import TapeMachine.Proofs.Exchange
import TapeMachine.Proofs.Session

/-! # Failures

Why a machine stops with an error, and what it leaves behind.

* `Machine.LeadsTo`: the execution of some nodes gets to other nodes on another machine. What every
  step keeps, it keeps (`LeadsTo.keeps`).
* `Machine.Stopped`: the three ways in which a step can fail. None of them moves the pointer or
  stores to a cell (`step_stopped`, `Stopped.same_place`).
* `RuntimeError.Caused`: what must have happened for an error to be reported.
* `execute_append_of_error`: nodes behind a failure have no effect.
* `failure_sound`: all of this for every program on every machine that a session can reach.
-/

namespace TapeMachine

/-! ## Model -/

/-- The actions of a program with their counts, at all nesting levels. -/
def Program.actions (p : Program) : List (Action × Int) :=
  p.fold [] (fun action count rest => (action, count) :: rest) (fun body rest => body ++ rest)

/-- The execution of some nodes gets to other nodes on another machine. -/
inductive Machine.LeadsTo : Program → Machine → Program → Machine → Prop where
  | refl (todo : Program) (m : Machine) : LeadsTo todo m todo m
  | head {todo todo₁ todo' : Program} {m m₁ m' : Machine} :
      m.step todo = .next todo₁ m₁ → LeadsTo todo₁ m₁ todo' m' → LeadsTo todo m todo' m'

/-- What must have happened for an error to be reported, when `program` has been executed with the
given calls, newest first, and has left the machine `m`. -/
def RuntimeError.Caused (program : Program) (m : Machine) (calls : List Call) :
    RuntimeError → Prop
  | .offTape pointer delta =>
    m.pointer = pointer ∧ (.move, delta) ∈ program.actions ∧
      ((pointer : Int) + delta < 0 ∨ 2 ^ 63 - 1 < (pointer : Int) + delta)
  | .noInput =>
    m.endPolicy = .fail ∧ calls.find? Call.isRead = some (.read .endOfInput)
  | .stream fault =>
    (fault.kind ≠ .interrupted ∧ calls.find? Call.isRead = some (.read (.fault fault))) ∨
    (∃ byte reply, calls.find? Call.isWrite = some (.write byte reply) ∧
      reply.isInterruption = false ∧ reply.fault? = some fault) ∨
    .flush (.fault fault) ∈ calls

/-! ## Getting somewhere -/

namespace Machine

variable {todo todo' : Program} {m m' : Machine}

/-- What every step keeps is kept all the way. -/
theorem LeadsTo.keeps {P : Program → Machine → Prop}
    (hstep : ∀ {todo todo' m m'}, step m todo = .next todo' m' → P todo m → P todo' m')
    (h : LeadsTo todo m todo' m') (hP : P todo m) : P todo' m' := by
  induction h with
  | refl todo m => exact hP
  | head hfirst _ ih => exact ih (hstep hfirst hP)

theorem LeadsTo.extends_streams (h : LeadsTo todo m todo' m') : m.streams.Extends m'.streams := by
  refine LeadsTo.keeps (P := fun _ m' => m.streams.Extends m'.streams) ?_ h (.refl m.streams)
  intro todo₁ todo₂ m₁ m₂ hstep hext
  have hnext := m₁.extends_step todo₁
  rw [hstep] at hnext
  exact hext.trans hnext

theorem LeadsTo.inv {size : CellSize} {policy : EndPolicy} (h : LeadsTo todo m todo' m')
    (hinv : m.Inv size policy) : m'.Inv size policy := by
  refine LeadsTo.keeps (P := fun _ m' => m'.Inv size policy) ?_ h hinv
  intro todo₁ todo₂ m₁ m₂ hstep hinv₁
  have heffect := m₁.step_effect todo₁
  rw [hstep] at heffect
  exact hinv₁.effect heffect

/-- An execution that halts gets to the step at which it halts. -/
theorem leadsTo_of_execute {steps : Nat} {o : Outcome} (h : execute steps todo m = some o) :
    ∃ todo' m', LeadsTo todo m todo' m' ∧ m'.step todo' = .halt o := by
  induction steps generalizing todo m with
  | zero => cases h
  | succ steps ih =>
    unfold execute at h
    cases hstep : m.step todo with
    | next todo₁ m₁ =>
      rw [hstep] at h
      obtain ⟨todo', m', hleads, hhalt⟩ := ih h
      exact ⟨todo', m', .head hstep hleads, hhalt⟩
    | halt o' =>
      rw [hstep] at h
      cases h
      exact ⟨todo, m, .refl todo m, hstep⟩

end Machine

/-! ## Actions still to do -/

namespace Program

@[simp]
theorem actions_act (action : Action) (count : Int) (rest : Program) :
    actions (.act action count :: rest) = (action, count) :: rest.actions := rfl

@[simp]
theorem actions_loop (body rest : Program) :
    actions (.loop body :: rest) = body.actions ++ rest.actions := rfl

@[simp]
theorem actions_append (p q : Program) : actions (p ++ q) = p.actions ++ q.actions := by
  induction p with
  | nil => rfl
  | cons node p ih =>
    cases node with
    | act action count => rw [List.cons_append, actions_act, actions_act, ih, List.cons_append]
    | loop body => rw [List.cons_append, actions_loop, actions_loop, ih, List.append_assoc]

end Program

namespace Machine

variable {todo todo' : Program} {m m' : Machine}

/-- A step brings in no new action: the body of a loop was there before. -/
theorem actions_step (h : m.step todo = .next todo' m') : todo'.actions ⊆ todo.actions := by
  cases todo with
  | nil => cases h
  | cons node rest =>
    cases node with
    | act action count =>
      rw [step_act] at h
      cases herror : (m.perform action count).error? with
      | none =>
        rw [herror] at h
        cases h
        exact List.subset_cons_self _ _
      | some error =>
        rw [herror] at h
        cases h
    | loop body =>
      rw [step_loop] at h
      cases h
      split
      · exact List.subset_append_right _ _
      · intro x hx
        simp only [Program.actions_append, Program.actions_loop, List.mem_append] at hx ⊢
        rcases hx with hbody | hloop
        · exact Or.inl hbody
        · exact hloop

theorem LeadsTo.actions_subset (h : LeadsTo todo m todo' m') : todo'.actions ⊆ todo.actions := by
  refine LeadsTo.keeps (P := fun todo' _ => todo'.actions ⊆ todo.actions) ?_ h (List.Subset.refl _)
  intro todo₁ todo₂ m₁ m₂ hstep hsubset
  exact List.Subset.trans (actions_step hstep) hsubset

/-! ## Steps that fail -/

/-- How a step can fail, and what it leaves. -/
inductive Stopped (m : Machine) : Program → Outcome → Prop where
  | offTape {delta : Int} {rest : Program} :
      target? m.pointer delta = none →
      Stopped m (.act .move delta :: rest) ⟨some (.offTape m.pointer delta), m⟩
  | noInput {count : Int} {rest : Program} :
      m.endPolicy = .fail → m.streams.read.1 = .endOfInput →
      Stopped m (.act .input count :: rest) ⟨some .noInput, m.withStreams m.streams.read.2⟩
  | fault {node : Node} {rest : Program} {fault : Fault} {tape : Tape} :
      (m.streams.answer (m.request (node :: rest))).1 = .fault fault →
      tape = m.tape ∨ tape = m.tape.growTo m.pointer →
      Stopped m (node :: rest)
        ⟨some (.stream fault),
          { m with tape, streams := (m.streams.answer (m.request (node :: rest))).2 }⟩

/-- An action that fails has failed in one of these ways. -/
theorem perform_stopped {action : Action} {count : Int} {error : RuntimeError}
    (h : (m.perform action count).error? = some error) (rest : Program) :
    m.Stopped (.act action count :: rest) (m.perform action count) := by
  cases action with
  | add => cases h
  | move =>
    unfold perform move at *
    cases htarget : target? m.pointer count with
    | none => exact .offTape htarget
    | some target =>
      rw [htarget] at h
      cases h
  | output =>
    have hrequest : m.request [.act .output count] = m.request (.act .output count :: rest) := rfl
    simp only [perform, write_eq_answer, hrequest] at h ⊢
    cases hanswer : (m.streams.answer (m.request (.act .output count :: rest))).1 with
    | done => rw [hanswer] at h; cases h
    | byte value => rw [hanswer] at h; cases h
    | endOfInput => rw [hanswer] at h; cases h
    | fault fault => exact .fault hanswer (Or.inr rfl)
  | input =>
    unfold perform read at *
    cases hreply : m.streams.read.1 with
    | byte value =>
      simp only [hreply] at h
      cases h
    | fault fault =>
      have hanswer : (m.streams.answer (m.request (.act .input count :: rest))).1 =
          .fault fault := congrArg Answer.ofRead hreply
      simp only [hreply]
      exact .fault hanswer (Or.inl rfl)
    | endOfInput =>
      cases hpolicy : m.endPolicy with
      | fail =>
        have hstopped : m.Stopped (.act .input count :: rest)
            ⟨some .noInput, m.withStreams m.streams.read.2⟩ := .noInput hpolicy hreply
        simp only [withStreams, hpolicy] at hstopped
        simp only [hreply]
        exact hstopped
      | zero =>
        simp only [hreply, hpolicy] at h
        cases h
      | keep =>
        simp only [hreply, hpolicy] at h
        cases h

/-- A step that ends with an error has failed in one of these ways. -/
theorem step_stopped {o : Outcome} {error : RuntimeError} (h : m.step todo = .halt o)
    (herror : o.error? = some error) : m.Stopped todo o := by
  cases todo with
  | nil =>
    cases h
    cases herror
  | cons node rest =>
    cases node with
    | loop body =>
      rw [step_loop] at h
      cases h
    | act action count =>
      rw [step_act] at h
      cases hperform : (m.perform action count).error? with
      | none =>
        rw [hperform] at h
        cases h
      | some error' =>
        rw [hperform] at h
        cases h
        exact perform_stopped hperform rest

/-- With the pointer on the tape, a step that fails leaves tape and pointer as they were. -/
theorem Stopped.same_place {o : Outcome} (h : m.Stopped todo o)
    (hpointer : m.pointer < m.tape.length) :
    o.machine.tape = m.tape ∧ o.machine.pointer = m.pointer := by
  cases h with
  | offTape _ => exact ⟨rfl, rfl⟩
  | noInput _ _ => exact ⟨rfl, rfl⟩
  | fault _ htape =>
    refine ⟨?_, rfl⟩
    rcases htape with htape | htape
    · exact htape
    · -- the cell was looked at before the first byte, but it lies on the tape
      rw [Tape.growTo_of_lt hpointer] at htape
      exact htape

end Machine

/-! ## Causes -/

/-- A fault that answers a request is the reply to the last call. -/
theorem Exchange.caused {request : Request} {fault : Fault} {calls : List Call}
    (h : Exchange request (.fault fault) calls) (program : Program) (m : Machine)
    (before : List Call) : RuntimeError.Caused program m (calls ++ before) (.stream fault) := by
  generalize hanswer : Answer.fault fault = answer at h
  cases h with
  | nothing => cases hanswer
  | @received reply tries _ hreply =>
    cases reply with
    | byte value => cases hanswer
    | endOfInput => cases hanswer
    | fault fault' =>
      cases hanswer
      refine Or.inl ⟨?_, rfl⟩
      intro hkind
      simp [ReadReply.isInterruption, hkind] at hreply
  | @broken byte count taken reply fault' replies _ _ hlast hreply =>
    cases hanswer
    exact Or.inr (Or.inl ⟨byte, reply, rfl, hlast, hreply⟩)
  | flushed reply _ =>
    cases reply with
    | done => cases hanswer
    | fault fault' =>
      cases hanswer
      exact Or.inr (Or.inr List.mem_cons_self)

/-- A flush on top changes neither the last read nor the last write. -/
theorem RuntimeError.Caused.flush {program : Program} {m m' : Machine} {calls : List Call}
    {error : RuntimeError} (h : error.Caused program m calls) (hpointer : m'.pointer = m.pointer)
    (hpolicy : m'.endPolicy = m.endPolicy) (reply : FlushReply) :
    error.Caused program m' (.flush reply :: calls) := by
  cases error with
  | offTape pointer delta =>
    rcases h with ⟨hplace, hmem, hrange⟩
    exact ⟨hpointer.trans hplace, hmem, hrange⟩
  | noInput =>
    rcases h with ⟨hfail, hread⟩
    exact ⟨hpolicy.trans hfail, hread⟩
  | stream fault =>
    rcases h with hread | hwrite | hflush
    · exact Or.inl hread
    · exact Or.inr (Or.inl hwrite)
    · exact Or.inr (Or.inr (List.mem_cons_of_mem _ hflush))

namespace Machine

variable {program : Program} {m : Machine} {o : Outcome} {error : RuntimeError} {size : CellSize}
  {policy : EndPolicy}

/-- The error of an execution has its cause in the calls of that execution. -/
theorem caused_of_execute {steps : Nat} (hinv : m.Inv size policy)
    (h : execute steps program m = some o) (herror : o.error? = some error) :
    ∃ calls, o.machine.streams.trace = calls ++ m.streams.trace ∧
      error.Caused program o.machine calls := by
  obtain ⟨todo, before, hleads, hhalt⟩ := leadsTo_of_execute h
  obtain ⟨earlier, hearlier⟩ := hleads.extends_streams
  have hstopped := step_stopped hhalt herror
  cases hstopped with
  | @offTape delta rest htarget =>
    cases herror
    have hrange := (target?_eq_none_iff (hleads.inv hinv).addressable).mp htarget
    refine ⟨earlier, hearlier.symm, rfl, hleads.actions_subset List.mem_cons_self, ?_⟩
    simp only [addressLimit] at hrange
    omega
  | @noInput count rest hpolicy hreply =>
    cases herror
    obtain ⟨calls, htrace, hexchange⟩ := before.streams.exchange_answer .receive
    have hanswer : (before.streams.answer .receive).1 = .endOfInput := congrArg Answer.ofRead hreply
    refine ⟨calls ++ earlier, ?_, hpolicy, ?_⟩
    · rw [List.append_assoc, hearlier]
      exact htrace
    · rw [hanswer] at hexchange
      generalize hend : Answer.endOfInput = answer at hexchange
      cases hexchange with
      | @received reply tries _ _ =>
        have hreply' : reply = .endOfInput := Answer.ofRead_injective hend.symm
        rw [hreply']
        rfl
  | @fault node rest fault tape hanswer htape =>
    cases herror
    obtain ⟨calls, htrace, hexchange⟩ :=
      before.streams.exchange_answer (before.request (node :: rest))
    rw [hanswer] at hexchange
    refine ⟨calls ++ earlier, ?_, hexchange.caused program _ earlier⟩
    rw [List.append_assoc, hearlier]
    exact htrace

/-- The error of a run has its cause in the calls of that run, the last flush included. -/
theorem caused_of_run {steps : Nat} (hinv : m.Inv size policy)
    (h : run steps program m = some o) (herror : o.error? = some error) :
    ∃ calls, o.machine.streams.trace = calls ++ m.streams.trace ∧
      error.Caused program o.machine calls := by
  obtain ⟨e, he, rfl⟩ := Option.map_eq_some_iff.mp h
  obtain ⟨reply, hfault, hlast⟩ := settle_calls e
  cases hexecute : e.error? with
  | some error' =>
    -- the error of the execution comes before that of the flush
    have hsame : error' = error := by
      simp only [settle, hexecute] at herror
      exact Option.some.inj herror
    subst hsame
    obtain ⟨calls, htrace, hcaused⟩ := caused_of_execute hinv he hexecute
    refine ⟨.flush reply :: calls, ?_, hcaused.flush rfl rfl reply⟩
    rw [hlast, htrace, List.cons_append]
  | none =>
    obtain ⟨calls, htrace⟩ := extends_execute he
    refine ⟨.flush reply :: calls, ?_, ?_⟩
    · rw [hlast, List.cons_append, htrace]
    · simp only [settle, hexecute, hfault] at herror
      cases reply with
      | done => cases herror
      | fault fault =>
        cases herror
        exact Or.inr (Or.inr List.mem_cons_self)

/-! ## Nodes behind a failure -/

/-- The transition with more nodes behind those still to do. -/
def Transition.append (more : Program) : Transition → Transition
  | .next todo m => .next (todo ++ more) m
  | .halt o => .halt o

/-- A step looks at the first node only. -/
theorem step_append (m : Machine) (node : Node) (rest more : Program) :
    m.step (node :: rest ++ more) = (m.step (node :: rest)).append more := by
  rw [List.cons_append]
  cases node with
  | act action count =>
    rw [step_act, step_act]
    cases (m.perform action count).error? with
    | none => rfl
    | some error => rfl
  | loop body =>
    rw [step_loop, step_loop]
    split
    · rfl
    · simp only [Transition.append, List.append_assoc, List.cons_append]

/-- Nodes behind a failure are never executed. -/
theorem execute_append_of_error {steps : Nat} {todo : Program}
    (h : execute steps todo m = some o) (herror : o.error? = some error) (more : Program) :
    execute steps (todo ++ more) m = some o := by
  induction steps generalizing todo m with
  | zero => cases h
  | succ steps ih =>
    cases todo with
    | nil =>
      -- no nodes, no failure
      cases h
      cases herror
    | cons node rest =>
      unfold execute at h ⊢
      rw [step_append]
      cases hstep : m.step (node :: rest) with
      | next todo' m' =>
        rw [hstep] at h
        exact ih h
      | halt o' =>
        rw [hstep] at h
        exact h

/-- A failure in the body of a loop is a failure of the loop. -/
theorem execute_loop_of_error {steps : Nat} {body : Program}
    (h : execute steps body m = some o) (herror : o.error? = some error)
    (hpointer : m.pointer < m.tape.length) (hcell : m.tape.cell m.pointer ≠ 0) (more : Program) :
    execute (steps + 1) (.loop body :: more) m = some o := by
  have hgrow : m.tape.growTo m.pointer = m.tape := Tape.growTo_of_lt hpointer
  have hstep : m.step (.loop body :: more) = .next (body ++ .loop body :: more) m := by
    rw [step_loop, if_neg hcell, hgrow]
  unfold execute
  rw [hstep]
  exact execute_append_of_error h herror (.loop body :: more)

end Machine

/-- Every error has its cause, and nothing happens after it. On a machine that a session has left:

* if `execute` or `run` ends with an error, the calls that it made and the program account for it;
* if `execute` ends with an error, tape and pointer are those before the node that failed, and
  whatever nodes stand behind the program or around it, the outcome is the same. -/
theorem failure_sound (length : Nat) (size : CellSize) (policy : EndPolicy) (streams : Streams)
    (m : Machine)
    (hm : Session.Reaches (.idle (.fresh (.zeros length size) policy streams)) (.idle m))
    (program : Program) (steps : Nat) (o : Outcome) (error : RuntimeError)
    (herror : o.error? = some error) :
    (Machine.execute steps program m = some o ∨ Machine.run steps program m = some o →
      ∃ calls, o.machine.streams.trace = calls ++ m.streams.trace ∧
        error.Caused program o.machine calls) ∧
    (Machine.execute steps program m = some o →
      (∃ node rest before, Machine.LeadsTo program m (node :: rest) before ∧
        before.step (node :: rest) = .halt o ∧
        o.machine.tape = before.tape ∧ o.machine.pointer = before.pointer) ∧
      (∀ more, Machine.execute steps (program ++ more) m = some o) ∧
      (m.tape.cell m.pointer ≠ 0 →
        ∀ more, Machine.execute (steps + 1) (.loop program :: more) m = some o)) := by
  have hinv : m.Inv size policy :=
    (Session.reaches_inv hm (Machine.inv_fresh length size policy streams)).1
  constructor
  · intro h
    rcases h with h | h
    · exact Machine.caused_of_execute hinv h herror
    · exact Machine.caused_of_run hinv h herror
  · intro h
    obtain ⟨todo, before, hleads, hhalt⟩ := Machine.leadsTo_of_execute h
    have hstopped := Machine.step_stopped hhalt herror
    have hplace := hstopped.same_place (hleads.inv hinv).pointer_lt
    refine ⟨?_, ?_, ?_⟩
    · cases todo with
      | nil => cases hstopped
      | cons node rest => exact ⟨node, rest, before, hleads, hhalt, hplace⟩
    · intro more
      exact Machine.execute_append_of_error h herror more
    · intro hcell more
      exact Machine.execute_loop_of_error h herror hinv.pointer_lt hcell more

/-- A sink that takes one byte, is interrupted, and then takes no more, in the body of a loop. The
node behind the loop is not reached. -/
theorem failure_sound_stalled :
    ∃ o : Outcome, o.error? = some (.stream .stalled) ∧
      o.machine.streams.trace =
        [.write 65 .stalled, .write 65 (.fault .interruption), .write 65 .accepted] ∧
      RuntimeError.Caused [.act .add 65, .loop [.act .output 3, .act .move (-1)]] o.machine
        o.machine.streams.trace (.stream .stalled) ∧
      Machine.execute 3
        [.act .add 65, .loop [.act .output 3, .act .move (-1)], .act .input 1]
        (.fresh (.zeros 0 .bits8) .fail
          ⟨[], [.accepted, .fault .interruption, .stalled], [], []⟩) = some o := by
  generalize ho : (⟨some (.stream .stalled), ⟨⟨#[65], .bits8⟩, 0, .fail, ⟨[], [], [],
    [.write 65 .stalled, .write 65 (.fault .interruption), .write 65 .accepted]⟩, []⟩⟩ :
    Outcome) = o
  have hexecute : Machine.execute 3 [.act .add 65, .loop [.act .output 3, .act .move (-1)]]
      (.fresh (.zeros 0 .bits8) .fail
        ⟨[], [.accepted, .fault .interruption, .stalled], [], []⟩) = some o := by
    rw [← ho]
    rfl
  have herror : o.error? = some (.stream .stalled) := by rw [← ho]
  have hsound := failure_sound 0 .bits8 .fail
    ⟨[], [.accepted, .fault .interruption, .stalled], [], []⟩ _ .refl
    [.act .add 65, .loop [.act .output 3, .act .move (-1)]] 3 o (.stream .stalled) herror
  obtain ⟨calls, htrace, hcaused⟩ := hsound.1 (Or.inl hexecute)
  refine ⟨o, herror, by rw [← ho], ?_, (hsound.2 hexecute).2.1 [.act .input 1]⟩
  have hcalls : o.machine.streams.trace = calls := by
    rw [htrace]
    exact List.append_nil calls
  rw [hcalls]
  exact hcaused

end TapeMachine
