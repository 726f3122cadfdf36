import Mathlib.Logic.Relation
import TapeMachine.Proofs.Simulation

/-! # Sessions

A machine may be used for any number of calls, one after the other, and stays as each call left it,
also after an error. A session is that machine together with the call it is in.

* `Session.Step`: a call begins, one of its nodes is executed, or it ends; a state inside a call is
  a state like any other;
* `Machine.Inv`: the pointer lies on the tape and is addressable, every cell is in range, and cell
  size and policy are the ones given at the start;
* `step_inv` and `reaches_inv`: one step, and then a whole session, keeps the invariant;
* `session_sound`: so the tape never gets shorter, only a move lengthens it, and no cell off the
  tape is ever used.
-/

namespace TapeMachine

/-! ## Model -/

/-- The two ways to have a program executed: `run` flushes the sink at the end. -/
inductive Method where
  | execute
  | run
deriving DecidableEq, Repr

/-- Where a session stands: between two calls, or in a call with nodes still to do. -/
inductive Phase where
  | idle
  | busy (method : Method) (todo : Program)
deriving DecidableEq, Repr

/-- A machine and the call it is in. -/
structure Session where
  phase : Phase
  machine : Machine
deriving DecidableEq, Repr

namespace Session

/-- A machine between two calls. -/
def idle (m : Machine) : Session := ⟨.idle, m⟩

/-- The machine that a call leaves. -/
def left (method : Method) (o : Outcome) : Machine :=
  match method with
  | .execute => o.machine
  | .run => (Machine.settle o).machine

/-- One step of a session. -/
inductive Step : Session → Session → Prop where
  | call (m : Machine) (method : Method) (program : Program) :
      Step (idle m) ⟨.busy method program, m⟩
  | node {m m' : Machine} {method : Method} {todo todo' : Program} :
      m.step todo = .next todo' m' → Step ⟨.busy method todo, m⟩ ⟨.busy method todo', m'⟩
  | stop {m : Machine} {method : Method} {todo : Program} {o : Outcome} :
      m.step todo = .halt o → Step ⟨.busy method todo, m⟩ (idle (left method o))

/-- Any number of steps of a session. -/
abbrev Reaches : Session → Session → Prop := Relation.ReflTransGen Step

/-- A call that halts within some number of steps is a part of a session. -/
theorem reaches_of_execute {steps : Nat} {method : Method} {todo : Program} {m : Machine}
    {o : Outcome} (h : Machine.execute steps todo m = some o) :
    Reaches ⟨.busy method todo, m⟩ (idle (left method o)) := by
  induction steps generalizing todo m with
  | zero => cases h
  | succ steps ih =>
    unfold Machine.execute at h
    cases hstep : m.step todo with
    | next todo' m' =>
      rw [hstep] at h
      exact .head (.node hstep) (ih h)
    | halt o' =>
      rw [hstep] at h
      cases h
      exact .single (.stop hstep)

/-- The machine that `execute` leaves is reached. -/
theorem reaches_execute {steps : Nat} {program : Program} {m : Machine} {o : Outcome}
    (h : Machine.execute steps program m = some o) : Reaches (idle m) (idle o.machine) :=
  .head (.call m .execute program) (reaches_of_execute h)

/-- The machine that `run` leaves is reached. -/
theorem reaches_run {steps : Nat} {program : Program} {m : Machine} {o : Outcome}
    (h : Machine.run steps program m = some o) : Reaches (idle m) (idle o.machine) := by
  rcases Option.map_eq_some_iff.mp h with ⟨o', ho', rfl⟩
  exact .head (.call m .run program) (reaches_of_execute ho')

end Session

/-! ## What one node does -/

/-- What an action other than a move leaves of a tape: at most one cell is looked at or stored
to. -/
inductive Tape.EditedAt (t : Tape) (index : Nat) : Tape → Prop where
  | untouched : EditedAt t index t
  | looked : EditedAt t index (t.growTo index)
  | stored (value : Nat) : EditedAt t index (t.set index value)

/-- What a step at a node, if there is one, leaves of a machine: a move leads to its target, an
addressable cell, and everything else happens at the current cell. -/
inductive Machine.Effect (m : Machine) (node? : Option Node) (m' : Machine) : Prop where
  | moved {delta : Int} (target : Nat) :
      node? = some (.act .move delta) → target < addressLimit → m'.pointer = target →
      m'.tape = m.tape.growTo target → m'.endPolicy = m.endPolicy → Effect m node? m'
  | stayed :
      m'.pointer = m.pointer → m.tape.EditedAt m.pointer m'.tape →
      m'.endPolicy = m.endPolicy → Effect m node? m'

namespace Machine

/-- Every action has an effect of this kind, whether it fails or not. -/
theorem perform_effect (m : Machine) (action : Action) (count : Int) :
    m.Effect (some (.act action count)) (m.perform action count).machine := by
  cases action with
  | move =>
    unfold perform move
    cases htarget : target? m.pointer count with
    | none =>
      -- a move off the tape fails before it does anything
      exact .stayed rfl .untouched rfl
    | some target =>
      obtain ⟨-, haddress, -⟩ := target?_eq_some_iff.mp htarget
      exact .moved target rfl haddress rfl rfl rfl
  | add =>
    refine .stayed rfl ?_ rfl
    simp only [perform, add, Tape.add_eq_set]
    exact .stored _
  | output =>
    unfold perform write
    simp only [Tape.get_fst, Tape.get_snd]
    -- the cell is looked at before the first byte, so also if a write fails
    rcases m.streams.writeMany (UInt8.ofNat (m.tape.cell m.pointer)) count.toNat
      with ⟨_ | fault, streams⟩
    · exact .stayed rfl .looked rfl
    · exact .stayed rfl .looked rfl
  | input =>
    unfold perform read
    rcases m.streams.read with ⟨reply, streams⟩
    cases reply with
    | byte value => exact .stayed rfl (.stored _) rfl
    | fault fault => exact .stayed rfl .untouched rfl
    | endOfInput =>
      cases hpolicy : m.endPolicy with
      | fail => exact .stayed rfl .untouched hpolicy.symm
      | zero => exact .stayed rfl (.stored _) hpolicy.symm
      | keep => exact .stayed rfl .untouched hpolicy.symm

/-- A step has the effect of the first node, whether it goes on or stops. -/
theorem step_effect (m : Machine) (todo : Program) :
    m.Effect todo.head? (m.step todo).machine := by
  cases todo with
  | nil => exact .stayed rfl .untouched rfl
  | cons node rest =>
    cases node with
    | act action count =>
      rw [machine_step_act]
      exact m.perform_effect action count
    | loop body =>
      rw [step_loop]
      exact .stayed rfl .looked rfl

/-- The last flush has no effect on tape and pointer. -/
theorem Effect.settle {m : Machine} {node? : Option Node} {o : Outcome}
    (h : m.Effect node? o.machine) : m.Effect node? (settle o).machine := by
  cases h with
  | moved target hnode haddress hpointer htape hpolicy =>
    exact .moved target hnode haddress hpointer htape hpolicy
  | stayed hpointer htape hpolicy => exact .stayed hpointer htape hpolicy

end Machine

/-- The node that the next step of a session executes. -/
def Session.node? (s : Session) : Option Node :=
  match s.phase with
  | .idle => none
  | .busy _ todo => todo.head?

/-- Only inside a call is there a node to execute. -/
theorem Session.phase_of_node? {s : Session} {node : Node} (h : s.node? = some node) :
    ∃ method rest, s.phase = .busy method (node :: rest) := by
  rcases s with ⟨_ | ⟨method, todo⟩, m⟩
  · cases h
  · rcases List.head?_eq_some_iff.mp h with ⟨rest, rfl⟩
    exact ⟨method, rest, rfl⟩

/-- A step of a session has the effect of the node it executes. -/
theorem Session.Step.effect {s s' : Session} (h : Session.Step s s') :
    s.machine.Effect s.node? s'.machine := by
  cases h with
  | call m method program => exact .stayed rfl .untouched rfl
  | @node m m' method todo todo' hstep =>
    have heffect := m.step_effect todo
    rw [hstep] at heffect
    exact heffect
  | @stop m method todo o hstep =>
    have heffect := m.step_effect todo
    rw [hstep] at heffect
    cases method with
    | execute => exact heffect
    | run => exact heffect.settle

/-! ## The invariant -/

/-- The pointer lies on the tape and is addressable, every cell is in range, and cell size and
policy are as given. -/
structure Machine.Inv (size : CellSize) (policy : EndPolicy) (m : Machine) : Prop where
  pointer_lt : m.pointer < m.tape.length
  addressable : m.pointer < addressLimit
  cell_lt : ∀ i, m.tape.cell i < size.modulus
  cellSize_eq : m.tape.cellSize = size
  endPolicy_eq : m.endPolicy = policy

namespace Tape.EditedAt

variable {t t' : Tape} {index : Nat}

theorem cellSize_eq (h : t.EditedAt index t') : t'.cellSize = t.cellSize := by
  cases h with
  | untouched => rfl
  | looked => exact t.cellSize_growTo index
  | stored value => exact t.cellSize_set index value

/-- An edit at an index on the tape keeps the length. -/
theorem length_eq (h : t.EditedAt index t') (hindex : index < t.length) :
    t'.length = t.length := by
  cases h with
  | untouched => rfl
  | looked => rw [growTo_of_lt hindex]
  | stored value => rw [length_set, growTo_of_lt hindex]

/-- An edit keeps cells in range. -/
theorem cell_lt (h : t.EditedAt index t') (hcell : ∀ i, t.cell i < t.cellSize.modulus) (i : Nat) :
    t'.cell i < t.cellSize.modulus := by
  cases h with
  | untouched => exact hcell i
  | looked =>
    rw [cell_growTo]
    exact hcell i
  | stored value =>
    rw [cell_set]
    split
    · exact Nat.mod_lt _ t.cellSize.modulus_pos
    · exact hcell i

end Tape.EditedAt

namespace Machine

variable {size : CellSize} {policy : EndPolicy} {m m' : Machine} {node? : Option Node}

/-- A fresh machine has the invariant. -/
theorem inv_fresh (length : Nat) (size : CellSize) (policy : EndPolicy) (streams : Streams) :
    Inv size policy (fresh (.zeros length size) policy streams) where
  pointer_lt := by
    show 0 < (Tape.zeros length size).length
    simp only [Tape.zeros, Tape.length, Array.size_replicate]
    omega
  addressable := by
    show 0 < addressLimit
    decide
  cell_lt := by
    intro i
    show (Tape.zeros length size).cell i < size.modulus
    rw [Tape.cell_zeros]
    exact size.modulus_pos
  cellSize_eq := rfl
  endPolicy_eq := rfl

/-- Every effect keeps the invariant. -/
theorem Inv.effect (hinv : Inv size policy m) (h : m.Effect node? m') : Inv size policy m' := by
  rcases hinv with ⟨hpointer, haddress, hcell, rfl, rfl⟩
  cases h with
  | moved target _ haddress' hpointer' htape hpolicy =>
    refine ⟨?_, ?_, ?_, ?_, hpolicy⟩
    · -- the tape has just been grown to the target
      rw [hpointer', htape]
      exact m.tape.lt_length_growTo target
    · rw [hpointer']
      exact haddress'
    · intro i
      rw [htape, Tape.cell_growTo]
      exact hcell i
    · rw [htape, Tape.cellSize_growTo]
  | stayed hpointer' hedit hpolicy =>
    refine ⟨?_, ?_, hedit.cell_lt hcell, hedit.cellSize_eq, hpolicy⟩
    · rw [hpointer', hedit.length_eq hpointer]
      exact hpointer
    · rw [hpointer']
      exact haddress

/-- With the pointer on the tape, no effect shortens the tape. -/
theorem Effect.length_le (hinv : Inv size policy m) (h : m.Effect node? m') :
    m.tape.length ≤ m'.tape.length := by
  cases h with
  | moved target _ _ _ htape _ =>
    rw [htape]
    exact m.tape.length_le_growTo target
  | stayed _ hedit _ => exact Nat.le_of_eq (hedit.length_eq hinv.pointer_lt).symm

/-- With the pointer on the tape, only a move lengthens the tape. -/
theorem Effect.move_of_length_ne (hinv : Inv size policy m) (h : m.Effect node? m')
    (hlength : m'.tape.length ≠ m.tape.length) : ∃ delta, node? = some (.act .move delta) := by
  cases h with
  | @moved delta _ hnode _ _ _ _ => exact ⟨delta, hnode⟩
  | stayed _ hedit _ => exact absurd (hedit.length_eq hinv.pointer_lt) hlength

end Machine

/-! ## Whole sessions -/

namespace Session

variable {size : CellSize} {policy : EndPolicy} {s s' : Session}

/-- A step keeps the invariant. -/
theorem step_inv (h : Step s s') (hinv : s.machine.Inv size policy) :
    s'.machine.Inv size policy :=
  hinv.effect h.effect

/-- A session keeps the invariant, and its tape never gets shorter. -/
theorem reaches_inv (h : Reaches s s') (hinv : s.machine.Inv size policy) :
    s'.machine.Inv size policy ∧ s.machine.tape.length ≤ s'.machine.tape.length := by
  -- what the last step does to the length hangs on the invariant before it
  induction h with
  | refl => exact ⟨hinv, Nat.le_refl _⟩
  | tail _ hstep ih =>
    rcases ih with ⟨hinv', hle⟩
    exact ⟨step_inv hstep hinv', Nat.le_trans hle (hstep.effect.length_le hinv')⟩

end Session

/-- In every state of every session the tape has a cell, the pointer lies on it and is addressable,
cells are in range, and cell size and policy are the given ones. The tape never gets shorter, only a move lengthens it,
and looking at, storing to or adding to the current cell never does. Whatever `execute` and `run`
leave is such a state. -/
theorem session_sound (length : Nat) (size : CellSize) (policy : EndPolicy) (streams : Streams)
    (s : Session) (h : Session.Reaches (.idle (.fresh (.zeros length size) policy streams)) s) :
    (0 < s.machine.tape.length ∧ s.machine.Inv size policy) ∧
    (∀ s', Session.Reaches s s' → s.machine.tape.length ≤ s'.machine.tape.length) ∧
    (∀ s', Session.Step s s' → s'.machine.tape.length ≠ s.machine.tape.length →
      ∃ method delta rest, s.phase = .busy method (.act .move delta :: rest)) ∧
    ((s.machine.tape.get s.machine.pointer).2 = s.machine.tape ∧
      (∀ value, (s.machine.tape.set s.machine.pointer value).length = s.machine.tape.length) ∧
      (∀ delta, (s.machine.tape.add s.machine.pointer delta).length = s.machine.tape.length)) ∧
    (s.phase = .idle → ∀ steps program o,
      (Machine.execute steps program s.machine = some o → Session.Reaches s (.idle o.machine)) ∧
      (Machine.run steps program s.machine = some o → Session.Reaches s (.idle o.machine))) := by
  have hinv : s.machine.Inv size policy :=
    (Session.reaches_inv h (Machine.inv_fresh length size policy streams)).1
  have hgrow : s.machine.tape.growTo s.machine.pointer = s.machine.tape :=
    Tape.growTo_of_lt hinv.pointer_lt
  refine ⟨⟨Nat.zero_lt_of_lt hinv.pointer_lt, hinv⟩, ?_, ?_, ⟨hgrow, ?_, ?_⟩, ?_⟩
  · intro s' hs'
    exact (Session.reaches_inv hs' hinv).2
  · intro s' hs' hlength
    rcases hs'.effect.move_of_length_ne hinv hlength with ⟨delta, hnode⟩
    rcases Session.phase_of_node? hnode with ⟨method, rest, hphase⟩
    exact ⟨method, delta, rest, hphase⟩
  · intro value
    rw [Tape.length_set, hgrow]
  · intro delta
    rw [Tape.length_add, hgrow]
  · -- between two calls, the next call goes on from here
    rcases s with ⟨phase, m⟩
    rintro rfl steps program o
    exact ⟨Session.reaches_execute, Session.reaches_run⟩

/-- A session that grows its tape and then stops inside a loop with an error. -/
theorem session_sound_after_error :
    Session.Reaches (.idle (.fresh (.zeros 0 .bits4) .fail ⟨[], [], [], []⟩))
      (.idle
        ⟨⟨#[0, 0, 0, 0, 0, 15], .bits4⟩, 5, .fail, ⟨[], [], [], [.flush .done]⟩, [⟨1, 6, 5⟩]⟩) ∧
    Machine.Inv .bits4 .fail
      ⟨⟨#[0, 0, 0, 0, 0, 15], .bits4⟩, 5, .fail, ⟨[], [], [], [.flush .done]⟩, [⟨1, 6, 5⟩]⟩ := by
  have hrun : Machine.run 4 [.act .move 5, .act .add (-1), .loop [.act .move (-9)]]
      (.fresh (.zeros 0 .bits4) .fail ⟨[], [], [], []⟩) =
      some ⟨some (.offTape 5 (-9)),
        ⟨⟨#[0, 0, 0, 0, 0, 15], .bits4⟩, 5, .fail, ⟨[], [], [], [.flush .done]⟩, [⟨1, 6, 5⟩]⟩⟩ := by
    decide +kernel
  have hreaches := Session.reaches_run hrun
  exact ⟨hreaches, (session_sound 0 .bits4 .fail ⟨[], [], [], []⟩ _ hreaches).1.2⟩

end TapeMachine
