import Mathlib.Algebra.Order.BigOperators.Group.List
import Mathlib.Algebra.Order.Ring.Int
import TapeMachine.Proofs.Streams

/-! # Folding a run into one action

A run of characters of one action is carried out step by step by `Machine.performEach`, and all at
once by `Machine.perform` with the sum of the steps. With a sink that never fails the two cannot be
told apart, with one exception: a run of moves may leave the tape on its way and come back. Then the
steps stop off the tape and the single move does not notice (`performEach_alike`).

A run is folded from the left, so all that is needed for each action is that two in a row are one
(`perform_perform`).
-/

namespace TapeMachine

/-! ## Model -/

/-- Carries out one action with each of the steps, up to the first error. -/
def Machine.performEach (m : Machine) (action : Action) : List Int → Outcome
  | [] => ⟨none, m⟩
  | step :: steps =>
    match m.perform action step with
    | ⟨none, m⟩ => m.performEach action steps
    | stopped => stopped

/-- The machine stopped because a move led off the tape. -/
def Outcome.OffTape (o : Outcome) : Prop :=
  ∃ pointer delta, o.error? = some (.offTape pointer delta)

/-- From `m` on, the machine stopped off the tape before it read or wrote anything. -/
structure Machine.Stranded (m : Machine) (o : Outcome) : Prop where
  offTape : o.OffTape
  output_eq : o.machine.streams.output = m.streams.output
  consumed_eq : o.machine.streams.consumed = m.streams.consumed

/-! ## Alike outcomes -/

theorem Machine.Alike.refl {m : Machine} (h : m.streams.Reliable) :
    Machine.Alike Streams.SameTraffic m m :=
  ⟨.refl m.tape, rfl, rfl, .refl h⟩

theorem Machine.Alike.trans {m m' m'' : Machine} (h : Machine.Alike Streams.SameTraffic m m')
    (h' : Machine.Alike Streams.SameTraffic m' m'') :
    Machine.Alike Streams.SameTraffic m m'' :=
  ⟨h.tape.trans h'.tape, h.pointer_eq.trans h'.pointer_eq, h.endPolicy_eq.trans h'.endPolicy_eq,
    h.streams.trans h'.streams⟩

theorem Outcome.Alike.trans {o o' o'' : Outcome} (h : Outcome.Alike Streams.SameTraffic o o')
    (h' : Outcome.Alike Streams.SameTraffic o' o'') :
    Outcome.Alike Streams.SameTraffic o o'' :=
  ⟨h.error_eq.trans h'.error_eq, h.machine.trans h'.machine⟩

/-- An outcome alike to one off the tape is off the tape. -/
theorem Outcome.OffTape.of_alike {R : Streams → Streams → Prop} {o o' : Outcome}
    (h : o'.OffTape) (halike : Outcome.Alike R o o') : o.OffTape := by
  rcases h with ⟨pointer, delta, h⟩
  exact ⟨pointer, delta, halike.error_eq.trans h⟩

/-! ## Two in a row are one -/

/-- The cell that is added to, as a number modulo `2 ^ bits`. -/
theorem Tape.cell_add_self (t : Tape) (index : Nat) (delta : Int) :
    ((t.add index delta).cell index : Int) = (t.cell index + delta) % t.cellSize.modulus := by
  have hpos : (t.cellSize.modulus : Int) ≠ 0 := by
    have h := t.cellSize.modulus_pos
    omega
  rw [cell_add, if_pos rfl]
  push_cast
  rw [Int.toNat_of_nonneg (Int.emod_nonneg delta hpos), Int.add_emod_emod]

/-- Adding twice is adding the sum. -/
theorem Tape.add_add (t : Tape) (index : Nat) (delta delta' : Int) :
    SameRow ((t.add index delta).add index delta') (t.add index (delta + delta')) := by
  constructor
  · simp
  · intro i
    by_cases hi : index = i
    · subst hi
      apply Int.natCast_inj.mp
      rw [cell_add_self, cell_add_self, cell_add_self, cellSize_add, Int.emod_add_emod,
        Int.add_assoc]
    · simp only [cell_add, if_neg hi]

namespace Machine

variable {m m' : Machine}

/-- A move that succeeds leads from an addressable cell to another, the sum, and keeps the row and
the streams. -/
theorem move_eq_none {delta : Int} (h : m.move delta = ⟨none, m'⟩) :
    (m.pointer < addressLimit ∧ m'.pointer < addressLimit ∧
        (m'.pointer : Int) = m.pointer + delta) ∧
      m'.tape.SameRow m.tape ∧ m'.endPolicy = m.endPolicy ∧ m'.streams = m.streams := by
  unfold move at h
  cases htarget : target? m.pointer delta with
  | none =>
    rw [htarget] at h
    cases h
  | some target =>
    rw [htarget] at h
    cases h
    exact ⟨target?_eq_some_iff.mp htarget, ⟨by simp, by simp⟩, rfl, rfl⟩

/-- A move that fails leaves the machine as it was. -/
theorem move_eq_some {delta : Int} {e : RuntimeError} (h : (m.move delta).error? = some e) :
    m.Stranded (m.move delta) := by
  unfold move at *
  cases htarget : target? m.pointer delta with
  | none => exact ⟨⟨_, _, rfl⟩, rfl, rfl⟩
  | some target =>
    rw [htarget] at h
    cases h

/-- A machine stranded after a move is stranded before it. -/
theorem Stranded.of_move {o : Outcome} (h : m'.Stranded o) {delta : Int}
    (hmove : m.move delta = ⟨none, m'⟩) : m.Stranded o := by
  have hstreams := (move_eq_none hmove).2.2.2
  rcases h with ⟨hoff, houtput, hconsumed⟩
  rw [hstreams] at houtput hconsumed
  exact ⟨hoff, houtput, hconsumed⟩

/-- An outcome alike to a stranded one is stranded. -/
theorem Stranded.of_alike {o o' : Outcome} (h : m.Stranded o')
    (halike : Outcome.Alike Streams.SameTraffic o o') : m.Stranded o where
  offTape := h.offTape.of_alike halike
  output_eq := halike.machine.streams.output_eq.trans h.output_eq
  consumed_eq := halike.machine.streams.consumed_eq.trans h.consumed_eq

/-- Moving twice is moving by the sum, if the first move succeeds. -/
theorem move_move (hm : m.streams.Reliable) {delta delta' : Int} (h : m.move delta = ⟨none, m'⟩) :
    (m'.move delta').OffTape ∨
      Outcome.Alike Streams.SameTraffic (m'.move delta') (m.move (delta + delta')) := by
  rcases move_eq_none h with ⟨⟨hstart, hmiddle, hsum⟩, htape, hpolicy, hstreams⟩
  have htarget : target? m'.pointer delta' = target? m.pointer (delta + delta') := by
    -- the cell in between is addressable, so both moves fail or succeed by their end alone
    apply Option.ext
    intro target
    simp only [target?_eq_some_iff, hstart, hmiddle, hsum, Int.add_assoc]
  unfold move
  rw [htarget]
  cases target? m.pointer (delta + delta') with
  | none => exact Or.inl ⟨_, _, rfl⟩
  | some target =>
    right
    refine ⟨rfl, htape.growTo target target, rfl, hpolicy, ?_⟩
    simp only [hstreams]
    exact .refl hm

/-- Adding twice is adding the sum. -/
theorem add_add (hm : m.streams.Reliable) (delta delta' : Int) :
    Outcome.Alike Streams.SameTraffic ((m.add delta).machine.add delta')
      (m.add (delta + delta')) := by
  unfold add
  exact ⟨rfl, m.tape.add_add m.pointer delta delta', rfl, rfl, .refl hm⟩

/-- With a reliable sink a write always succeeds. -/
theorem write_eq (hm : m.streams.Reliable) (count : Int) :
    ∃ s, m.write count = ⟨none, { m with tape := m.tape.growTo m.pointer, streams := s }⟩ ∧
      Streams.Wrote (List.replicate count.toNat (UInt8.ofNat (m.tape.cell m.pointer)))
        m.streams s := by
  rcases hm.writeMany (UInt8.ofNat (m.tape.cell m.pointer)) count.toNat with ⟨hnone, hwrote⟩
  unfold write
  simp only [Tape.get_fst, Tape.get_snd]
  generalize m.streams.writeMany _ _ = r at *
  rcases r with ⟨fault?, s⟩
  cases hnone
  rcases hwrote.reliable.flush with ⟨hnone, hflushed⟩
  refine ⟨s.flush.2, ?_, ?_⟩
  · simp only [hnone, Option.map_none]
  · have h := hwrote.trans hflushed
    rwa [List.append_nil] at h

/-- Writing twice is writing the sum, and one flush more. -/
theorem write_write (hm : m.streams.Reliable) {count count' : Int} (hcount : 0 ≤ count)
    (hcount' : 0 ≤ count') (h : m.write count = ⟨none, m'⟩) :
    Outcome.Alike Streams.SameTraffic (m'.write count') (m.write (count + count')) := by
  rcases write_eq hm count with ⟨s, hs, hwrote⟩
  rw [h] at hs
  injection hs with _ heq
  have hm' : m'.streams.Reliable := by
    rw [heq]
    exact hwrote.reliable
  rcases write_eq hm' count' with ⟨s', hs', hwrote'⟩
  rcases write_eq hm (count + count') with ⟨s'', hs'', hwrote''⟩
  rw [hs', hs'']
  subst heq
  refine ⟨rfl, ⟨by simp, by simp⟩, rfl, rfl, ?_⟩
  -- the byte is the same each time, since writing does not change the row
  have hboth := hwrote.trans hwrote'
  rw [Tape.cell_growTo, List.replicate_append_replicate, ← Int.toNat_add hcount hcount'] at hboth
  exact (Streams.SameTraffic.refl hm).wrote hboth hwrote''

/-- An action other than a read, carried out twice, is the action with the sum of the counts. -/
theorem perform_perform (hm : m.streams.Reliable) {action : Action} (hinput : action ≠ .input)
    {count count' : Int} (hcount : action = .output → 0 ≤ count)
    (hcount' : action = .output → 0 ≤ count') (h : m.perform action count = ⟨none, m'⟩) :
    (m'.perform action count').OffTape ∨
      Outcome.Alike Streams.SameTraffic (m'.perform action count')
        (m.perform action (count + count')) := by
  cases action with
  | move => exact move_move hm h
  | add =>
    cases h
    exact Or.inr (add_add hm count count')
  | output =>
    simp only [perform] at h ⊢
    exact Or.inr (write_write hm (hcount rfl) (hcount' rfl) h)
  | input => exact absurd rfl hinput

/-- With a reliable sink only moves and reads can fail. -/
theorem perform_eq_some (hm : m.streams.Reliable) {action : Action} (hinput : action ≠ .input)
    {count : Int} {e : RuntimeError} (h : (m.perform action count).error? = some e) :
    action = .move ∧ m.Stranded (m.perform action count) := by
  cases action with
  | move => exact ⟨rfl, move_eq_some h⟩
  | add => cases h
  | output =>
    rcases write_eq hm count with ⟨s, hs, _⟩
    simp only [perform, hs] at h
    cases h
  | input => exact absurd rfl hinput

/-! ## A whole run -/

/-- A first step that succeeds hands the machine on. -/
theorem performEach_cons_none {action : Action} {step : Int} (h : m.perform action step = ⟨none, m'⟩)
    (steps : List Int) : m.performEach action (step :: steps) = m'.performEach action steps := by
  simp only [performEach, h]

/-- A first step that fails is the end. -/
theorem performEach_cons_some {action : Action} {step : Int} {e : RuntimeError}
    (h : (m.perform action step).error? = some e) (steps : List Int) :
    m.performEach action (step :: steps) = m.perform action step := by
  unfold performEach
  rcases hperform : m.perform action step with ⟨_ | e', m'⟩
  · rw [hperform] at h
    cases h
  · rfl

/-- A run of steps is the action with their sum, or a run of moves that leaves the tape. -/
theorem performEach_alike {action : Action} (hinput : action ≠ .input) {steps : List Int}
    (hne : steps ≠ []) (hsteps : action = .output → ∀ step ∈ steps, 0 ≤ step)
    (hm : m.streams.Reliable) :
    (action = .move ∧ m.Stranded (m.performEach action steps)) ∨
      Outcome.Alike Streams.SameTraffic (m.performEach action steps)
        (m.perform action steps.sum) := by
  induction steps generalizing m with
  | nil => exact absurd rfl hne
  | cons step steps ih =>
    have halike := perform_alike streamSimulation_sameTraffic (.refl hm) action step
    rcases hperform : m.perform action step with ⟨_ | e, m'⟩
    · -- the first step succeeds: fold the others, then the first into their sum
      rw [performEach_cons_none hperform]
      have hm' : m'.streams.Reliable := by
        have h := halike.machine.streams.left_reliable
        rwa [hperform] at h
      by_cases hnil : steps = []
      · subst hnil
        right
        simp only [List.sum_cons, List.sum_nil, Int.add_zero, performEach, hperform]
        exact ⟨rfl, .refl hm'⟩
      · have hsteps' : action = .output → ∀ s ∈ steps, 0 ≤ s :=
          fun h s hs => hsteps h s (by simp [hs])
        rcases ih hnil hsteps' hm' with ⟨hmove, hstranded⟩ | hrest
        · subst hmove
          exact Or.inl ⟨rfl, hstranded.of_move hperform⟩
        · have hsum : action = .output → 0 ≤ steps.sum :=
            fun h => List.sum_nonneg (hsteps' h)
          have hstep : action = .output → 0 ≤ step := fun h => hsteps h step (by simp)
          rcases perform_perform hm hinput hstep hsum hperform with hoff | hboth
          · -- the sum of the others leads off the tape, so they do
            rcases hoff with ⟨pointer, delta, herror⟩
            rcases perform_eq_some hm' hinput herror with ⟨hmove, hstranded⟩
            subst hmove
            exact Or.inl ⟨rfl, (hstranded.of_alike hrest).of_move hperform⟩
          · right
            rw [List.sum_cons]
            exact hrest.trans hboth
    · -- the first step fails, and with it the run
      left
      have herror : (m.perform action step).error? = some e := by rw [hperform]
      rw [performEach_cons_some herror]
      exact perform_eq_some hm hinput herror

end Machine

end TapeMachine
