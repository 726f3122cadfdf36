import TapeMachine.Proofs.Simulation

/-! # Traffic on the streams

What calls add to the trace, and sinks that never fail.

* Calls only add to the trace (`Streams.Extends`), so what was written stays written and stands in
  front of what is written later (`Extends.output_prefix`).
* `Streams.Reliable`: no write and no flush fails. Writes may be interrupted, since those are made
  again.
* `Streams.Wrote bytes s s'`: all that happened to the streams is that the sink took `bytes`.
* `SameTraffic s s'`: reliable streams with the same input left, the same output and the same number
  of bytes read. They may differ in how often they were flushed.
-/

namespace TapeMachine

/-! ## The trace grows -/

/-- The read calls do not look at the trace: they put their records in front of it. -/
theorem readCalls_eq (reads : List ReadReply) (trace : List Call) :
    readCalls reads trace =
      ((readCalls reads []).1, (readCalls reads []).2.1, (readCalls reads []).2.2 ++ trace) := by
  induction reads generalizing trace with
  | nil => rfl
  | cons reply rest ih =>
    unfold readCalls
    split
    · -- an interruption: the call is made again
      rw [ih (.read reply :: trace), ih [.read reply]]
      simp
    · rfl

/-- The write calls do not look at the trace either. -/
theorem writeCalls_eq (byte : UInt8) (writes : List WriteReply) (trace : List Call) :
    writeCalls byte writes trace =
      ((writeCalls byte writes []).1, (writeCalls byte writes []).2.1,
        (writeCalls byte writes []).2.2 ++ trace) := by
  induction writes generalizing trace with
  | nil => rfl
  | cons reply rest ih =>
    unfold writeCalls
    split
    · rw [ih (.write byte reply :: trace), ih [.write byte reply]]
      simp
    · rfl

namespace Streams

/-- The calls of `s` are the first calls of `s'`. -/
def Extends (s s' : Streams) : Prop := s.trace <:+ s'.trace

namespace Extends

variable {s s' s'' : Streams}

theorem refl (s : Streams) : Extends s s := List.suffix_refl s.trace

theorem trans (h : Extends s s') (h' : Extends s' s'') : Extends s s'' :=
  List.IsSuffix.trans h h'

/-- What was written first stands in front. -/
theorem output_prefix (h : Extends s s') : s.output <+: s'.output := by
  rcases h with ⟨later, hlater⟩
  simp only [output, ← hlater, List.filterMap_append, List.reverse_append]
  exact List.prefix_append _ _

theorem consumed_le (h : Extends s s') : s.consumed ≤ s'.consumed := by
  rcases h with ⟨later, hlater⟩
  simp only [consumed, ← hlater, List.filterMap_append, List.length_append]
  omega

end Extends

theorem extends_read (s : Streams) : s.Extends s.read.2 := by
  refine ⟨(readCalls s.reads []).2.2, ?_⟩
  simp only [read, readCalls_eq s.reads s.trace]

theorem extends_write (s : Streams) (byte : UInt8) : s.Extends (s.write byte).2 := by
  refine ⟨(writeCalls byte s.writes []).2.2, ?_⟩
  simp only [write, writeCalls_eq byte s.writes s.trace]

theorem extends_writeMany (s : Streams) (byte : UInt8) (count : Nat) :
    s.Extends (s.writeMany byte count).2 := by
  induction count generalizing s with
  | zero => exact .refl s
  | succ count ih =>
    have hwrite := s.extends_write byte
    unfold writeMany
    generalize s.write byte = r at *
    rcases r with ⟨_ | fault, s'⟩
    · exact hwrite.trans (ih s')
    · exact hwrite

theorem extends_flush (s : Streams) : s.Extends s.flush.2 := by
  unfold flush
  split
  · exact List.suffix_cons _ _
  · exact List.suffix_cons _ _

end Streams

namespace Machine

/-- An action only adds to the trace. -/
theorem extends_perform (m : Machine) (action : Action) (count : Int) :
    m.streams.Extends (m.perform action count).machine.streams := by
  cases action with
  | move =>
    unfold perform move
    cases target? m.pointer count with
    | none => exact .refl _
    | some target => exact .refl _
  | add => exact .refl _
  | output =>
    have hmany := m.streams.extends_writeMany (UInt8.ofNat (m.tape.cell m.pointer)) count.toNat
    unfold perform write
    simp only [Tape.get_fst, Tape.get_snd]
    generalize m.streams.writeMany _ _ = r at *
    rcases r with ⟨_ | fault, s⟩
    · exact hmany.trans s.extends_flush
    · -- after a failed write there is no flush
      exact hmany
  | input =>
    have hread := m.streams.extends_read
    unfold perform read
    generalize m.streams.read = r at *
    rcases r with ⟨reply, s⟩
    cases reply with
    | byte value => exact hread
    | fault fault => exact hread
    | endOfInput =>
      cases m.endPolicy with
      | fail => exact hread
      | zero => exact hread
      | keep => exact hread

/-- A step only adds to the trace. -/
theorem extends_step (m : Machine) (todo : Program) :
    m.streams.Extends (m.step todo).machine.streams := by
  cases todo with
  | nil => exact .refl _
  | cons node rest =>
    cases node with
    | act action count =>
      rw [machine_step_act]
      exact m.extends_perform action count
    | loop body =>
      rw [step_loop]
      exact .refl _

/-- Whatever is executed only adds to the trace. -/
theorem extends_execute {steps : Nat} {todo : Program} {m : Machine} {o : Outcome}
    (h : execute steps todo m = some o) : m.streams.Extends o.machine.streams := by
  induction steps generalizing todo m with
  | zero => cases h
  | succ steps ih =>
    have hext := m.extends_step todo
    unfold execute at h
    cases hstep : m.step todo with
    | next todo' m' =>
      rw [hstep] at h hext
      exact hext.trans (ih h)
    | halt o' =>
      rw [hstep] at h hext
      cases h
      exact hext

end Machine

/-! ## Sinks that never fail -/

namespace Streams

/-- No write and no flush fails; a write may be interrupted. -/
structure Reliable (s : Streams) : Prop where
  writes : ∀ reply ∈ s.writes, reply = .accepted ∨ reply.isInterruption = true
  flushes : ∀ reply ∈ s.flushes, reply = .done

/-- From `s` to `s'` the sink took `bytes`, and nothing was read. -/
structure Wrote (bytes : List UInt8) (s s' : Streams) : Prop where
  reads_eq : s'.reads = s.reads
  output_eq : s'.output = s.output ++ bytes
  consumed_eq : s'.consumed = s.consumed
  reliable : s'.Reliable

theorem Wrote.trans {bytes bytes' : List UInt8} {s s' s'' : Streams} (h : Wrote bytes s s')
    (h' : Wrote bytes' s' s'') : Wrote (bytes ++ bytes') s s'' where
  reads_eq := h'.reads_eq.trans h.reads_eq
  output_eq := by rw [h'.output_eq, h.output_eq, List.append_assoc]
  consumed_eq := h'.consumed_eq.trans h.consumed_eq
  reliable := h'.reliable

namespace Reliable

variable {s : Streams}

/-- A write ends with the byte in the sink, however often it is interrupted. -/
theorem writeCalls (byte : UInt8) {writes : List WriteReply}
    (h : ∀ reply ∈ writes, reply = .accepted ∨ reply.isInterruption = true)
    (trace : List Call) :
    ∃ rest calls, writeCalls byte writes trace = (.accepted, rest, calls ++ trace) ∧
      (∀ reply ∈ rest, reply ∈ writes) ∧
      calls.filterMap Call.written? = [byte] ∧ calls.filterMap Call.taken? = [] := by
  induction writes generalizing trace with
  | nil => exact ⟨[], [.write byte .accepted], rfl, by simp, rfl, rfl⟩
  | cons reply writes ih =>
    unfold TapeMachine.writeCalls
    rcases h reply (by simp) with rfl | hinterrupted
    · exact ⟨writes, [.write byte .accepted], rfl, fun r hr => List.mem_cons_of_mem _ hr, rfl, rfl⟩
    · -- the interrupted call leaves a record, and the byte is still to be written
      have hrest : ∀ reply ∈ writes, reply = .accepted ∨ reply.isInterruption = true :=
        fun r hr => h r (by simp [hr])
      rcases ih hrest (.write byte reply :: trace) with ⟨rest, calls, hcalls, hmem, hout, htaken⟩
      refine ⟨rest, calls ++ [.write byte reply], ?_, ?_, ?_, ?_⟩
      · rw [if_pos hinterrupted, hcalls, List.append_assoc]
        rfl
      · intro r hr
        exact List.mem_cons_of_mem _ (hmem r hr)
      · have hnone : (Call.write byte reply).written? = none := by
          cases reply with
          | accepted => cases hinterrupted
          | stalled => rfl
          | fault fault => rfl
        simp [hout, hnone]
      · simp [htaken, Call.taken?]

theorem write (h : s.Reliable) (byte : UInt8) :
    (s.write byte).1 = none ∧ Wrote [byte] s (s.write byte).2 := by
  rcases writeCalls byte h.writes s.trace with ⟨rest, calls, hcalls, hmem, hout, htaken⟩
  unfold Streams.write
  rw [hcalls]
  refine ⟨rfl, rfl, ?_, ?_, ?_, h.flushes⟩
  · simp [output, hout]
  · simp [consumed, htaken]
  · intro reply hreply
    exact h.writes reply (hmem reply hreply)

theorem writeMany (h : s.Reliable) (byte : UInt8) (count : Nat) :
    (s.writeMany byte count).1 = none ∧
      Wrote (List.replicate count byte) s (s.writeMany byte count).2 := by
  induction count generalizing s with
  | zero => exact ⟨rfl, rfl, by simp [Streams.writeMany], rfl, h⟩
  | succ count ih =>
    rcases h.write byte with ⟨hnone, hwrote⟩
    unfold Streams.writeMany
    generalize s.write byte = r at *
    rcases r with ⟨fault?, s'⟩
    cases hnone
    rcases ih hwrote.reliable with ⟨hnone', hwrote'⟩
    exact ⟨hnone', hwrote.trans hwrote'⟩

theorem flush (h : s.Reliable) : s.flush.1 = none ∧ Wrote [] s s.flush.2 := by
  unfold Streams.flush
  cases hflushes : s.flushes with
  | nil =>
    exact ⟨rfl, rfl, (List.append_nil _).symm, rfl, h.writes, fun _ hr => nomatch hr⟩
  | cons reply rest =>
    have hdone := h.flushes
    rw [hflushes] at hdone
    rw [hdone reply (by simp)]
    refine ⟨rfl, rfl, (List.append_nil _).symm, rfl, h.writes, ?_⟩
    intro r hr
    exact hdone r (by simp [hr])

end Reliable

/-! ## The same traffic -/

/-- Reliable streams with the same input left, the same output, and the same number of bytes
read. -/
structure SameTraffic (s s' : Streams) : Prop where
  reads_eq : s.reads = s'.reads
  output_eq : s.output = s'.output
  consumed_eq : s.consumed = s'.consumed
  left_reliable : s.Reliable
  right_reliable : s'.Reliable

namespace SameTraffic

variable {s s' s'' : Streams}

theorem refl (h : s.Reliable) : SameTraffic s s :=
  ⟨rfl, rfl, rfl, h, h⟩

theorem trans (h : SameTraffic s s') (h' : SameTraffic s' s'') : SameTraffic s s'' :=
  ⟨h.reads_eq.trans h'.reads_eq, h.output_eq.trans h'.output_eq,
    h.consumed_eq.trans h'.consumed_eq, h.left_reliable, h'.right_reliable⟩

/-- Writing the same bytes keeps the traffic the same. -/
theorem wrote (h : SameTraffic s s') {bytes : List UInt8} {t t' : Streams}
    (ht : Wrote bytes s t) (ht' : Wrote bytes s' t') : SameTraffic t t' where
  reads_eq := by rw [ht.reads_eq, ht'.reads_eq, h.reads_eq]
  output_eq := by rw [ht.output_eq, ht'.output_eq, h.output_eq]
  consumed_eq := by rw [ht.consumed_eq, ht'.consumed_eq, h.consumed_eq]
  left_reliable := ht.reliable
  right_reliable := ht'.reliable

end SameTraffic

/-- Calls that read and write nothing keep the traffic the same. -/
theorem Wrote.sameTraffic {s s' : Streams} (h : Wrote [] s s') (hs : s.Reliable) :
    SameTraffic s s' :=
  (SameTraffic.refl hs).wrote ⟨rfl, (List.append_nil _).symm, rfl, hs⟩ h

end Streams

/-- No call can tell streams with the same traffic apart. -/
theorem streamSimulation_sameTraffic : StreamSimulation Streams.SameTraffic where
  read := by
    intro s s' h
    -- both make the same read calls and put them in front of their traces
    have hcalls := readCalls_eq s.reads s.trace
    rw [h.reads_eq] at hcalls
    simp only [Streams.read, h.reads_eq, hcalls, readCalls_eq s'.reads s'.trace]
    have houtput := h.output_eq
    have hconsumed := h.consumed_eq
    simp only [Streams.output, Streams.consumed, List.reverse_inj] at houtput hconsumed
    refine ⟨trivial, rfl, ?_, ?_, ⟨h.left_reliable.writes, h.left_reliable.flushes⟩,
      ⟨h.right_reliable.writes, h.right_reliable.flushes⟩⟩
    · simp only [Streams.output, List.filterMap_append, houtput]
    · simp only [Streams.consumed, List.filterMap_append, List.length_append, hconsumed]
  write := by
    intro s s' byte h
    rcases h.left_reliable.write byte with ⟨hnone, hwrote⟩
    rcases h.right_reliable.write byte with ⟨hnone', hwrote'⟩
    exact ⟨hnone.trans hnone'.symm, h.wrote hwrote hwrote'⟩
  flush := by
    intro s s' h
    rcases h.left_reliable.flush with ⟨hnone, hwrote⟩
    rcases h.right_reliable.flush with ⟨hnone', hwrote'⟩
    exact ⟨hnone.trans hnone'.symm, h.wrote hwrote hwrote'⟩

end TapeMachine
