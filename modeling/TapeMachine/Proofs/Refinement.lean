import TapeMachine.Charwise
import TapeMachine.Proofs.Folding
import TapeMachine.Proofs.Scanning

/-! # Programs refine their text

Executing a text character by character and running the program it stands for come to the same.

The character machine jumps between brackets in a flat text and the machine works off a list of
nodes. What ties them together is where the cursor stands:

* `Awaits c todo`: the text behind the cursor is the rest of a sequence, and `Cont` says what comes
  after it: the end, or the `]` that leads back to the loop around it;
* `Awaits.ready`: comments and the jump back of a `]` lead to the first character of the next node;
* `simulate`: from there one step of the machine is matched by one or more characters, unless a run
  of moves leaves the tape on its way;
* `ofText_refines`: so both halt with the same outcome or not at all, unless the characters lead off
  the tape.
-/

namespace TapeMachine

namespace Charwise

/-! ## Counted steps -/

/-- More steps keep an answer. -/
theorem execute_add {steps : Nat} {c : Cursor} {m : Machine} {o : Outcome}
    (h : execute steps c m = some o) (more : Nat) : execute (steps + more) c m = some o := by
  induction steps generalizing c m with
  | zero => cases h
  | succ steps ih =>
    rw [Nat.add_right_comm]
    unfold execute at h ⊢
    split at h
    · exact ih h
    · exact h

/-- In `k` steps the execution gets from one place and machine to another. -/
def LeadsTo (k : Nat) (c : Cursor) (m : Machine) (c' : Cursor) (m' : Machine) : Prop :=
  ∀ steps, execute (steps + k) c m = execute steps c' m'

/-- In `k` steps the execution halts. -/
def HaltsIn (k : Nat) (c : Cursor) (m : Machine) (o : Outcome) : Prop :=
  ∀ steps, execute (steps + k) c m = some o

/-- The execution gets to `c'` with this outcome, in at least one step, or halts with it if it is an
error. -/
def Passes (c : Cursor) (m : Machine) (c' : Cursor) (o : Outcome) : Prop :=
  match o.error? with
  | none => ∃ k, LeadsTo (k + 1) c m c' o.machine
  | some _ => ∃ k, HaltsIn k c m o

section

variable {c c' c'' : Cursor} {m m' m'' : Machine} {o : Outcome} {j k : Nat}

theorem LeadsTo.refl (c : Cursor) (m : Machine) : LeadsTo 0 c m c m := fun _ => rfl

theorem LeadsTo.of_step (h : step c m = .next c' m') : LeadsTo 1 c m c' m' := by
  intro steps
  simp only [execute, h]

theorem LeadsTo.trans (h : LeadsTo j c m c' m') (h' : LeadsTo k c' m' c'' m'') :
    LeadsTo (k + j) c m c'' m'' := by
  intro steps
  rw [← Nat.add_assoc, h, h']

theorem HaltsIn.of_step (h : step c m = .halt o) : HaltsIn 1 c m o := by
  intro steps
  simp only [execute, h]

theorem LeadsTo.haltsIn (h : LeadsTo j c m c' m') (h' : HaltsIn k c' m' o) :
    HaltsIn (k + j) c m o := by
  intro steps
  rw [← Nat.add_assoc, h, h']

theorem Passes.of_step (h : step c m = goOnAfter c' o) : Passes c m c' o := by
  rcases o with ⟨_ | e, m'⟩
  · exact ⟨0, .of_step h⟩
  · exact ⟨1, .of_step h⟩

theorem Passes.of_leadsTo (h : LeadsTo j c m c' m') (h' : Passes c' m' c'' o) :
    Passes c m c'' o := by
  rcases o with ⟨_ | e, m''⟩
  · rcases h' with ⟨k, hk⟩
    exact ⟨k + j, by simpa only [Nat.add_right_comm] using h.trans hk⟩
  · rcases h' with ⟨k, hk⟩
    exact ⟨k + j, h.haltsIn hk⟩

end

/-! ## Single characters -/

section

variable {before after : List Char} {m : Machine}

theorem step_comment {c : Char} (hc : IsComment c) :
    step ⟨before, c :: after⟩ m = .next ⟨c :: before, after⟩ m := by
  simp only [step, if_neg hc.notOpening, if_neg hc.notClosing, hc.noAction, ite_self]

/-- A `,` behind a `,` does nothing. -/
theorem step_repeat :
    step ⟨',' :: before, ',' :: after⟩ m = .next ⟨',' :: ',' :: before, after⟩ m := by
  simp [step]

theorem step_action {c : Char} {action : Action} {count : Int}
    (hc : Action.ofChar? c = some (action, count))
    (hfirst : c = ',' → before.head? ≠ some ',') :
    step ⟨before, c :: after⟩ m = goOnAfter ⟨c :: before, after⟩ (m.perform action count) := by
  have hbracket := (Spells.single hc).not_bracket (c := c) (by simp)
  have hrepeat : ¬ (c = ',' ∧ before.head? = some ',') := fun h => hfirst h.1 h.2
  simp only [step, if_neg hbracket.1, if_neg hbracket.2, if_neg hrepeat, hc]

theorem step_opening_zero (h : m.tape.cell m.pointer = 0) :
    step ⟨before, '[' :: after⟩ m = goOn m (skipForward 0 ('[' :: before) after) := by
  simp [step, h]

theorem step_opening_ne_zero (h : m.tape.cell m.pointer ≠ 0) :
    step ⟨before, '[' :: after⟩ m = .next ⟨'[' :: before, after⟩ m := by
  simp [step, h]

theorem step_closing :
    step ⟨before, ']' :: after⟩ m = goOn m (skipBack 0 (']' :: after) before) := by
  simp [step]

end

/-! ## Jumps -/

section

variable {depth : Nat} {before after : List Char} {c : Char}

theorem skipForward_other (hc : c ≠ '[' ∧ c ≠ ']') :
    skipForward depth before (c :: after) = skipForward depth (c :: before) after := by
  rw [skipForward.eq_def]
  simp only [if_neg hc.1, if_neg hc.2]

theorem skipForward_opening :
    skipForward depth before ('[' :: after) = skipForward (depth + 1) ('[' :: before) after := by
  rw [skipForward.eq_def]
  rfl

theorem skipForward_closing :
    skipForward (depth + 1) before (']' :: after) = skipForward depth (']' :: before) after := by
  rw [skipForward.eq_def]
  rfl

theorem skipBack_other (hc : c ≠ '[' ∧ c ≠ ']') :
    skipBack depth after (c :: before) = skipBack depth (c :: after) before := by
  rw [skipBack.eq_def]
  simp only [if_neg hc.1, if_neg hc.2]

theorem skipBack_closing :
    skipBack depth after (']' :: before) = skipBack (depth + 1) (']' :: after) before := by
  rw [skipBack.eq_def]
  rfl

theorem skipBack_opening :
    skipBack (depth + 1) after ('[' :: before) = skipBack depth ('[' :: after) before := by
  rw [skipBack.eq_def]
  rfl

end

/-- A walk forward passes characters that are no brackets. -/
theorem skipForward_append {s : List Char} (hs : ∀ c ∈ s, c ≠ '[' ∧ c ≠ ']') (depth : Nat)
    (before rest : List Char) :
    skipForward depth before (s ++ rest) = skipForward depth (s.reverse ++ before) rest := by
  induction s generalizing before with
  | nil => rfl
  | cons c s ih =>
    rcases List.forall_mem_cons.mp hs with ⟨hc, hs'⟩
    rw [List.cons_append, List.reverse_cons, List.append_assoc, skipForward_other hc, ih hs']
    rfl

/-- A walk back passes characters that are no brackets. -/
theorem skipBack_append {s : List Char} (hs : ∀ c ∈ s, c ≠ '[' ∧ c ≠ ']') (depth : Nat)
    (after before : List Char) :
    skipBack depth after (s.reverse ++ before) = skipBack depth (s ++ after) before := by
  induction s generalizing before with
  | nil => rfl
  | cons c s ih =>
    rcases List.forall_mem_cons.mp hs with ⟨hc, hs'⟩
    rw [List.reverse_cons, List.append_assoc, ih hs']
    exact skipBack_other hc

/-- A walk forward passes whole sequences. -/
theorem skipForward_denotes {s : List Char} {p : Program} (h : Denotes s p) (depth : Nat)
    (before rest : List Char) :
    skipForward depth before (s ++ rest) = skipForward depth (s.reverse ++ before) rest := by
  induction h generalizing depth before rest with
  | nil => rfl
  | @comment c s p hc _ ih =>
    rw [List.cons_append, skipForward_other ⟨hc.notOpening, hc.notClosing⟩, ih]
    simp
  | @run action run steps s p hrun _ _ _ ih =>
    rw [List.append_assoc, skipForward_append (fun _ => hrun.not_bracket), ih]
    simp
  | @loop body b s p _ _ ihBody ih =>
    -- one level deeper through the body, and back up at its `]`
    rw [bracketed_append, skipForward_opening, ihBody, skipForward_closing, ih]
    simp

/-- A walk back passes whole sequences. -/
theorem skipBack_denotes {s : List Char} {p : Program} (h : Denotes s p) (depth : Nat)
    (after before : List Char) :
    skipBack depth after (s.reverse ++ before) = skipBack depth (s ++ after) before := by
  induction h generalizing depth after before with
  | nil => rfl
  | @comment c s p hc _ ih =>
    rw [List.reverse_cons, List.append_assoc, ih]
    exact skipBack_other ⟨hc.notOpening, hc.notClosing⟩
  | @run action run steps s p hrun _ _ _ ih =>
    rw [List.reverse_append, List.append_assoc, ih, skipBack_append fun _ => hrun.not_bracket]
    simp
  | @loop body b s p _ _ ihBody ih =>
    have hreverse : ('[' :: (body ++ ']' :: s)).reverse ++ before =
        s.reverse ++ (']' :: (body.reverse ++ '[' :: before)) := by
      simp
    rw [hreverse, ih, skipBack_closing, ihBody, skipBack_opening]
    simp

/-! ## Where the cursor stands -/

/-- What follows a sequence that ends here: the end of the text, or the `]` of the loop around it,
which leads back to that loop, and then what follows the loop. -/
inductive Cont : List Char → List Char → Program → Prop where
  | done {before : List Char} : Cont before [] []
  | back {before body s tail : List Char} {b p todo : Program} :
      Denotes body b → Denotes s p →
      Cont (s.reverse ++ ']' :: (body.reverse ++ '[' :: before)) tail todo →
      Cont (body.reverse ++ '[' :: before) (']' :: (s ++ tail)) (.loop b :: (p ++ todo))

/-- The nodes still to do are the rest of a sequence behind the cursor, and what follows it. -/
inductive Awaits : Cursor → Program → Prop where
  | intro {before s tail : List Char} {p todo : Program} :
      Denotes s p → Cont (s.reverse ++ before) tail todo →
      Awaits ⟨before, s ++ tail⟩ (p ++ todo)

/-- The cursor does not stand inside a run of `,`. -/
def Fresh (c : Cursor) : Prop :=
  c.before.head? = some ',' → c.after.head? ≠ some ','

/-- The cursor stands at the first character of the next node. -/
inductive Ready : Cursor → Program → Prop where
  | done {before : List Char} : Ready ⟨before, []⟩ []
  | run {before run rest : List Char} {action : Action} {steps : List Int} {todo : Program} :
      Spells action run steps → run ≠ [] → Fresh ⟨before, run ++ rest⟩ →
      Fresh ⟨run.reverse ++ before, rest⟩ → Awaits ⟨run.reverse ++ before, rest⟩ todo →
      Ready ⟨before, run ++ rest⟩ (.act action steps.sum :: todo)
  | loop {before body rest : List Char} {b todo : Program} :
      Denotes body b → Awaits ⟨']' :: (body.reverse ++ '[' :: before), rest⟩ todo →
      Ready ⟨before, '[' :: (body ++ ']' :: rest)⟩ (.loop b :: todo)

/-- What follows a sequence does not go on with a run. -/
theorem Cont.headAction?_eq {before tail : List Char} {todo : Program}
    (h : Cont before tail todo) : headAction? tail = none := by
  cases h with
  | done => rfl
  | back => rfl

/-- Behind another character no run of `,` goes on. -/
theorem fresh_cons {c : Char} (hc : c ≠ ',') (before after : List Char) :
    Fresh ⟨c :: before, after⟩ := by
  intro h
  exact absurd (Option.some.inj h) hc

/-- Behind a maximal run no run of `,` goes on. -/
theorem fresh_of_run {action : Action} {run : List Char} {steps : List Int}
    (hrun : Spells action run steps) (hne : run ≠ []) {before rest : List Char}
    (hstop : headAction? rest ≠ some action) : Fresh ⟨run.reverse ++ before, rest⟩ := by
  intro hlast hnext
  -- a run that ends with `,` is a run of reads
  have haction : lastAction? run = some .input := by
    have hne' : run.reverse ≠ [] := by simpa using hne
    have hhead : run.reverse.head? = some ',' := by
      rwa [List.head?_append_of_ne_nil _ hne'] at hlast
    simp [lastAction?, TapeMachine.headAction?, hhead, Action.ofChar?]
  rw [hrun.lastAction? hne] at haction
  cases haction
  apply hstop
  rcases List.head?_eq_some_iff.mp hnext with ⟨rest', rfl⟩
  rfl

/-- Comments, and the jump back at the end of a loop, lead to the next node. -/
theorem Awaits.ready {c : Cursor} {todo : Program} (h : Awaits c todo) (hfresh : Fresh c)
    (m : Machine) : ∃ k c', LeadsTo k c m c' m ∧ Ready c' todo := by
  rcases h with ⟨hs, hcont⟩
  rename_i before s tail p todo
  induction hs generalizing before with
  | nil =>
    cases hcont with
    | done => exact ⟨0, _, .refl _ _, .done⟩
    | @back before body s tail b p todo hbody hs hcont =>
      -- the `]` of the loop around: back to its `[`
      have hjump : step ⟨body.reverse ++ '[' :: before, ']' :: (s ++ tail)⟩ m =
          .next ⟨before, '[' :: (body ++ ']' :: (s ++ tail))⟩ m := by
        rw [step_closing, skipBack_denotes hbody, skipBack.eq_def]
        rfl
      exact ⟨1, _, .of_step hjump, .loop hbody (.intro hs hcont)⟩
  | @comment c s p hc _ ih =>
    have hcont' : Cont (s.reverse ++ c :: before) tail todo := by simpa using hcont
    have hcomma : c ≠ ',' := by
      rintro rfl
      cases hc.noAction
    rcases ih hcont' (fresh_cons hcomma _ _) with ⟨k, c', hlead, hready⟩
    exact ⟨k + 1, c', (LeadsTo.of_step (step_comment hc)).trans hlead, hready⟩
  | @run action run steps s p hrun hne hstop hs _ =>
    have hcont' : Cont (s.reverse ++ (run.reverse ++ before)) tail todo := by simpa using hcont
    have hstop' : headAction? (s ++ tail) ≠ some action := by
      by_cases hnil : s = []
      · subst hnil
        rw [List.nil_append, hcont.headAction?_eq]
        simp
      · rwa [headAction?_append_of_ne_nil hnil]
    rw [List.append_assoc] at hfresh ⊢
    exact ⟨0, _, .refl _ _,
      .run hrun hne hfresh (fresh_of_run hrun hne hstop') (.intro hs hcont')⟩
  | @loop body b s p hbody hs _ _ =>
    have hcont' : Cont (s.reverse ++ ']' :: (body.reverse ++ '[' :: before)) tail todo := by
      simpa using hcont
    rw [bracketed_append]
    exact ⟨0, _, .refl _ _, .loop hbody (.intro hs hcont')⟩

/-! ## Runs of characters -/

theorem Passes.then_leadsTo {c c' c'' : Cursor} {m : Machine} {o : Outcome} {j : Nat}
    (h : Passes c m c' o) (h' : LeadsTo j c' o.machine c'' o.machine) : Passes c m c'' o := by
  rcases o with ⟨_ | e, m'⟩
  · rcases h with ⟨k, hk⟩
    exact ⟨j + k, hk.trans h'⟩
  · exact h

/-- A run of an action other than a read is carried out step by step. -/
theorem passes_each {action : Action} (hinput : action ≠ .input) {run : List Char}
    {steps : List Int} (hrun : Spells action run steps) (hne : run ≠ []) (m : Machine)
    (before rest : List Char) :
    Passes ⟨before, run ++ rest⟩ m ⟨run.reverse ++ before, rest⟩ (m.performEach action steps) := by
  induction run generalizing steps m before with
  | nil => exact absurd rfl hne
  | cons c run ih =>
    rcases hrun.cons_cases with ⟨d, ds, rfl, hc, hrun'⟩
    have hfirst : c = ',' → before.head? ≠ some ',' := by
      rintro rfl
      cases hc
      exact absurd rfl hinput
    have hstep : step ⟨before, c :: (run ++ rest)⟩ m =
        goOnAfter ⟨c :: before, run ++ rest⟩ (m.perform action d) := step_action hc hfirst
    rw [List.reverse_cons, List.append_assoc]
    cases hperform : m.perform action d with
    | mk error? m' =>
      cases error? with
      | none =>
        rw [hperform] at hstep
        rw [Machine.performEach_cons_none hperform]
        by_cases hnil : run = []
        · subst hnil
          cases ds with
          | nil => exact ⟨0, .of_step hstep⟩
          | cons d' ds' => cases hrun'
        · exact (ih hrun' hnil m' (c :: before)).of_leadsTo (.of_step hstep)
      | some e =>
        rw [Machine.performEach_cons_some (e := e) (by rw [hperform])]
        rw [hperform] at hstep ⊢
        exact ⟨1, .of_step hstep⟩

/-- In a run of reads all but the first character do nothing. -/
theorem leadsTo_repeats {run : List Char} (hrun : ∀ c ∈ run, c = ',') (m : Machine)
    (before rest : List Char) :
    LeadsTo run.length ⟨',' :: before, run ++ rest⟩ m ⟨run.reverse ++ ',' :: before, rest⟩ m := by
  induction run generalizing before with
  | nil => exact .refl _ _
  | cons c run ih =>
    rcases List.forall_mem_cons.mp hrun with ⟨hc, hrun'⟩
    rw [hc, List.reverse_cons, List.append_assoc]
    exact (LeadsTo.of_step step_repeat).trans (ih hrun' (',' :: before))

/-- A run of reads reads once. -/
theorem passes_input {run : List Char} {steps : List Int} (hrun : Spells .input run steps)
    (hne : run ≠ []) (m : Machine) {before rest : List Char}
    (hfresh : Fresh ⟨before, run ++ rest⟩) :
    Passes ⟨before, run ++ rest⟩ m ⟨run.reverse ++ before, rest⟩
      (m.perform .input steps.sum) := by
  have hcomma : ∀ c ∈ run, c = ',' := by
    intro c hc
    rcases hrun.exists_step hc with ⟨d, hd⟩
    exact Action.eq_comma_of_input hd
  rcases List.exists_cons_of_ne_nil hne with ⟨c, run', rfl⟩
  rcases List.forall_mem_cons.mp hcomma with ⟨hc, hcomma'⟩
  subst hc
  have hfirst : before.head? ≠ some ',' := fun h => hfresh h rfl
  -- the count of a read does not matter
  have hcount : m.perform .input steps.sum = m.perform .input 1 := rfl
  have hstep : step ⟨before, ',' :: (run' ++ rest)⟩ m =
      goOnAfter ⟨',' :: before, run' ++ rest⟩ (m.perform .input 1) :=
    step_action rfl fun _ => hfirst
  rw [hcount, List.reverse_cons, List.append_assoc]
  exact (Passes.of_step hstep).then_leadsTo
    (leadsTo_repeats hcomma' _ before rest)

/-- A run of characters has the outcome of its node, or is a run of moves that leaves the tape. -/
theorem passes_run {action : Action} {run : List Char} {steps : List Int}
    (hrun : Spells action run steps) (hne : run ≠ []) {m : Machine} (hm : m.streams.Reliable)
    {before rest : List Char} (hfresh : Fresh ⟨before, run ++ rest⟩) :
    ∃ o, Passes ⟨before, run ++ rest⟩ m ⟨run.reverse ++ before, rest⟩ o ∧
      (m.Stranded o ∨
        Outcome.Alike Streams.SameTraffic o (m.perform action steps.sum)) := by
  by_cases hinput : action = .input
  · subst hinput
    exact ⟨_, passes_input hrun hne m hfresh, Or.inr
      (Machine.perform_alike streamSimulation_sameTraffic (.refl hm) .input steps.sum)⟩
  · refine ⟨_, passes_each hinput hrun hne m before rest, ?_⟩
    have hsteps : steps ≠ [] := by
      rintro rfl
      exact hne (List.map_eq_nil_iff.mp hrun)
    have hpositive : action = .output → ∀ d ∈ steps, 0 ≤ d := by
      rintro rfl d hd
      exact hrun.nonneg_of_output hd
    rcases Machine.performEach_alike hinput hsteps hpositive hm with ⟨_, hstranded⟩ | halike
    · exact Or.inl hstranded
    · exact Or.inr halike

/-! ## The simulation -/

/-- The cursor awaits the nodes that the other machine has to do, and the machines are alike. -/
structure Related (c : Cursor) (m : Machine) (todo : Program) (m' : Machine) : Prop where
  awaits : Awaits c todo
  fresh : Fresh c
  alike : Machine.Alike Streams.SameTraffic m m'

/-- The characters match a step: one or more of them lead to a related place, or both machines halt
alike, or the characters lead off the tape. -/
inductive Simulated (c : Cursor) (m : Machine) : Machine.Transition → Prop where
  | next {k : Nat} {c₁ : Cursor} {m₁ m' : Machine} {todo : Program} :
      LeadsTo (k + 1) c m c₁ m₁ → Related c₁ m₁ todo m' → Simulated c m (.next todo m')
  | halt {k : Nat} {o o' : Outcome} :
      HaltsIn k c m o → Outcome.Alike Streams.SameTraffic o o' → Simulated c m (.halt o')
  | stranded {k : Nat} {o : Outcome} {t : Machine.Transition} :
      HaltsIn k c m o → m.Stranded o → Simulated c m t

theorem Simulated.of_leadsTo {c c' : Cursor} {m : Machine} {t : Machine.Transition} {j : Nat}
    (h : LeadsTo j c m c' m) (h' : Simulated c' m t) : Simulated c m t := by
  cases h' with
  | @next k _ _ _ _ hlead hrelated =>
    refine .next (k := k + j) ?_ hrelated
    have hboth := h.trans hlead
    rwa [Nat.add_right_comm] at hboth
  | halt hhalts halike => exact .halt (h.haltsIn hhalts) halike
  | stranded hhalts hstranded => exact .stranded (h.haltsIn hhalts) hstranded

/-- A run of characters matches the step at its node. -/
theorem simulate_run {before run rest : List Char} {action : Action} {steps : List Int}
    {todo : Program} {m m' : Machine} (hrun : Spells action run steps) (hne : run ≠ [])
    (hfresh : Fresh ⟨before, run ++ rest⟩) (hfresh' : Fresh ⟨run.reverse ++ before, rest⟩)
    (hawaits : Awaits ⟨run.reverse ++ before, rest⟩ todo)
    (halike : Machine.Alike Streams.SameTraffic m m') :
    Simulated ⟨before, run ++ rest⟩ m (m'.step (.act action steps.sum :: todo)) := by
  have hperform := Machine.perform_alike streamSimulation_sameTraffic halike action steps.sum
  rcases passes_run hrun hne halike.streams.left_reliable hfresh with ⟨o, hpasses, ho⟩
  rw [Machine.step_act]
  rcases ho with hstranded | ho
  · rcases hstranded.offTape with ⟨pointer, delta, herror⟩
    simp only [Passes, herror] at hpasses
    rcases hpasses with ⟨k, hk⟩
    exact .stranded hk hstranded
  · -- the outcome of the characters is that of the node, on the other machine too
    have hboth := ho.trans hperform
    cases herror : (m'.perform action steps.sum).error? with
    | none =>
      simp only [Passes, hboth.error_eq, herror] at hpasses
      rcases hpasses with ⟨k, hk⟩
      exact .next hk ⟨hawaits, hfresh', hboth.machine⟩
    | some e =>
      simp only [Passes, hboth.error_eq, herror] at hpasses
      rcases hpasses with ⟨k, hk⟩
      exact .halt hk hboth

/-- The `[` of a loop matches the step at its node. -/
theorem simulate_loop {before body rest : List Char} {b todo : Program} {m m' : Machine}
    (hbody : Denotes body b) (hawaits : Awaits ⟨']' :: (body.reverse ++ '[' :: before), rest⟩ todo)
    (halike : Machine.Alike Streams.SameTraffic m m') :
    Simulated ⟨before, '[' :: (body ++ ']' :: rest)⟩ m (m'.step (.loop b :: todo)) := by
  have hcell : m.tape.cell m.pointer = m'.tape.cell m'.pointer := by
    rw [halike.pointer_eq, halike.tape.cell_eq]
  have halike' : Machine.Alike Streams.SameTraffic m
      { m' with tape := m'.tape.growTo m'.pointer } :=
    ⟨halike.tape.trans ⟨by simp, by simp⟩, halike.pointer_eq, halike.endPolicy_eq, halike.streams⟩
  rw [Machine.step_loop]
  by_cases hzero : m'.tape.cell m'.pointer = 0
  · -- a zero cell: behind the `]`
    have hjump : step ⟨before, '[' :: (body ++ ']' :: rest)⟩ m =
        .next ⟨']' :: (body.reverse ++ '[' :: before), rest⟩ m := by
      rw [step_opening_zero (hcell.trans hzero), skipForward_denotes hbody, skipForward.eq_def]
      rfl
    rw [if_pos hzero]
    exact .next (.of_step hjump) ⟨hawaits, fresh_cons (by decide) _ _, halike'⟩
  · -- any other cell: into the body, and the loop again behind it
    rw [if_neg hzero]
    refine .next (.of_step (step_opening_ne_zero (by rwa [hcell])))
      ⟨?_, fresh_cons (by decide) _ _, halike'⟩
    rcases hawaits with ⟨hs, hcont⟩
    exact .intro hbody (.back hbody hs hcont)

/-- Related machines stay related: every step of the machine is matched by the characters. -/
theorem simulate {c : Cursor} {m m' : Machine} {todo : Program} (h : Related c m todo m') :
    Simulated c m (m'.step todo) := by
  rcases h.awaits.ready h.fresh m with ⟨k, c', hlead, hready⟩
  refine .of_leadsTo hlead ?_
  cases hready with
  | done => exact .halt (.of_step rfl) ⟨rfl, h.alike⟩
  | run hrun hne hfresh hfresh' hawaits =>
    exact simulate_run hrun hne hfresh hfresh' hawaits h.alike
  | loop hbody hawaits => exact simulate_loop hbody hawaits h.alike

/-! ## Whole runs -/

/-- What the characters come to if the machine halts: an alike outcome, or a stop off the tape with
nothing read or written that the machine has not read or written too. -/
theorem halts_of_execute {steps : Nat} {c : Cursor} {m m' : Machine} {todo : Program}
    {o' : Outcome} (h : Related c m todo m') (hexecute : Machine.execute steps todo m' = some o') :
    ∃ k o, HaltsIn k c m o ∧ (Outcome.Alike Streams.SameTraffic o o' ∨
      o.OffTape ∧ o.machine.streams.output <+: o'.machine.streams.output ∧
        o.machine.streams.consumed ≤ o'.machine.streams.consumed) := by
  induction steps generalizing c m m' todo with
  | zero => cases hexecute
  | succ steps ih =>
    have hextends := Machine.extends_execute hexecute
    have hsimulated := simulate h
    unfold Machine.execute at hexecute
    generalize m'.step todo = t at *
    cases hsimulated with
    | next hlead hrelated =>
      rcases ih hrelated hexecute with ⟨k, o, hhalts, ho⟩
      exact ⟨_, o, hlead.haltsIn hhalts, ho⟩
    | halt hhalts halike =>
      cases hexecute
      exact ⟨_, _, hhalts, Or.inl halike⟩
    | @stranded k o _ hhalts hstranded =>
      refine ⟨k, o, hhalts, Or.inr ⟨hstranded.offTape, ?_, ?_⟩⟩
      · rw [hstranded.output_eq, h.alike.streams.output_eq]
        exact hextends.output_prefix
      · rw [hstranded.consumed_eq, h.alike.streams.consumed_eq]
        exact hextends.consumed_le

/-- A halt is the only answer. -/
theorem HaltsIn.unique {k steps : Nat} {c : Cursor} {m : Machine} {o o' : Outcome}
    (h : HaltsIn k c m o) (h' : execute steps c m = some o') : o' = o := by
  have h₁ := execute_add h' k
  rw [h steps] at h₁
  exact (Option.some.inj h₁).symm

/-- An answer takes more steps than any part of its way. -/
theorem LeadsTo.execute_sub {k steps : Nat} {c c' : Cursor} {m m' : Machine} {o : Outcome}
    (h : LeadsTo k c m c' m') (ho : execute steps c m = some o) :
    k < steps ∧ execute (steps - k) c' m' = some o := by
  have hlt : k < steps := by
    rcases Nat.lt_or_ge k steps with hlt | hge
    · exact hlt
    · -- with `k` steps there is no answer yet
      have hnone := h 0
      have hsome := execute_add ho (k - steps)
      rw [Nat.add_sub_cancel' hge] at hsome
      rw [Nat.zero_add, hsome] at hnone
      cases hnone
  refine ⟨hlt, ?_⟩
  rw [← h (steps - k), Nat.sub_add_cancel (Nat.le_of_lt hlt), ho]

/-- What the machine comes to if the characters halt on the tape: an alike outcome. -/
theorem execute_of_halts {steps : Nat} {c : Cursor} {m m' : Machine} {todo : Program}
    {o : Outcome} (h : Related c m todo m') (hexecute : execute steps c m = some o)
    (hon : ¬ o.OffTape) :
    ∃ steps' o', Machine.execute steps' todo m' = some o' ∧
      Outcome.Alike Streams.SameTraffic o o' := by
  induction steps using Nat.strong_induction_on generalizing c m m' todo with
  | _ steps ih =>
    have hsimulated := simulate h
    cases hstep : m'.step todo with
    | next todo₁ m₁' =>
      rw [hstep] at hsimulated
      cases hsimulated with
      | next hlead hrelated =>
        rcases hlead.execute_sub hexecute with ⟨hlt, hrest⟩
        rcases ih _ (by omega) hrelated hrest with ⟨steps', o', ho', halike⟩
        refine ⟨steps' + 1, o', ?_, halike⟩
        simp only [Machine.execute, hstep, ho']
      | stranded hhalts hstranded =>
        rw [hhalts.unique hexecute] at hon
        exact absurd hstranded.offTape hon
    | halt o' =>
      rw [hstep] at hsimulated
      cases hsimulated with
      | halt hhalts halike =>
        rw [← hhalts.unique hexecute] at halike
        refine ⟨1, o', ?_, halike⟩
        simp only [Machine.execute, hstep]
      | stranded hhalts hstranded =>
        rw [hhalts.unique hexecute] at hon
        exact absurd hstranded.offTape hon

/-- At its start a text awaits its program. -/
theorem related_start {source : List Char} {p : Program} (h : Denotes source p) {m : Machine}
    (hm : m.streams.Reliable) : Related ⟨[], source⟩ m p m := by
  have hawaits : Awaits ⟨[], source ++ []⟩ (p ++ []) := .intro h .done
  rw [List.append_nil, List.append_nil] at hawaits
  refine ⟨hawaits, ?_, .refl hm⟩
  intro hcomma
  cases hcomma

end Charwise

/-- With a reliable sink the last flush cannot be told. -/
theorem Outcome.alike_settle {o : Outcome} (h : o.machine.streams.Reliable) :
    Outcome.Alike Streams.SameTraffic o (Machine.settle o) := by
  rcases h.flush with ⟨hnone, hwrote⟩
  refine ⟨?_, .refl o.machine.tape, rfl, rfl, hwrote.sameTraffic h⟩
  simp [Machine.settle, hnone]

theorem Outcome.Alike.agree {o o' : Outcome} (h : Outcome.Alike Streams.SameTraffic o o') :
    o.Agree o' :=
  ⟨h.error_eq, h.machine.pointer_eq, h.machine.streams.output_eq, h.machine.streams.consumed_eq,
    h.machine.tape.cell_eq⟩

/-- Executing the text halts with this outcome. -/
def Charwise.RunsTo (source : String) (m : Machine) (o : Outcome) : Prop :=
  ∃ steps, Charwise.run steps source.toList m = some o

/-- The program of a text does what its characters do, one by one, from any machine whose sink never
fails. If the characters halt without leaving the tape (with no error, at the end of input, or with
a failed read), the program halts with the same result, pointer, bytes and row of cells. If the
program halts, so do the characters, and they agree with it or leave the tape: then what they have
written up to there is the beginning of what the program writes. -/
theorem ofText_refines (source : String) (p : Program) (m : Machine)
    (hp : Program.ofText source = .ok p) (hsink : m.streams.Reliable) :
    (∀ o, Charwise.RunsTo source m o → ¬ o.OffTape → ∃ o', Machine.RunsTo p m o' ∧ o.Agree o') ∧
    (∀ o', Machine.RunsTo p m o' → ∃ o, Charwise.RunsTo source m o ∧
      (o.Agree o' ∨ o.OffTape ∧ o.machine.streams.output <+: o'.machine.streams.output ∧
        o.machine.streams.consumed ≤ o'.machine.streams.consumed)) := by
  have hstart := Charwise.related_start (denotes_of_ofText hp) hsink
  constructor
  · rintro o ⟨steps, ho⟩ hon
    rcases Charwise.execute_of_halts hstart ho hon with ⟨steps', o', ho', halike⟩
    have hsettle := Outcome.alike_settle halike.machine.streams.right_reliable
    refine ⟨Machine.settle o', ⟨steps', ?_⟩, (halike.trans hsettle).agree⟩
    simp only [Machine.run, ho', Option.map_some]
  · rintro o' ⟨steps, ho'⟩
    rcases Option.map_eq_some_iff.mp ho' with ⟨e, he, rfl⟩
    rcases Charwise.halts_of_execute hstart he with ⟨k, o, hhalts, ho⟩
    have hrun : Charwise.RunsTo source m o := ⟨0 + k, hhalts 0⟩
    refine ⟨o, hrun, ?_⟩
    rcases ho with halike | ⟨hoff, houtput, hconsumed⟩
    · have hsettle := Outcome.alike_settle halike.machine.streams.right_reliable
      exact Or.inl (halike.trans hsettle).agree
    · -- the last flush only adds to the trace
      have hflush := e.machine.streams.extends_flush
      exact Or.inr ⟨hoff, houtput.trans hflush.output_prefix,
        Nat.le_trans hconsumed hflush.consumed_le⟩

/-- A loop around a folded read: the characters read and write one byte and halt, so the program
does. -/
theorem ofText_refines_echo :
    Program.ofText "+[>,,.<-]!" = .ok [.act .add 1, .loop [.act .move 1, .act .input 2,
      .act .output 1, .act .move (-1), .act .add (-1)]] ∧
    ∃ o, Machine.RunsTo [.act .add 1, .loop [.act .move 1, .act .input 2, .act .output 1,
        .act .move (-1), .act .add (-1)]]
        (.fresh (.zeros 0 .bits8) .fail (.ofBytes [65, 66])) o ∧
      o.error? = none ∧ o.machine.streams.output = [65] ∧ o.machine.streams.consumed = 1 := by
  have hp : Program.ofText "+[>,,.<-]!" = .ok [.act .add 1, .loop [.act .move 1, .act .input 2,
      .act .output 1, .act .move (-1), .act .add (-1)]] := by
    rfl
  have hsink : (Streams.ofBytes [65, 66]).Reliable := by
    constructor <;> simp [Streams.ofBytes]
  have hrun : Charwise.RunsTo "+[>,,.<-]!" (.fresh (.zeros 0 .bits8) .fail (.ofBytes [65, 66]))
      ⟨none, ⟨⟨#[0, 65], .bits8⟩, 0, .fail, ⟨[.byte 66], [], [],
        [.flush .done, .write 65 .accepted, .read (.byte 65)]⟩, [⟨1, 2, 1⟩]⟩⟩ := by
    refine ⟨13, ?_⟩
    decide +kernel
  rcases (ofText_refines _ _ _ hp hsink).1 _ hrun (by rintro ⟨_, _, h⟩; cases h) with
    ⟨o, ho, hagree⟩
  exact ⟨hp, o, ho, hagree.error_eq.symm, hagree.output_eq.symm, hagree.consumed_eq.symm⟩

/-- The exception is real: `<>` leaves the tape and comes back, its program does not move. -/
example (streams : Streams) :
    ((Charwise.run 1 ['<', '>'] (.fresh (.zeros 1 .bits8) .fail streams)).map (·.error?) =
      some (some (.offTape 0 (-1)))) ∧
    ((Machine.execute 2 [.act .move 0] (.fresh (.zeros 1 .bits8) .fail streams)).map (·.error?) =
      some none) := by
  have hstay : Machine.target? 0 0 = some 0 := by decide
  constructor
  · rfl
  · simp [Machine.execute, Machine.step, Machine.perform, Machine.move, Machine.fresh, hstay]

end TapeMachine
