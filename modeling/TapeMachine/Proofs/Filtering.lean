import TapeMachine.ProgramFile
import TapeMachine.Proofs.Canonical

/-! # Dropping comments before reading

A comment ends a run. Dropping the comments first can therefore join runs, and that is all it does.

* `Program.merge_block`: merging turns a block of neighbours of one action into one node, at every
  nesting level;
* `Denotes.filter`: the commands of a text derive its program with neighbours merged;
* `Stray.filter`: a stray bracket stays stray, and its position counts commands only;
* `ofText_commandsOfText`: all together, with what merging does to the numbers of nodes and loops.
-/

namespace TapeMachine

/-! ## Merging -/

namespace Program

/-- A program with a first action starts with a node of it. -/
theorem eq_cons_of_firstAction? {p : Program} {action : Action}
    (h : p.firstAction? = some action) : ∃ count rest, p = .act action count :: rest := by
  cases p with
  | nil => cases h
  | cons node rest =>
    cases node with
    | act a count =>
      injection h with h
      subst h
      exact ⟨count, rest, rfl⟩
    | loop body => cases h

@[simp]
theorem merge_act (action : Action) (count : Int) (rest : Program) :
    merge (.act action count :: rest) = mergeAct action count rest.merge := rfl

@[simp]
theorem merge_loop (body rest : Program) :
    merge (.loop body :: rest) = .loop body.merge :: rest.merge := rfl

/-- A node with the same action takes up the count. -/
theorem mergeAct_self (action : Action) (count n : Int) (rest : Program) :
    mergeAct action count (.act action n :: rest) = .act action (count + n) :: rest :=
  if_pos rfl

/-- In front of anything else the action is a node of its own. -/
theorem mergeAct_of_ne {p : Program} {action : Action} (h : p.firstAction? ≠ some action)
    (count : Int) : mergeAct action count p = .act action count :: p := by
  unfold mergeAct
  split
  · rename_i a n rest
    have ha : a ≠ action := by
      intro ha
      apply h
      rw [ha]
      rfl
    rw [if_neg ha]
  · rfl

/-- Either way the action comes first. -/
theorem firstAction?_mergeAct (action : Action) (count : Int) (p : Program) :
    (mergeAct action count p).firstAction? = some action := by
  by_cases h : p.firstAction? = some action
  · obtain ⟨n, rest, rfl⟩ := eq_cons_of_firstAction? h
    rw [mergeAct_self]
    rfl
  · rw [mergeAct_of_ne h]
    rfl

@[simp]
theorem firstAction?_merge (p : Program) : p.merge.firstAction? = p.firstAction? := by
  cases p with
  | nil => rfl
  | cons node rest =>
    cases node with
    | act action count => exact firstAction?_mergeAct action count (merge rest)
    | loop body => rfl

/-- A block of neighbours of one action that ends at another node becomes one node with the sum of
their counts. -/
theorem merge_block {action : Action} {counts : List Int} (hne : counts ≠ []) {rest : Program}
    (hrest : rest.firstAction? ≠ some action) :
    merge (counts.map (.act action) ++ rest) = .act action counts.sum :: rest.merge := by
  induction counts with
  | nil => exact absurd rfl hne
  | cons count counts ih =>
    rw [List.map_cons, List.cons_append, merge_act, List.sum_cons]
    by_cases hnil : counts = []
    · -- the last node of the block
      subst hnil
      rw [List.map_nil, List.nil_append, List.sum_nil, Int.add_zero]
      apply mergeAct_of_ne
      rw [firstAction?_merge]
      exact hrest
    · rw [ih hnil, mergeAct_self]

/-- An action in front adds at most one node. -/
theorem nodeTotal_mergeAct_le (action : Action) (count : Int) (p : Program) :
    (mergeAct action count p).nodeTotal ≤ 1 + p.nodeTotal := by
  by_cases h : p.firstAction? = some action
  · obtain ⟨n, rest, rfl⟩ := eq_cons_of_firstAction? h
    rw [mergeAct_self, nodeTotal_act, nodeTotal_act]
    omega
  · rw [mergeAct_of_ne h, nodeTotal_act]

theorem loopTotal_mergeAct (action : Action) (count : Int) (p : Program) :
    (mergeAct action count p).loopTotal = p.loopTotal := by
  by_cases h : p.firstAction? = some action
  · obtain ⟨n, rest, rfl⟩ := eq_cons_of_firstAction? h
    rw [mergeAct_self, loopTotal_act, loopTotal_act]
  · rw [mergeAct_of_ne h, loopTotal_act]

/-- Merging never adds nodes. -/
theorem nodeTotal_merge_le (p : Program) : p.merge.nodeTotal ≤ p.nodeTotal := by
  induction p using Program.induct with
  | nil => exact Nat.le_refl _
  | act action count rest ih =>
    have hact := nodeTotal_mergeAct_le action count rest.merge
    rw [merge_act, nodeTotal_act]
    omega
  | loop body rest ihBody ihRest =>
    rw [merge_loop, nodeTotal_loop, nodeTotal_loop]
    omega

/-- Merging keeps every loop. -/
theorem loopTotal_merge (p : Program) : p.merge.loopTotal = p.loopTotal := by
  induction p using Program.induct with
  | nil => rfl
  | act action count rest ih => rw [merge_act, loopTotal_mergeAct, loopTotal_act, ih]
  | loop body rest ihBody ihRest =>
    rw [merge_loop, loopTotal_loop, loopTotal_loop, ihBody, ihRest]

end Program

/-! ## The commands of a text -/

theorem uncommented_filter (s : List Char) : Uncommented (s.filter isCommand) := by
  intro c hc
  exact (List.mem_filter.mp hc).2

/-- A run holds commands only. -/
theorem Spells.uncommented {action : Action} {run : List Char} {steps : List Int}
    (h : Spells action run steps) : Uncommented run := by
  intro c hc
  rcases h.exists_step hc with ⟨step, hstep⟩
  exact isCommand_of_ofChar? hstep

/-- A run in front of a text without comments is merged with the run that may start there. -/
theorem Denotes.merge_run {action : Action} {run : List Char} {steps : List Int}
    (hrun : Spells action run steps) (hne : run ≠ []) {t : List Char} {q : Program}
    (ht : Denotes t q) (hcommands : Uncommented t) :
    Denotes (run ++ t) (Program.mergeAct action steps.sum q) := by
  have hfirst := ht.firstAction?_eq hcommands
  by_cases h : q.firstAction? = some action
  · -- the text goes on with the action, and the two runs are one
    obtain ⟨n, rest, rfl⟩ := Program.eq_cons_of_firstAction? h
    rw [Program.mergeAct_self]
    cases ht with
    | comment hc _ => exact absurd hc (hcommands.not_isComment (by simp))
    | @run _ run' steps' rest' _ hrun' _ hstop hrest =>
      have hne' : run ++ run' ≠ [] := by
        simp [hne]
      have hjoined := Denotes.run (hrun.append hrun') hne' hstop hrest
      rw [List.sum_append, List.append_assoc] at hjoined
      exact hjoined
  · rw [Program.mergeAct_of_ne h]
    rw [hfirst] at h
    exact .run hrun hne h ht

/-- The commands of a text derive its program with neighbours merged. -/
theorem Denotes.filter {s : List Char} {p : Program} (h : Denotes s p) :
    Denotes (s.filter isCommand) p.merge := by
  induction h with
  | nil => exact .nil
  | @comment c rest p hc _ ih =>
    rw [List.filter_cons_of_neg (by simp [isComment_iff.mp hc])]
    exact ih
  | @run action run steps rest p hrun hne _ _ ih =>
    have hall : run.filter isCommand = run := List.filter_eq_self.mpr hrun.uncommented
    rw [List.filter_append, hall, Program.merge_act]
    exact .merge_run hrun hne ih (uncommented_filter rest)
  | @loop body b rest p _ _ ihBody ihRest =>
    have hfilter : ('[' :: (body ++ ']' :: rest)).filter isCommand =
        '[' :: (body.filter isCommand ++ ']' :: rest.filter isCommand) := by
      rw [List.filter_cons_of_pos rfl, List.filter_append, List.filter_cons_of_pos rfl]
    rw [hfilter]
    exact .loop ihBody ihRest

/-- Dropping comments drops no bracket. -/
theorem overclosed_filter {s : List Char} : Overclosed (s.filter isCommand) ↔ Overclosed s := by
  have hopenings : (s.filter isCommand).count '[' = s.count '[' := List.count_filter rfl
  have hclosings : (s.filter isCommand).count ']' = s.count ']' := List.count_filter rfl
  unfold Overclosed
  rw [hopenings, hclosings]

theorem Closable.filter {s : List Char} (h : Closable s) : Closable (s.filter isCommand) := by
  intro k
  -- a prefix of the commands is made of the commands of a prefix
  obtain ⟨t, ht, hfilter⟩ := List.prefix_filter_iff.mp (List.take_prefix k (s.filter isCommand))
  rw [hfilter, overclosed_filter, List.prefix_iff_eq_take.mp ht]
  exact h _

theorem Balanced.filter {s : List Char} (h : Balanced s) : Balanced (s.filter isCommand) where
  closable := h.closable.filter
  settled := by
    rw [List.count_filter rfl, List.count_filter rfl]
    exact h.settled

/-- A stray bracket stays stray, behind the commands that stand in front of it. -/
theorem Stray.filter {s : List Char} {e : StrayBracket} (h : Stray s e) :
    Stray (s.filter isCommand) ⟨(s.take e.position).countP isCommand, e.bracket⟩ := by
  cases h with
  | @closing u v hu =>
    rw [List.take_left, List.countP_eq_length_filter, List.filter_append,
      List.filter_cons_of_pos rfl]
    exact .closing hu.filter
  | @opening u v hu hv =>
    rw [List.take_left, List.countP_eq_length_filter, List.filter_append,
      List.filter_cons_of_pos rfl]
    exact .opening hu.filter hv.filter

/-- Reading only the commands of a text gives its program with neighbours merged, with as many loops
and no more nodes. If the text has a stray bracket, so have its commands, and the position is the
number of commands in front of it.

Merging goes through a program from left to right: a block of neighbours of one action that ends at
another node becomes one node with the sum of their counts, and a loop stays, with its body
merged. -/
theorem ofText_commandsOfText (source : String) :
    (∀ p, Program.ofText source = .ok p →
      Program.ofText (commandsOfText source) = .ok p.merge ∧
        p.merge.loopTotal = p.loopTotal ∧ p.merge.nodeTotal ≤ p.nodeTotal) ∧
    (∀ position bracket, Program.ofText source = .error ⟨position, bracket⟩ →
      Program.ofText (commandsOfText source) =
        .error ⟨(source.toList.take position).countP isCommand, bracket⟩) ∧
    Program.merge [] = [] ∧
    (∀ (action : Action) (counts : List Int) (rest : Program), counts ≠ [] →
      rest.firstAction? ≠ some action →
      Program.merge (counts.map (.act action) ++ rest) = .act action counts.sum :: rest.merge) ∧
    (∀ body rest : Program,
      Program.merge (.loop body :: rest) = .loop body.merge :: rest.merge) := by
  have htext : (commandsOfText source).toList = source.toList.filter isCommand :=
    String.toList_ofList
  refine ⟨?_, ?_, rfl, fun _ _ _ hne => Program.merge_block hne, Program.merge_loop⟩
  · intro p hp
    refine ⟨?_, p.loopTotal_merge, p.nodeTotal_merge_le⟩
    rw [ofText_eq_ok_iff] at *
    rw [htext]
    exact hp.filter
  · intro position bracket herror
    rw [ofText_eq_error_iff] at *
    rw [htext]
    exact herror.filter

/-- Comments that split a run inside a loop, and comments in front of a stray bracket. -/
theorem ofText_commandsOfText_split :
    Program.ofText "+[> >.]" =
      .ok [.act .add 1, .loop [.act .move 1, .act .move 1, .act .output 1]] ∧
    Program.ofText (commandsOfText "+[> >.]") =
      .ok [.act .add 1, .loop [.act .move 2, .act .output 1]] ∧
    Program.ofText "a+b]" = .error ⟨3, .closing⟩ ∧
    Program.ofText (commandsOfText "a+b]") = .error ⟨1, .closing⟩ := by
  have hp : Program.ofText "+[> >.]" =
      .ok [.act .add 1, .loop [.act .move 1, .act .move 1, .act .output 1]] := by
    cbv
  have herror : Program.ofText "a+b]" = .error ⟨3, .closing⟩ := by
    cbv
  refine ⟨hp, ?_, herror, ?_⟩
  · exact ((ofText_commandsOfText "+[> >.]").1 _ hp).1
  · exact (ofText_commandsOfText "a+b]").2.1 3 .closing herror

end TapeMachine
