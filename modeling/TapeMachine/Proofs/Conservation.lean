import Mathlib.Algebra.BigOperators.Group.List.Basic
import Mathlib.Data.List.SplitBy
import TapeMachine.Proofs.Composition

/-! # No character is lost

Every command of a text ends up in its program, and none ends up there twice. A program keeps counts
and not characters, so this is said through totals.

* `stepTotal action text`: what the characters of an action add up to. It is the total of the counts
  of that action in the program, over all nesting levels (`Denotes.countTotal_eq`).
* `blocks text`: the longest stretches of characters of one action. Each of them is one node, and
  each `[` is one more (`Denotes.nodeTotal_eq`).
* `Scanned.natAbs_run_le`: the count of a run that is still being read is never larger than the
  number of characters read.
* `ofText_conserves` puts this together.
-/

namespace TapeMachine

/-! ## Model -/

/-- The step that a character makes for an action. -/
def stepFor (action : Action) (c : Char) : Int :=
  if (Action.ofChar? c).map Prod.fst = some action then signedStep c else 0

/-- The sum of the steps that the characters make for an action. -/
def stepTotal (action : Action) (text : List Char) : Int :=
  (text.map (stepFor action)).sum

/-- Both characters stand for one action. -/
def sameAction (c d : Char) : Bool :=
  (Action.ofChar? c).isSome && (Action.ofChar? c).map Prod.fst = (Action.ofChar? d).map Prod.fst

/-- The longest stretches of consecutive characters of one action, in order. A bracket or a comment
is cut off from its neighbours, and is no such stretch. -/
def blocks (text : List Char) : List (List Char) :=
  (text.splitBy sameAction).filter fun stretch => (headAction? stretch).isSome

/-! ## Steps -/

section

variable {action : Action}

@[simp]
theorem stepTotal_cons (c : Char) (text : List Char) :
    stepTotal action (c :: text) = stepFor action c + stepTotal action text := by
  simp [stepTotal]

@[simp]
theorem stepTotal_append (s t : List Char) :
    stepTotal action (s ++ t) = stepTotal action s + stepTotal action t := by
  simp [stepTotal]

/-- A character without an action makes no step. -/
theorem stepFor_eq_zero {c : Char} (h : Action.ofChar? c = none) : stepFor action c = 0 := by
  simp [stepFor, h]

/-- The steps of a run are those of its characters. -/
theorem Spells.steps_eq {run : List Char} {steps : List Int} (h : Spells action run steps) :
    steps = run.map signedStep := by
  induction run generalizing steps with
  | nil =>
    unfold Spells at h
    simpa using h.symm
  | cons c run ih =>
    obtain ⟨step, rest, rfl, hc, hrest⟩ := h.cons_cases
    rw [List.map_cons, ← ih hrest]
    simp [signedStep, hc]

/-- A run makes its steps for its own action and none for another. -/
theorem Spells.stepTotal_eq {a : Action} {run : List Char} {steps : List Int}
    (h : Spells a run steps) : stepTotal action run = if a = action then steps.sum else 0 := by
  have hstep : ∀ c ∈ run, stepFor action c = if a = action then signedStep c else 0 := by
    intro c hc
    obtain ⟨step, hof⟩ := h.exists_step hc
    simp [stepFor, hof]
  rw [stepTotal, List.map_congr_left hstep, h.steps_eq]
  split
  · rfl
  · simp

/-- The counts of an action add up to the steps of its characters. -/
theorem Denotes.countTotal_eq {s : List Char} {p : Program} (h : Denotes s p) :
    p.countTotal action = stepTotal action s := by
  induction h with
  | nil => rfl
  | comment hc _ ih => rw [stepTotal_cons, stepFor_eq_zero hc.noAction, Int.zero_add, ih]
  | @run a run steps rest p hrun _ _ _ ih =>
    rw [Program.countTotal_act, stepTotal_append, hrun.stepTotal_eq, ih]
    split
    · rfl
    · rw [Int.zero_add]
  | @loop body b rest p _ _ ihBody ihRest =>
    have hopening : stepFor action '[' = 0 := stepFor_eq_zero rfl
    have hclosing : stepFor action ']' = 0 := stepFor_eq_zero rfl
    rw [Program.countTotal_loop, ihBody, ihRest, stepTotal_cons, stepTotal_append, stepTotal_cons,
      hopening, hclosing, Int.zero_add, Int.zero_add]

/-- An action with one character for each direction makes the one's number less the other's. -/
theorem stepTotal_of_two {up down : Char} (hne : up ≠ down)
    (h : ∀ c, stepFor action c = if c = up then 1 else if c = down then -1 else 0)
    (text : List Char) : stepTotal action text = text.count up - text.count down := by
  rw [stepTotal, List.map_congr_left fun c _ => h c, List.sum_map_ite_eq, List.sum_map_ite_eq]
  simp only [hne, if_false, sub_zero, Int.nsmul_eq_mul, mul_one, mul_neg, List.map_const',
    List.sum_replicate, nsmul_zero, add_zero]
  omega

/-- An action with one character makes the number of its occurrences. -/
theorem stepTotal_of_one {sign : Char} (h : ∀ c, stepFor action c = if c = sign then 1 else 0)
    (text : List Char) : stepTotal action text = text.count sign := by
  rw [stepTotal, List.map_congr_left fun c _ => h c, List.sum_map_ite_eq]
  simp

end

/-- The steps of every action, as numbers of characters. -/
theorem stepTotal_eq_count (text : List Char) :
    stepTotal .output text = text.count '.' ∧
    stepTotal .input text = text.count ',' ∧
    stepTotal .move text = text.count '>' - text.count '<' ∧
    stepTotal .add text = text.count '+' - text.count '-' := by
  refine ⟨stepTotal_of_one ?_ text, stepTotal_of_one ?_ text, stepTotal_of_two (by decide) ?_ text,
    stepTotal_of_two (by decide) ?_ text⟩
  all_goals
    intro c
    unfold stepFor signedStep Action.ofChar?
    split <;> simp_all

/-! ## Blocks -/

/-- Side by side, two texts have the blocks of both, unless a block goes on across the border. -/
theorem blocks_append {s t : List Char}
    (h : ∀ action, lastAction? s = some action → headAction? t ≠ some action) :
    blocks (s ++ t) = blocks s ++ blocks t := by
  have hborder : ∀ c ∈ s.getLast?, ∀ d ∈ t.head?, sameAction c d = false := by
    intro c hc d hd
    cases hof : Action.ofChar? c with
    | none => simp [sameAction, hof]
    | some r =>
      have hlast : lastAction? s = some r.1 := by
        rw [lastAction?, headAction?, List.head?_reverse, hc]
        simp [hof]
      have hhead : headAction? t = (Action.ofChar? d).map Prod.fst := by
        rw [headAction?, hd]
        rfl
      have hne : some r.1 ≠ (Action.ofChar? d).map Prod.fst := by
        rw [← hhead]
        exact (h r.1 hlast).symm
      simp only [sameAction, hof, Option.map_some, hne, decide_false, Bool.and_false]
  rw [blocks, List.splitBy_append hborder, List.filter_append]
  rfl

/-- A run is one block. -/
theorem Spells.blocks_eq {action : Action} {run : List Char} {steps : List Int}
    (h : Spells action run steps) (hne : run ≠ []) : blocks run = [run] := by
  have hchain : run.IsChain fun c d => sameAction c d = true := by
    apply List.Pairwise.isChain
    apply List.pairwise_of_forall_mem_list
    intro c hc d hd
    obtain ⟨step, hof⟩ := h.exists_step hc
    obtain ⟨step', hof'⟩ := h.exists_step hd
    simp [sameAction, hof, hof']
  rw [blocks, List.splitBy_of_isChain hne hchain]
  simp [h.headAction? hne]

/-- A character without an action is in no block. -/
theorem blocks_cons_of_none {c : Char} (h : Action.ofChar? c = none) (text : List Char) :
    blocks (c :: text) = blocks text := by
  have hsplit : [c].splitBy sameAction = [[c]] := rfl
  have happend := blocks_append (s := [c]) (t := text) (by simp [lastAction?, h])
  have hnone : blocks [c] = [] := by
    simp [blocks, hsplit, h]
  rwa [hnone] at happend

/-- A bracketed text has the blocks of its body and those of the rest. -/
theorem blocks_bracketed (body rest : List Char) :
    blocks ('[' :: (body ++ ']' :: rest)) = blocks body ++ blocks rest := by
  rw [blocks_cons_of_none rfl, blocks_append (by simp [Action.ofChar?]), blocks_cons_of_none rfl]

/-! ## Nodes and loops -/

/-- Each `[` is a loop. -/
theorem Denotes.loopTotal_eq {s : List Char} {p : Program} (h : Denotes s p) :
    p.loopTotal = s.count '[' := by
  induction h with
  | nil => rfl
  | comment hc _ ih => rw [ih, List.count_cons_of_ne hc.notOpening]
  | @run action run steps rest p hrun _ _ _ ih =>
    have hnone : run.count '[' = 0 :=
      List.count_eq_zero.mpr fun hmem => (hrun.not_bracket hmem).1 rfl
    rw [Program.loopTotal_act, List.count_append, hnone, ih, Nat.zero_add]
  | @loop body b rest p _ _ ihBody ihRest =>
    have hcount : ('[' :: (body ++ ']' :: rest)).count '[' =
        1 + body.count '[' + rest.count '[' := by
      rw [List.count_cons_self, List.count_append, List.count_cons_of_ne (by decide)]
      omega
    rw [Program.loopTotal_loop, ihBody, ihRest, hcount]

/-- Each `[` and each block is a node. -/
theorem Denotes.nodeTotal_eq {s : List Char} {p : Program} (h : Denotes s p) :
    p.nodeTotal = p.loopTotal + (blocks s).length := by
  induction h with
  | nil => rfl
  | comment hc _ ih => rw [blocks_cons_of_none hc.noAction, ih]
  | @run action run steps rest p hrun hne hstop _ ih =>
    -- the run stops at the rest, so it is a block of its own
    have hborder : ∀ a, lastAction? run = some a → headAction? rest ≠ some a := by
      intro a ha
      rw [hrun.lastAction? hne] at ha
      cases ha
      exact hstop
    rw [blocks_append hborder, hrun.blocks_eq hne, Program.nodeTotal_act, Program.loopTotal_act, ih,
      List.length_append, List.length_singleton]
    omega
  | @loop body b rest p _ _ ihBody ihRest =>
    rw [blocks_bracketed, Program.nodeTotal_loop, Program.loopTotal_loop, ihBody, ihRest,
      List.length_append]
    omega

/-! ## Counts on the way -/

/-- The count of the run that is being read is never larger than the number of characters read. -/
theorem Scanned.natAbs_run_le {text : List Char} {s : Scan} (h : Scanned text s) {action : Action}
    {count : Int} (hrun : s.run = some (action, count)) : count.natAbs ≤ text.length := by
  obtain ⟨u, t, _, hread, rfl⟩ := h.pieces
  rw [hrun] at hread
  cases hread with
  | @running before run _ _ steps _ _ hspell _ =>
    have hsum : steps.sum = netCount run := by
      rw [hspell.steps_eq]
      rfl
    have hle := natAbs_netCount_le run
    rw [hsum]
    simp only [List.length_append]
    omega

/-- The counts of a program add up to the characters of its text: writes to the `.`, reads to the
`,`, moves to the `>` less the `<`, and additions to the `+` less the `-`, over all nesting levels.
There is a loop for each `[`, and a node for each `[` and for each longest stretch of characters of
one action. While a text of fewer than `2 ^ 63` characters is read, the count of the run under way
stays within words of 64 bits. -/
theorem ofText_conserves (source : String) (p : Program) (h : Program.ofText source = .ok p) :
    (p.countTotal .output = source.toList.count '.' ∧
      p.countTotal .input = source.toList.count ',' ∧
      p.countTotal .move = source.toList.count '>' - source.toList.count '<' ∧
      p.countTotal .add = source.toList.count '+' - source.toList.count '-') ∧
    p.loopTotal = source.toList.count '[' ∧
    p.nodeTotal = source.toList.count '[' + (blocks source.toList).length ∧
    (source.length < 2 ^ 63 → ∀ k scan action count,
      (source.toList.take k).foldlM Scan.feed Scan.start = .ok scan →
      scan.run = some (action, count) → -2 ^ 63 ≤ count ∧ count < 2 ^ 63) := by
  have hdenotes : Denotes source.toList p := denotes_of_ofText h
  refine ⟨?_, hdenotes.loopTotal_eq, ?_, ?_⟩
  · simp only [hdenotes.countTotal_eq]
    exact stepTotal_eq_count source.toList
  · rw [hdenotes.nodeTotal_eq, hdenotes.loopTotal_eq]
  · intro hlength k scan action count hscan hrun
    have hle := (Scanned.start.feedAll hscan).natAbs_run_le hrun
    rw [List.nil_append, List.length_take, String.length_toList] at hle
    omega

/-- A run that goes below zero on its way, a comment that splits a block, and a loop in a loop. -/
theorem ofText_conserves_split :
    Program.ofText "<>>+ +[.[-],,]" =
      .ok [.act .move 1, .act .add 1, .act .add 1,
        .loop [.act .output 1, .loop [.act .add (-1)], .act .input 2]] ∧
    blocks "<>>+ +[.[-],,]".toList =
      [['<', '>', '>'], ['+'], ['+'], ['.'], ['-'], [',', ',']] ∧
    Program.nodeTotal [.act .move 1, .act .add 1, .act .add 1,
      .loop [.act .output 1, .loop [.act .add (-1)], .act .input 2]] =
      "<>>+ +[.[-],,]".toList.count '[' + (blocks "<>>+ +[.[-],,]".toList).length ∧
    ("<>>+ +[.[-],,]".toList.take 1).foldlM Scan.feed Scan.start =
      .ok ⟨1, some (.move, -1), [], []⟩ ∧
    -2 ^ 63 ≤ (-1 : Int) ∧ (-1 : Int) < 2 ^ 63 := by
  have h : Program.ofText "<>>+ +[.[-],,]" =
      .ok [.act .move 1, .act .add 1, .act .add 1,
        .loop [.act .output 1, .loop [.act .add (-1)], .act .input 2]] := by
    cbv
  have hscan : ("<>>+ +[.[-],,]".toList.take 1).foldlM Scan.feed Scan.start =
      .ok ⟨1, some (.move, -1), [], []⟩ := by
    cbv
  have hconserves := ofText_conserves "<>>+ +[.[-],,]" _ h
  exact ⟨h, by decide, hconserves.2.2.1, hscan,
    hconserves.2.2.2 (by decide) 1 _ .move (-1) hscan rfl⟩

end TapeMachine
