import Mathlib.Algebra.Order.Ring.Int
import TapeMachine.Program.Scan

/-! # The grammar of program texts

The scan reads a text in one pass with a stack. This file says the same without a stack, as a
grammar that follows the nesting of the text:

* `Denotes text program`: a comment stands for nothing, a maximal run of characters of one action
  stands for one node with their net count, and a bracketed text stands for a loop;
* `Denotes.append`: texts that do not join a run at their border may be put side by side;
* `Denotes.balanced`: what has a program is balanced, in the sense that counts brackets and knows
  nothing of programs (`Balanced`).
-/

namespace TapeMachine

/-! ## Runs and comments -/

/-- Only `,` stands for a read. -/
theorem Action.eq_comma_of_input {c : Char} {step : Int} (h : ofChar? c = some (.input, step)) :
    c = ',' := by
  unfold ofChar? at h
  split at h
  -- all other characters have another action or none
  all_goals cases h
  rfl

/-- Characters of writes and reads count one each. -/
theorem Action.step_eq_one {c : Char} {action : Action} {step : Int}
    (h : ofChar? c = some (action, step)) (haction : action = .output ∨ action = .input) :
    step = 1 := by
  rcases haction with rfl | rfl
  all_goals
    unfold ofChar? at h
    split at h
    all_goals cases h
    rfl

/-- A character that is no command. -/
structure IsComment (c : Char) : Prop where
  notOpening : c ≠ '['
  notClosing : c ≠ ']'
  noAction : Action.ofChar? c = none

/-- The characters all stand for `action`, with these signed steps. -/
def Spells (action : Action) (run : List Char) (steps : List Int) : Prop :=
  run.map Action.ofChar? = steps.map fun step => some (action, step)

/-- The action of the first character. -/
def headAction? (text : List Char) : Option Action :=
  (text.head?.bind Action.ofChar?).map Prod.fst

/-- The action of the last character. -/
def lastAction? (text : List Char) : Option Action :=
  headAction? text.reverse

@[simp]
theorem headAction?_nil : headAction? [] = none := rfl

@[simp]
theorem headAction?_cons (c : Char) (text : List Char) :
    headAction? (c :: text) = (Action.ofChar? c).map Prod.fst := rfl

@[simp]
theorem lastAction?_nil : lastAction? [] = none := rfl

@[simp]
theorem lastAction?_concat (text : List Char) (c : Char) :
    lastAction? (text ++ [c]) = (Action.ofChar? c).map Prod.fst := by
  simp [lastAction?]

theorem headAction?_append_of_ne_nil {s : List Char} (hs : s ≠ []) (t : List Char) :
    headAction? (s ++ t) = headAction? s := by
  cases s with
  | nil => exact absurd rfl hs
  | cons c s => rfl

theorem lastAction?_append_of_ne_nil (s : List Char) {t : List Char} (ht : t ≠ []) :
    lastAction? (s ++ t) = lastAction? t := by
  simp only [lastAction?, List.reverse_append]
  exact headAction?_append_of_ne_nil (by simpa using ht) _

/-- A text whose last character has an action keeps it behind any other text. -/
theorem lastAction?_append_of_eq_some {s t : List Char} {action : Action}
    (h : lastAction? t = some action) : lastAction? (s ++ t) = some action := by
  have ht : t ≠ [] := by
    rintro rfl
    simp at h
  rw [lastAction?_append_of_ne_nil s ht, h]

namespace Spells

variable {action : Action} {run run' : List Char} {steps steps' : List Int}

theorem append (h : Spells action run steps) (h' : Spells action run' steps') :
    Spells action (run ++ run') (steps ++ steps') := by
  simp only [Spells, List.map_append] at *
  rw [h, h']

theorem single {c : Char} {step : Int} (h : Action.ofChar? c = some (action, step)) :
    Spells action [c] [step] := by
  simp [Spells, h]

/-- A character of a run stands for the action of the run. -/
theorem exists_step (h : Spells action run steps) {c : Char} (hc : c ∈ run) :
    ∃ step, Action.ofChar? c = some (action, step) := by
  have hmem : Action.ofChar? c ∈ run.map Action.ofChar? := List.mem_map_of_mem hc
  rw [h] at hmem
  rcases List.mem_map.mp hmem with ⟨step, _, hstep⟩
  exact ⟨step, hstep.symm⟩

theorem lastAction? (h : Spells action run steps) (hne : run ≠ []) :
    lastAction? run = some action := by
  rcases run.eq_nil_or_concat.resolve_left hne with ⟨init, c, rfl⟩
  rcases h.exists_step (c := c) (by simp) with ⟨step, hstep⟩
  simp [hstep]

theorem headAction? (h : Spells action run steps) (hne : run ≠ []) :
    headAction? run = some action := by
  rcases List.exists_cons_of_ne_nil hne with ⟨c, rest, rfl⟩
  rcases h.exists_step (c := c) (by simp) with ⟨step, hstep⟩
  simp [hstep]

/-- A run that is not empty has a first character and a first step. -/
theorem cons_cases {c : Char} (h : Spells action (c :: run) steps) :
    ∃ step rest, steps = step :: rest ∧ Action.ofChar? c = some (action, step) ∧
      Spells action run rest := by
  cases steps with
  | nil => cases h
  | cons step rest =>
    injection h with hstep hrest
    exact ⟨step, rest, rfl, hstep, hrest⟩

/-- A step of a run is that of one of its characters. -/
theorem exists_char (h : Spells action run steps) {step : Int} (hstep : step ∈ steps) :
    ∃ c, Action.ofChar? c = some (action, step) := by
  have hmem : some (action, step) ∈ steps.map fun step => some (action, step) :=
    List.mem_map_of_mem hstep
  rw [← h] at hmem
  rcases List.mem_map.mp hmem with ⟨c, _, hc⟩
  exact ⟨c, hc⟩

/-- The steps of a run of writes only count up. -/
theorem nonneg_of_output (h : Spells .output run steps) {step : Int} (hstep : step ∈ steps) :
    0 ≤ step := by
  rcases h.exists_char hstep with ⟨c, hc⟩
  rw [Action.step_eq_one hc (Or.inl rfl)]
  decide

end Spells

/-! ## The grammar -/

/-- The text stands for the program. A run ends where the next character has another action, so
runs are as long as possible. -/
inductive Denotes : List Char → Program → Prop where
  | nil : Denotes [] []
  | comment {c : Char} {rest : List Char} {p : Program} :
      IsComment c → Denotes rest p → Denotes (c :: rest) p
  | run {action : Action} {run : List Char} {steps : List Int} {rest : List Char} {p : Program} :
      Spells action run steps → run ≠ [] → headAction? rest ≠ some action → Denotes rest p →
      Denotes (run ++ rest) (.act action steps.sum :: p)
  | loop {body : List Char} {b : Program} {rest : List Char} {p : Program} :
      Denotes body b → Denotes rest p →
      Denotes ('[' :: (body ++ ']' :: rest)) (.loop b :: p)

/-- What follows a bracketed text stands behind its `]`. -/
theorem bracketed_append (body rest t : List Char) :
    '[' :: (body ++ ']' :: rest) ++ t = '[' :: (body ++ ']' :: (rest ++ t)) := by
  simp

/-- A bracketed text is cut behind its `]`. -/
theorem bracketed_eq_append (body rest : List Char) :
    '[' :: (body ++ ']' :: rest) = '[' :: (body ++ [']']) ++ rest := by
  simp

namespace Denotes

/-- Two texts stand for their programs one after the other, unless a run goes on across the
border. -/
theorem append {s t : List Char} {p q : Program} (hs : Denotes s p) (ht : Denotes t q)
    (hborder : ∀ action, lastAction? s = some action → headAction? t ≠ some action) :
    Denotes (s ++ t) (p ++ q) := by
  induction hs with
  | nil => exact ht
  | comment hc hrest ih =>
    refine .comment hc (ih ?_)
    intro action h
    exact hborder action (lastAction?_append_of_eq_some (s := [_]) h)
  | @run action run steps rest p hrun hne hstop hrest ih =>
    rw [List.append_assoc]
    refine .run hrun hne ?_ (ih ?_)
    · -- the run stops at the rest, or at the second text if there is no rest
      by_cases hnil : rest = []
      · subst hnil
        apply hborder
        rw [List.append_nil]
        exact hrun.lastAction? hne
      · rw [headAction?_append_of_ne_nil hnil]
        exact hstop
    · intro action' h
      exact hborder action' (lastAction?_append_of_eq_some h)
  | @loop body b rest p hbody hrest _ ih =>
    rw [bracketed_append]
    refine .loop hbody (ih ?_)
    intro action h
    apply hborder action
    -- the border is that of the text behind the `]`
    rw [bracketed_eq_append]
    exact lastAction?_append_of_eq_some h

/-- Puts a comment behind a text. -/
theorem concat_comment {s : List Char} {p : Program} {c : Char} (hs : Denotes s p)
    (hc : IsComment c) : Denotes (s ++ [c]) p := by
  have h : Denotes (s ++ [c]) (p ++ []) := by
    refine hs.append (.comment hc .nil) ?_
    simp [hc.noAction]
  rwa [List.append_nil] at h

/-- Puts a run behind a text that ends with another action. -/
theorem concat_run {s run : List Char} {p : Program} {action : Action} {steps : List Int}
    (hs : Denotes s p) (hrun : Spells action run steps) (hne : run ≠ [])
    (hlast : lastAction? s ≠ some action) :
    Denotes (s ++ run) (p ++ [.act action steps.sum]) := by
  have h : Denotes (run ++ []) [.act action steps.sum] := .run hrun hne (by simp) .nil
  rw [List.append_nil] at h
  refine hs.append h ?_
  intro action' hlast' hhead
  rw [hrun.headAction? hne] at hhead
  cases hhead
  exact hlast hlast'

/-- Puts a loop behind a text. -/
theorem concat_loop {s body : List Char} {p b : Program} (hs : Denotes s p)
    (hbody : Denotes body b) : Denotes (s ++ '[' :: (body ++ [']'])) (p ++ [.loop b]) :=
  hs.append (.loop hbody .nil) (by simp [Action.ofChar?])

end Denotes

/-! ## Balance -/

/-- More closing than opening brackets. -/
def Overclosed (text : List Char) : Prop :=
  text.count '[' < text.count ']'

/-- No prefix is overclosed. -/
def Closable (text : List Char) : Prop :=
  ∀ k, ¬ Overclosed (text.take k)

/-- No prefix has more closing than opening brackets, and the text has as many of both. -/
structure Balanced (text : List Char) : Prop where
  closable : Closable text
  settled : text.count ']' = text.count '['

/-- A closable text is not overclosed itself. -/
theorem Closable.not_overclosed {s : List Char} (hs : Closable s) : ¬ Overclosed s := by
  have h := hs s.length
  rwa [List.take_length] at h

theorem balanced_nil : Balanced [] where
  closable := by
    intro k
    simp [Overclosed]
  settled := rfl

/-- A closable text stays closable when another one follows. -/
theorem Closable.append {s t : List Char} (hs : Closable s) (ht : Closable t) :
    Closable (s ++ t) := by
  intro k
  rw [List.take_append]
  by_cases hk : k ≤ s.length
  · -- the prefix ends in the first text
    have hzero : k - s.length = 0 := by omega
    rw [hzero, List.take_zero, List.append_nil]
    exact hs k
  · -- the prefix holds the first text, and its end is a prefix of the second
    have hall : s.take k = s := List.take_of_length_le (by omega)
    have hfirst := hs.not_overclosed
    have hsecond := ht (k - s.length)
    rw [hall]
    unfold Overclosed at *
    rw [List.count_append, List.count_append]
    omega

/-- A closable text stays closable when one more character follows that does not overclose it. -/
theorem Closable.concat {s : List Char} {c : Char} (hs : Closable s)
    (hc : ¬ Overclosed (s ++ [c])) : Closable (s ++ [c]) := by
  intro k
  by_cases hk : k ≤ s.length
  · rw [List.take_append_of_le_length hk]
    exact hs k
  · have hall : (s ++ [c]).take k = s ++ [c] := by
      apply List.take_of_length_le
      rw [List.length_append, List.length_singleton]
      omega
    rw [hall]
    exact hc

theorem Balanced.append {s t : List Char} (hs : Balanced s) (ht : Balanced t) :
    Balanced (s ++ t) where
  closable := hs.closable.append ht.closable
  settled := by
    rw [List.count_append, List.count_append, hs.settled, ht.settled]

/-- A text without brackets is balanced. -/
theorem balanced_of_no_brackets {s : List Char} (hs : ∀ c ∈ s, c ≠ '[' ∧ c ≠ ']') :
    Balanced s where
  closable := by
    intro k
    have h : (s.take k).count ']' = 0 :=
      List.count_eq_zero.mpr fun hm => (hs _ (List.mem_of_mem_take hm)).2 rfl
    simp [Overclosed, h]
  settled := by
    have h₁ : s.count '[' = 0 := List.count_eq_zero.mpr fun hm => (hs _ hm).1 rfl
    have h₂ : s.count ']' = 0 := List.count_eq_zero.mpr fun hm => (hs _ hm).2 rfl
    rw [h₁, h₂]

/-- A text stays closable when a `[` and a balanced text follow. -/
theorem Closable.opening {u v : List Char} (hu : Closable u) (hv : Balanced v) :
    Closable (u ++ '[' :: v) := by
  have hnot := hu.not_overclosed
  have hopening : Closable (u ++ ['[']) := by
    apply hu.concat
    have hclosings : (u ++ ['[']).count ']' = u.count ']' := by simp
    have hopenings : (u ++ ['[']).count '[' = u.count '[' + 1 := by simp
    unfold Overclosed at *
    omega
  have h := hopening.append hv.closable
  rwa [List.append_assoc] at h

/-- A text with a stray `[` that only a balanced text follows is not balanced. -/
theorem not_balanced_of_opening {u v : List Char} (hu : Closable u) (hv : Balanced v) :
    ¬ Balanced (u ++ '[' :: v) := by
  intro h
  -- one `[` more than the two parts could settle
  have hclosings : (u ++ '[' :: v).count ']' = u.count ']' + v.count ']' := by simp
  have hopenings : (u ++ '[' :: v).count '[' = u.count '[' + v.count '[' + 1 := by
    simp [Nat.add_assoc]
  have hsettled := h.settled
  have hsettled' := hv.settled
  have hnot := hu.not_overclosed
  unfold Overclosed at hnot
  omega

/-- A balanced text in brackets is balanced. -/
theorem Balanced.bracket {s : List Char} (hs : Balanced s) : Balanced ('[' :: (s ++ [']'])) := by
  have hopen : Closable ('[' :: s) := balanced_nil.closable.opening hs
  have hsettled := hs.settled
  constructor
  · refine hopen.concat ?_
    simp [Overclosed, hsettled]
  · simp [hsettled]

/-- A character of a run is no bracket. -/
theorem Spells.not_bracket {action : Action} {run : List Char} {steps : List Int}
    (h : Spells action run steps) {c : Char} (hc : c ∈ run) : c ≠ '[' ∧ c ≠ ']' := by
  rcases h.exists_step hc with ⟨step, hstep⟩
  constructor
  · rintro rfl
    simp [Action.ofChar?] at hstep
  · rintro rfl
    simp [Action.ofChar?] at hstep

/-- What stands for a program is balanced. -/
theorem Denotes.balanced {s : List Char} {p : Program} (h : Denotes s p) : Balanced s := by
  induction h with
  | nil => exact balanced_nil
  | @comment c rest p hc _ ih =>
    have hc' : Balanced [c] := by
      apply balanced_of_no_brackets
      simpa using ⟨hc.notOpening, hc.notClosing⟩
    exact hc'.append ih
  | run hrun _ _ _ ih =>
    exact (balanced_of_no_brackets fun _ => hrun.not_bracket).append ih
  | @loop body b rest p _ _ ihBody ihRest =>
    rw [bracketed_eq_append]
    exact ihBody.bracket.append ihRest

end TapeMachine
