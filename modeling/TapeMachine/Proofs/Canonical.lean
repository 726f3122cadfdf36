import TapeMachine.Program.Canonical
import TapeMachine.Proofs.Composition

/-! # Canonical programs and their texts

Texts without comments and canonical programs stand for each other.

* `Canonical.denotes_render`: the text of a canonical program derives it, since each count is
  written as one run and no run goes on into the next one;
* `Denotes.canonical`: what a text without comments derives is canonical, since with no comment
  between them two neighbouring runs have different actions;
* `ofText_render_canonical`: so reading undoes writing, and writing gives back a text with the same
  program.
-/

namespace TapeMachine

/-! ## Texts without comments -/

/-- Every character is a command. -/
def Uncommented (text : List Char) : Prop :=
  ∀ c ∈ text, isCommand c = true

/-- A character with an action is a command. -/
theorem isCommand_of_ofChar? {c : Char} {r : Action × Int} (h : Action.ofChar? c = some r) :
    isCommand c = true := by
  unfold Action.ofChar? at h
  split at h
  all_goals cases h
  all_goals rfl

/-- A comment is a character that is no command. -/
theorem isComment_iff {c : Char} : IsComment c ↔ isCommand c = false := by
  constructor
  · rintro ⟨hopening, hclosing, hnone⟩
    rw [← Bool.not_eq_true]
    intro hc
    have hmem : c ∈ commandChars := List.contains_iff_mem.mp hc
    simp only [commandChars, List.mem_cons, List.not_mem_nil, or_false, hopening, hclosing] at hmem
    -- the six characters that are left have an action
    rcases hmem with rfl | rfl | rfl | rfl | rfl | rfl
    all_goals cases hnone
  · intro hc
    refine ⟨?_, ?_, ?_⟩
    · rintro rfl
      cases hc
    · rintro rfl
      cases hc
    · cases hof : Action.ofChar? c with
      | none => rfl
      | some r =>
        rw [isCommand_of_ofChar? hof] at hc
        cases hc

theorem Uncommented.not_isComment {s : List Char} (h : Uncommented s) {c : Char} (hc : c ∈ s) :
    ¬ IsComment c := by
  intro hcomment
  have hcommand := h c hc
  rw [isComment_iff.mp hcomment] at hcommand
  cases hcommand

/-- Without comments the first node comes from the first character. -/
theorem Denotes.firstAction?_eq {s : List Char} {p : Program} (h : Denotes s p)
    (hs : Uncommented s) : p.firstAction? = headAction? s := by
  cases h with
  | nil => rfl
  | comment hc _ => exact absurd hc (hs.not_isComment (by simp))
  | run hrun hne _ _ =>
    rw [headAction?_append_of_ne_nil hne, hrun.headAction? hne]
    rfl
  | loop _ _ => rfl

/-- A run has a count that a run can have. -/
theorem Spells.isRunCount {action : Action} {run : List Char} {steps : List Int}
    (h : Spells action run steps) (hne : run ≠ []) : IsRunCount action steps.sum := by
  intro haction
  have hones : steps = List.replicate steps.length 1 := by
    apply List.eq_replicate_of_mem
    intro step hstep
    rcases h.exists_char hstep with ⟨c, hc⟩
    exact Action.step_eq_one hc haction
  have hlength : steps.length = run.length := by
    have hmap := congrArg List.length h
    simpa using hmap.symm
  have hpos : 0 < run.length := List.length_pos_iff.mpr hne
  have hsum : steps.sum = steps.length := by
    rw [hones]
    simp
  omega

/-- A text without comments has a canonical program. -/
theorem Denotes.canonical {s : List Char} {p : Program} (h : Denotes s p) (hs : Uncommented s) :
    Canonical p := by
  induction h with
  | nil => exact .nil
  | comment _ _ ih => exact ih fun c hc => hs c (List.mem_cons_of_mem _ hc)
  | @run action run steps rest p hrun hne hstop hrest ih =>
    have hrest' : Uncommented rest := fun c hc => hs c (List.mem_append_right _ hc)
    refine .act (hrun.isRunCount hne) ?_ (ih hrest')
    rw [hrest.firstAction?_eq hrest']
    exact hstop
  | @loop body b rest p _ _ ihBody ihRest =>
    refine .loop (ihBody ?_) (ihRest ?_)
    · intro c hc
      exact hs c (by simp [hc])
    · intro c hc
      exact hs c (by simp [hc])

/-! ## Writing a canonical program -/

/-- The text is a run of the action with this net count. -/
def IsRun (action : Action) (count : Int) (text : List Char) : Prop :=
  ∃ steps, Spells action text steps ∧ text ≠ [] ∧ steps.sum = count

/-- A character, written a number of times, is a run. -/
theorem isRun_replicate {c : Char} {action : Action} {step : Int}
    (hc : Action.ofChar? c = some (action, step)) {n : Nat} (hn : 0 < n) :
    IsRun action (n * step) (List.replicate n c) := by
  refine ⟨List.replicate n step, ?_, ?_, ?_⟩
  · simp [Spells, hc]
  · intro hnil
    have hlength := congrArg List.length hnil
    rw [List.length_replicate, List.length_nil] at hlength
    omega
  · simp

/-- A signed count is written as a run, also if it is zero. -/
theorem isRun_signedRun {up down : Char} {action : Action}
    (hup : Action.ofChar? up = some (action, 1))
    (hdown : Action.ofChar? down = some (action, -1)) (count : Int) :
    IsRun action count (signedRun up down count) := by
  unfold signedRun
  split
  · -- one step up and one down
    rename_i hzero
    refine ⟨[1, -1], (Spells.single hup).append (Spells.single hdown), by simp, ?_⟩
    rw [hzero]
    rfl
  · split
    · rename_i hpos
      have hrun := isRun_replicate hup (n := count.toNat) (by omega)
      rwa [Int.mul_one, Int.toNat_of_nonneg (Int.le_of_lt hpos)] at hrun
    · have hrun := isRun_replicate hdown (n := (-count).toNat) (by omega)
      have hcount : ((-count).toNat : Int) * -1 = count := by omega
      rwa [hcount] at hrun

/-- A count that a run can have is written as a run. -/
theorem isRun_runChars {action : Action} {count : Int} (h : IsRunCount action count) :
    IsRun action count (runChars action count) := by
  cases action with
  | move => exact isRun_signedRun rfl rfl count
  | add => exact isRun_signedRun rfl rfl count
  | output =>
    have hcount : 1 ≤ count := h (Or.inl rfl)
    have hrun := isRun_replicate (c := '.') rfl (n := count.toNat) (by omega)
    rwa [Int.mul_one, Int.toNat_of_nonneg (by omega)] at hrun
  | input =>
    have hcount : 1 ≤ count := h (Or.inr rfl)
    have hrun := isRun_replicate (c := ',') rfl (n := count.toNat) (by omega)
    rwa [Int.mul_one, Int.toNat_of_nonneg (by omega)] at hrun

namespace Canonical

variable {p : Program}

/-- The first character of the text comes from the first node. -/
theorem headAction?_render (h : Canonical p) : headAction? p.render = p.firstAction? := by
  cases h with
  | nil => rfl
  | @act action count rest hcount _ _ =>
    obtain ⟨steps, hspells, hne, _⟩ := isRun_runChars hcount
    show headAction? (runChars action count ++ rest.render) = some action
    rw [headAction?_append_of_ne_nil hne, hspells.headAction? hne]
  | loop _ _ => rfl

/-- The text of a canonical program derives it. -/
theorem denotes_render (h : Canonical p) : Denotes p.render p := by
  induction h with
  | nil => exact .nil
  | @act action count rest hcount hfirst hrest ih =>
    obtain ⟨steps, hspells, hne, hsum⟩ := isRun_runChars hcount
    have hstop : headAction? rest.render ≠ some action := by
      rw [hrest.headAction?_render]
      exact hfirst
    have hrun : Denotes (runChars action count ++ rest.render) (.act action steps.sum :: rest) :=
      .run hspells hne hstop ih
    rw [hsum] at hrun
    exact hrun
  | loop _ _ ihBody ihRest => exact .loop ihBody ihRest

end Canonical

/-! ## Reading and writing -/

/-- Reading the text of a canonical program gives the program back. A text that holds commands only
has a canonical program, if it has one, and writing that program gives a text with the same
program. -/
theorem ofText_render_canonical :
    (∀ p, Canonical p → Program.ofText (String.ofList p.render) = .ok p) ∧
    (∀ s p, (∀ c ∈ s.toList, isCommand c = true) → Program.ofText s = .ok p →
      Canonical p ∧ Program.ofText (String.ofList p.render) = Program.ofText s) := by
  have hrender : ∀ p, Canonical p → Program.ofText (String.ofList p.render) = .ok p := by
    intro p hp
    rw [ofText_eq_ok_iff, String.toList_ofList]
    exact hp.denotes_render
  refine ⟨hrender, ?_⟩
  intro s p hs hp
  have hcanonical : Canonical p := (ofText_eq_ok_iff.mp hp).canonical hs
  refine ⟨hcanonical, ?_⟩
  rw [hp]
  exact hrender p hcanonical

/-- A loop between two runs of one action, an empty loop, and a run that cancels out. -/
theorem ofText_render_canonical_nested :
    Canonical [.act .move 0, .loop [.act .add (-2), .loop [], .act .input 3], .act .move 1] ∧
    Program.ofText "><[--[],,,]>" =
      .ok [.act .move 0, .loop [.act .add (-2), .loop [], .act .input 3], .act .move 1] ∧
    Program.ofText "><[--[],,,]>" = Program.ofText "<>[--[],,,]>" := by
  have hp : Program.ofText "<>[--[],,,]>" =
      .ok [.act .move 0, .loop [.act .add (-2), .loop [], .act .input 3], .act .move 1] := by
    cbv
  have hrender : Program.render
      [.act .move 0, .loop [.act .add (-2), .loop [], .act .input 3], .act .move 1] =
      "><[--[],,,]>".toList := by
    cbv
  have hcommands : ∀ c ∈ "<>[--[],,,]>".toList, isCommand c = true := by
    simp [isCommand, commandChars]
  rcases ofText_render_canonical.2 "<>[--[],,,]>" _ hcommands hp with ⟨hcanonical, hsame⟩
  have hread := ofText_render_canonical.1 _ hcanonical
  rw [hrender, String.ofList_toList] at hread hsame
  exact ⟨hcanonical, hread, hsame⟩

end TapeMachine
