import TapeMachine.Proofs.Scanning

/-! # Programs of composed texts

The scan carries a stack and a run across the whole text, and still the program of a text is made
from the programs of its parts.

* `Scan.feedAll_denotes`: from any scan, over any stack, a text that the grammar derives adds its
  nodes to the innermost sequence and leaves everything around it as it was;
* `ofText_eq_ok_iff` and `ofText_eq_error_iff`: so the scan answers what the grammar says, and it
  reports the bracket that is stray in the sense of `Stray`, which counts brackets only;
* `ofText_compositional`: texts side by side, a text in brackets, a run of one action, and where the
  fault of a text lies when another one stands in front of it.
-/

namespace TapeMachine

/-! ## What a derived text does to a scan -/

namespace Scan

/-- Reading a text and then another one. -/
theorem feedAll_append {s s' : Scan} {text : List Char} (h : text.foldlM feed s = .ok s')
    (rest : List Char) : (text ++ rest).foldlM feed s = rest.foldlM feed s' := by
  rw [List.foldlM_append, h]
  rfl

theorem feed_action {c : Char} {action : Action} {step : Int}
    (hc : Action.ofChar? c = some (action, step)) (s : Scan) :
    s.feed c = .ok (s.count action step) := by
  have hbracket := (Spells.single hc).not_bracket (c := c) (by simp)
  simp only [feed, hbracket.1, hbracket.2, if_false, hc]

theorem feed_comment {c : Char} (hc : IsComment c) (s : Scan) : s.feed c = .ok s.skip := by
  simp only [feed, hc.notOpening, hc.notClosing, if_false, hc.noAction]

/-- The characters of an action go on with its run. -/
theorem feedAll_run {action : Action} {run : List Char} {steps : List Int}
    (h : Spells action run steps) (s : Scan) {n : Int} (hrun : s.run = some (action, n)) :
    run.foldlM feed s =
      .ok { s with position := s.position + run.length, run := some (action, n + steps.sum) } := by
  induction run generalizing s n steps with
  | nil =>
    have hnil : steps = [] := by
      unfold Spells at h
      simpa using h.symm
    subst hnil
    simp only [List.foldlM_nil, List.length_nil, List.sum_nil, Nat.add_zero, Int.add_zero, ← hrun]
    rfl
  | cons c run ih =>
    rcases h.cons_cases with ⟨step, rest, rfl, hc, hrest⟩
    have hcount : s.count action step =
        { s with position := s.position + 1, run := some (action, n + step) } := by
      simp only [count, hrun, if_true]
    have hposition : s.position + 1 + run.length = s.position + (c :: run).length := by
      rw [List.length_cons]
      omega
    rw [List.foldlM_cons, feed_action hc, hcount]
    show run.foldlM feed _ = _
    rw [ih hrest _ rfl, hposition, List.sum_cons, Int.add_assoc]

/-- From `s` to `s'` the innermost sequence got `nodes` behind it, and no open loop changed. -/
structure Added (nodes : Program) (s s' : Scan) : Prop where
  enclosing_eq : s'.enclosing = s.enclosing
  finished_eq : s'.finished = nodes.reverse ++ s.finished

theorem Added.refl (s : Scan) : Added [] s s := ⟨rfl, rfl⟩

theorem Added.trans {p q : Program} {s s' s'' : Scan} (h : Added p s s') (h' : Added q s' s'') :
    Added (p ++ q) s s'' where
  enclosing_eq := h'.enclosing_eq.trans h.enclosing_eq
  finished_eq := by
    rw [h'.finished_eq, h.finished_eq, List.reverse_append, List.append_assoc]

/-- On an empty sequence, what was added is all there is. -/
theorem Added.reverse_finished {nodes : Program} {s s' : Scan} (h : Added nodes s s')
    (hs : s.finished = []) : s'.finished.reverse = nodes := by
  rw [h.finished_eq, hs, List.append_nil, List.reverse_reverse]

/-- The text does not go on with the run that is under way. -/
def Breaks (s : Scan) (text : List Char) : Prop :=
  ∀ action, headAction? text = some action → s.run.map Prod.fst ≠ some action

/-- With no run under way, any text may follow. -/
theorem breaks_of_run_eq_none {s : Scan} (h : s.run = none) (text : List Char) :
    s.Breaks text := by
  intro action _
  rw [h]
  simp

/-- A run that is not the one under way adds one node, and is under way itself. -/
theorem feedAll_new_run {action : Action} {run : List Char} {steps : List Int}
    (h : Spells action run steps) (hne : run ≠ []) (s : Scan)
    (hbreaks : s.run.map Prod.fst ≠ some action) :
    ∃ s', run.foldlM feed s = .ok s' ∧ Added [.act action steps.sum] s s' ∧
      s'.run = some (action, steps.sum) := by
  obtain ⟨c, run, rfl⟩ := List.exists_cons_of_ne_nil hne
  rcases h.cons_cases with ⟨step, rest, rfl, hc, hrest⟩
  -- the first character ends what was under way, the others only count
  have hcount : s.count action step =
      ⟨s.position + 1, some (action, step), s.finished, s.enclosing⟩ := by
    unfold count finished
    cases hrun : s.run with
    | none => rfl
    | some current =>
      rcases current with ⟨a, n⟩
      have ha : a ≠ action := by
        intro ha
        apply hbreaks
        rw [hrun, ha]
        rfl
      simp only [if_neg ha]
  have hfeed : (c :: run).foldlM feed s =
      .ok ⟨s.position + 1 + run.length, some (action, step + rest.sum), s.finished,
        s.enclosing⟩ := by
    rw [List.foldlM_cons, feed_action hc, hcount]
    exact feedAll_run hrest _ rfl
  exact ⟨_, hfeed, ⟨rfl, rfl⟩, rfl⟩

/-- A `]` behind a body adds the loop to the sequence in which its `[` stands. -/
theorem feed_closing {s s₁ : Scan} {body : Program} (h : Added body s.openLoop s₁) :
    ∃ s', s₁.feed ']' = .ok s' ∧ Added [.loop body] s s' ∧ s'.run = none := by
  have hfinished : s₁.finished.reverse = body := h.reverse_finished rfl
  have hclose : s₁.closeLoop =
      .ok ⟨s₁.position + 1, none, .loop body :: s.finished, s.enclosing⟩ := by
    simp only [closeLoop, h.enclosing_eq, openLoop, hfinished]
  exact ⟨_, hclose, ⟨rfl, rfl⟩, rfl⟩

/-- A text that the grammar derives adds its program to the innermost sequence of any scan, unless
its first character goes on with a run that is under way. -/
theorem feedAll_denotes {text : List Char} {p : Program} (h : Denotes text p) (s : Scan)
    (hbreaks : s.Breaks text) : ∃ s', text.foldlM feed s = .ok s' ∧ Added p s s' := by
  -- over the derivation, for every scan: the stack and the run are what the text stands behind
  induction h generalizing s with
  | nil => exact ⟨s, rfl, .refl s⟩
  | @comment c rest p hc _ ih =>
    obtain ⟨s', hs', hadded⟩ := ih s.skip (breaks_of_run_eq_none rfl rest)
    refine ⟨s', ?_, hadded.enclosing_eq, hadded.finished_eq⟩
    rw [List.foldlM_cons, feed_comment hc]
    exact hs'
  | @run action run steps rest p hrun hne hstop _ ih =>
    have hhead : headAction? (run ++ rest) = some action := by
      rw [headAction?_append_of_ne_nil hne, hrun.headAction? hne]
    obtain ⟨s₁, hs₁, hadded₁, hrun₁⟩ := feedAll_new_run hrun hne s (hbreaks action hhead)
    have hbreaks₁ : s₁.Breaks rest := by
      intro a ha hrun
      rw [hrun₁] at hrun
      injection hrun with hrun
      subst hrun
      exact hstop ha
    obtain ⟨s₂, hs₂, hadded₂⟩ := ih s₁ hbreaks₁
    refine ⟨s₂, ?_, hadded₁.trans hadded₂⟩
    rw [feedAll_append hs₁, hs₂]
  | @loop body b rest p _ _ ihBody ihRest =>
    -- the body is read above a stack with one loop more, and its `]` takes that loop off again
    obtain ⟨s₁, hs₁, hadded₁⟩ := ihBody s.openLoop (breaks_of_run_eq_none rfl body)
    obtain ⟨s₂, hs₂, hadded₂, hrun₂⟩ := feed_closing hadded₁
    obtain ⟨s₃, hs₃, hadded₃⟩ := ihRest s₂ (breaks_of_run_eq_none hrun₂ rest)
    refine ⟨s₃, ?_, hadded₂.trans hadded₃⟩
    rw [List.foldlM_cons]
    show (body ++ ']' :: rest).foldlM feed s.openLoop = _
    rw [feedAll_append hs₁, List.foldlM_cons, hs₂]
    exact hs₃

end Scan

/-- A text has the program that the grammar gives, and no other. -/
theorem ofText_eq_ok_iff {source : String} {p : Program} :
    Program.ofText source = .ok p ↔ Denotes source.toList p := by
  constructor
  · exact denotes_of_ofText
  · intro h
    obtain ⟨s, hs, hadded⟩ :=
      Scan.feedAll_denotes h Scan.start (Scan.breaks_of_run_eq_none rfl _)
    have henclosing : s.enclosing = [] := hadded.enclosing_eq
    have hfinished : s.finished.reverse = p := hadded.reverse_finished rfl
    unfold Program.ofText Program.ofChars
    rw [hs]
    show s.finish = .ok p
    simp only [Scan.finish, henclosing, hfinished]

/-! ## Stray brackets -/

/-- The shortest overclosed prefix has one end. -/
theorem FirstOverclosing.unique {text : List Char} {i j : Nat} (hi : FirstOverclosing text i)
    (hj : FirstOverclosing text j) : i = j := by
  have hij : ¬ i < j := fun hlt => hj.2 (i + 1) hlt hi.1
  have hji : ¬ j < i := fun hlt => hi.2 (j + 1) hlt hj.1
  omega

/-- The bracket without a partner: the first `]` that closes nothing, or else the innermost `[` that
nothing closes. -/
inductive Stray : List Char → StrayBracket → Prop where
  | closing {u v : List Char} : Balanced u → Stray (u ++ ']' :: v) ⟨u.length, .closing⟩
  | opening {u v : List Char} :
      Closable u → Balanced v → Stray (u ++ '[' :: v) ⟨u.length, .opening⟩

/-- The place of the bracket, found by counting. -/
def StrayBracket.At (text : List Char) (e : StrayBracket) : Prop :=
  match e.bracket with
  | .closing => FirstOverclosing text e.position
  | .opening => Closable text ∧ LastOpening text e.position

namespace Stray

variable {text : List Char} {e e' : StrayBracket}

theorem at_position (h : Stray text e) : e.At text := by
  cases h with
  | @closing u v hu => exact firstOverclosing_append hu v
  | @opening u v hu hv => exact ⟨hu.opening hv, lastOpening_append u hv⟩

theorem not_balanced (h : Stray text e) : ¬ Balanced text := by
  cases h with
  | @closing u v hu =>
    intro hbalanced
    exact hbalanced.closable _ (firstOverclosing_append hu v).1
  | opening hu hv => exact not_balanced_of_opening hu hv

/-- A text has at most one stray bracket to report. -/
theorem unique (h : Stray text e) (h' : Stray text e') : e = e' := by
  have hat := h.at_position
  have hat' := h'.at_position
  rcases e with ⟨i, bracket⟩
  rcases e' with ⟨j, bracket'⟩
  cases bracket with
  | closing =>
    cases bracket' with
    | closing =>
      have hij : i = j := FirstOverclosing.unique hat hat'
      rw [hij]
    | opening => exact absurd hat.1 (hat'.1 _)
  | opening =>
    cases bracket' with
    | closing => exact absurd hat'.1 (hat.1 _)
    | opening =>
      have hij : i = j := LastOpening.unique hat.2 hat'.2
      rw [hij]

/-- A balanced text in front only shifts the position. -/
theorem append {s : List Char} (hs : Balanced s) (h : Stray text e) :
    Stray (s ++ text) ⟨s.length + e.position, e.bracket⟩ := by
  cases h with
  | @closing u v hu =>
    rw [← List.append_assoc, ← List.length_append]
    exact .closing (hs.append hu)
  | @opening u v hu hv =>
    rw [← List.append_assoc, ← List.length_append]
    exact .opening (hs.closable.append hu) hv

end Stray

/-- A text has a program, or its stray bracket is reported. -/
theorem ofText_cases (source : String) :
    (∃ p, Program.ofText source = .ok p ∧ Denotes source.toList p) ∨
    (∃ e, Program.ofText source = .error e ∧ Stray source.toList e) := by
  rcases ofChars_cases source.toList with hok | ⟨u, v, p, hsource, hu, herror⟩ |
      ⟨u, v, p, hsource, hu, hv, herror⟩
  · exact Or.inl hok
  · refine Or.inr ⟨_, herror, ?_⟩
    rw [hsource]
    exact .closing hu.balanced
  · refine Or.inr ⟨_, herror, ?_⟩
    rw [hsource]
    exact .opening hu hv.balanced

/-- The error of a text is its stray bracket. -/
theorem ofText_eq_error_iff {source : String} {e : StrayBracket} :
    Program.ofText source = .error e ↔ Stray source.toList e := by
  rcases ofText_cases source with ⟨p, hp, hdenotes⟩ | ⟨e', herror, hstray⟩
  · constructor
    · intro h
      rw [hp] at h
      cases h
    · intro h
      exact absurd hdenotes.balanced h.not_balanced
  · constructor
    · intro h
      rw [herror] at h
      cases h
      exact hstray
    · intro h
      rw [h.unique hstray]
      exact herror

/-! ## Composition -/

/-- The signed step of a character; one without an action makes none. -/
def signedStep (c : Char) : Int :=
  match Action.ofChar? c with
  | some (_, step) => step
  | none => 0

/-- The sum of the signed steps of the characters. -/
def netCount (text : List Char) : Int :=
  (text.map signedStep).sum

/-- Characters that all stand for one action spell it with their own steps. -/
theorem spells_of_forall {action : Action} {run : List Char}
    (h : ∀ c ∈ run, (Action.ofChar? c).map Prod.fst = some action) :
    Spells action run (run.map signedStep) := by
  unfold Spells
  rw [List.map_map]
  apply List.map_congr_left
  intro c hc
  have hfst := h c hc
  cases hof : Action.ofChar? c with
  | none =>
    rw [hof] at hfst
    cases hfst
  | some r =>
    rcases r with ⟨a, step⟩
    rw [hof] at hfst
    cases hfst
    simp only [Function.comp_apply, signedStep, hof]

theorem natAbs_signedStep_le (c : Char) : (signedStep c).natAbs ≤ 1 := by
  unfold signedStep Action.ofChar?
  split
  · rename_i action step h
    split at h
    all_goals cases h
    all_goals decide
  · decide

/-- Folding a text never counts further than its length. -/
theorem natAbs_netCount_le (text : List Char) : (netCount text).natAbs ≤ text.length := by
  induction text with
  | nil => exact Nat.le_refl 0
  | cons c text ih =>
    have hc := natAbs_signedStep_le c
    have hcons : netCount (c :: text) = signedStep c + netCount text := by
      simp [netCount]
    rw [hcons, List.length_cons]
    omega

/-- How the program of a text is made from its parts. Side by side, two texts give the nodes of the
one and then those of the other, unless a run goes on across the border. In brackets, a text gives
one loop. Characters of a single action give one node with the sum of their steps, also if that is
zero; neither the sum nor any partial sum exceeds the number of characters. And behind a text that
has a program, the fault of another text stays the same and moves by the length of the first. -/
theorem ofText_compositional (s t : String) :
    (∀ p q, Program.ofText s = .ok p → Program.ofText t = .ok q →
      (¬ ∃ action, lastAction? s.toList = some action ∧ headAction? t.toList = some action) →
      Program.ofText (s ++ t) = .ok (p ++ q)) ∧
    (∀ p, Program.ofText s = .ok p → Program.ofText ("[" ++ s ++ "]") = .ok [.loop p]) ∧
    (∀ action, s ≠ "" →
      (∀ c ∈ s.toList, (Action.ofChar? c).map Prod.fst = some action) →
      Program.ofText s = .ok [.act action (netCount s.toList)] ∧
        ∀ k, (netCount (s.toList.take k)).natAbs ≤ s.length) ∧
    (∀ p position bracket, Program.ofText s = .ok p →
      Program.ofText t = .error ⟨position, bracket⟩ →
      Program.ofText (s ++ t) = .error ⟨s.length + position, bracket⟩) := by
  refine ⟨?_, ?_, ?_, ?_⟩
  · intro p q hp hq hborder
    rw [ofText_eq_ok_iff] at *
    rw [String.toList_append]
    apply hp.append hq
    intro action hlast hhead
    exact hborder ⟨action, hlast, hhead⟩
  · intro p hp
    rw [ofText_eq_ok_iff] at *
    have htext : ("[" ++ s ++ "]").toList = '[' :: (s.toList ++ [']']) := by
      simp
    rw [htext]
    exact .loop hp .nil
  · intro action hne hall
    constructor
    · have hne' : s.toList ≠ [] := by
        simpa using hne
      have hrun : Denotes (s.toList ++ []) [.act action (netCount s.toList)] :=
        .run (spells_of_forall hall) hne' (by simp) .nil
      rw [List.append_nil] at hrun
      exact ofText_eq_ok_iff.mpr hrun
    · intro k
      have htake := natAbs_netCount_le (s.toList.take k)
      rw [List.length_take, String.length_toList] at htake
      omega
  · intro p position bracket hp ht
    rw [ofText_eq_ok_iff] at hp
    rw [ofText_eq_error_iff] at *
    rw [String.toList_append, ← String.length_toList]
    exact ht.append hp.balanced

/-- The borders that matter: a comment keeps two runs apart, a run may cancel out, and a run that
goes on behind a loop does not move the fault. -/
theorem ofText_compositional_borders :
    Program.ofText "+ +" = .ok [.act .add 1, .act .add 1] ∧
    Program.ofText "[+[-]>]" = .ok [.loop [.act .add 1, .loop [.act .add (-1)], .act .move 1]] ∧
    Program.ofText "+-" = .ok [.act .add 0] ∧
    Program.ofText "[.]++]" = .error ⟨5, .closing⟩ := by
  refine ⟨?_, ?_, ?_, ?_⟩
  · refine (ofText_compositional "+ " "+").1 [.act .add 1] [.act .add 1] (by cbv) (by cbv) ?_
    rintro ⟨action, hlast, _⟩
    cases hlast
  · exact (ofText_compositional "+[-]>" "").2.1 _ (by cbv)
  · have hall : ∀ c ∈ "+-".toList, (Action.ofChar? c).map Prod.fst = some .add := by
      simp [Action.ofChar?]
    exact ((ofText_compositional "+-" "").2.2.1 .add (by decide) hall).1
  · exact (ofText_compositional "[.]+" "+]").2.2.2 _ 1 .closing (by cbv) (by cbv)

end TapeMachine
