import TapeMachine.Proofs.Grammar

/-! # What the scan has read

The invariant of the scan, and what it says about the answer.

* `Scanned text s`: the text read so far is cut at its open brackets into pieces that each stand
  for the nodes the scan has put aside for them;
* `Scanned.feed` and `Scanned.feedAll`: one character, and then a whole text, keep the invariant;
* `ofChars_cases`: a text stands for a program, or it has a first `]` that closes nothing, or it
  has an innermost `[` that nothing closes, and the answer says which and where;
* `ofText_balance`: the texts that have a program are the balanced ones, and the position of a
  stray bracket is the one that counting brackets gives.
-/

namespace TapeMachine

/-! ## The invariant -/

/-- The text is cut at the `[` of each open loop; the piece before each of them stands for the nodes
put aside there. -/
inductive Opened : List OpenLoop → List Char → Prop where
  | nil : Opened [] []
  | cons {o : OpenLoop} {outer : List OpenLoop} {u s : List Char} :
      Opened outer u → Denotes s o.before.reverse → o.position = (u ++ s).length →
      Opened (o :: outer) (u ++ s ++ ['['])

/-- The text of the innermost sequence: the finished nodes, and the run that may still go on. -/
inductive Reading : List Char → Option (Action × Int) → List Node → Prop where
  | between {s : List Char} {body : List Node} :
      Denotes s body.reverse → lastAction? s = none → Reading s none body
  | running {s run : List Char} {body : List Node} {action : Action} {steps : List Int} :
      Denotes s body.reverse → lastAction? s ≠ some action → Spells action run steps →
      run ≠ [] → Reading (s ++ run) (some (action, steps.sum)) body

/-- What a scan knows is true of the text it has read. -/
structure Scanned (text : List Char) (s : Scan) : Prop where
  position_eq : s.position = text.length
  pieces : ∃ u t, Opened s.enclosing u ∧ Reading t s.run s.body ∧ text = u ++ t

namespace Reading

variable {t : List Char}

/-- Once its run has ended, the innermost text stands for the nodes read. -/
theorem denotes {s : Scan} (h : Reading t s.run s.body) : Denotes t s.finished.reverse := by
  unfold Scan.finished
  generalize hrun : s.run = run at h
  cases h with
  | between hs _ => exact hs
  | running hs hlast hspell hne =>
    rw [List.reverse_cons]
    exact hs.concat_run hspell hne hlast

/-- The run that may go on is the one of the last character. -/
theorem lastAction?_eq {run : Option (Action × Int)} {body : List Node} (h : Reading t run body) :
    lastAction? t = run.map Prod.fst := by
  cases h with
  | between _ hlast => exact hlast
  | running _ _ hspell hne =>
    rw [lastAction?_append_of_ne_nil _ hne, hspell.lastAction? hne]
    rfl

/-- A character of an action starts a run behind a text that ends otherwise. -/
theorem start {body : List Node} {c : Char} {action : Action} {step : Int}
    (ht : Denotes t body.reverse) (hlast : lastAction? t ≠ some action)
    (hc : Action.ofChar? c = some (action, step)) :
    Reading (t ++ [c]) (some (action, step)) body := by
  have h := Reading.running ht hlast (Spells.single hc) (by simp)
  simpa using h

/-- A character of an action starts a run or goes on with it. -/
theorem count {s : Scan} (h : Reading t s.run s.body) {c : Char} {action : Action} {step : Int}
    (hc : Action.ofChar? c = some (action, step)) :
    Reading (t ++ [c]) (s.count action step).run (s.count action step).body := by
  have hdenotes := h.denotes
  have hlast := h.lastAction?_eq
  unfold Scan.count Scan.finished at *
  generalize s.run = run at *
  cases h with
  | between hs hnone =>
    -- no run is under way
    refine start hs ?_ hc
    rw [hnone]
    simp
  | @running u r body a steps hs hne' hspell hne =>
    by_cases ha : a = action
    · -- the run goes on: its steps get one more
      subst ha
      have hsum : (steps ++ [step]).sum = steps.sum + step := by simp
      have h' := Reading.running hs hne' (hspell.append (Spells.single hc)) (by simp)
      rw [← List.append_assoc, hsum] at h'
      simpa only [if_true] using h'
    · -- another action: the run so far is finished, and a new one starts
      simp only [ha, if_false]
      refine start hdenotes ?_ hc
      rw [hlast]
      simpa using ha

/-- A comment ends the run. -/
theorem skip {s : Scan} (h : Reading t s.run s.body) {c : Char} (hc : IsComment c) :
    Reading (t ++ [c]) none s.finished := by
  refine .between (h.denotes.concat_comment hc) ?_
  simp [hc.noAction]

end Reading

/-! ## One character, then a whole text -/

/-- Counting reads one character. -/
theorem Scan.position_count (s : Scan) (action : Action) (step : Int) :
    (s.count action step).position = s.position + 1 := by
  unfold Scan.count
  split
  · split <;> rfl
  · rfl

/-- Counting opens and closes nothing. -/
theorem Scan.enclosing_count (s : Scan) (action : Action) (step : Int) :
    (s.count action step).enclosing = s.enclosing := by
  unfold Scan.count
  split
  · split <;> rfl
  · rfl

/-- A character is refused only if it is a `]` and no loop is open. -/
theorem Scan.feed_error {s : Scan} {c : Char} {e : StrayBracket} (h : s.feed c = .error e) :
    c = ']' ∧ s.enclosing = [] ∧ e = ⟨s.position, .closing⟩ := by
  unfold Scan.feed at h
  split at h
  case isTrue => cases h
  case isFalse =>
    split at h
    case isTrue hclosing =>
      unfold Scan.closeLoop at h
      split at h
      · rename_i henclosing
        injection h with h
        exact ⟨hclosing, henclosing, h.symm⟩
      · cases h
    case isFalse => split at h <;> cases h

namespace Scanned

variable {text : List Char} {s s' : Scan}

theorem start : Scanned [] Scan.start where
  position_eq := rfl
  pieces := ⟨[], [], .nil, .between .nil rfl, rfl⟩

/-- A character that only adds to the innermost sequence keeps the invariant. -/
theorem inner (h : Scanned text s) {c : Char} (hpos : s'.position = s.position + 1)
    (henclosing : s'.enclosing = s.enclosing)
    (hread : ∀ t, Reading t s.run s.body → Reading (t ++ [c]) s'.run s'.body) :
    Scanned (text ++ [c]) s' := by
  constructor
  · rw [hpos, h.position_eq, List.length_append, List.length_singleton]
  · rcases h.pieces with ⟨u, t, hopen, ht, rfl⟩
    refine ⟨u, t ++ [c], ?_, hread t ht, List.append_assoc u t [c]⟩
    rw [henclosing]
    exact hopen

/-- `[` puts the innermost sequence aside. -/
theorem openLoop (h : Scanned text s) : Scanned (text ++ ['[']) s.openLoop := by
  constructor
  · rw [List.length_append, ← h.position_eq]
    rfl
  · rcases h.pieces with ⟨u, t, hopen, hread, rfl⟩
    exact ⟨u ++ t ++ ['['], [], .cons hopen hread.denotes h.position_eq, .between .nil rfl,
      by rw [List.append_nil]⟩

/-- `]` attaches the innermost sequence to the one around it. -/
theorem closeLoop (h : Scanned text s) (hs : s.closeLoop = .ok s') :
    Scanned (text ++ [']']) s' := by
  rcases h.pieces with ⟨u, t, hopen, hread, htext⟩
  have hpos := h.position_eq
  have hbody := hread.denotes
  unfold Scan.closeLoop at hs
  generalize s.enclosing = enclosing at *
  cases hopen with
  | nil => simp at hs
  | @cons o outer u v hopen hbefore _ =>
    -- the pieces before and behind the `[` become one, so one open bracket less cuts the text
    injection hs with hs
    subst hs
    refine ⟨?_, u, v ++ '[' :: (t ++ [']']), hopen, ?_, by simp [htext]⟩
    · simp only [hpos, List.length_append, List.length_singleton]
    · apply Reading.between
      · rw [List.reverse_cons]
        exact hbefore.concat_loop hbody
      · rw [← List.cons_append, ← List.append_assoc, lastAction?_concat]
        rfl

/-- One character keeps the invariant. -/
theorem feed (h : Scanned text s) {c : Char} (hs : s.feed c = .ok s') :
    Scanned (text ++ [c]) s' := by
  unfold Scan.feed at hs
  split at hs
  case isTrue hopening =>
    injection hs with hs
    rw [← hs, hopening]
    exact h.openLoop
  case isFalse hopening =>
    split at hs
    case isTrue hclosing =>
      rw [hclosing]
      exact h.closeLoop hs
    case isFalse hclosing =>
      split at hs
      case h_1 action step hc =>
        injection hs with hs
        subst hs
        exact h.inner (s.position_count action step) (s.enclosing_count action step)
          fun _ hread => hread.count hc
      case h_2 hc =>
        injection hs with hs
        subst hs
        exact h.inner rfl rfl fun _ hread => hread.skip ⟨hopening, hclosing, hc⟩

/-- A whole text keeps the invariant. -/
theorem feedAll (h : Scanned text s) {rest : List Char}
    (hs : rest.foldlM Scan.feed s = .ok s') : Scanned (text ++ rest) s' := by
  -- over the text still to read; each character passes from it to the text read
  induction rest generalizing text s with
  | nil =>
    injection hs with hs
    subst hs
    rwa [List.append_nil]
  | cons c rest ih =>
    rw [List.foldlM_cons] at hs
    cases hfeed : s.feed c with
    | error e =>
      rw [hfeed] at hs
      simp [bind, Except.bind] at hs
    | ok s₁ =>
      rw [hfeed] at hs
      have h' := ih (h.feed hfeed) hs
      rwa [List.append_assoc] at h'

/-- With no open loop, the whole text stands for the nodes read. -/
theorem denotes_of_closed (h : Scanned text s) (hclosed : s.enclosing = []) :
    Denotes text s.finished.reverse := by
  rcases h.pieces with ⟨u, t, hopen, hread, rfl⟩
  rw [hclosed] at hopen
  cases hopen
  exact hread.denotes

/-- Only a `]` that closes nothing stops the scan, and it stops it there. -/
theorem feedAll_error (h : Scanned text s) {rest : List Char} {e : StrayBracket}
    (hs : rest.foldlM Scan.feed s = .error e) :
    ∃ u v p, rest = u ++ ']' :: v ∧ Denotes (text ++ u) p ∧
      e = ⟨(text ++ u).length, .closing⟩ := by
  induction rest generalizing text s with
  | nil => simp [pure, Except.pure] at hs
  | cons c rest ih =>
    rw [List.foldlM_cons] at hs
    cases hfeed : s.feed c with
    | error e' =>
      rw [hfeed] at hs
      -- this character is the one that closes nothing
      injection hs with hs
      rcases Scan.feed_error hfeed with ⟨rfl, hclosed, hat⟩
      refine ⟨[], rest, s.finished.reverse, rfl, ?_, ?_⟩
      · rw [List.append_nil]
        exact h.denotes_of_closed hclosed
      · rw [List.append_nil, ← hs, hat, h.position_eq]
    | ok s₁ =>
      rw [hfeed] at hs
      rcases ih (h.feed hfeed) hs with ⟨u, v, p, hrest, hu, he⟩
      rw [List.append_assoc] at hu he
      exact ⟨c :: u, v, p, by rw [hrest]; rfl, hu, he⟩

end Scanned

/-! ## The answer -/

/-- Before an open `[` no bracket is closed that was not opened. -/
theorem Opened.closable {enclosing : List OpenLoop} {u : List Char} (h : Opened enclosing u) :
    Closable u := by
  induction h with
  | nil => exact balanced_nil.closable
  | @cons o outer u s _ hs _ ih =>
    exact (ih.append hs.balanced.closable).opening balanced_nil

/-- A text stands for a program, or its first stray `]` or its innermost stray `[` is reported. -/
theorem ofChars_cases (source : List Char) :
    (∃ p, Program.ofChars source = .ok p ∧ Denotes source p) ∨
    (∃ u v p, source = u ++ ']' :: v ∧ Denotes u p ∧
      Program.ofChars source = .error ⟨u.length, .closing⟩) ∨
    (∃ u v p, source = u ++ '[' :: v ∧ Closable u ∧ Denotes v p ∧
      Program.ofChars source = .error ⟨u.length, .opening⟩) := by
  unfold Program.ofChars
  cases hscan : source.foldlM Scan.feed Scan.start with
  | error e =>
    rcases Scanned.start.feedAll_error hscan with ⟨u, v, p, hsource, hu, rfl⟩
    exact Or.inr (Or.inl ⟨u, v, p, hsource, hu, rfl⟩)
  | ok s =>
    have hs : Scanned source s := Scanned.start.feedAll hscan
    cases henclosing : s.enclosing with
    | nil =>
      -- every loop is closed
      left
      refine ⟨_, ?_, hs.denotes_of_closed henclosing⟩
      simp [bind, Except.bind, Scan.finish, henclosing]
    | cons o outer =>
      rcases hs.pieces with ⟨u, t, hopen, hread, hsource⟩
      rw [henclosing] at hopen
      cases hopen with
      | @cons _ _ u v hopen hbefore hat =>
        -- the text behind the innermost open `[` is the sequence being read
        right; right
        refine ⟨u ++ v, t, _, ?_, hopen.closable.append hbefore.balanced.closable,
          hread.denotes, ?_⟩
        · simpa using hsource
        · simp [bind, Except.bind, Scan.finish, henclosing, hat]

/-- The program of a text is the one the grammar gives. -/
theorem denotes_of_ofText {source : String} {p : Program} (h : Program.ofText source = .ok p) :
    Denotes source.toList p := by
  unfold Program.ofText at h
  rcases ofChars_cases source.toList with ⟨q, hq, hdenotes⟩ | ⟨_, _, _, _, _, herror⟩ |
      ⟨_, _, _, _, _, _, herror⟩
  · rw [hq] at h
    cases h
    exact hdenotes
  · rw [herror] at h
    cases h
  · rw [herror] at h
    cases h

/-! ## Balance and the place of the fault -/

/-- The shortest overclosed prefix ends with the bracket at this index. -/
def FirstOverclosing (text : List Char) (index : Nat) : Prop :=
  Overclosed (text.take (index + 1)) ∧ ∀ k ≤ index, ¬ Overclosed (text.take k)

/-- The bracket at this index is opening, and what follows it is balanced. -/
def LastOpening (text : List Char) (index : Nat) : Prop :=
  text[index]? = some '[' ∧ Balanced (text.drop (index + 1))

/-- A `]` behind a balanced text is the first that closes nothing. -/
theorem firstOverclosing_append {u : List Char} (hu : Balanced u) (v : List Char) :
    FirstOverclosing (u ++ ']' :: v) u.length := by
  constructor
  · have hsettled := hu.settled
    rw [List.take_length_add_append]
    simp [Overclosed, hsettled]
  · intro k hk
    rw [List.take_append_of_le_length hk]
    exact hu.closable k

/-- A `[` in front of a balanced text stays open. -/
theorem lastOpening_append (u : List Char) {v : List Char} (hv : Balanced v) :
    LastOpening (u ++ '[' :: v) u.length := by
  constructor
  · simp
  · rw [List.drop_length_add_append]
    exact hv

/-- The innermost `[` that stays open is the only one that a balanced text follows. -/
theorem LastOpening.unique {text : List Char} {i j : Nat} (hi : LastOpening text i)
    (hj : LastOpening text j) : i = j := by
  -- the later of the two would be stray in the balanced text behind the earlier
  have hlt : ∀ {i j : Nat}, LastOpening text i → LastOpening text j → ¬ i < j := by
    intro i j hi hj hij
    have hdrop : text.drop (i + 1) = (text.drop (i + 1)).take (j - (i + 1)) ++
        '[' :: text.drop (j + 1) := by
      have hsplit := List.take_append_drop (j - (i + 1)) (text.drop (i + 1))
      rw [List.drop_drop, Nat.add_sub_cancel' hij] at hsplit
      rw [List.drop_eq_getElem?_toList_append (l := text) (i := j), hj.1] at hsplit
      exact hsplit.symm
    have hclosable : Closable ((text.drop (i + 1)).take (j - (i + 1))) := by
      intro k
      rw [List.take_take]
      exact hi.2.closable _
    have hbalanced := hi.2
    rw [hdrop] at hbalanced
    exact not_balanced_of_opening hclosable hj.2 hbalanced
  have hij := hlt hi hj
  have hji := hlt hj hi
  omega

/-- A text stands for a program exactly if it is balanced. Otherwise the end of its shortest
overclosed prefix is reported, or, if it has none, the one opening bracket that only a balanced text
follows. -/
theorem ofText_balance (source : String) :
    ((∃ p, Program.ofText source = .ok p) ↔ Balanced source.toList) ∧
    (∀ k, Overclosed (source.toList.take k) →
      ∃ ip, Program.ofText source = .error ⟨ip, .closing⟩ ∧
        FirstOverclosing source.toList ip) ∧
    (Closable source.toList → ¬ Balanced source.toList →
      ∃ ip, Program.ofText source = .error ⟨ip, .opening⟩ ∧ LastOpening source.toList ip ∧
        ∀ j, LastOpening source.toList j → j = ip) := by
  unfold Program.ofText
  generalize source.toList = text
  rcases ofChars_cases text with ⟨p, hp, htext⟩ | ⟨u, v, p, rfl, hu, herror⟩ |
      ⟨u, v, p, rfl, hu, hv, herror⟩
  · -- a program: nothing is overclosed and nothing stays open
    have hbalanced := htext.balanced
    refine ⟨⟨fun _ => hbalanced, fun _ => ⟨p, hp⟩⟩, ?_, ?_⟩
    · intro k hk
      exact absurd hk (hbalanced.closable k)
    · intro _ hnot
      exact absurd hbalanced hnot
  · -- a stray `]`
    have hfirst := firstOverclosing_append hu.balanced v
    refine ⟨⟨?_, ?_⟩, ?_, ?_⟩
    · rintro ⟨q, hq⟩
      rw [herror] at hq
      cases hq
    · intro hbalanced
      exact absurd hfirst.1 (hbalanced.closable _)
    · intro k _
      exact ⟨u.length, herror, hfirst⟩
    · intro hclosable
      exact absurd hfirst.1 (hclosable _)
  · -- a stray `[`
    have hlast := lastOpening_append u hv.balanced
    refine ⟨⟨?_, ?_⟩, ?_, ?_⟩
    · rintro ⟨q, hq⟩
      rw [herror] at hq
      cases hq
    · intro hbalanced
      exact absurd hbalanced (not_balanced_of_opening hu hv.balanced)
    · intro k hk
      exact absurd hk (hu.opening hv.balanced k)
    · intro _ _
      exact ⟨u.length, herror, hlast, fun j hj => hj.unique hlast⟩

end TapeMachine
