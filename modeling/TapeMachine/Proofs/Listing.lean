import TapeMachine.Program.Listing

/-! # Listings determine programs

A listing can be read back, so no two programs have the same listing.

* `Line.row depth line`: a line as it stands in a listing, without its line feed. Words and
  indentation can be told apart, and the words say which line it is (`Line.ofWords?_words`).
* `lines_listing`: cutting a listing at its line feeds gives back its rows.
* `assemble_lines`: putting the lines of a program together gives back its nodes, whatever stands
  around them.
* `Nested depth lines`: the depth at which each line stands is the number of loops that have been
  entered and not left. The lines of a program are nested (`nested_lines`).
* `listing_determines` puts this together.
-/

namespace TapeMachine

/-! ## Model -/

/-- The line as it stands in a listing at a nesting depth, without its line feed. -/
def Line.row (depth : Nat) (line : Line) : List Char :=
  List.replicate (2 * depth) ' ' ++ line.words.toList

namespace Listing

/-- The rows of a listing: the lines of the text, each of which ends with a line feed. -/
def rows (text : String) : List (List Char) :=
  (Text.lines text.toList).dropLast

/-- The number of spaces in front of a row. -/
def indentation (row : List Char) : Nat :=
  (row.takeWhile (· = ' ')).length

/-- A row without the spaces in front. -/
def content (row : List Char) : List Char :=
  row.dropWhile (· = ' ')

/-- The number of loops around the row at an index: those that begin with a row above it, less those
that end with a row above it or with the row itself. -/
def loopsAround (rows : List (List Char)) (index : Nat) : Int :=
  (rows.take index).countP (content · = "loop".toList) -
    (rows.take (index + 1)).countP (content · = "end".toList)

end Listing

/-! ## Words -/

theorem isDigit_of_mem_repr {n : Nat} {c : Char} (h : c ∈ n.repr.toList) : c.isDigit = true := by
  rw [Nat.toList_repr] at h
  exact Nat.isDigit_of_mem_toDigits (by decide) (by decide) h

/-- A number is written with digits and a minus sign. -/
theorem isDigit_or_minus_of_mem_repr {n : Int} {c : Char} (h : c ∈ n.repr.toList) :
    c.isDigit = true ∨ c = '-' := by
  rw [Int.repr_eq_if] at h
  split at h
  · exact Or.inl (isDigit_of_mem_repr h)
  · rw [String.toList_append] at h
    rcases List.mem_append.mp h with hsign | hdigits
    · exact Or.inr (by simpa using hsign)
    · exact Or.inl (isDigit_of_mem_repr hdigits)

theorem natOfDigits?_repr (n : Nat) : natOfDigits? n.repr.toList = some n := by
  have hdigits : n.repr.toList.all Char.isDigit = true :=
    List.all_eq_true.mpr fun c hc => isDigit_of_mem_repr hc
  unfold natOfDigits?
  rw [if_pos ⟨by simp, hdigits⟩, Nat.toList_repr, Nat.ofDigitChars_ten_toDigits]

/-- A number is read as it is written. -/
theorem intOfDigits?_repr (n : Int) : intOfDigits? n.repr.toList = some n := by
  rw [Int.repr_eq_if]
  split
  · -- digits only, so there is no minus sign in front
    unfold intOfDigits?
    split
    · rename_i cs hsign
      have hdigit : '-'.isDigit = true := by
        apply isDigit_of_mem_repr (n := n.toNat)
        rw [hsign]
        exact List.mem_cons_self
      cases hdigit
    · rw [natOfDigits?_repr, Option.map_some, Int.toNat_of_nonneg (by assumption)]
  · have hminus : ("-" ++ (-n).toNat.repr).toList = '-' :: (-n).toNat.repr.toList := by
      rw [String.toList_append]
      rfl
    rw [hminus, intOfDigits?, natOfDigits?_repr, Option.map_some]
    congr
    omega

/-- The words of a line of an action. -/
theorem Line.toList_words_act (action : Action) (count : Int) :
    (Line.act action count).words.toList = action.word.toList ++ ' ' :: count.repr.toList := by
  have hwords : (Line.act action count).words = action.word ++ " " ++ count.repr := rfl
  rw [hwords, String.toList_append, String.toList_append, List.append_assoc]
  rfl

/-- The word for an action holds no space. -/
theorem Action.ne_space_of_mem_word {action : Action} {c : Char} (h : c ∈ action.word.toList) :
    c ≠ ' ' := by
  rintro rfl
  cases action <;> simp [word] at h

namespace Line

/-- The words say which line it is. -/
theorem ofWords?_words (line : Line) : ofWords? line.words.toList = some line := by
  cases line with
  | loop => rfl
  | finish => rfl
  | act action count =>
    have hword : ∀ c ∈ action.word.toList, decide (c ≠ ' ') = true := by
      intro c hc
      simpa using Action.ne_space_of_mem_word hc
    have htake : ((Line.act action count).words.toList.takeWhile (· ≠ ' ')) =
        action.word.toList := by
      rw [toList_words_act, List.takeWhile_append_of_pos hword]
      exact List.append_nil _
    have hdrop : ((Line.act action count).words.toList.dropWhile (· ≠ ' ')).drop 1 =
        count.repr.toList := by
      rw [toList_words_act, List.dropWhile_append_of_pos hword]
      rfl
    -- the space makes the line differ from the two lines of one word
    have hmem : ' ' ∈ (Line.act action count).words.toList := by
      rw [toList_words_act]
      simp
    have hloop : (Line.act action count).words.toList ≠ "loop".toList :=
      ne_of_mem_of_not_mem' hmem (by decide)
    have hend : (Line.act action count).words.toList ≠ "end".toList :=
      ne_of_mem_of_not_mem' hmem (by decide)
    have hfind : [Action.move, .add, .output, .input].find? (·.word == action.word) =
        some action := by
      cases action <;> rfl
    unfold ofWords?
    simp only [if_neg hloop, if_neg hend, htake, hdrop, String.ofList_toList, hfind,
      intOfDigits?_repr]

theorem words_injective {line line' : Line} (h : line.words.toList = line'.words.toList) :
    line = line' := by
  have hread := ofWords?_words line
  rw [h, ofWords?_words] at hread
  exact (Option.some.inj hread).symm

/-- A line starts with a letter. -/
theorem exists_words_cons (line : Line) : ∃ c rest, line.words.toList = c :: rest ∧ c ≠ ' ' := by
  cases line with
  | loop => exact ⟨'l', _, rfl, by decide⟩
  | finish => exact ⟨'e', _, rfl, by decide⟩
  | act action count =>
    rw [toList_words_act]
    cases action with
    | move => exact ⟨'m', _, rfl, by decide⟩
    | add => exact ⟨'a', _, rfl, by decide⟩
    | output => exact ⟨'o', _, rfl, by decide⟩
    | input => exact ⟨'i', _, rfl, by decide⟩

/-- The words hold no line feed. -/
theorem newline_not_mem_words (line : Line) : '\n' ∉ line.words.toList := by
  cases line with
  | loop => decide
  | finish => decide
  | act action count =>
    rw [toList_words_act]
    intro h
    rcases List.mem_append.mp h with hword | hcount
    · cases action <;> simp [Action.word] at hword
    · rcases List.mem_cons.mp hcount with hspace | hcount
      · cases hspace
      · rcases isDigit_or_minus_of_mem_repr hcount with hdigit | hminus
        · cases hdigit
        · cases hminus

/-! ## Rows -/

/-- A line of a listing is a row and a line feed. -/
theorem toList_text (depth : Nat) (line : Line) :
    (line.text depth).toList = line.row depth ++ ['\n'] := by
  simp [text, row]

theorem newline_not_mem_row (depth : Nat) (line : Line) : '\n' ∉ line.row depth := by
  intro h
  rcases List.mem_append.mp h with hspaces | hwords
  · have hspace := List.eq_of_mem_replicate hspaces
    cases hspace
  · exact line.newline_not_mem_words hwords

theorem isSpace_of_mem_indent (width : Nat) :
    ∀ c ∈ List.replicate width ' ', decide (c = ' ') = true := by
  intro c hc
  simpa using List.eq_of_mem_replicate hc

/-- The content of a row is the words of its line. -/
theorem content_row (depth : Nat) (line : Line) :
    Listing.content (line.row depth) = line.words.toList := by
  obtain ⟨c, rest, hwords, hc⟩ := line.exists_words_cons
  rw [Listing.content, row, List.dropWhile_append_of_pos (isSpace_of_mem_indent _), hwords,
    List.dropWhile_cons_of_neg (by simpa using hc)]

/-- A row is indented by two spaces per level. -/
theorem indentation_row (depth : Nat) (line : Line) :
    Listing.indentation (line.row depth) = 2 * depth := by
  obtain ⟨c, rest, hwords, hc⟩ := line.exists_words_cons
  rw [Listing.indentation, row, List.takeWhile_append_of_pos (isSpace_of_mem_indent _), hwords,
    List.takeWhile_cons_of_neg (by simpa using hc), List.append_nil, List.length_replicate]

/-- The content of a row tells it from the rows of other lines. -/
theorem content_row_eq_iff (depth : Nat) (line line' : Line) :
    Listing.content (line.row depth) = line'.words.toList ↔ line = line' := by
  rw [content_row]
  constructor
  · exact words_injective
  · rintro rfl
    rfl

end Line

namespace Program

/-- Cutting written lines at their line feeds gives back their rows. -/
theorem lines_join (ls : List (Nat × Line)) :
    Text.lines (String.join (ls.map fun line => line.2.text line.1)).toList =
      ls.map (fun line => line.2.row line.1) ++ [[]] := by
  rw [String.toList_join]
  induction ls with
  | nil => rfl
  | cons line ls ih =>
    have hrow := Line.newline_not_mem_row line.1 line.2
    rw [List.map_cons, List.flatMap_cons, Line.toList_text, List.append_assoc, List.singleton_append,
      Text.lines, Text.splitAtEach_append hrow]
    show _ :: Text.lines _ = _
    rw [ih]
    rfl

/-- The rows of a listing. -/
theorem rows_listing (p : Program) :
    Listing.rows p.listing = (p.lines 0).map fun line => line.2.row line.1 := by
  rw [Listing.rows, listing, lines_join, List.dropLast_concat]

/-! ## Putting lines together -/

section

variable (action : Action) (count : Int) (body rest : Program) (depth : Nat)

@[simp]
theorem lines_act :
    lines (.act action count :: rest) depth = (depth, .act action count) :: rest.lines depth := rfl

@[simp]
theorem lines_loop :
    lines (.loop body :: rest) depth =
      (depth, .loop) :: (body.lines (depth + 1) ++ (depth, .finish) :: rest.lines depth) := rfl

end

/-- The lines of a program, put together, add its nodes to the innermost sequence, whatever has been
read before and whatever follows. -/
theorem assemble_lines (p : Program) (depth : Nat) (body : List Node) (outer : List (List Node))
    (more : List Line) :
    assemble body outer ((p.lines depth).map Prod.snd ++ more) =
      assemble (p.reverse ++ body) outer more := by
  induction p using Program.induct generalizing depth body outer more with
  | nil => rfl
  | act action count rest ih =>
    simp only [lines_act, List.map_cons, List.cons_append, assemble, ih, List.reverse_cons,
      List.append_assoc, List.nil_append]
  | loop inner rest ihInner ihRest =>
    -- the inner lines are read above an empty sequence, and `end` puts it in place as a loop
    simp only [lines_loop, List.map_cons, List.map_append, List.cons_append, List.append_assoc,
      assemble, ihInner, ihRest, List.append_nil, List.reverse_reverse, List.reverse_cons,
      List.nil_append]

/-- Reading a listing gives back the program. -/
theorem ofListing?_listing (p : Program) : ofListing? p.listing = some p := by
  have hwords : ∀ line : Nat × Line,
      Line.ofWords? ((line.2.row line.1).dropWhile (· = ' ')) = some line.2 := by
    intro line
    have hcontent := Line.content_row line.1 line.2
    rw [Listing.content] at hcontent
    rw [hcontent, Line.ofWords?_words]
  have hread : (Listing.rows p.listing).mapM (fun row => Line.ofWords? (row.dropWhile (· = ' '))) =
      some ((p.lines 0).map Prod.snd) := by
    rw [rows_listing, List.mapM_map]
    simp only [Function.comp_def, hwords]
    exact List.mapM_pure
  have hassemble := assemble_lines p 0 [] [] []
  rw [List.append_nil] at hassemble
  have hbind : ofListing? p.listing =
      ((Listing.rows p.listing).mapM fun row => Line.ofWords? (row.dropWhile (· = ' '))).bind
        (assemble [] []) := rfl
  rw [hbind, hread, Option.bind_some, hassemble]
  simp [assemble]

/-! ## Lines and levels -/

/-- A program has a line for each node, and one more for each loop. -/
theorem length_lines (p : Program) (depth : Nat) :
    (p.lines depth).length = p.nodeTotal + p.loopTotal := by
  induction p using Program.induct generalizing depth with
  | nil => rfl
  | act action count rest ih =>
    rw [lines_act, List.length_cons, ih, nodeTotal_act, loopTotal_act]
    omega
  | loop body rest ihBody ihRest =>
    rw [lines_loop, List.length_cons, List.length_append, List.length_cons, ihBody, ihRest,
      nodeTotal_loop, loopTotal_loop]
    omega

/-- From a depth on, each line stands at the depth that the lines before it lead to. A `loop` line
leads one level down, and an `end` line one level up, where it stands itself. -/
def Nested : Int → List (Nat × Line) → Prop
  | _, [] => True
  | depth, (level, line) :: rest =>
    (level : Int) = depth - [line].count .finish ∧
      Nested (depth + [line].count .loop - [line].count .finish) rest

/-- The lines of a program are nested, and lead back to the depth at which they start. -/
theorem nested_lines (p : Program) (depth : Nat) {more : List (Nat × Line)}
    (hmore : Nested depth more) : Nested depth (p.lines depth ++ more) := by
  induction p using Program.induct generalizing depth more with
  | nil => exact hmore
  | act action count rest ih =>
    have hrest := ih depth hmore
    rw [lines_act, List.cons_append]
    simpa [Nested] using hrest
  | loop body rest ihBody ihRest =>
    have hrest := ihRest depth hmore
    have hfinish : Nested (depth + 1 : Nat) ((depth, .finish) :: (rest.lines depth ++ more)) := by
      simpa [Nested] using hrest
    have hbody := ihBody (depth + 1) hfinish
    rw [lines_loop, List.cons_append, List.append_assoc, List.cons_append]
    simpa [Nested] using hbody

/-- In nested lines the depth is the number of `loop` lines above less that of `end` lines so far. -/
theorem Nested.level_eq {depth : Int} {ls : List (Nat × Line)} (h : Nested depth ls) {i : Nat}
    {line : Nat × Line} (hi : ls[i]? = some line) :
    (line.1 : Int) = depth + ((ls.take i).map Prod.snd).count .loop -
      ((ls.take (i + 1)).map Prod.snd).count .finish := by
  induction ls generalizing depth i with
  | nil => cases hi
  | cons first ls ih =>
    obtain ⟨hfirst, hrest⟩ := h
    cases i with
    | zero =>
      cases hi
      simpa using hfirst
    | succ i =>
      have hlevel := ih hrest hi
      simp only [List.take_succ_cons, List.map_cons, List.count_cons, List.count_nil] at hlevel ⊢
      push_cast at hlevel ⊢
      omega

/-- Rows with the words of a line are rows of that line. -/
theorem countP_rows (ls : List (Nat × Line)) (i : Nat) (line : Line) :
    ((ls.map fun l => l.2.row l.1).take i).countP
        (fun row => Listing.content row = line.words.toList) =
      ((ls.take i).map Prod.snd).count line := by
  rw [← List.map_take, List.countP_map, List.count, List.countP_map]
  apply List.countP_congr
  intro l _
  simp [Line.content_row_eq_iff]

/-- A row of nested lines is indented by two spaces for each loop around it. -/
theorem Nested.indentation_eq {ls : List (Nat × Line)} (h : Nested 0 ls) {i : Nat}
    {row : List Char} (hrow : (ls.map fun l => l.2.row l.1)[i]? = some row) :
    (Listing.indentation row : Int) =
      2 * Listing.loopsAround (ls.map fun l => l.2.row l.1) i := by
  rw [List.getElem?_map] at hrow
  obtain ⟨line, hline, rfl⟩ := Option.map_eq_some_iff.mp hrow
  have hlevel := h.level_eq hline
  have hloops : Listing.loopsAround (ls.map fun l => l.2.row l.1) i =
      ((ls.take i).map Prod.snd).count .loop - ((ls.take (i + 1)).map Prod.snd).count .finish := by
    rw [← countP_rows ls i .loop, ← countP_rows ls (i + 1) .finish]
    rfl
  rw [Line.indentation_row, hloops]
  omega

end Program

/-- A listing determines its program. Reading it gives the program back, so equal listings come from
equal programs. It consists of the rows of the program's lines, each ended by a line feed; there are
as many as there are nodes and loops, and each is indented by two spaces for each loop around it. -/
theorem listing_determines (p : Program) :
    Program.ofListing? p.listing = some p ∧
    (∀ q : Program, q.listing = p.listing ↔ q = p) ∧
    Text.lines p.listing.toList = Listing.rows p.listing ++ [[]] ∧
    (Listing.rows p.listing).length = p.nodeTotal + p.loopTotal ∧
    ∀ i : Fin (Listing.rows p.listing).length,
      (Listing.indentation (Listing.rows p.listing)[i] : Int) =
        2 * Listing.loopsAround (Listing.rows p.listing) i := by
  refine ⟨p.ofListing?_listing, ?_, ?_, ?_, ?_⟩
  · intro q
    constructor
    · intro h
      have hread := q.ofListing?_listing
      rw [h, p.ofListing?_listing] at hread
      exact (Option.some.inj hread).symm
    · rintro rfl
      rfl
  · rw [p.rows_listing]
    exact Program.lines_join (p.lines 0)
  · rw [p.rows_listing, List.length_map, p.length_lines]
  · have hnested : Program.Nested (0 : Nat) (p.lines 0 ++ []) := p.nested_lines 0 trivial
    rw [List.append_nil] at hnested
    have hindent : ∀ {i row}, (Listing.rows p.listing)[i]? = some row →
        (Listing.indentation row : Int) = 2 * Listing.loopsAround (Listing.rows p.listing) i := by
      rw [p.rows_listing]
      exact hnested.indentation_eq
    intro i
    exact hindent (List.getElem?_eq_getElem i.isLt)

example : Program.listing [.loop [.act .move (-1), .loop []], .act .output 3] =
    "loop\n  move -1\n  loop\n  end\nend\nout 3\n" := by
  cbv

end TapeMachine
