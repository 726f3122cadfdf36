import TapeMachine.Proofs.Sections

/-! # Written settings files

Reading a settings file gives back the pairs that were written to it, in whatever way blanks,
comments and line ends are laid out.

* `Writable key value`: the pair can be written. The value may hold anything but a line feed.
* `SilentLine` and `WrittenLine`: the lines of a written file, with `Gap`s where blanks may stand.
  `writtenText` puts them together.
* `SilentLine.ofChars_chars` and `WrittenLine.ofChars_chars`: each line says what was written on it.
* `Bindings.LastValue`: the value of the last pair with a key. It is what a lookup gives
  (`Bindings.get?_eq_some_iff`) and what the list of entries shows (`Bindings.mem_entries_iff`).
* `ofText_written` puts this together.
-/

namespace TapeMachine

/-! ## Model -/

/-- Blanks within a line. -/
structure Gap where
  chars : List Char
  blank : ∀ c ∈ chars, Text.isBlank c = true
  inline : '\n' ∉ chars

/-- The two ways to end a line. -/
inductive LineEnd where
  | lf
  | crlf
deriving DecidableEq, Repr

/-- A key and a value that can be written. -/
structure Writable (key value : String) : Prop where
  trimmed : Text.trim key = key
  noEquals : '=' ∉ key.toList
  inline : '\n' ∉ key.toList
  noComment : key.toList.head? ≠ some '#'
  valueInline : '\n' ∉ value.toList

/-- A line on which no pair is written: it is blank, or a comment. -/
inductive SilentLine where
  | blank (gap : Gap)
  | comment (gap : Gap) (words : List Char) (inline : '\n' ∉ words)

/-- A line below the header: a silent one, or a pair with gaps around its key and its value. -/
inductive WrittenLine where
  | silent (line : SilentLine)
  | pair (key value : String) (writable : Writable key value)
      (beforeKey afterKey beforeValue afterValue : Gap)

/-- The carriage return of a line end, if it has one. -/
def LineEnd.carriageReturn : LineEnd → List Char
  | .lf => []
  | .crlf => ['\r']

/-- The characters of a line end. -/
def LineEnd.chars (e : LineEnd) : List Char :=
  e.carriageReturn ++ ['\n']

/-- The characters of a silent line, without its line end. -/
def SilentLine.chars : SilentLine → List Char
  | .blank gap => gap.chars
  | .comment gap words _ => gap.chars ++ '#' :: words

namespace WrittenLine

/-- The characters of a line, without its line end. The value is quoted. -/
def chars : WrittenLine → List Char
  | .silent line => line.chars
  | .pair key value _ beforeKey afterKey beforeValue afterValue =>
    beforeKey.chars ++ key.toList ++ afterKey.chars ++
      '=' :: (beforeValue.chars ++ '"' :: value.toList ++ '"' :: afterValue.chars)

/-- The pair on a line. -/
def pair? : WrittenLine → Option (String × String)
  | .silent _ => none
  | .pair key value .. => some (key, value)

end WrittenLine

/-- A settings file: silent lines, the header of the settings, and the lines below it. The line
ends stand between the lines; one at the very end is an empty line more. -/
def writtenText (above : List (SilentLine × LineEnd)) (below : List (LineEnd × WrittenLine)) :
    String :=
  String.ofList
    ((above.flatMap fun written => written.1.chars ++ written.2.chars) ++
      "[interpreter]".toList ++
      below.flatMap fun written => written.1.chars ++ written.2.chars)

/-- The last pair with the key has the value. -/
def Bindings.LastValue (pairs : Bindings) (key value : String) : Prop :=
  ∃ earlier later, pairs = earlier ++ (key, value) :: later ∧ ∀ pair ∈ later, pair.1 ≠ key

/-! ## Bindings as maps -/

namespace Bindings

/-- A lookup gives the value of the last pair with the key. -/
theorem get?_eq_some_iff {b : Bindings} {key value : String} :
    b.get? key = some value ↔ b.LastValue key value := by
  unfold get? LastValue
  constructor
  · intro h
    obtain ⟨⟨key', value'⟩, hfind, rfl⟩ := Option.map_eq_some_iff.mp h
    obtain ⟨hkey, later, earlier, hreverse, hlater⟩ := List.find?_eq_some_iff_append.mp hfind
    have hkey' : key' = key := by simpa using hkey
    refine ⟨earlier.reverse, later.reverse, ?_, ?_⟩
    · have hb := congrArg List.reverse hreverse
      rw [List.reverse_reverse] at hb
      simp [hb, hkey']
    · intro pair hpair
      simpa using hlater pair (List.mem_reverse.mp hpair)
  · rintro ⟨earlier, later, rfl, hlater⟩
    refine Option.map_eq_some_iff.mpr ⟨(key, value), ?_, rfl⟩
    rw [List.find?_eq_some_iff_append]
    refine ⟨by simp, later.reverse, earlier.reverse, by simp, ?_⟩
    intro pair hpair
    simpa using hlater pair (List.mem_reverse.mp hpair)

/-- A pair in front only counts for a key that no later pair has. -/
theorem get?_cons (pair : String × String) (b : Bindings) (key : String) :
    get? (pair :: b) key = (b.get? key).or (if pair.1 = key then some pair.2 else none) := by
  rw [← List.singleton_append, get?_append]
  by_cases hkey : pair.1 = key
  · simp [get?, hkey]
  · simp [get?, hkey]

/-- Each key once, with its last value, in the order of these last pairs. -/
def lastPairs (b : Bindings) : List (String × String) :=
  b.foldr (fun entry later =>
    if later.any (·.1 == entry.1) then later else entry :: later) []

theorem lastPairs_cons (pair : String × String) (b : Bindings) :
    lastPairs (pair :: b) =
      if (lastPairs b).any (·.1 == pair.1) then lastPairs b else pair :: lastPairs b := rfl

theorem mem_lastPairs_iff {b : Bindings} {key value : String} :
    (key, value) ∈ b.lastPairs ↔ b.get? key = some value := by
  induction b generalizing key value with
  | nil => simp [lastPairs, get?]
  | cons pair b ih =>
    rw [get?_cons, lastPairs_cons]
    split
    case isTrue hany =>
      -- a later pair has the key, and hides this one
      obtain ⟨⟨key', value'⟩, hmem, hkey'⟩ := List.any_eq_true.mp hany
      have hlater : get? b pair.1 = some value' := by
        rw [← ih, ← eq_of_beq hkey']
        exact hmem
      by_cases hkey : pair.1 = key
      · subst hkey
        simp [ih, hlater]
      · simp [ih, hkey]
    case isFalse hany =>
      have hnone : get? b pair.1 = none := by
        rw [Option.eq_none_iff_forall_ne_some]
        intro value' hvalue'
        exact hany (List.any_eq_true.mpr ⟨_, ih.mpr hvalue', beq_self_eq_true _⟩)
      by_cases hkey : pair.1 = key
      · subst hkey
        simp [ih, hnone, Prod.ext_iff, eq_comm]
      · have hne : (key, value) ≠ pair := by
          rintro rfl
          exact hkey rfl
        simp [ih, hkey, hne]

theorem nodup_keys_lastPairs (b : Bindings) : (b.lastPairs.map Prod.fst).Nodup := by
  induction b with
  | nil => exact List.nodup_nil
  | cons pair b ih =>
    rw [lastPairs_cons]
    split
    case isTrue => exact ih
    case isFalse hany =>
      rw [List.map_cons, List.nodup_cons]
      refine ⟨?_, ih⟩
      intro hmem
      obtain ⟨later, hlater, hkey⟩ := List.mem_map.mp hmem
      exact hany (List.any_eq_true.mpr ⟨later, hlater, beq_iff_eq.mpr hkey⟩)

/-- The entries are the last pairs, sorted. -/
theorem entries_perm (b : Bindings) : b.entries.Perm b.lastPairs :=
  List.mergeSort_perm _ _

/-- The entries show for each key the value of its last pair. -/
theorem mem_entries_iff {b : Bindings} {key value : String} :
    (key, value) ∈ b.entries ↔ b.LastValue key value := by
  rw [(entries_perm b).mem_iff, mem_lastPairs_iff, get?_eq_some_iff]

/-- The entries show each key once. -/
theorem nodup_keys_entries (b : Bindings) : (b.entries.map Prod.fst).Nodup := by
  rw [((entries_perm b).map Prod.fst).nodup_iff]
  exact nodup_keys_lastPairs b

end Bindings

/-! ## Lines -/

namespace SettingsLine

/-- A line with a `=` and a quote at its end binds what stands in front of the `=`, unless it starts
as a comment. -/
theorem ofTrimmed_binding {front inside : List Char} (hequals : '=' ∉ front)
    (hcomment : front.head? ≠ some '#') :
    ofTrimmed (front ++ '=' :: (inside ++ ['"'])) =
      .binding (Text.trimChars front) (unquote (Text.trimChars (inside ++ ['"']))) := by
  have hlast : (front ++ '=' :: (inside ++ ['"'])).getLast? = some '"' := by
    rw [← List.cons_append, ← List.append_assoc, List.getLast?_concat]
  have hhead : (front ++ '=' :: (inside ++ ['"'])).head? ≠ some '#' := by
    cases front with
    | nil => simp
    | cons c front => exact hcomment
  have hpass : ∀ c ∈ front, decide (c ≠ '=') = true := by
    intro c hc
    simpa using ne_of_mem_of_not_mem hc hequals
  have hdrop : (front ++ '=' :: (inside ++ ['"'])).dropWhile (· ≠ '=') =
      '=' :: (inside ++ ['"']) := by
    rw [List.dropWhile_append_of_pos hpass, List.dropWhile_cons_of_neg (by simp)]
  have htake : (front ++ '=' :: (inside ++ ['"'])).takeWhile (· ≠ '=') = front := by
    rw [List.takeWhile_append_of_pos hpass, List.takeWhile_cons_of_neg (by simp), List.append_nil]
  rw [ofTrimmed, if_neg (by simp [hlast]), if_neg hhead, hdrop, htake]

/-- One pair of quotes is removed, whatever stands inside. -/
theorem unquote_quoted (value : List Char) : unquote ('"' :: (value ++ ['"'])) = value := by
  simp [unquote]

end SettingsLine

/-- A silent line says nothing. -/
theorem SilentLine.ofChars_chars (line : SilentLine) :
    SettingsLine.ofChars line.chars = .skipped := by
  cases line with
  | blank gap =>
    rw [SettingsLine.ofChars, chars, Text.trimChars_of_blanks gap.blank]
    rfl
  | comment gap words _ =>
    rw [SettingsLine.ofChars, chars, Text.trimChars_append_cons gap.blank (by decide)]
    simp [SettingsLine.ofTrimmed]

theorem SilentLine.newline_not_mem (line : SilentLine) : '\n' ∉ line.chars := by
  cases line with
  | blank gap => exact gap.inline
  | comment gap words hwords => simp [chars, gap.inline, hwords]

namespace Writable

variable {key value : String} (h : Writable key value) (beforeKey afterKey : Gap)
include h

/-- Trimming the key with its gaps gives the key. -/
theorem trimChars_key :
    Text.trimChars (beforeKey.chars ++ key.toList ++ afterKey.chars) = key.toList := by
  have hkey := congrArg String.toList h.trimmed
  rw [Text.trim, String.toList_ofList] at hkey
  rw [Text.trimChars_append_blanks afterKey.blank,
    Text.trimChars_blanks_append beforeKey.blank, hkey]

/-- No `=` stands in front of the one behind the key. -/
theorem equals_not_mem : '=' ∉ beforeKey.chars ++ key.toList ++ afterKey.chars := by
  have hgap : ∀ gap : Gap, '=' ∉ gap.chars := by
    intro gap hmem
    have hblank := gap.blank '=' hmem
    exact absurd hblank (by decide)
  rw [List.mem_append, List.mem_append, not_or, not_or]
  exact ⟨⟨hgap beforeKey, h.noEquals⟩, hgap afterKey⟩

/-- The line of the key is no comment. -/
theorem head?_ne :
    ((beforeKey.chars ++ key.toList ++ afterKey.chars).dropWhile Text.isBlank).head? ≠
      some '#' := by
  rw [List.append_assoc, List.dropWhile_append_of_pos beforeKey.blank]
  cases hkey : key.toList with
  | nil =>
    rw [List.nil_append, List.dropWhile_eq_nil_iff.mpr afterKey.blank]
    simp
  | cons c rest =>
    have htrim := h.trimChars_key beforeKey afterKey
    rw [hkey] at htrim
    have hc := Text.isBlank_of_trimChars_eq_cons htrim
    have hstart := h.noComment
    rw [hkey] at hstart
    rw [List.cons_append, List.dropWhile_cons_of_neg (by simp [hc])]
    exact hstart

end Writable

namespace WrittenLine

/-- What a line says, by the pair on it. -/
def meaning (line : WrittenLine) : SettingsLine :=
  match line.pair? with
  | none => .skipped
  | some (key, value) => .binding key.toList value.toList

/-- A written line says what was written on it. -/
theorem ofChars_chars (line : WrittenLine) : SettingsLine.ofChars line.chars = line.meaning := by
  cases line with
  | silent line => exact line.ofChars_chars
  | pair key value writable beforeKey afterKey beforeValue afterValue =>
    have hvalue : Text.trimChars (beforeValue.chars ++ '"' :: value.toList ++ ['"']) =
        '"' :: (value.toList ++ ['"']) := by
      rw [List.append_assoc, List.cons_append,
        Text.trimChars_delimited _ _ [] (by decide) (by decide) (by simp),
        List.dropWhile_eq_nil_iff.mpr beforeValue.blank, List.nil_append]
    rw [SettingsLine.ofChars, chars,
      Text.trimChars_delimited _ _ _ (by decide) (by decide) afterValue.blank,
      SettingsLine.ofTrimmed_binding ?_ (writable.head?_ne beforeKey afterKey),
      Text.trimChars_dropWhile, writable.trimChars_key, hvalue, SettingsLine.unquote_quoted]
    · rfl
    · intro hmem
      exact writable.equals_not_mem beforeKey afterKey ((List.dropWhile_suffix _).mem hmem)

theorem newline_not_mem (line : WrittenLine) : '\n' ∉ line.chars := by
  cases line with
  | silent line => exact line.newline_not_mem
  | pair key value writable beforeKey afterKey beforeValue afterValue =>
    simp [chars, beforeKey.inline, afterKey.inline, beforeValue.inline, afterValue.inline,
      writable.inline, writable.valueInline]

end WrittenLine

/-! ## Texts -/

/-- A carriage return in front of the line feed does not matter. -/
theorem ofChars_append_carriageReturn (line : List Char) (e : LineEnd) :
    SettingsLine.ofChars (line ++ e.carriageReturn) = SettingsLine.ofChars line := by
  have hblank : ∀ c ∈ e.carriageReturn, Text.isBlank c = true := by
    apply List.all_eq_true.mp
    cases e <;> decide
  rw [SettingsLine.ofChars, Text.trimChars_append_blanks hblank, SettingsLine.ofChars]

/-- A line and its line end are cut off from the rest of the text. -/
theorem lines_line_append {line : List Char} (hline : '\n' ∉ line) (e : LineEnd)
    (rest : List Char) :
    (Text.lines (line ++ e.chars ++ rest)).map SettingsLine.ofChars =
      SettingsLine.ofChars line :: (Text.lines rest).map SettingsLine.ofChars := by
  have hcut : '\n' ∉ line ++ e.carriageReturn := by
    rw [List.mem_append, not_or]
    refine ⟨hline, ?_⟩
    cases e <;> decide
  have htext : line ++ e.chars ++ rest = (line ++ e.carriageReturn) ++ '\n' :: rest := by
    simp [LineEnd.chars]
  rw [htext, Text.lines, Text.splitAtEach_append hcut, List.map_cons,
    ofChars_append_carriageReturn]
  rfl

/-- The lines below a line say what was written on them. -/
theorem lines_below {first : List Char} (hfirst : '\n' ∉ first)
    (below : List (LineEnd × WrittenLine)) :
    (Text.lines (first ++ below.flatMap fun written => written.1.chars ++ written.2.chars)).map
        SettingsLine.ofChars =
      SettingsLine.ofChars first :: below.map (·.2.meaning) := by
  -- each line in turn is the first of what is left
  induction below generalizing first with
  | nil =>
    rw [List.flatMap_nil, List.append_nil, Text.lines, Text.splitAtEach_of_not_mem hfirst]
    rfl
  | cons written below ih =>
    obtain ⟨e, line⟩ := written
    rw [List.flatMap_cons, List.append_assoc, ← List.append_assoc first, lines_line_append hfirst,
      ih line.newline_not_mem, line.ofChars_chars]
    rfl

/-- Silent lines above a text only add lines that say nothing. -/
theorem lines_above (above : List (SilentLine × LineEnd)) (rest : List Char) :
    (Text.lines ((above.flatMap fun written => written.1.chars ++ written.2.chars) ++ rest)).map
        SettingsLine.ofChars =
      List.replicate above.length .skipped ++ (Text.lines rest).map SettingsLine.ofChars := by
  induction above with
  | nil => rfl
  | cons written above ih =>
    obtain ⟨line, e⟩ := written
    rw [List.flatMap_cons, List.append_assoc,
      lines_line_append line.newline_not_mem, ih, line.ofChars_chars]
    rfl

/-- In the section of the settings, written lines bind the pairs on them. -/
theorem bindingsOfLines_meaning (below : List (LineEnd × WrittenLine)) :
    bindingsOfLines true (below.map (·.2.meaning)) =
      below.filterMap (·.2.pair?) := by
  induction below with
  | nil => rfl
  | cons written below ih =>
    obtain ⟨e, line⟩ := written
    cases line with
    | silent line => exact ih
    | pair key value =>
      show (String.ofList key.toList, String.ofList value.toList) :: bindingsOfLines true _ = _
      rw [String.ofList_toList, String.ofList_toList, ih]
      rfl

/-- A written file binds its pairs, in their order. -/
theorem ofText_writtenText (above : List (SilentLine × LineEnd))
    (below : List (LineEnd × WrittenLine)) :
    Bindings.ofText (writtenText above below) = below.filterMap (·.2.pair?) := by
  have hheader : SettingsLine.ofChars "[interpreter]".toList = .header settingsSection :=
    SettingsLine.ofChars_header settingsSection
  have hskipped : SettingsLine.header settingsSection ∉
      List.replicate above.length SettingsLine.skipped := by
    simp
  rw [Bindings.ofText, writtenText, String.toList_ofList, List.append_assoc, lines_above,
    lines_below (by decide), hheader, bindingsOfLines_append_header,
    bindingsOfLines_eq_nil hskipped, List.nil_append]
  exact bindingsOfLines_meaning below

/-- Reading a written settings file gives each key the value of its last pair, and no other key a
value: in lookups, and in the list of its entries, which names each key once. -/
theorem ofText_written (above : List (SilentLine × LineEnd))
    (below : List (LineEnd × WrittenLine)) :
    let pairs : Bindings := below.filterMap (·.2.pair?)
    let file := Bindings.ofText (writtenText above below)
    (∀ key value, file.get? key = some value ↔ pairs.LastValue key value) ∧
    (∀ key value, (key, value) ∈ file.entries ↔ pairs.LastValue key value) ∧
    (file.entries.map Prod.fst).Nodup := by
  intro pairs file
  have hfile : file = pairs := ofText_writtenText above below
  rw [hfile]
  refine ⟨?_, ?_, pairs.nodup_keys_entries⟩
  · intro key value
    exact Bindings.get?_eq_some_iff
  · intro key value
    exact Bindings.mem_entries_iff

/-- A key that starts like a header, a value with quotes, a `=` and a bracket, comments, blanks and
both line ends; the second pair with the key counts. -/
theorem ofText_written_quotes :
    let tight : Gap := ⟨[], by simp, by simp⟩
    let wide : Gap := ⟨['\t', ' '], List.all_eq_true.mp (by decide), by decide⟩
    let writable : ∀ value, '\n' ∉ value.toList → Writable "[x" value := fun _ h =>
      ⟨by decide, by decide, by decide, by decide, h⟩
    let above := [(SilentLine.comment wide "[interpreter]".toList (by decide), LineEnd.crlf)]
    let below :=
      [(LineEnd.crlf, WrittenLine.pair "[x" "a" (writable _ (by decide)) wide tight wide tight),
        (LineEnd.lf, .silent (.blank wide)),
        (LineEnd.lf, .pair "[x" " \"=\"] " (writable _ (by decide)) tight wide tight wide),
        (LineEnd.crlf, .silent (.blank tight))]
    writtenText above below =
      "\t #[interpreter]\r\n[interpreter]\r\n\t [x=\t \"a\"\n\t \n[x\t =\" \"=\"] \"\t \r\n" ∧
    (Bindings.ofText (writtenText above below)).get? "[x" = some " \"=\"] " := by
  intro tight wide writable above below
  refine ⟨by decide, ?_⟩
  rw [(ofText_written above below).1]
  exact ⟨[("[x", "a")], [], rfl, by simp⟩

end TapeMachine
