import TapeMachine.Proofs.TextLines
import TapeMachine.Settings.Bindings

/-! # Sections of a settings file

A header makes the reader forget in which section it was, so what stands under one header can be
read without what stands above it.

* `Bindings.get?_append`: of two sequences of bindings, the later one overrides the earlier one key
  by key.
* `SettingsLine.ofTrimmed_eq_header_iff`: the headers are the lines in square brackets.
* `bindingsOfLines_append_header`: behind a header the reader goes on as if it had started there.
* `ofText_sections` puts this together for whole texts.
-/

namespace TapeMachine

/-- The line starts the section of the settings. -/
def OpensSettings (line : List Char) : Prop :=
  Text.trimChars line = "[interpreter]".toList

instance : DecidablePred OpensSettings :=
  fun _ => inferInstanceAs (Decidable (_ = _))

/-- Later bindings override earlier ones. -/
theorem Bindings.get?_append (b c : Bindings) (key : String) :
    Bindings.get? (b ++ c) key = (c.get? key).or (b.get? key) := by
  rw [get?, List.reverse_append, List.find?_append, Option.map_or]
  rfl

/-! ## Headers -/

namespace SettingsLine

/-- A line in square brackets, its blanks trimmed off, is a header. -/
theorem ofTrimmed_eq_header_iff {line name : List Char} :
    ofTrimmed line = .header name ↔ line = '[' :: (name ++ [']']) := by
  constructor
  · intro h
    unfold ofTrimmed at h
    split at h
    case isTrue hbrackets =>
      obtain ⟨tail, rfl⟩ := List.head?_eq_some_iff.mp hbrackets.1
      obtain ⟨init, hinit⟩ := List.getLast?_eq_some_iff.mp hbrackets.2
      have hname : tail.dropLast = name := by
        injection h
      -- the brackets are two different characters, so that something stands behind the first
      cases init with
      | nil => cases hinit
      | cons c init =>
        rw [List.cons_append, List.cons.injEq] at hinit
        rw [← hname, hinit.2, List.dropLast_concat]
    case isFalse =>
      split at h
      · cases h
      · split at h
        · cases h
        · cases h
  · rintro rfl
    have hlast : ('[' :: (name ++ [']'])).getLast? = some ']' := by
      rw [← List.cons_append, List.getLast?_concat]
    rw [ofTrimmed, if_pos ⟨rfl, hlast⟩, List.drop_one, List.tail_cons, List.dropLast_concat]

theorem ofChars_header (name : List Char) :
    ofChars ('[' :: (name ++ [']'])) = .header name := by
  have htrim : Text.trimChars ('[' :: (name ++ [']'])) = '[' :: (name ++ [']']) :=
    Text.trimChars_delimited [] name [] (by decide) (by decide) (by simp)
  rw [ofChars, htrim, ofTrimmed_eq_header_iff]

/-- The header of the settings is the line that starts their section. -/
theorem ofChars_eq_settings_iff {line : List Char} :
    ofChars line = .header settingsSection ↔ OpensSettings line := by
  rw [ofChars, ofTrimmed_eq_header_iff]
  rfl

end SettingsLine

/-! ## Lines -/

/-- A header ends what has been read so far and starts anew. -/
theorem bindingsOfLines_append_header (inside : Bool) (above : List SettingsLine)
    (name : List Char) (below : List SettingsLine) :
    bindingsOfLines inside (above ++ .header name :: below) =
      bindingsOfLines inside above ++ bindingsOfLines (name == settingsSection) below := by
  induction above generalizing inside with
  | nil => rfl
  | cons line above ih =>
    cases line with
    | skipped => exact ih inside
    | header other => exact ih (other == settingsSection)
    | binding key value =>
      cases inside with
      | false => exact ih false
      | true => exact congrArg (_ :: ·) (ih true)

/-- Without a header of the settings nothing is bound. -/
theorem bindingsOfLines_eq_nil {ls : List SettingsLine}
    (h : SettingsLine.header settingsSection ∉ ls) : bindingsOfLines false ls = [] := by
  induction ls with
  | nil => rfl
  | cons line ls ih =>
    rw [List.mem_cons, not_or] at h
    cases line with
    | skipped => exact ih h.2
    | header name =>
      have hname : (name == settingsSection) = false := by
        rw [beq_eq_false_iff_ne]
        rintro rfl
        exact h.1 rfl
      rw [bindingsOfLines, hname]
      exact ih h.2
    | binding key value => exact ih h.2

/-! ## Texts -/

section

variable {name : String} (hname : '\n' ∉ name.toList)
include hname

/-- A header and a text below it are the line of the header and the lines of the text. -/
theorem lines_header_append (b : String) :
    (Text.lines ("[" ++ name ++ "]" ++ "\n" ++ b).toList).map SettingsLine.ofChars =
      .header name.toList :: (Text.lines b.toList).map SettingsLine.ofChars := by
  have htext : ("[" ++ name ++ "]" ++ "\n" ++ b).toList =
      '[' :: (name.toList ++ [']']) ++ '\n' :: b.toList := by
    simp
  have hline : '\n' ∉ '[' :: (name.toList ++ [']']) := by
    simp [hname]
  rw [htext, Text.lines, Text.splitAtEach_append hline, List.map_cons,
    SettingsLine.ofChars_header]
  rfl

theorem ofText_header_append (b : String) :
    Bindings.ofText ("[" ++ name ++ "]" ++ "\n" ++ b) =
      bindingsOfLines (name.toList == settingsSection)
        ((Text.lines b.toList).map SettingsLine.ofChars) := by
  rw [Bindings.ofText, lines_header_append hname]
  rfl

/-- What stands above a header is read first, and on its own. -/
theorem ofText_append_header (a b : String) :
    Bindings.ofText (a ++ "\n" ++ ("[" ++ name ++ "]") ++ "\n" ++ b) =
      Bindings.ofText a ++ Bindings.ofText ("[" ++ name ++ "]" ++ "\n" ++ b) := by
  have htext : (a ++ "\n" ++ ("[" ++ name ++ "]") ++ "\n" ++ b).toList =
      a.toList ++ '\n' :: ("[" ++ name ++ "]" ++ "\n" ++ b).toList := by
    simp
  rw [ofText_header_append hname, Bindings.ofText, htext, Text.lines,
    Text.splitAtEach_append_separator, List.map_append]
  show bindingsOfLines false (_ ++ (Text.lines _).map SettingsLine.ofChars) = _
  rw [lines_header_append hname, bindingsOfLines_append_header]
  rfl

end

/-- Without a line that starts the section of the settings, a text binds nothing. -/
theorem ofText_eq_nil {content : String}
    (h : ∀ line ∈ Text.lines content.toList, ¬ OpensSettings line) :
    Bindings.ofText content = [] := by
  apply bindingsOfLines_eq_nil
  intro hmem
  obtain ⟨line, hline, hheader⟩ := List.mem_map.mp hmem
  exact h line hline (SettingsLine.ofChars_eq_settings_iff.mp hheader)

/-- A header keeps apart what stands above and below it. What the text from the header on binds
overrides, key by key, what the text above it binds. Under another header than that of the settings
a text binds what it binds alone. So nothing above the first header of the settings is bound, and
nothing under another header. -/
theorem ofText_sections (a b name : String) (hname : '\n' ∉ name.toList) :
    let header := "[" ++ name ++ "]"
    let whole := Bindings.ofText (a ++ "\n" ++ header ++ "\n" ++ b)
    let below := Bindings.ofText (header ++ "\n" ++ b)
    (∀ key, whole.get? key = (below.get? key).or ((Bindings.ofText a).get? key)) ∧
    (name ≠ "interpreter" → below = Bindings.ofText b) ∧
    ((∀ line ∈ Text.lines a.toList, ¬ OpensSettings line) →
      ∀ key, whole.get? key = below.get? key) ∧
    (name ≠ "interpreter" → (∀ line ∈ Text.lines b.toList, ¬ OpensSettings line) →
      ∀ key, whole.get? key = (Bindings.ofText a).get? key) := by
  intro header whole below
  have hwhole : whole = Bindings.ofText a ++ below := ofText_append_header hname a b
  have hother : name ≠ "interpreter" → below = Bindings.ofText b := by
    intro hne
    have hsection : (name.toList == settingsSection) = false := by
      rw [beq_eq_false_iff_ne]
      intro heq
      exact hne (String.toList_inj.mp heq)
    show Bindings.ofText ("[" ++ name ++ "]" ++ "\n" ++ b) = _
    rw [ofText_header_append hname, hsection]
    rfl
  refine ⟨?_, hother, ?_, ?_⟩
  · intro key
    rw [hwhole, Bindings.get?_append]
  · intro hnone key
    rw [hwhole, ofText_eq_nil hnone, List.nil_append]
  · intro hne hnone key
    rw [hwhole, hother hne, ofText_eq_nil hnone, List.append_nil]

/-- The section of the settings is left in the middle of a line end and starts once more, and a
binding above its first start is not read. -/
theorem ofText_sections_restarted :
    let left := Bindings.ofText ("[interpreter]\neof = zero\r" ++ "\n" ++
      ("[" ++ "colors" ++ "]") ++ "\n" ++ "eof = 3\n [interpreter]\ncell_size = \"16\"")
    let late := Bindings.ofText ("eof = 1" ++ "\n" ++ ("[" ++ "interpreter" ++ "]") ++ "\n" ++ "x=")
    '\n' ∉ "colors".toList ∧ '\n' ∉ "interpreter".toList ∧
    (∀ line ∈ Text.lines "eof = 1".toList, ¬ OpensSettings line) ∧
    left.get? "eof" = some "zero" ∧ left.get? "cell_size" = some "16" ∧
    late.get? "eof" = none ∧ late.get? "x" = some "" := by
  intro left late
  have hcolors : '\n' ∉ "colors".toList := by decide
  have hsettings : '\n' ∉ "interpreter".toList := by decide
  have hnone : ∀ line ∈ Text.lines "eof = 1".toList, ¬ OpensSettings line := by decide
  have hleft := (ofText_sections "[interpreter]\neof = zero\r"
    "eof = 3\n [interpreter]\ncell_size = \"16\"" "colors" hcolors).1
  have habove := (ofText_sections "eof = 1" "x=" "interpreter" hsettings).2.2.1 hnone
  refine ⟨hcolors, hsettings, hnone, ?_, ?_, ?_, ?_⟩
  · exact (hleft "eof").trans (by decide)
  · exact (hleft "cell_size").trans (by decide)
  · exact (habove "eof").trans (by decide)
  · exact (habove "x").trans (by decide)

end TapeMachine
