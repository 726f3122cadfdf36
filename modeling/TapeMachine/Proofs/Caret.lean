import TapeMachine.Diagnostics
import TapeMachine.Proofs.Composition
import TapeMachine.Proofs.Words

/-! # The caret under a stray bracket

A stray bracket is shown in an excerpt of its code, with a caret below it.

* `Excerpt.chars_eq_extract`, `Excerpt.indent_eq`: the excerpt is the stretch of code from 32
  characters in front of a position to 32 behind it, as far as there are so many, and the caret is
  indented by the characters in front.
* `Excerpt.getElem?_chars`: so the caret stands below the character at the position.
* `Excerpt.frame?`: the same numbers in words of 64 bits. Every position has them, so no sum or
  difference leaves the words (`Excerpt.frame?_eq_some`).
* `Stray.getElem?_eq`: the position of a stray bracket is that of the bracket itself.
* `explain_stray_caret` puts this together.
-/

namespace TapeMachine

/-! ## Model -/

namespace Excerpt

/-- The numbers that an excerpt is made with: where it starts, how many characters it takes, and how
far the caret is indented. -/
structure Frame where
  start : UInt64
  count : UInt64
  indent : UInt64
deriving DecidableEq, Repr

/-- The numbers of the excerpt around a position, if words can hold all of them. -/
def frame? (position : UInt64) : Option Frame := do
  let start := Word.saturatingSub position 32
  let front ← Word.sub? position start
  let reach ← Word.add? front 32
  let count ← Word.add? reach 1
  some ⟨start, count, Word.saturatingSub position start⟩

/-- A headline with a position, a stretch of code behind two spaces, and a caret behind two spaces
and an indent. -/
def caretText (headline : String) (position : Nat) (shown : List Char) (indent : Nat) : String :=
  headline ++ " at instruction " ++ toString position ++ "\n" ++
    "  " ++ String.ofList shown ++ "\n" ++
    "  " ++ String.ofList (List.replicate indent ' ') ++ "^\n"

/-! ## Excerpts -/

theorem indent_eq (position : Nat) : indent position = min position 32 := by
  unfold indent start radius
  omega

/-- The excerpt is the stretch of code around the position. -/
theorem chars_eq_extract (code : List Char) (position : Nat) :
    chars code position = code.extract (position - 32) (min code.length (position + 33)) := by
  have hcount : indent position + radius + 1 = min position 32 + 33 := by
    rw [indent_eq]
    rfl
  rw [chars, hcount, List.extract_eq_take_drop, start, radius, List.take_eq_take_iff,
    List.length_drop]
  omega

theorem length_chars_le (code : List Char) (position : Nat) :
    (chars code position).length ≤ 65 := by
  rw [chars, List.length_take, indent_eq, radius]
  omega

/-- The caret stands below the character at the position. -/
theorem getElem?_chars (code : List Char) (position : Nat) :
    (chars code position)[indent position]? = code[position]? := by
  have hfront : start position + indent position = position := by
    unfold indent start
    omega
  rw [chars, List.getElem?_take_of_lt (by omega), List.getElem?_drop, hfront]

/-- An excerpt is shown with the caret below its position. -/
theorem text_eq (headline : String) (code : List Char) (position : Nat) :
    text headline code position =
      caretText headline position (code.extract (position - 32) (min code.length (position + 33)))
        (min position 32) := by
  rw [text, chars_eq_extract, indent_eq]
  rfl

/-- At every position, words hold the numbers of the excerpt. -/
theorem frame?_eq_some (position : UInt64) :
    ∃ frame, frame? position = some frame ∧
      frame.start.toNat = start position.toNat ∧
      frame.count.toNat = indent position.toNat + radius + 1 ∧
      frame.indent.toNat = indent position.toNat := by
  have hradius : (32 : UInt64).toNat = radius := rfl
  have hone : (1 : UInt64).toNat = 1 := rfl
  have hle : indent position.toNat ≤ radius := by
    rw [indent_eq]
    exact Nat.min_le_right _ _
  have hradiusLt : radius + radius + 1 < 2 ^ 64 := by decide
  have hstart : (Word.saturatingSub position 32).toNat = start position.toNat :=
    Word.toNat_saturatingSub position 32
  have hindent : (Word.saturatingSub position (Word.saturatingSub position 32)).toNat =
      indent position.toNat := by
    rw [Word.toNat_saturatingSub, hstart, indent]
  have hbehind : (Word.saturatingSub position 32).toNat ≤ position.toNat := by
    rw [hstart]
    exact Nat.sub_le _ _
  obtain ⟨front, hfront, hfrontEq⟩ := Word.sub?_eq_some hbehind
  have hfrontEq : front.toNat = indent position.toNat := by
    rw [hfrontEq, hstart, indent]
  -- the sums are at most 64 and 65
  obtain ⟨reach, hreach, hreachEq⟩ :=
    Word.add?_eq_some (a := front) (b := 32) (by omega)
  obtain ⟨count, hcount, hcountEq⟩ :=
    Word.add?_eq_some (a := reach) (b := 1) (by omega)
  refine ⟨⟨Word.saturatingSub position 32, count,
    Word.saturatingSub position (Word.saturatingSub position 32)⟩, ?_, hstart, ?_, hindent⟩
  · simp [frame?, hfront, hreach, hcount]
  · rw [hcountEq, hreachEq, hfrontEq, hradius, hone]

end Excerpt

/-! ## Stray brackets -/

/-- The bracket that is reported stands at the position that is reported. -/
theorem Stray.getElem?_eq {text : List Char} {e : StrayBracket} (h : Stray text e) :
    text[e.position]? = some e.bracket.char := by
  cases h with
  | closing _ => simp [Bracket.char]
  | opening _ _ => simp [Bracket.char]

/-- A bracket is quoted as its character between two single quotes. -/
theorem Bracket.quoted_eq (bracket : Bracket) :
    bracket.quoted = "'" ++ bracket.char.toString ++ "'" := by
  cases bracket <;> decide

/-- A stray bracket is shown with the code from 32 characters in front of it to 32 behind it, and
the caret stands below the bracket that the headline names. At every position that a word holds,
also behind the end of the code, an excerpt has at most 65 characters, the caret is indented by the
position or by 32 if that is less, and words hold all numbers that this takes. -/
theorem explain_stray_caret (style : DiagnosticStyle) :
    (∀ (code : String) (e : StrayBracket), Program.ofText code = .error e →
      let shown := code.toList.extract (e.position - 32) (min code.length (e.position + 33))
      let headline :=
        style.headline ("Parse error: unmatched bracket '" ++ e.bracket.char.toString ++ "'")
      style.explain code (.stray e) =
        Excerpt.caretText headline e.position shown (min e.position 32) ∧
      shown[min e.position 32]? = some e.bracket.char) ∧
    (∀ (headline : String) (code : List Char) (position : UInt64),
      ∃ frame, Excerpt.frame? position = some frame ∧
        let shown := (code.drop frame.start.toNat).take frame.count.toNat
        Excerpt.text headline code position.toNat =
          Excerpt.caretText headline position.toNat shown frame.indent.toNat ∧
        shown.length ≤ 65 ∧ frame.indent.toNat = min position.toNat 32) := by
  constructor
  · intro code e herror shown headline
    have hheadline : style.headline s!"Parse error: unmatched bracket {e.bracket.quoted}" =
        headline := by
      rw [e.bracket.quoted_eq]
      rfl
    constructor
    · rw [DiagnosticStyle.explain, Excerpt.text_eq, hheadline, String.length_toList]
    · have hstray := (ofText_eq_error_iff.mp herror).getElem?_eq
      rw [← Excerpt.getElem?_chars, Excerpt.chars_eq_extract, Excerpt.indent_eq,
        String.length_toList] at hstray
      exact hstray
  · intro headline code position
    obtain ⟨frame, hframe, hstart, hcount, hindent⟩ := Excerpt.frame?_eq_some position
    have hshown : (code.drop frame.start.toNat).take frame.count.toNat =
        Excerpt.chars code position.toNat := by
      rw [hstart, hcount, Excerpt.chars]
    refine ⟨frame, hframe, ?_, ?_, ?_⟩
    · rw [hshown, hindent]
      rfl
    · rw [hshown]
      exact Excerpt.length_chars_le code position.toNat
    · rw [hindent, Excerpt.indent_eq]

/-- A bracket behind forty commands is shown without the first eight of them, and the largest
position that a word holds still has an excerpt. -/
theorem explain_stray_caret_far :
    let code := String.ofList (List.replicate 40 '+' ++ [']', 'é'])
    Program.ofText code = .error ⟨40, .closing⟩ ∧
    DiagnosticStyle.explain ⟨some "bf", false, id⟩ code (.stray ⟨40, .closing⟩) =
      "bf: Parse error: unmatched bracket ']' at instruction 40\n" ++
      "  ++++++++++++++++++++++++++++++++]é\n" ++
      "                                  ^\n" ∧
    ∃ frame, Excerpt.frame? 18446744073709551615 = some frame ∧ frame.indent.toNat = 32 := by
  intro code
  have herror : Program.ofText code = .error ⟨40, .closing⟩ := by decide +revert
  obtain ⟨hstray, hexcerpt⟩ := explain_stray_caret ⟨some "bf", false, id⟩
  obtain ⟨frame, hframe, -, -, hindent⟩ := hexcerpt "bf" code.toList 18446744073709551615
  refine ⟨herror, (hstray code _ herror).1.trans ?_, frame, hframe, hindent⟩
  decide

end TapeMachine
