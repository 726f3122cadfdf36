import Mathlib.Data.List.DropRight
import TapeMachine.Text.Blank
import TapeMachine.Text.Split

/-! # Lines and blanks

How cutting at a separator and trimming act on texts that are put together from parts.

* A separator between two texts keeps their pieces apart, wherever it stands
  (`splitAtEach_append_separator`); a text without it is one piece (`splitAtEach_of_not_mem`).
* Blanks at the ends do not matter (`trimChars_blanks_append`, `trimChars_append_blanks`), and a
  character that is not blank protects what stands behind it (`trimChars_append_cons`,
  `trimChars_delimited`).
-/

namespace TapeMachine.Text

/-! ## Pieces -/

section

variable {separator : Char}

/-- The separator between two texts cuts them apart. -/
theorem splitAtEach_append_separator (s t : List Char) :
    splitAtEach separator (s ++ separator :: t) =
      splitAtEach separator s ++ splitAtEach separator t := by
  induction s with
  | nil => exact splitAtEach_append List.not_mem_nil t
  | cons c s ih =>
    obtain ⟨piece, rest, hpieces⟩ :=
      List.exists_cons_of_ne_nil (splitAtEach_ne_nil separator s)
    show consToPieces separator c (splitAtEach separator (s ++ separator :: t)) =
      consToPieces separator c (splitAtEach separator s) ++ splitAtEach separator t
    rw [ih, hpieces]
    by_cases hc : c = separator
    · simp [consToPieces, hc]
    · simp [consToPieces, hc]

/-- A text without the separator is one piece. -/
theorem splitAtEach_of_not_mem {piece : List Char} (h : separator ∉ piece) :
    splitAtEach separator piece = [piece] := by
  induction piece with
  | nil => rfl
  | cons c piece ih =>
    rw [List.mem_cons, not_or] at h
    show consToPieces separator c (splitAtEach separator piece) = [c :: piece]
    rw [ih h.2]
    exact if_neg (Ne.symm h.1)

end

/-! ## Blanks -/

section

variable {blanks : List Char} (hblanks : ∀ c ∈ blanks, isBlank c = true)
include hblanks

/-- Blanks in front do not matter. -/
theorem trimChars_blanks_append (cs : List Char) : trimChars (blanks ++ cs) = trimChars cs := by
  rw [trimChars, List.dropWhile_append_of_pos hblanks, trimChars]

/-- Blanks behind do not matter. -/
theorem trimChars_append_blanks (cs : List Char) : trimChars (cs ++ blanks) = trimChars cs := by
  have hdrop : blanks.dropWhile isBlank = [] := List.dropWhile_eq_nil_iff.mpr hblanks
  have hreverse : ∀ c ∈ blanks.reverse, isBlank c = true := by
    intro c hc
    exact hblanks c (List.mem_reverse.mp hc)
  rw [trimChars, trimChars, List.dropWhile_append]
  by_cases hempty : (cs.dropWhile isBlank).isEmpty = true
  · rw [if_pos hempty, hdrop, List.isEmpty_iff.mp hempty]
  · rw [if_neg hempty, List.reverse_append, List.dropWhile_append_of_pos hreverse]

/-- Nothing remains of blanks. -/
theorem trimChars_of_blanks : trimChars blanks = [] := by
  rw [trimChars, List.dropWhile_eq_nil_iff.mpr hblanks]
  rfl

end

/-- A character that is not blank stops the dropping of blanks. -/
theorem dropWhile_append_cons {c : Char} (hc : isBlank c = false) (before rest : List Char) :
    (before ++ c :: rest).dropWhile isBlank = before.dropWhile isBlank ++ c :: rest := by
  rw [List.dropWhile_append]
  by_cases hempty : (before.dropWhile isBlank).isEmpty = true
  · rw [if_pos hempty, List.dropWhile_cons_of_neg (by simp [hc]), List.isEmpty_iff.mp hempty,
      List.nil_append]
  · rw [if_neg hempty]

/-- What stands behind the first character that is not blank is only trimmed at its end. -/
theorem trimChars_append_cons {blanks : List Char} (hblanks : ∀ c ∈ blanks, isBlank c = true)
    {c : Char} (hc : isBlank c = false) (cs : List Char) :
    trimChars (blanks ++ c :: cs) = c :: cs.rdropWhile isBlank := by
  rw [trimChars_blanks_append hblanks, trimChars, List.dropWhile_cons_of_neg (by simp [hc]),
    List.reverse_cons, dropWhile_append_cons hc, List.reverse_append]
  rfl

/-- Trimming leaves what stands between two characters that are not blank. -/
theorem trimChars_delimited (before inside after : List Char) {c d : Char}
    (hc : isBlank c = false) (hd : isBlank d = false)
    (hafter : ∀ e ∈ after, isBlank e = true) :
    trimChars (before ++ c :: (inside ++ d :: after)) =
      before.dropWhile isBlank ++ c :: (inside ++ [d]) := by
  have hsplit : before ++ c :: (inside ++ d :: after) =
      before ++ c :: (inside ++ [d]) ++ after := by simp
  have hreverse : (before.dropWhile isBlank ++ c :: (inside ++ [d])).reverse =
      d :: (before.dropWhile isBlank ++ c :: inside).reverse := by simp
  rw [hsplit, trimChars_append_blanks hafter, trimChars, dropWhile_append_cons hc, hreverse,
    List.dropWhile_cons_of_neg (by simp [hd]), ← hreverse, List.reverse_reverse]

/-- Trimming does the work of dropping the blanks in front. -/
theorem trimChars_dropWhile (cs : List Char) :
    trimChars (cs.dropWhile isBlank) = trimChars cs := by
  rw [trimChars, List.dropWhile_idempotent, trimChars]

/-- A trimmed text does not start with a blank. -/
theorem isBlank_of_trimChars_eq_cons {cs rest : List Char} {c : Char}
    (h : trimChars cs = c :: rest) : isBlank c = false := by
  have hprefix : trimChars cs <+: cs.dropWhile isBlank := List.rdropWhile_prefix _ _
  rw [h] at hprefix
  obtain ⟨tail, htail⟩ := hprefix
  have hnot := List.head?_dropWhile_not isBlank cs
  rw [← htail] at hnot
  exact hnot

end TapeMachine.Text
