/-! # Cutting a text

`splitAtEach` cuts a text at every occurrence of a separator: `n` separators give `n + 1` pieces,
and joining the pieces with the separator gives the text back. Lines are the pieces between line
feeds.
-/

namespace TapeMachine.Text

/-- Puts one character in front of pieces that are already cut. -/
def consToPieces (separator c : Char) : List (List Char) → List (List Char)
  | [] => if c = separator then [[], []] else [[c]]
  | piece :: rest => if c = separator then [] :: piece :: rest else (c :: piece) :: rest

/-- The pieces of a text between the occurrences of a separator. -/
def splitAtEach (separator : Char) (cs : List Char) : List (List Char) :=
  cs.foldr (consToPieces separator) [[]]

/-- The lines of a text, without their line feeds. -/
def lines (cs : List Char) : List (List Char) :=
  splitAtEach '\n' cs

/-- Cutting leaves at least one piece. -/
theorem splitAtEach_ne_nil (separator : Char) (cs : List Char) : splitAtEach separator cs ≠ [] := by
  cases cs with
  | nil => exact List.cons_ne_nil _ _
  | cons c cs =>
    show consToPieces separator c (splitAtEach separator cs) ≠ []
    unfold consToPieces
    split <;> split <;> exact List.cons_ne_nil _ _

/-- The characters up to the first separator are the first piece. -/
theorem splitAtEach_append {separator : Char} {piece : List Char} (h : separator ∉ piece)
    (rest : List Char) :
    splitAtEach separator (piece ++ separator :: rest) = piece :: splitAtEach separator rest := by
  induction piece with
  | nil =>
    obtain ⟨first, others, hpieces⟩ :=
      List.exists_cons_of_ne_nil (splitAtEach_ne_nil separator rest)
    show consToPieces separator separator (splitAtEach separator rest) = _
    rw [hpieces]
    exact if_pos rfl
  | cons c piece ih =>
    have hc : c ≠ separator := fun heq => h (heq ▸ List.mem_cons_self)
    have hpiece : separator ∉ piece := fun hmem => h (List.mem_cons_of_mem c hmem)
    show consToPieces separator c (splitAtEach separator (piece ++ separator :: rest)) = _
    rw [ih hpiece]
    exact if_neg hc

end TapeMachine.Text
