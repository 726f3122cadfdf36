import TapeMachine.Proofs.Numerals
import TapeMachine.Settings.Value

/-! # The texts of settings

Which texts each setting accepts, and why it refuses the others.

* `TimeUnit.ofText_eq_ok_iff` and `EndPolicy.ofText_eq_ok_iff`: units and policies are accepted by
  their names.
* `memorySizeOfText_eq_ok_iff` and `CellSize.ofText_eq_ok_iff`: sizes are numerals.
  `memorySizeOfText_reasons` says why a numeral is no number of cells.
* `sizes_of_numerals` puts together what there is to say about sizes.
-/

namespace TapeMachine

/-! ## Names -/

/-- If a list has each value under its own name, a name finds the value it belongs to. -/
theorem find?_name_eq_some_iff {α β : Type} [BEq β] [LawfulBEq β] {values : List α} {name : α → β}
    (hself : ∀ value, values.find? (name · == name value) = some value) {key : β} {value : α} :
    values.find? (name · == key) = some value ↔ name value = key := by
  constructor
  · intro h
    have hkey := List.find?_some h
    exact beq_iff_eq.mp hkey
  · rintro rfl
    exact hself value

theorem CellSize.ofBits?_eq_some_iff {bits : Nat} {size : CellSize} :
    ofBits? bits = some size ↔ size.bits = bits :=
  find?_name_eq_some_iff (by rintro (_ | _ | _ | _) <;> rfl)

theorem TimeUnit.ofSymbol?_eq_some_iff {symbol : String} {unit : TimeUnit} :
    ofSymbol? symbol = some unit ↔ unit.symbol = symbol :=
  find?_name_eq_some_iff (by rintro (_ | _ | _ | _) <;> rfl)

theorem EndPolicy.ofName?_eq_some_iff {name : String} {policy : EndPolicy} :
    ofName? name = some policy ↔ policy.name = name :=
  find?_name_eq_some_iff (by rintro (_ | _ | _) <;> rfl)

theorem valueOfName_eq_ok_iff {α : Type} {find? : String → Option α}
    {refusal : String → ValueError} {name : String} {value : α} :
    valueOfName find? refusal name = .ok value ↔ find? name = some value := by
  unfold valueOfName
  cases find? name with
  | none => simp only [reduceCtorEq]
  | some found => simp only [Except.ok.injEq, Option.some.injEq]

/-- The text of a unit is its symbol, with blanks around it. -/
theorem TimeUnit.ofText_eq_ok_iff {text : String} {unit : TimeUnit} :
    ofText text = .ok unit ↔ Text.trim text = unit.symbol := by
  rw [ofText, valueOfName_eq_ok_iff, ofSymbol?_eq_some_iff, eq_comm]

/-- The text of a policy is its name in upper or lower case, with blanks around it. -/
theorem EndPolicy.ofText_eq_ok_iff {text : String} {policy : EndPolicy} :
    ofText text = .ok policy ↔ (Text.trim text).map Char.toLower = policy.name := by
  rw [ofText, valueOfName_eq_ok_iff, ofName?_eq_some_iff, eq_comm]

/-! ## Sizes -/

variable {text : String} {n : Nat}

/-- The number of a numeral decides what becomes of it as a number of cells. -/
theorem memorySizeOfText_of_numeral (h : Text.Numeral (Text.trimChars text.toList) n) :
    memorySizeOfText text =
      if n = 0 then .error .noMemory
      else if n ≤ 2 ^ 28 then .ok n
      else if n < 2 ^ 64 then .error .tooMuchMemory
      else .error (.memoryNumeral .tooLarge) := by
  have hword : Text.word64Bound = 2 ^ 64 := rfl
  have hlimit : memoryLimit = 2 ^ 28 := rfl
  rw [memorySizeOfText, Text.readNumeral_of_numeral (by decide) h, hword, hlimit]
  by_cases hzero : n = 0
  · subst hzero
    rfl
  · by_cases hfew : n ≤ 2 ^ 28
    · have hfits : n < 2 ^ 64 := by omega
      simp only [if_pos hfits, if_neg hzero, if_pos hfew, if_neg (Nat.not_lt.mpr hfew)]
    · by_cases hfits : n < 2 ^ 64
      · simp only [if_pos hfits, if_neg hzero, if_neg hfew, if_pos (Nat.lt_of_not_le hfew)]
      · simp only [if_neg hfits, if_neg hzero, if_neg hfew]

/-- What is no numeral is no number of cells. -/
theorem memorySizeOfText_of_not_numeral
    (h : ¬ ∃ n, Text.Numeral (Text.trimChars text.toList) n) :
    ∃ cause, memorySizeOfText text = .error (.memoryNumeral cause) := by
  obtain ⟨cause, hcause⟩ := Text.readNumeral_of_not_numeral Text.word64Bound h
  refine ⟨cause, ?_⟩
  rw [memorySizeOfText, hcause]

theorem memorySizeOfText_eq_ok_iff :
    memorySizeOfText text = .ok n ↔
      Text.Numeral (Text.trimChars text.toList) n ∧ 1 ≤ n ∧ n ≤ 2 ^ 28 := by
  constructor
  · intro hok
    by_cases hnumeral : ∃ m, Text.Numeral (Text.trimChars text.toList) m
    · obtain ⟨m, hm⟩ := hnumeral
      rw [memorySizeOfText_of_numeral hm] at hok
      split_ifs at hok with hzero hfew hfits
      cases hok
      exact ⟨hm, by omega, hfew⟩
    · obtain ⟨cause, hcause⟩ := memorySizeOfText_of_not_numeral hnumeral
      rw [hcause] at hok
      cases hok
  · rintro ⟨hnumeral, hpos, hfew⟩
    rw [memorySizeOfText_of_numeral hnumeral, if_neg (by omega), if_pos hfew]

/-- Each reason to refuse a numeral has numbers of its own. -/
theorem memorySizeOfText_reasons (h : Text.Numeral (Text.trimChars text.toList) n) :
    (memorySizeOfText text = .error .noMemory ↔ n = 0) ∧
    (memorySizeOfText text = .error .tooMuchMemory ↔ 2 ^ 28 < n ∧ n < 2 ^ 64) ∧
    ((∃ cause, memorySizeOfText text = .error (.memoryNumeral cause)) ↔ 2 ^ 64 ≤ n) := by
  rw [memorySizeOfText_of_numeral h]
  split_ifs with hzero hfew hfits
  · -- no cells
    simp only [Except.error.injEq, reduceCtorEq, exists_false, false_iff, true_iff]
    omega
  · -- a number of cells
    simp only [exists_false, false_iff]
    omega
  · -- too many cells
    simp only [Except.error.injEq, reduceCtorEq, exists_false, false_iff, true_iff]
    omega
  · -- no word holds the number
    simp only [Except.error.injEq, reduceCtorEq, ValueError.memoryNumeral.injEq, exists_eq',
      false_iff, true_iff]
    omega

/-- The numerals of the four sizes are the texts of cell sizes. -/
theorem CellSize.ofText_eq_ok_iff {size : CellSize} :
    CellSize.ofText text = .ok size ↔
      Text.Numeral (Text.trimChars text.toList) size.bits := by
  have hread : CellSize.ofText text = .ok size ↔
      Text.readNumeral Text.word32Bound (Text.trimChars text.toList) = .ok size.bits := by
    unfold ofText
    cases Text.readNumeral Text.word32Bound (Text.trimChars text.toList) with
    | error cause => simp only [reduceCtorEq]
    | ok bits =>
      rw [Except.ok.injEq, eq_comm (a := bits), ← ofBits?_eq_some_iff]
      cases hfound : ofBits? bits with
      | none => simp only [hfound, reduceCtorEq]
      | some found => simp only [hfound, Except.ok.injEq, Option.some.injEq]
  have hfits : size.bits < Text.word32Bound := by
    cases size <;> decide
  rw [hread, Text.readNumeral_eq_ok_iff (by decide)]
  exact and_iff_left hfits

/-- Numerals, and they alone, are sizes, whatever blanks stand around them.

* A number of cells is a numeral of a number from 1 to `2 ^ 28`.
* A numeral of another number is refused as too small or too large, or as no number that a word
  holds. Everything that is no numeral is refused like this last one.
* A cell size is a numeral of its number of bits. -/
theorem sizes_of_numerals (text : String) :
    let body := Text.trimChars text.toList
    (∀ n, memorySizeOfText text = .ok n ↔ Text.Numeral body n ∧ 1 ≤ n ∧ n ≤ 2 ^ 28) ∧
    (∀ n, Text.Numeral body n →
      (memorySizeOfText text = .error .noMemory ↔ n = 0) ∧
      (memorySizeOfText text = .error .tooMuchMemory ↔ 2 ^ 28 < n ∧ n < 2 ^ 64) ∧
      ((∃ cause, memorySizeOfText text = .error (.memoryNumeral cause)) ↔ 2 ^ 64 ≤ n)) ∧
    ((¬ ∃ n, Text.Numeral body n) →
      ∃ cause, memorySizeOfText text = .error (.memoryNumeral cause)) ∧
    (∀ size, CellSize.ofText text = .ok size ↔ Text.Numeral body size.bits) ∧
    ValueError.noMemory.message = "memory size must be at least 1 cell" ∧
    ValueError.tooMuchMemory.message = "memory size must be at most 268435456 cells" ∧
    ∀ cause, (ValueError.memoryNumeral cause).message =
      "memory size must be a positive integer (" ++ cause.message ++ ")" := by
  intro body
  refine ⟨?_, ?_, memorySizeOfText_of_not_numeral, ?_, rfl, ?_, ?_⟩
  · intro n
    exact memorySizeOfText_eq_ok_iff
  · intro n hnumeral
    exact memorySizeOfText_reasons hnumeral
  · intro size
    exact CellSize.ofText_eq_ok_iff
  · decide
  · intro cause
    rfl

/-- A number one above the largest that a word holds, and a minus sign behind a plus sign. -/
theorem sizes_of_numerals_refused :
    Text.Numeral (Text.trimChars "\u00a0+00018446744073709551616\t".toList) 18446744073709551616 ∧
    (∃ cause, memorySizeOfText "\u00a0+00018446744073709551616\t" =
      .error (.memoryNumeral cause)) ∧
    (¬ ∃ n, Text.Numeral (Text.trimChars "+-5".toList) n) ∧
    ∃ cause, memorySizeOfText "+-5" = .error (.memoryNumeral cause) := by
  have hlarge :
      Text.Numeral (Text.trimChars "\u00a0+00018446744073709551616\t".toList)
        18446744073709551616 := by
    have hbody : Text.trimChars "\u00a0+00018446744073709551616\t".toList =
        '+' :: "00018446744073709551616".toList := by decide
    have hvalue : Text.decimalValue "00018446744073709551616".toList = 18446744073709551616 := by
      decide
    rw [hbody, ← hvalue]
    exact .signed ⟨by decide, List.all_eq_true.mp rfl⟩
  have hsigns : ¬ ∃ n, Text.Numeral (Text.trimChars "+-5".toList) n := by
    rintro ⟨n, hnumeral⟩
    have hbody : Text.trimChars "+-5".toList = ['+', '-', '5'] := by decide
    rw [hbody] at hnumeral
    cases hnumeral with
    | unsigned h => exact absurd (h.isDigit '+' (by simp)) (by decide)
    | signed h => exact absurd (h.isDigit '-' (by simp)) (by decide)
  obtain ⟨-, hreasons, -⟩ := sizes_of_numerals "\u00a0+00018446744073709551616\t"
  obtain ⟨-, -, hrefused, -⟩ := sizes_of_numerals "+-5"
  have htooLarge := (hreasons _ hlarge).2.2.mpr (by norm_num)
  exact ⟨hlarge, htooLarge, hsigns, hrefused hsigns⟩

end TapeMachine
