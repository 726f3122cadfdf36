import Mathlib.Data.Nat.Digits.Defs
import Mathlib.Tactic.Ring
import TapeMachine.Text.Numeral

/-! # Numerals

Numbers in settings are written with decimal digits, perhaps behind one plus sign. They are read
from left to right, and at each digit the number may outgrow its word. This comes to the same as
taking the number that all digits stand for and comparing it once.

* `Text.Numeral cs n`: the text is a numeral of the number, said through the value of its digits
  (`Text.decimalValue`) and not through the reading.
* `Text.readNumeral_of_numeral`: a numeral is read exactly if its number fits. Everything else is
  refused (`Text.readNumeral_of_not_numeral`).
-/

namespace TapeMachine.Text

/-! ## Grammar -/

/-- Decimal digits, at least one. -/
structure Digits (cs : List Char) : Prop where
  ne_nil : cs ≠ []
  isDigit : ∀ c ∈ cs, c.isDigit = true

/-- The number that decimal digits stand for. -/
def decimalValue (cs : List Char) : Nat :=
  Nat.ofDigits 10 (cs.map fun c => c.toNat - '0'.toNat).reverse

/-- The text is a numeral of the number. -/
inductive Numeral : List Char → Nat → Prop where
  | unsigned {cs : List Char} (h : Digits cs) : Numeral cs (decimalValue cs)
  | signed {cs : List Char} (h : Digits cs) : Numeral ('+' :: cs) (decimalValue cs)

/-! ## Digits -/

/-- The first digit counts for as many tens as there are digits behind it. -/
theorem decimalValue_cons (c : Char) (cs : List Char) :
    decimalValue (c :: cs) = (c.toNat - '0'.toNat) * 10 ^ cs.length + decimalValue cs := by
  rw [decimalValue, List.map_cons, Nat.ofDigits_reverse_cons, List.length_map, decimalValue]
  ring

theorem digit?_of_isDigit {c : Char} (h : c.isDigit = true) :
    digit? c = some (c.toNat - '0'.toNat) :=
  if_pos (Char.isDigit_iff_toNat.mp h)

theorem digit?_of_not_isDigit {c : Char} (h : c.isDigit = false) : digit? c = none := by
  apply if_neg
  intro hrange
  rw [Char.isDigit_iff_toNat.mpr hrange] at h
  cases h

/-- Digits are read behind a number exactly if the number that comes out fits. Once a number does
not fit, no digits behind it help. -/
theorem readDigits_of_digits {bound value : Nat} {cs : List Char} (hvalue : value < bound)
    (h : ∀ c ∈ cs, c.isDigit = true) :
    readDigits bound value cs =
      if value * 10 ^ cs.length + decimalValue cs < bound then
        .ok (value * 10 ^ cs.length + decimalValue cs)
      else .error .tooLarge := by
  induction cs generalizing value with
  | nil =>
    have hsum : value * 10 ^ ([] : List Char).length + decimalValue [] = value := by
      simp [decimalValue]
    rw [hsum, if_pos hvalue]
    rfl
  | cons c cs ih =>
    rw [List.forall_mem_cons] at h
    have hsum : value * 10 ^ (c :: cs).length + decimalValue (c :: cs) =
        (value * 10 + (c.toNat - '0'.toNat)) * 10 ^ cs.length + decimalValue cs := by
      rw [decimalValue_cons, List.length_cons]
      ring
    rw [readDigits, digit?_of_isDigit h.1, hsum]
    by_cases hfits : value * 10 + (c.toNat - '0'.toNat) < bound
    · simp only [if_pos hfits]
      exact ih hfits h.2
    · -- the digits behind only make the number larger
      have hle : value * 10 + (c.toNat - '0'.toNat) ≤
          (value * 10 + (c.toNat - '0'.toNat)) * 10 ^ cs.length :=
        Nat.le_mul_of_pos_right _ (Nat.pow_pos (by decide))
      rw [if_neg (by omega)]
      simp only [if_neg hfits]

/-- What is not made of digits only is refused, whichever comes first: the character that is no
digit, or a number that does not fit. -/
theorem readDigits_of_not_digits {bound value : Nat} {cs : List Char}
    (h : ¬ ∀ c ∈ cs, c.isDigit = true) :
    ∃ cause, readDigits bound value cs = .error cause := by
  induction cs generalizing value with
  | nil => exact absurd (List.forall_mem_nil _) h
  | cons c cs ih =>
    rw [List.forall_mem_cons] at h
    cases hc : c.isDigit with
    | false =>
      rw [readDigits, digit?_of_not_isDigit hc]
      exact ⟨_, rfl⟩
    | true =>
      rw [readDigits, digit?_of_isDigit hc]
      by_cases hfits : value * 10 + (c.toNat - '0'.toNat) < bound
      · simp only [if_pos hfits]
        exact ih fun hcs => h ⟨hc, hcs⟩
      · simp only [if_neg hfits]
        exact ⟨_, rfl⟩

/-! ## Numerals -/

/-- A plus sign is no digit. -/
theorem Digits.head?_ne {cs : List Char} (h : Digits cs) : cs.head? ≠ some '+' := by
  intro hhead
  have hplus := h.isDigit '+' (List.mem_of_head? hhead)
  exact absurd hplus (by decide)

theorem readNumeral_signed {bound : Nat} {cs : List Char} (h : cs ≠ []) :
    readNumeral bound ('+' :: cs) = readDigits bound 0 cs := by
  cases cs with
  | nil => exact absurd rfl h
  | cons c cs => rfl

theorem readNumeral_unsigned {bound : Nat} {cs : List Char} (h : cs ≠ [])
    (hhead : cs.head? ≠ some '+') : readNumeral bound cs = readDigits bound 0 cs := by
  unfold readNumeral
  split
  · exact absurd rfl h
  · exact absurd rfl hhead
  · exact absurd rfl hhead
  · rfl

/-- A numeral is read exactly if its number fits. -/
theorem readNumeral_of_numeral {bound : Nat} {cs : List Char} {n : Nat} (hbound : 0 < bound)
    (h : Numeral cs n) :
    readNumeral bound cs = if n < bound then .ok n else .error .tooLarge := by
  cases h with
  | unsigned h =>
    rw [readNumeral_unsigned h.ne_nil h.head?_ne, readDigits_of_digits hbound h.isDigit,
      Nat.zero_mul, Nat.zero_add]
  | @signed cs h =>
    rw [readNumeral_signed h.ne_nil, readDigits_of_digits hbound h.isDigit, Nat.zero_mul,
      Nat.zero_add]

/-- What is no numeral is refused. -/
theorem readNumeral_of_not_numeral (bound : Nat) {cs : List Char} (h : ¬ ∃ n, Numeral cs n) :
    ∃ cause, readNumeral bound cs = .error cause := by
  by_cases hnil : cs = []
  · subst hnil
    exact ⟨_, rfl⟩
  · by_cases hhead : cs.head? = some '+'
    · -- behind the sign there is nothing, or something that is no digit
      obtain ⟨rest, rfl⟩ := List.head?_eq_some_iff.mp hhead
      by_cases hrest : rest = []
      · subst hrest
        exact ⟨_, rfl⟩
      · rw [readNumeral_signed hrest]
        exact readDigits_of_not_digits fun hdigits => h ⟨_, .signed ⟨hrest, hdigits⟩⟩
    · rw [readNumeral_unsigned hnil hhead]
      exact readDigits_of_not_digits fun hdigits => h ⟨_, .unsigned ⟨hnil, hdigits⟩⟩

/-- The numerals that are read are those whose number fits. -/
theorem readNumeral_eq_ok_iff {bound : Nat} {cs : List Char} {n : Nat} (hbound : 0 < bound) :
    readNumeral bound cs = .ok n ↔ Numeral cs n ∧ n < bound := by
  constructor
  · intro hread
    by_cases hnumeral : ∃ m, Numeral cs m
    · obtain ⟨m, hm⟩ := hnumeral
      rw [readNumeral_of_numeral hbound hm] at hread
      split at hread
      · rename_i hfits
        cases hread
        exact ⟨hm, hfits⟩
      · cases hread
    · obtain ⟨cause, hcause⟩ := readNumeral_of_not_numeral bound hnumeral
      rw [hcause] at hread
      cases hread
  · rintro ⟨hnumeral, hfits⟩
    rw [readNumeral_of_numeral hbound hnumeral, if_pos hfits]

end TapeMachine.Text
