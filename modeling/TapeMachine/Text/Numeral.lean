/-! # Numerals

A numeral is an optional `+` and at least one decimal digit; leading zeros do not matter. It is read
from left to right into a word that holds the numbers below a bound, so of a bad character and an
overflow the one further left is reported.
-/

namespace TapeMachine.Text

/-- A word of 32 bits holds the numbers below this one. -/
def word32Bound : Nat := 4294967296

/-- A word of 64 bits holds the numbers below this one. -/
def word64Bound : Nat := 18446744073709551616

/-- Why a text is no numeral of a word. -/
inductive NumeralError where
  | empty
  | invalidDigit
  | tooLarge
deriving DecidableEq, Repr

/-- What is wrong with the text, in words. -/
def NumeralError.message : NumeralError → String
  | .empty => "cannot parse integer from empty string"
  | .invalidDigit => "invalid digit found in string"
  | .tooLarge => "number too large to fit in target type"

/-- The value of a decimal digit. -/
def digit? (c : Char) : Option Nat :=
  if '0' ≤ c ∧ c ≤ '9' then some (c.toNat - '0'.toNat) else none

/-- Reads further digits behind a number that has been read. -/
def readDigits (bound : Nat) (value : Nat) : List Char → Except NumeralError Nat
  | [] => .ok value
  | c :: rest =>
    match digit? c with
    | none => .error .invalidDigit
    | some d =>
      if value * 10 + d < bound then readDigits bound (value * 10 + d) rest
      else .error .tooLarge

/-- Reads a numeral into a word that holds the numbers below `bound`. -/
def readNumeral (bound : Nat) : List Char → Except NumeralError Nat
  | [] => .error .empty
  | ['+'] => .error .invalidDigit
  | '+' :: digits => readDigits bound 0 digits
  | digits => readDigits bound 0 digits

end TapeMachine.Text
