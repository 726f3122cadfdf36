import Mathlib.Algebra.Group.Nat.Defs

/-! # Words of 64 bits

The library counts with numbers of any size. Here are the operations on words of 64 bits that are
needed to say that none of its counts ever outgrows them: an operation whose result does not fit
gives nothing.

* `Word.add?`, `Word.sub?` and `Word.emod?`: sum, difference and remainder of words.
* Where the result fits, they give the word for it (`add?_eq_some`, `sub?_eq_some`,
  `emod?_eq_some`).
-/

namespace TapeMachine.Word

/-! ## Model -/

/-- The sum of two words, if it fits. -/
def add? (a b : UInt64) : Option UInt64 :=
  if a.toNat + b.toNat < 2 ^ 64 then some (a + b) else none

/-- The difference of two words, if it is not negative. -/
def sub? (a b : UInt64) : Option UInt64 :=
  if b ≤ a then some (a - b) else none

/-- The difference of two words, or zero if it is negative. -/
def saturatingSub (a b : UInt64) : UInt64 :=
  if b ≤ a then a - b else 0

/-- The remainder that is never negative, of signed words. There is none by zero, and the least word
cannot be divided by `-1`. -/
def emod? (a m : Int64) : Option Int64 :=
  if m = 0 ∨ a = Int64.minValue ∧ m = -1 then none else some (Int64.ofInt (a.toInt % m.toInt))

/-! ## Results that fit -/

variable {a b c : UInt64}

theorem add?_eq_some_iff :
    add? a b = some c ↔ c.toNat = a.toNat + b.toNat := by
  unfold add?
  by_cases hfits : a.toNat + b.toNat < 2 ^ 64
  · have hsum : (a + b).toNat = a.toNat + b.toNat := by
      rw [UInt64.toNat_add, Nat.mod_eq_of_lt hfits]
    rw [if_pos hfits, Option.some.injEq, ← UInt64.toNat_inj, hsum]
    exact eq_comm
  · rw [if_neg hfits]
    have hword := c.toNat_lt
    constructor
    · intro h
      cases h
    · intro h
      omega

/-- A sum that fits is given. -/
theorem add?_eq_some (h : a.toNat + b.toNat < 2 ^ 64) :
    ∃ c, add? a b = some c ∧ c.toNat = a.toNat + b.toNat := by
  have hsum : add? a b = some (a + b) := if_pos h
  exact ⟨a + b, hsum, add?_eq_some_iff.mp hsum⟩

/-- A difference that is not negative is given. -/
theorem sub?_eq_some (h : b.toNat ≤ a.toNat) :
    ∃ c, sub? a b = some c ∧ c.toNat = a.toNat - b.toNat := by
  have hle : b ≤ a := UInt64.le_iff_toNat_le.mpr h
  exact ⟨a - b, if_pos hle, UInt64.toNat_sub_of_le a b hle⟩

theorem toNat_saturatingSub (a b : UInt64) :
    (saturatingSub a b).toNat = a.toNat - b.toNat := by
  unfold saturatingSub
  by_cases hle : b ≤ a
  · rw [if_pos hle, UInt64.toNat_sub_of_le a b hle]
  · rw [if_neg hle]
    rw [UInt64.le_iff_toNat_le] at hle
    have hzero : (0 : UInt64).toNat = 0 := rfl
    omega

/-- The remainder by a positive word is given, and stays the same when its sign is dropped. -/
theorem emod?_eq_some {a m : Int64} (hm : 0 < m.toInt) :
    ∃ r, emod? a m = some r ∧ r.toUInt64.toNat = (a.toInt % m.toInt).toNat := by
  have hnonneg : 0 ≤ a.toInt % m.toInt := Int.emod_nonneg _ (by omega)
  have hlt : a.toInt % m.toInt < m.toInt := Int.emod_lt_of_pos _ hm
  have hword : (Int64.ofInt (a.toInt % m.toInt)).toInt = a.toInt % m.toInt := by
    have hbound := m.toInt_lt
    exact Int64.toInt_ofInt_of_le (by omega) (by omega)
  refine ⟨Int64.ofInt (a.toInt % m.toInt), if_neg ?_, ?_⟩
  · rintro (rfl | ⟨-, rfl⟩)
    · exact absurd hm (by decide)
    · exact absurd hm (by decide)
  · rw [Int64.toNat_toUInt64_of_le, Int64.toNatClampNeg, hword]
    rw [Int64.le_iff_toInt_le, hword]
    exact hnonneg

end TapeMachine.Word
