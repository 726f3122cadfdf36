import Mathlib.Data.UInt
import TapeMachine.Proofs.Tape
import TapeMachine.Proofs.Words

/-! # Tapes of words

A machine keeps a tape in words: a cell takes 32 bits whatever its size, and lengths and indices
take 64. This file has the operations of a tape once more, with every sum and remainder taken in
words, and nothing as the result where one does not fit.

* `WordTape.toTape`: the tape that a tape of words stands for. `Represents w t` says that `t` is
  this tape and that the length of `w` is a word.
* Every operation at an index below `2 ^ 63` gives a result, which stands for the result of the same
  operation on the tape (`Represents.growTo`, `Represents.get`, `Represents.set`,
  `Represents.add`).
-/

namespace TapeMachine

/-! ## Model -/

/-- The number of values of a cell, as a word. -/
def CellSize.modulusWord (size : CellSize) : UInt64 :=
  1 <<< UInt64.ofNat size.bits

/-- The length of a grown tape, if every length on the way is a word. -/
def grownLength? (length index : UInt64) : Option UInt64 :=
  if length ≤ index then
    match _hlonger : Word.add? length (max 1 (length / 2)) with
    | some longer => grownLength? longer index
    | none => none
  else some length
termination_by index.toNat + 1 - length.toNat
decreasing_by
  have hlonger := Word.add?_eq_some_iff.mp _hlonger
  have hone : (1 : UInt64).toNat = 1 := rfl
  rw [UInt64.toNat_max] at hlonger
  simp only [UInt64.le_iff_toNat_le] at *
  omega

/-- A row of cells of one size, each in a word of 32 bits. -/
structure WordTape where
  cells : Array UInt32
  cellSize : CellSize
deriving DecidableEq, Repr

namespace WordTape

/-- A tape of zeros. It has at least one cell. -/
def zeros (length : UInt64) (cellSize : CellSize) : WordTape :=
  ⟨Array.replicate (max 1 length).toNat 0, cellSize⟩

/-- The number of cells, as a word. -/
def length (w : WordTape) : UInt64 := UInt64.ofNat w.cells.size

/-- Lengthens the tape with zeros until `index` lies on it. -/
def growTo (w : WordTape) (index : UInt64) : Option WordTape :=
  if index < w.length then some w
  else do
    let length ← grownLength? w.length index
    some { w with cells := w.cells ++ Array.replicate (length.toNat - w.cells.size) 0 }

/-- The value at an index, and the tape on which it lies. -/
def get (w : WordTape) (index : UInt64) : Option (UInt32 × WordTape) := do
  let w ← w.growTo index
  let value ← w.cells[index.toNat]?
  some (value, w)

/-- Stores a value modulo `2 ^ bits`. -/
def set (w : WordTape) (index value : UInt64) : Option WordTape := do
  let w ← w.growTo index
  if index.toNat < w.cells.size then
    some { w with
      cells := w.cells.setIfInBounds index.toNat (value % w.cellSize.modulusWord).toUInt32 }
  else none

/-- Adds a signed word modulo `2 ^ bits`. -/
def add (w : WordTape) (index : UInt64) (delta : Int64) : Option WordTape := do
  let step ← Word.emod? delta w.cellSize.modulusWord.toInt64
  let (current, w) ← w.get index
  let sum ← Word.add? current.toUInt64 step.toUInt64
  w.set index sum

/-- The tape that the words stand for. -/
def toTape (w : WordTape) : Tape :=
  ⟨w.cells.map UInt32.toNat, w.cellSize⟩

end WordTape

/-- The words stand for the tape, and its length is a word. -/
structure Represents (w : WordTape) (t : Tape) : Prop where
  toTape_eq : w.toTape = t
  length_lt : t.length < 2 ^ 64

/-! ## Moduli and lengths -/

theorem CellSize.toNat_modulusWord (size : CellSize) :
    size.modulusWord.toNat = size.modulus := by
  cases size <;> rfl

/-- The modulus stays the same as a signed word. -/
theorem CellSize.toInt_modulusWord (size : CellSize) :
    size.modulusWord.toInt64.toInt = size.modulus := by
  cases size <;> rfl

theorem CellSize.modulus_le (size : CellSize) : size.modulus ≤ 2 ^ 32 := by
  cases size <;> decide

/-- Growing to an index below `2 ^ 63` stays within words: no length is added to that lies behind
the index, and half of it is added at most. -/
theorem grownLength?_eq {index : UInt64} (hindex : index.toNat < 2 ^ 63) (length : UInt64) :
    ∃ longer, grownLength? length index = some longer ∧
      longer.toNat = grownLength length.toNat index.toNat := by
  have hadded : ∀ length : UInt64,
      (max 1 (length / 2)).toNat = max 1 (length.toNat / 2) := by
    intro length
    rw [UInt64.toNat_max]
    rfl
  fun_induction grownLength? length index with
  | case1 length hle longer hlonger ih =>
    obtain ⟨longest, hlongest, heq⟩ := ih
    have hsum := Word.add?_eq_some_iff.mp hlonger
    rw [hadded] at hsum
    refine ⟨longest, hlongest, ?_⟩
    rw [heq, hsum, grownLength_of_le (UInt64.le_iff_toNat_le.mp hle)]
  | case2 length hle hnone =>
    -- the sum is below `2 ^ 63 + 2 ^ 62`
    have hle' := UInt64.le_iff_toNat_le.mp hle
    have hfits : length.toNat + (max 1 (length / 2)).toNat < 2 ^ 64 := by
      rw [hadded]
      omega
    obtain ⟨longer, hlonger, -⟩ := Word.add?_eq_some hfits
    rw [hnone] at hlonger
    cases hlonger
  | case3 length hlt =>
    refine ⟨length, rfl, ?_⟩
    rw [UInt64.le_iff_toNat_le] at hlt
    rw [grownLength_of_lt (Nat.lt_of_not_le hlt)]

/-! ## Operations -/

namespace Represents

variable {w : WordTape} {t : Tape}

theorem zeros (length : UInt64) (size : CellSize) :
    Represents (.zeros length size) (.zeros length.toNat size) := by
  have hlength : (max 1 length).toNat = max 1 length.toNat := UInt64.toNat_max 1 length
  constructor
  · simp [WordTape.zeros, WordTape.toTape, Tape.zeros, hlength]
  · have hword := (max 1 length).toNat_lt
    simp only [Tape.zeros, Tape.length, Array.size_replicate]
    omega

theorem cellSize_eq (h : Represents w t) : w.cellSize = t.cellSize := by
  rw [← h.toTape_eq]
  rfl

theorem size_eq (h : Represents w t) : w.cells.size = t.length := by
  rw [← h.toTape_eq]
  simp [WordTape.toTape, Tape.length]

theorem toNat_length (h : Represents w t) : w.length.toNat = t.length := by
  rw [WordTape.length, h.size_eq, UInt64.toNat_ofNat_of_lt' h.length_lt]

/-- The word of a cell holds its value. -/
theorem getElem?_eq (h : Represents w t) {index : Nat} (hindex : index < t.length) :
    ∃ value, w.cells[index]? = some value ∧ value.toNat = t.cell index := by
  have hsize : index < w.cells.size := by
    rw [h.size_eq]
    exact hindex
  refine ⟨w.cells[index], Array.getElem?_eq_getElem hsize, ?_⟩
  rw [← h.toTape_eq]
  simp [WordTape.toTape, Tape.cell, hsize]

theorem growTo (h : Represents w t) {index : UInt64} (hindex : index.toNat < 2 ^ 63) :
    ∃ w', w.growTo index = some w' ∧ Represents w' (t.growTo index.toNat) := by
  unfold WordTape.growTo
  by_cases hlt : index < w.length
  · have hon : index.toNat < t.length := by
      rw [UInt64.lt_iff_toNat_lt, h.toNat_length] at hlt
      exact hlt
    rw [if_pos hlt, Tape.growTo_of_lt hon]
    exact ⟨w, rfl, h⟩
  · have hoff : ¬ index.toNat < t.length := by
      rw [UInt64.lt_iff_toNat_lt, h.toNat_length] at hlt
      exact hlt
    obtain ⟨longer, hlonger, heq⟩ := grownLength?_eq hindex w.length
    rw [h.toNat_length] at heq
    rw [if_neg hlt, hlonger]
    refine ⟨_, rfl, ?_, ?_⟩
    · rw [Tape.growTo, if_neg hoff, ← heq, ← h.size_eq, ← h.toTape_eq]
      simp [WordTape.toTape]
    · have hword := longer.toNat_lt
      rw [Tape.length_growTo, ← heq]
      exact hword

theorem get (h : Represents w t) {index : UInt64} (hindex : index.toNat < 2 ^ 63) :
    ∃ value w', w.get index = some (value, w') ∧ value.toNat = (t.get index.toNat).1 ∧
      Represents w' (t.get index.toNat).2 := by
  obtain ⟨w', hw', hgrown⟩ := h.growTo hindex
  obtain ⟨value, hvalue, heq⟩ := hgrown.getElem?_eq (t.lt_length_growTo index.toNat)
  refine ⟨value, w', ?_, heq, hgrown⟩
  rw [WordTape.get, hw']
  simp [hvalue]

theorem set (h : Represents w t) {index : UInt64} (hindex : index.toNat < 2 ^ 63)
    (value : UInt64) :
    ∃ w', w.set index value = some w' ∧ Represents w' (t.set index.toNat value.toNat) := by
  obtain ⟨w', hw', hgrown⟩ := h.growTo hindex
  have hon : index.toNat < w'.cells.size := by
    rw [hgrown.size_eq]
    exact t.lt_length_growTo index.toNat
  -- the remainder is below `2 ^ 32`, so that the word of a cell holds it
  have hstored : (value % w'.cellSize.modulusWord).toUInt32.toNat =
      value.toNat % (t.growTo index.toNat).cellSize.modulus := by
    have hpos := (t.growTo index.toNat).cellSize.modulus_pos
    have hle := (t.growTo index.toNat).cellSize.modulus_le
    have hmod := Nat.mod_lt value.toNat hpos
    rw [UInt64.toNat_toUInt32, UInt64.toNat_mod, CellSize.toNat_modulusWord, hgrown.cellSize_eq,
      Nat.mod_eq_of_lt (by omega)]
  rw [WordTape.set, hw']
  refine ⟨_, if_pos hon, ?_, ?_⟩
  · simp only [WordTape.toTape, Array.map_setIfInBounds, hstored]
    rw [Tape.set, ← hgrown.toTape_eq]
    rfl
  · rw [Tape.length_set]
    exact hgrown.length_lt

theorem add (h : Represents w t) {index : UInt64} (hindex : index.toNat < 2 ^ 63)
    (delta : Int64) :
    ∃ w', w.add index delta = some w' ∧ Represents w' (t.add index.toNat delta.toInt) := by
  have hmodulus : w.cellSize.modulusWord.toInt64.toInt = t.cellSize.modulus := by
    rw [CellSize.toInt_modulusWord, h.cellSize_eq]
  have hpos := t.cellSize.modulus_pos
  have hle := t.cellSize.modulus_le
  obtain ⟨step, hstep, hstepEq⟩ :=
    Word.emod?_eq_some (a := delta) (m := w.cellSize.modulusWord.toInt64) (by omega)
  rw [hmodulus] at hstepEq
  obtain ⟨current, w', hw', hcurrent, hgrown⟩ := h.get hindex
  -- both summands are below `2 ^ 32`
  have hfits : current.toUInt64.toNat + step.toUInt64.toNat < 2 ^ 64 := by
    have hword := current.toNat_lt
    have hstepLt : delta.toInt % t.cellSize.modulus < t.cellSize.modulus :=
      Int.emod_lt_of_pos _ (by omega)
    rw [UInt32.toNat_toUInt64, hstepEq]
    omega
  obtain ⟨sum, hsum, hsumEq⟩ := Word.add?_eq_some hfits
  rw [UInt32.toNat_toUInt64, hcurrent, hstepEq] at hsumEq
  obtain ⟨w'', hw'', hset⟩ := hgrown.set hindex sum
  refine ⟨w'', ?_, ?_⟩
  · rw [WordTape.add, hstep]
    simp [hw', hsum, hw'']
  · rw [hsumEq] at hset
    simpa [Tape.add] using hset

end Represents

end TapeMachine
