import TapeMachine.Tape

/-! # Tape operations, through length and view

What each operation of a tape does, said once: to its length, to its cell size and to the infinite
row that it stands for.

* An operation at an index that lies on the tape does not lengthen it (`growTo_of_lt` and the
  `length_` lemmas).
* Adding is storing a sum (`add_eq_set`).
* `Tape.SameRow`: two tapes of any lengths stand for the same row. No operation can tell them apart
  or drive them apart.
-/

namespace TapeMachine

theorem CellSize.modulus_pos (size : CellSize) : 0 < size.modulus :=
  Nat.pow_pos (by decide)

/-! ## Grown lengths -/

/-- A length behind the index need not grow. -/
theorem grownLength_of_lt {length index : Nat} (h : index < length) :
    grownLength length index = length := by
  rw [grownLength, if_neg (Nat.not_le_of_gt h)]

/-- A length that does not reach past the index grows by half, or by one. -/
theorem grownLength_of_le {length index : Nat} (h : length ≤ index) :
    grownLength length index = grownLength (length + max 1 (length / 2)) index := by
  rw [grownLength, if_pos h]

/-- Growing twice is growing once, to the larger index. -/
theorem grownLength_grownLength (length i j : Nat) :
    grownLength (grownLength length i) j = grownLength length (max i j) := by
  by_cases hij : i ≤ j
  · -- both ways pass through the same lengths, and the second index decides where to stop
    rw [Nat.max_eq_right hij]
    fun_induction grownLength length i with
    | case1 length hle ih =>
      rw [ih, grownLength_of_le (Nat.le_trans hle hij)]
    | case2 length hlt => rfl
  · have hlt : j < grownLength length i :=
      Nat.lt_of_lt_of_le (Nat.lt_of_not_le hij) (Nat.le_of_lt (lt_grownLength length i))
    rw [Nat.max_eq_left (Nat.le_of_not_le hij), grownLength_of_lt hlt]

namespace Tape

/-! ## Length -/

/-- An index on the tape needs no growth. -/
theorem growTo_of_lt {t : Tape} {index : Nat} (h : index < t.length) : t.growTo index = t :=
  if_pos h

/-- Growing never shortens the tape. -/
theorem length_le_growTo (t : Tape) (index : Nat) : t.length ≤ (t.growTo index).length := by
  unfold growTo
  split
  · exact Nat.le_refl _
  · simp [length]

/-- Growing gives the tape its grown length, also if nothing is added. -/
theorem length_growTo (t : Tape) (index : Nat) :
    (t.growTo index).length = grownLength t.length index := by
  unfold growTo
  split
  · rename_i hlt
    rw [grownLength_of_lt hlt]
  · have hle := le_grownLength t.length index
    simp only [length, Array.size_append, Array.size_replicate] at *
    omega

@[simp]
theorem growTo_growTo_self (t : Tape) (index : Nat) :
    (t.growTo index).growTo index = t.growTo index :=
  growTo_of_lt (t.lt_length_growTo index)

@[simp]
theorem get_fst (t : Tape) (index : Nat) : (t.get index).1 = t.cell index := by
  simp [get]

@[simp]
theorem get_snd (t : Tape) (index : Nat) : (t.get index).2 = t.growTo index := rfl

@[simp]
theorem length_set (t : Tape) (index value : Nat) :
    (t.set index value).length = (t.growTo index).length := by
  simp [set, length]

@[simp]
theorem cellSize_set (t : Tape) (index value : Nat) :
    (t.set index value).cellSize = t.cellSize := by
  simp [set]

/-- Adding stores the sum. -/
theorem add_eq_set (t : Tape) (index : Nat) (delta : Int) :
    t.add index delta =
      t.set index (t.cell index + (delta % t.cellSize.modulus).toNat) := by
  simp [add, get, set]

@[simp]
theorem length_add (t : Tape) (index : Nat) (delta : Int) :
    (t.add index delta).length = (t.growTo index).length := by
  rw [add_eq_set, length_set]

@[simp]
theorem cellSize_add (t : Tape) (index : Nat) (delta : Int) :
    (t.add index delta).cellSize = t.cellSize := by
  rw [add_eq_set, cellSize_set]

@[simp]
theorem cell_zeros (length : Nat) (size : CellSize) (i : Nat) : (zeros length size).cell i = 0 := by
  simp only [zeros, cell, Array.getD_eq_getD_getElem?, Array.getElem?_replicate]
  split <;> rfl

/-! ## Equal rows -/

/-- Two tapes, of any lengths, stand for the same infinite row. -/
structure SameRow (t t' : Tape) : Prop where
  cellSize_eq : t.cellSize = t'.cellSize
  cell_eq : ∀ i, t.cell i = t'.cell i

namespace SameRow

variable {t t' t'' : Tape}

theorem refl (t : Tape) : SameRow t t :=
  ⟨rfl, fun _ => rfl⟩

theorem trans (h : SameRow t t') (h' : SameRow t' t'') : SameRow t t'' :=
  ⟨h.cellSize_eq.trans h'.cellSize_eq, fun i => (h.cell_eq i).trans (h'.cell_eq i)⟩

/-- Fresh tapes of any two lengths stand for the row of zeros. -/
theorem zeros (length length' : Nat) (size : CellSize) :
    SameRow (zeros length size) (zeros length' size) :=
  ⟨rfl, by simp⟩

/-- Growing, each to an index of its own, keeps the row. -/
theorem growTo (h : SameRow t t') (index index' : Nat) :
    SameRow (t.growTo index) (t'.growTo index') := by
  constructor
  · simpa using h.cellSize_eq
  · intro i
    simpa using h.cell_eq i

theorem set (h : SameRow t t') (index value : Nat) :
    SameRow (t.set index value) (t'.set index value) := by
  constructor
  · simpa using h.cellSize_eq
  · intro i
    rw [cell_set, cell_set, h.cellSize_eq, h.cell_eq]

theorem add (h : SameRow t t') (index : Nat) (delta : Int) :
    SameRow (t.add index delta) (t'.add index delta) := by
  rw [add_eq_set, add_eq_set, h.cellSize_eq, h.cell_eq]
  exact h.set index _

end SameRow

end Tape

end TapeMachine
