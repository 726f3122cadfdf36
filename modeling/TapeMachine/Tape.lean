/-! # The tape

A tape is a row of cells that starts at zero and grows to the right on demand. A cell has 4, 8, 16
or 32 bits, and arithmetic wraps modulo `2 ^ bits`.

* `Tape.growTo` makes an index addressable. It lengthens the tape by half its length, at least by
  one cell, as often as needed (`grownLength`), and touches no cell that is already there.
* `get`, `set` and `add` grow the tape first.
* `Tape.cell` is the view of a tape as an infinite row: cells past the end read as zero. Growing
  leaves the row as it is (`cell_growTo`), storing and adding change one cell of it (`cell_set`,
  `cell_add`).
-/

namespace TapeMachine

/-! ## Cell sizes -/

/-- The size of a cell. -/
inductive CellSize where
  | bits4
  | bits8
  | bits16
  | bits32
deriving DecidableEq, Repr

namespace CellSize

/-- The number of bits of a cell. -/
def bits : CellSize → Nat
  | .bits4 => 4
  | .bits8 => 8
  | .bits16 => 16
  | .bits32 => 32

/-- The number of values a cell can hold. -/
def modulus (size : CellSize) : Nat := Nat.pow 2 size.bits

/-- The size with a given number of bits. -/
def ofBits? (bits : Nat) : Option CellSize :=
  [.bits4, .bits8, .bits16, .bits32].find? (·.bits == bits)

end CellSize

/-! ## Tapes -/

/-- A row of cells of one size. -/
structure Tape where
  cells : Array Nat
  cellSize : CellSize
deriving DecidableEq, Repr

/-- The length of a tape of `length` cells once it has been lengthened by half, or by one cell if
that is more, until `index` lies on it. -/
def grownLength (length index : Nat) : Nat :=
  if length ≤ index then grownLength (length + max 1 (length / 2)) index else length
termination_by index + 1 - length

/-- Growing never shortens a tape. -/
theorem le_grownLength (length index : Nat) : length ≤ grownLength length index := by
  fun_induction grownLength length index with
  | case1 length h ih => exact Nat.le_trans (Nat.le_add_right _ _) ih
  | case2 length h => exact Nat.le_refl _

/-- The index lies on the grown tape. -/
theorem lt_grownLength (length index : Nat) : index < grownLength length index := by
  fun_induction grownLength length index with
  | case1 length h ih => exact ih
  | case2 length h => exact Nat.lt_of_not_le h

namespace Tape

/-- A tape of zeros. It has at least one cell. -/
def zeros (length : Nat) (cellSize : CellSize) : Tape :=
  ⟨Array.replicate (max 1 length) 0, cellSize⟩

/-- The number of cells. -/
def length (t : Tape) : Nat := t.cells.size

/-- Whether the tape has no cell. -/
def isEmpty (t : Tape) : Bool := t.cells.isEmpty

/-- The value at an index of the infinite row: zero past the end. -/
def cell (t : Tape) (index : Nat) : Nat := t.cells.getD index 0

/-- Lengthens the tape with zeros until `index` lies on it. -/
def growTo (t : Tape) (index : Nat) : Tape :=
  if index < t.length then t
  else { t with
    cells := t.cells ++ Array.replicate (grownLength t.length index - t.length) 0 }

/-- The value at an index, and the tape on which it lies. -/
def get (t : Tape) (index : Nat) : Nat × Tape :=
  let t := t.growTo index
  (t.cell index, t)

/-- Stores a value modulo `2 ^ bits`. -/
def set (t : Tape) (index value : Nat) : Tape :=
  let t := t.growTo index
  { t with cells := t.cells.setIfInBounds index (value % t.cellSize.modulus) }

/-- Adds a signed number modulo `2 ^ bits`. -/
def add (t : Tape) (index : Nat) (delta : Int) : Tape :=
  let (value, t) := t.get index
  t.set index (value + (delta % t.cellSize.modulus).toNat)

/-- The cells that are not zero, with their indices, in ascending order. -/
def support (t : Tape) : List (Nat × Nat) :=
  (t.cells.toList.zipIdx.filter (·.1 ≠ 0)).map fun (value, index) => (index, value)

/-! ## The view -/

/-- The index lies on the tape after growing to it. -/
theorem lt_length_growTo (t : Tape) (index : Nat) : index < (t.growTo index).length := by
  unfold growTo
  split
  · assumption
  · -- the old cells and the new ones together reach past the index
    have hle := le_grownLength t.length index
    have hlt := lt_grownLength t.length index
    simp only [length, Array.size_append, Array.size_replicate] at *
    omega

/-- Growing leaves the infinite row as it is. -/
@[simp]
theorem cell_growTo (t : Tape) (index i : Nat) : (t.growTo index).cell i = t.cell i := by
  unfold growTo
  split
  · rfl
  · simp only [cell, Array.getD_eq_getD_getElem?]
    by_cases hi : i < t.cells.size
    · rw [Array.getElem?_append_left hi]
    · -- past the old end both rows hold zero
      rw [Array.getElem?_append_right (Nat.le_of_not_lt hi),
        Array.getElem?_eq_none (Nat.le_of_not_lt hi), Array.getElem?_replicate]
      split <;> rfl

/-- Growing keeps the cell size. -/
@[simp]
theorem cellSize_growTo (t : Tape) (index : Nat) : (t.growTo index).cellSize = t.cellSize := by
  unfold growTo
  split <;> rfl

/-- Storing changes one cell of the infinite row. -/
theorem cell_set (t : Tape) (index value i : Nat) :
    (t.set index value).cell i =
      if index = i then value % t.cellSize.modulus else t.cell i := by
  have hlt : index < (t.growTo index).cells.size := t.lt_length_growTo index
  have hcell := t.cell_growTo index i
  simp only [cell, Array.getD_eq_getD_getElem?] at hcell
  simp only [set, cell, cellSize_growTo, Array.getD_eq_getD_getElem?,
    Array.getElem?_setIfInBounds]
  by_cases h : index = i
  · subst h
    simp [hlt]
  · simp [h, hcell]

/-- Adding changes one cell of the infinite row. -/
theorem cell_add (t : Tape) (index : Nat) (delta : Int) (i : Nat) :
    (t.add index delta).cell i =
      if index = i then
        (t.cell index + (delta % t.cellSize.modulus).toNat) % t.cellSize.modulus
      else t.cell i := by
  simp [add, get, cell_set]

end Tape

end TapeMachine
