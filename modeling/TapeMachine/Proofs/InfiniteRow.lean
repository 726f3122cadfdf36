import TapeMachine.Proofs.WordTape

/-! # The infinite row behind a tape

Whatever is done to a tape, one cannot tell it from a row of cells that has no end, and its length
is decided by the largest index alone.

* `TapeOp`: the operations of a tape. `Tape.perform`, `Row.perform` and `WordTape.perform` say what
  each of them answers and leaves, on a tape, on an endless row and on a tape of words.
* `Shows t row`: the tape shows the row, cell by cell. One operation, and then any number of them,
  give the same answers on both and leave a tape that shows the row (`Shows.perform`,
  `Shows.performAll`).
* `Represents.performAll`: in words, too, every operation gives its answer, so nothing overflows.
* `length_performAll`: each operation makes its index addressable and does no more to the length.
* `tape_refines_row` puts this together.
-/

namespace TapeMachine

/-! ## Model -/

/-- What can be done to a tape, with the arguments as words. -/
inductive TapeOp where
  | get (index : UInt64)
  | set (index value : UInt64)
  | add (index : UInt64) (delta : Int64)
  | grow (index : UInt64)
deriving DecidableEq, Repr

/-- The index at which an operation is made. -/
def TapeOp.index : TapeOp → UInt64
  | get index => index
  | set index _ => index
  | add index _ => index
  | grow index => index

/-- Performs an operation on a tape. Only looking at a cell is answered. -/
def Tape.perform : TapeOp → StateM Tape (Option Nat)
  | .get index => fun t => (some (t.get index.toNat).1, (t.get index.toNat).2)
  | .set index value => fun t => (none, t.set index.toNat value.toNat)
  | .add index delta => fun t => (none, t.add index.toNat delta.toInt)
  | .grow index => fun t => (none, t.growTo index.toNat)

/-- Performs an operation on a tape of words, if its arithmetic stays within words. -/
def WordTape.perform : TapeOp → StateT WordTape Option (Option Nat)
  | .get index => fun w => (w.get index).map fun (value, w) => (some value.toNat, w)
  | .set index value => fun w => (w.set index value).map (none, ·)
  | .add index delta => fun w => (w.add index delta).map (none, ·)
  | .grow index => fun w => (w.growTo index).map (none, ·)

/-- A row of cells without end. -/
abbrev Row := Nat → Nat

/-- Performs an operation on an endless row of cells of some size: storing keeps the value modulo
`2 ^ bits`, and adding keeps the sum modulo `2 ^ bits`, which is not negative. -/
def Row.perform (size : CellSize) : TapeOp → StateM Row (Option Nat)
  | .get index => fun row => (some (row index.toNat), row)
  | .set index value => fun row =>
    (none, Function.update row index.toNat (value.toNat % size.modulus))
  | .add index delta => fun row =>
    (none, Function.update row index.toNat ((row index.toNat + delta.toInt) % size.modulus).toNat)
  | .grow _ => fun row => (none, row)

/-- The tape shows the row: it has cells of this size, and they hold the values of the row, each of
which fits a cell. -/
structure Shows (size : CellSize) (t : Tape) (row : Row) : Prop where
  cellSize_eq : t.cellSize = size
  cell_eq : ∀ i, t.cell i = row i
  lt_modulus : ∀ i, row i < size.modulus

/-! ## Answers and cells -/

/-- The first of several operations is performed first. -/
theorem run_mapM_cons {σ α : Type} (perform : TapeOp → StateM σ α) (op : TapeOp)
    (ops : List TapeOp) (s : σ) :
    ((op :: ops).mapM perform).run s =
      (((perform op).run s).1 :: ((ops.mapM perform).run ((perform op).run s).2).1,
        ((ops.mapM perform).run ((perform op).run s).2).2) := by
  rw [List.mapM_cons]
  rfl

namespace Shows

variable {size : CellSize} {t : Tape} {row : Row}

theorem zeros (length : Nat) (size : CellSize) :
    Shows size (.zeros length size) fun _ => 0 where
  cellSize_eq := rfl
  cell_eq := by simp
  lt_modulus := by
    intro _
    exact size.modulus_pos

theorem growTo (h : Shows size t row) (index : Nat) : Shows size (t.growTo index) row where
  cellSize_eq := by rw [Tape.cellSize_growTo, h.cellSize_eq]
  cell_eq := by
    intro i
    rw [Tape.cell_growTo, h.cell_eq]
  lt_modulus := h.lt_modulus

/-- Storing a value modulo `2 ^ bits` updates the row. -/
theorem set (h : Shows size t row) (index value : Nat) :
    Shows size (t.set index value) (Function.update row index (value % size.modulus)) where
  cellSize_eq := by rw [Tape.cellSize_set, h.cellSize_eq]
  cell_eq := by
    intro i
    rw [Tape.cell_set, Function.update_apply, h.cell_eq, h.cellSize_eq]
    simp only [eq_comm]
  lt_modulus := by
    intro i
    rw [Function.update_apply]
    split
    · exact Nat.mod_lt _ size.modulus_pos
    · exact h.lt_modulus i

/-- Adding what remains of a number modulo `2 ^ bits` comes to the same as adding all of it. -/
theorem add (h : Shows size t row) (index : Nat) (delta : Int) :
    Shows size (t.add index delta)
      (Function.update row index ((row index + delta) % size.modulus).toNat) := by
  have hpos := size.modulus_pos
  have hsum : (row index + (delta % size.modulus).toNat) % size.modulus =
      ((row index + delta) % size.modulus).toNat := by
    have hstep : ((delta % size.modulus).toNat : Int) = delta % size.modulus :=
      Int.toNat_of_nonneg (Int.emod_nonneg _ (by omega))
    apply Int.ofNat_inj.mp
    rw [Int.toNat_of_nonneg (Int.emod_nonneg _ (by omega)), Int.natCast_emod, Int.natCast_add,
      hstep, Int.add_emod_emod]
  rw [Tape.add_eq_set, h.cell_eq, h.cellSize_eq, ← hsum]
  exact h.set index _

/-- An operation on a tape answers as on the row that the tape shows, and leaves it showing what is
left of the row. -/
theorem perform (h : Shows size t row) (op : TapeOp) :
    ((Tape.perform op).run t).1 = ((Row.perform size op).run row).1 ∧
      Shows size ((Tape.perform op).run t).2 ((Row.perform size op).run row).2 := by
  cases op with
  | get index =>
    refine ⟨?_, h.growTo index.toNat⟩
    show some (t.get index.toNat).1 = some (row index.toNat)
    rw [Tape.get_fst, h.cell_eq]
  | set index value => exact ⟨rfl, h.set index.toNat value.toNat⟩
  | add index delta => exact ⟨rfl, h.add index.toNat delta.toInt⟩
  | grow index => exact ⟨rfl, h.growTo index.toNat⟩

/-- Any number of operations on a tape answer as on the row that the tape shows. -/
theorem performAll (h : Shows size t row) (ops : List TapeOp) :
    ((ops.mapM Tape.perform).run t).1 = ((ops.mapM (Row.perform size)).run row).1 ∧
      Shows size ((ops.mapM Tape.perform).run t).2
        ((ops.mapM (Row.perform size)).run row).2 := by
  induction ops generalizing t row with
  | nil => exact ⟨rfl, h⟩
  | cons op ops ih =>
    obtain ⟨hanswer, hshows⟩ := h.perform op
    obtain ⟨hanswers, hshows'⟩ := ih hshows
    rw [run_mapM_cons, run_mapM_cons, hanswer, hanswers]
    exact ⟨rfl, hshows'⟩

end Shows

/-! ## Words -/

namespace Represents

variable {w : WordTape} {t : Tape}

/-- In words, an operation at an index below `2 ^ 63` answers as on the tape. -/
theorem perform (h : Represents w t) {op : TapeOp} (hop : op.index.toNat < 2 ^ 63) :
    ∃ w', (WordTape.perform op).run w = some (((Tape.perform op).run t).1, w') ∧
      Represents w' ((Tape.perform op).run t).2 := by
  cases op with
  | get index =>
    have hindex : index.toNat < 2 ^ 63 := hop
    obtain ⟨value, w', hw', hvalue, hrep⟩ := h.get hindex
    refine ⟨w', ?_, hrep⟩
    show (w.get index).map _ = some (some (t.get index.toNat).1, w')
    rw [hw', ← hvalue]
    rfl
  | set index value =>
    obtain ⟨w', hw', hrep⟩ := h.set hop value
    exact ⟨w', congrArg (Option.map (none, ·)) hw', hrep⟩
  | add index delta =>
    obtain ⟨w', hw', hrep⟩ := h.add hop delta
    exact ⟨w', congrArg (Option.map (none, ·)) hw', hrep⟩
  | grow index =>
    obtain ⟨w', hw', hrep⟩ := h.growTo hop
    exact ⟨w', congrArg (Option.map (none, ·)) hw', hrep⟩

/-- In words, any number of operations at indices below `2 ^ 63` answer as on the tape. -/
theorem performAll (h : Represents w t) {ops : List TapeOp}
    (hops : ∀ op ∈ ops, op.index.toNat < 2 ^ 63) :
    ∃ w', (ops.mapM WordTape.perform).run w = some (((ops.mapM Tape.perform).run t).1, w') ∧
      Represents w' ((ops.mapM Tape.perform).run t).2 := by
  induction ops generalizing w t with
  | nil => exact ⟨w, rfl, h⟩
  | cons op ops ih =>
    rw [List.forall_mem_cons] at hops
    obtain ⟨w₁, hw₁, hrep₁⟩ := h.perform hops.1
    obtain ⟨w₂, hw₂, hrep₂⟩ := ih hrep₁ hops.2
    rw [run_mapM_cons]
    refine ⟨w₂, ?_, hrep₂⟩
    rw [List.mapM_cons, StateT.run_bind, hw₁]
    show ((ops.mapM WordTape.perform).run w₁).bind _ = _
    rw [hw₂]
    rfl

end Represents

/-! ## Length -/

/-- An operation makes its index addressable, and does no more to the length. -/
theorem length_perform (op : TapeOp) (t : Tape) :
    ((Tape.perform op).run t).2.length = grownLength t.length op.index.toNat := by
  rw [← Tape.length_growTo]
  cases op with
  | get index => rfl
  | set index value => exact t.length_set index.toNat value.toNat
  | add index delta => exact t.length_add index.toNat delta.toInt
  | grow index => rfl

theorem length_performAll (ops : List TapeOp) (t : Tape) :
    ((ops.mapM Tape.perform).run t).2.length =
      (ops.map (·.index.toNat)).foldl grownLength t.length := by
  induction ops generalizing t with
  | nil => rfl
  | cons op ops ih =>
    rw [run_mapM_cons, List.map_cons, List.foldl_cons, ← length_perform]
    exact ih _

/-- Growing to one index after the other is growing once, to the largest. -/
theorem foldl_grownLength (length : Nat) (indices : List Nat) :
    indices.foldl grownLength length = indices.max?.elim length (grownLength length) := by
  cases indices with
  | nil => rfl
  | cons index indices =>
    show indices.foldl grownLength (grownLength length index) =
      grownLength length (indices.foldl max index)
    induction indices generalizing index with
    | nil => rfl
    | cons next indices ih =>
      rw [List.foldl_cons, List.foldl_cons, grownLength_grownLength, ih]

/-- A tape is an endless row of cells, all zero at first. Any operations at indices below `2 ^ 63`
are answered as on that row and leave the cells that they leave of the row. In words they give the
same answers and the same tape, so no sum leaves them. In the end the tape has the length that
growing it once, to the largest index, would have given it. -/
theorem tape_refines_row (length : UInt64) (size : CellSize) (ops : List TapeOp)
    (hops : ∀ op ∈ ops, op.index.toNat < 2 ^ 63) :
    let start := Tape.zeros length.toNat size
    let done := (ops.mapM Tape.perform).run start
    let expected := (ops.mapM (Row.perform size)).run fun _ => 0
    done.1 = expected.1 ∧
    (∀ i, done.2.cell i = expected.2 i ∧ expected.2 i < size.modulus) ∧
    (∃ words, (ops.mapM WordTape.perform).run (WordTape.zeros length size) =
      some (done.1, words) ∧ words.toTape = done.2) ∧
    done.2.length = (ops.map (·.index.toNat)).max?.elim start.length
      fun largest => (start.growTo largest).length := by
  intro start done expected
  obtain ⟨hanswers, hshows⟩ := (Shows.zeros length.toNat size).performAll ops
  obtain ⟨words, hwords, hrep⟩ := (Represents.zeros length size).performAll hops
  refine ⟨hanswers, ?_, ⟨words, hwords, hrep.toTape_eq⟩, ?_⟩
  · intro i
    exact ⟨hshows.cell_eq i, hshows.lt_modulus i⟩
  · simp only [Tape.length_growTo]
    exact (length_performAll ops start).trans (foldl_grownLength _ _)

/-- A tape of no cells, which has one, with cells of four bits: the largest word is stored, a
negative one and the least one are added, and the last index makes the tape grow four times. -/
theorem tape_refines_row_extremes :
    let ops : List TapeOp :=
      [.set 3 18446744073709551615, .add 3 (-33), .get 3, .add 0 Int64.minValue, .get 5]
    let done := (ops.mapM Tape.perform).run (.zeros 0 .bits4)
    (∀ op ∈ ops, op.index.toNat < 2 ^ 63) ∧
    done.1 = [none, none, some 14, none, some 0] ∧
    (∃ words, (ops.mapM WordTape.perform).run (.zeros 0 .bits4) = some (done.1, words)) ∧
    done.2.length = 6 := by
  intro ops done
  have hops : ∀ op ∈ ops, op.index.toNat < 2 ^ 63 := by decide
  obtain ⟨hanswers, -, ⟨words, hwords, -⟩, hlength⟩ := tape_refines_row 0 .bits4 ops hops
  refine ⟨hops, hanswers, ⟨words, hwords⟩, hlength.trans ?_⟩
  show (Tape.growTo (.zeros 0 .bits4) 5).length = 6
  rw [Tape.length_growTo]
  show grownLength 1 5 = 6
  simp [grownLength]

end TapeMachine
