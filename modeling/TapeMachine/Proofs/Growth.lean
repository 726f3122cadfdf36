import TapeMachine.Machine
import TapeMachine.Proofs.WordTape

/-! # Growth

A tape that has to grow takes the lengths of one orbit, one after the other, and stops at the first
that reaches past the index. So the index decides where a tape stops, and not the way there.

* `lengthened`: one turn of growth. A grown length is reached by turns of which only the last
  reaches past the index (`grownLength_eq_iterate`), and therefore exceeds the index by half of it
  at most (`grownLength_le`).
* `Tape.growTo_eq`: growing appends zeros to the cells. Growing twice is growing once, to the larger
  index (`Tape.growTo_growTo`).
* `Represents.growTo_growTo`: the same in words of 64 bits, where nothing overflows.
* `growTo_orbit` puts this together.

Whether a machine has the memory for so many cells is not considered.
-/

namespace TapeMachine

/-! ## Turns -/

/-- The length after one turn of growth. -/
def lengthened (length : Nat) : Nat := length + max 1 (length / 2)

/-- A turn that starts at the index or below it ends near the index. -/
theorem lengthened_le {length index : Nat} (h : length ≤ index) :
    lengthened length ≤ index + max 1 (index / 2) := by
  have hhalf : length / 2 ≤ index / 2 := Nat.div_le_div_right h
  unfold lengthened
  omega

/-- A grown length is reached by turns, and no length on the way reaches past the index. -/
theorem grownLength_eq_iterate (length index : Nat) :
    ∃ turns, grownLength length index = lengthened^[turns] length ∧
      ∀ k < turns, lengthened^[k] length ≤ index := by
  fun_induction grownLength length index with
  | case1 length hle ih =>
    obtain ⟨turns, hturns, hbelow⟩ := ih
    refine ⟨turns + 1, hturns, ?_⟩
    intro k hk
    cases k with
    | zero => exact hle
    | succ k => exact hbelow k (Nat.lt_of_succ_lt_succ hk)
  | case2 length hlt =>
    refine ⟨0, rfl, ?_⟩
    intro k hk
    cases hk

/-- A length that has to grow exceeds the index by half of it at most. -/
theorem grownLength_le {length index : Nat} (h : length ≤ index) :
    grownLength length index ≤ index + max 1 (index / 2) := by
  obtain ⟨turns, hturns, hbelow⟩ := grownLength_eq_iterate length index
  rw [hturns]
  cases turns with
  | zero =>
    -- no turn was made, but the length does not reach past the index
    have hlt := lt_grownLength length index
    rw [hturns] at hlt
    exact absurd h (Nat.not_le_of_gt hlt)
  | succ turns =>
    -- the last turn started at the index or below it
    rw [Function.iterate_succ_apply']
    exact lengthened_le (hbelow turns (Nat.lt_succ_self turns))

/-- Growing to an index below `2 ^ 63` keeps a word a word. -/
theorem grownLength_lt {length index : Nat} (hlength : length < 2 ^ 64) (hindex : index < 2 ^ 63) :
    grownLength length index < 2 ^ 64 := by
  by_cases hle : length ≤ index
  · have hnear := grownLength_le hle
    omega
  · rw [grownLength_of_lt (Nat.lt_of_not_le hle)]
    exact hlength

/-! ## Cells -/

namespace Tape

/-- Growing appends zeros, none of them if the index lies on the tape. -/
theorem growTo_eq (t : Tape) (index : Nat) :
    t.growTo index =
      ⟨t.cells ++ Array.replicate (grownLength t.length index - t.length) 0, t.cellSize⟩ := by
  unfold growTo
  split
  · rename_i hlt
    rw [grownLength_of_lt hlt, Nat.sub_self, Array.replicate_zero, Array.append_empty]
  · rfl

/-- The old cells stay as they are. -/
theorem getElem?_growTo_of_lt {t : Tape} {i : Nat} (hi : i < t.length) (index : Nat) :
    (t.growTo index).cells[i]? = t.cells[i]? := by
  rw [growTo_eq]
  exact Array.getElem?_append_left hi

/-- The new cells are zero. -/
theorem getElem?_growTo_of_le {t : Tape} {i index : Nat} (hi : t.length ≤ i)
    (hlt : i < (t.growTo index).length) : (t.growTo index).cells[i]? = some 0 := by
  rw [length_growTo] at hlt
  have hnew : i - t.length < grownLength t.length index - t.length := by omega
  rw [growTo_eq]
  show (t.cells ++ _)[i]? = some 0
  rw [Array.getElem?_append_right hi, Array.getElem?_replicate]
  exact if_pos hnew

/-- Growing twice is growing once, to the larger index. -/
theorem growTo_growTo (t : Tape) (i j : Nat) :
    (t.growTo i).growTo j = t.growTo (max i j) := by
  have hfirst := le_grownLength t.length i
  have hsecond := le_grownLength (grownLength t.length i) j
  rw [growTo_eq _ j, length_growTo, growTo_eq t i, growTo_eq t (max i j),
    ← grownLength_grownLength, Array.append_assoc, Array.replicate_append_replicate]
  congr 3
  omega

end Tape

/-! ## Words -/

namespace Represents

variable {w w' : WordTape} {t : Tape}

/-- No other words stand for the tape. -/
theorem unique (h : Represents w t) (h' : Represents w' t) : w = w' := by
  have hcells : w.cells.map UInt32.toNat = w'.cells.map UInt32.toNat :=
    congrArg Tape.cells (h.toTape_eq.trans h'.toTape_eq.symm)
  have hsize : w.cellSize = w'.cellSize := h.cellSize_eq.trans h'.cellSize_eq.symm
  rw [Array.map_inj_right fun _ _ => UInt32.toNat_inj.mp] at hcells
  cases w
  cases w'
  cases hcells
  cases hsize
  rfl

/-- In words, growing twice is growing once, to the larger index. -/
theorem growTo_growTo (h : Represents w t) {i j : UInt64} (hi : i.toNat < 2 ^ 63)
    (hj : j.toNat < 2 ^ 63) :
    (w.growTo i).bind (·.growTo j) = w.growTo (max i j) := by
  have hmax : (max i j).toNat = max i.toNat j.toNat := UInt64.toNat_max i j
  have hlarger : (max i j).toNat < 2 ^ 63 := by omega
  obtain ⟨w₁, hw₁, hrep₁⟩ := h.growTo hi
  obtain ⟨w₂, hw₂, hrep₂⟩ := hrep₁.growTo hj
  obtain ⟨w₃, hw₃, hrep₃⟩ := h.growTo hlarger
  rw [hmax, ← Tape.growTo_growTo] at hrep₃
  rw [hw₁, hw₃, hrep₃.unique hrep₂]
  exact hw₂

end Represents

/-! ## Growing to addressable cells -/

/-- A move never leads further than to the last addressable cell. -/
theorem Machine.target?_lt {pointer target : Nat} {delta : Int}
    (h : target? pointer delta = some target) : target < 2 ^ 63 := by
  obtain ⟨-, htarget, -⟩ := target?_eq_some_iff.mp h
  exact htarget

/-- How a tape grows to an index below `2 ^ 63`. Moves ask for no other index.

* The tape takes the lengths of one orbit, each of them a word, and stops at the first that reaches
  past the index. In words it becomes the same tape, since no sum leaves them.
* A tape on which the index lies keeps its length. The length of any other comes to exceed the
  index, by half of it at most or by one.
* The old cells stay as they are, and the new ones are zero.
* Growing to one index and then to another is growing once, to the larger of both. So it makes no
  difference to grow again, or in which order. -/
theorem growTo_orbit {words : WordTape} {t : Tape} (h : Represents words t) {i j : UInt64}
    (hi : i.toNat < 2 ^ 63) (hj : j.toNat < 2 ^ 63) :
    let grown := t.growTo i.toNat
    (∀ pointer delta target, Machine.target? pointer delta = some target → target < 2 ^ 63) ∧
    (∃ turns, grown.length = lengthened^[turns] t.length ∧
      (∀ k < turns, lengthened^[k] t.length ≤ i.toNat) ∧
      ∀ k ≤ turns, lengthened^[k] t.length < 2 ^ 64) ∧
    (∃ grownWords, words.growTo i = some grownWords ∧ Represents grownWords grown) ∧
    (i.toNat < t.length → grown.length = t.length) ∧
    (t.length ≤ i.toNat →
      i.toNat < grown.length ∧ grown.length ≤ i.toNat + max 1 (i.toNat / 2)) ∧
    (∀ k < t.length, grown.cells[k]? = t.cells[k]?) ∧
    (∀ k, t.length ≤ k → k < grown.length → grown.cells[k]? = some 0) ∧
    grown.growTo j.toNat = t.growTo (max i.toNat j.toNat) ∧
    (words.growTo i).bind (·.growTo j) = words.growTo (max i j) ∧
    grown.growTo i.toNat = grown ∧
    grown.growTo j.toNat = (t.growTo j.toNat).growTo i.toNat := by
  intro grown
  have hlength : grown.length = grownLength t.length i.toNat := t.length_growTo i.toNat
  refine ⟨fun _ _ _ => Machine.target?_lt, ?_, h.growTo hi, ?_, ?_, ?_, ?_,
    t.growTo_growTo i.toNat j.toNat, h.growTo_growTo hi hj, t.growTo_growTo_self i.toNat, ?_⟩
  · obtain ⟨turns, hturns, hbelow⟩ := grownLength_eq_iterate t.length i.toNat
    refine ⟨turns, hlength.trans hturns, hbelow, ?_⟩
    intro k hk
    rcases Nat.lt_or_eq_of_le hk with hlt | heq
    · have hle := hbelow k hlt
      omega
    · rw [heq, ← hturns]
      exact grownLength_lt h.length_lt hi
  · intro hlt
    rw [hlength, grownLength_of_lt hlt]
  · intro hle
    rw [hlength]
    exact ⟨lt_grownLength _ _, grownLength_le hle⟩
  · intro k hk
    exact Tape.getElem?_growTo_of_lt hk i.toNat
  · intro k hle hlt
    exact Tape.getElem?_growTo_of_le hle hlt
  · rw [Tape.growTo_growTo, Tape.growTo_growTo, Nat.max_comm]

/-- A tape of one cell makes four turns to reach its sixth. It may grow to the last addressable cell
before that or after. -/
theorem growTo_orbit_last_cell :
    let words : WordTape := ⟨#[7], .bits4⟩
    let t : Tape := ⟨#[7], .bits4⟩
    Represents words t ∧ (5 : UInt64).toNat < 2 ^ 63 ∧
    (9223372036854775807 : UInt64).toNat < 2 ^ 63 ∧
    (t.growTo 5).length = lengthened^[4] 1 ∧ 5 < (t.growTo 5).length ∧
    (t.growTo 5).growTo 9223372036854775807 = (t.growTo 9223372036854775807).growTo 5 ∧
    (words.growTo 5).bind (·.growTo 9223372036854775807) =
      words.growTo (max 5 9223372036854775807) := by
  intro words t
  have hrep : Represents words t := ⟨by simp [words, t, WordTape.toTape], by decide⟩
  have hsixth : (5 : UInt64).toNat < 2 ^ 63 := by decide
  have hlast : (9223372036854775807 : UInt64).toNat < 2 ^ 63 := by decide
  obtain ⟨-, -, -, -, hreaches, -, -, -, hwords, -, horder⟩ := growTo_orbit hrep hsixth hlast
  refine ⟨hrep, hsixth, hlast, ?_, (hreaches (by decide)).1, horder, hwords⟩
  rw [Tape.length_growTo]
  show grownLength 1 5 = 6
  simp [grownLength]

end TapeMachine
