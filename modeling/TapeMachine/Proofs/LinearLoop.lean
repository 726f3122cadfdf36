import Mathlib.Algebra.Group.Action.Defs
import Mathlib.Algebra.Ring.Divisibility.Basic
import Mathlib.Data.Nat.Find
import Mathlib.Tactic.Ring
import TapeMachine.Proofs.Flushing
import TapeMachine.Proofs.Folding

/-! # Linear loops

A loop is linear if its body only moves and adds, and ends where it started. Each turn then adds the
same numbers to the same cells, so how often it turns, and what it leaves, can be computed.

* `Program.addedAt offset p`: what a program adds at an offset from the cell at which it starts.
* `Machine.Executes nodes todo m todo' m'`: exactly `nodes` are executed on the way.
* `Machine.Edited moved added m m'`: the pointer moved by `moved`, `added` was added to the cells
  around it, and the streams were left alone.
* `Linear.executes`: one pass over the body, and `executes_turns`: any number of turns of the loop.
* `exists_dvd_add_mul_iff`: when repeated addition gets to zero.
* `execute_linear_loop` puts this together.
-/

namespace TapeMachine

/-! ## Model -/

namespace Program

/-- The program only moves and adds. -/
inductive Linear : Program → Prop where
  | nil : Linear []
  | move (delta : Int) {rest : Program} : Linear rest → Linear (.act .move delta :: rest)
  | add (count : Int) {rest : Program} : Linear rest → Linear (.act .add count :: rest)

/-- The sum of the counts that a program adds at an offset from the cell at which it starts. -/
def addedAt (offset : Int) : Program → Int
  | [] => 0
  | .act .move delta :: rest => addedAt (offset - delta) rest
  | .act .add count :: rest => (if offset = 0 then count else 0) + addedAt offset rest
  | _ :: rest => addedAt offset rest

/-- From a cell on, no prefix of the moves leads below the first cell or above the last address. -/
def Addressable (pointer : Nat) (p : Program) : Prop :=
  ∀ k, 0 ≤ (pointer : Int) + countTotal .move (p.take k) ∧
    (pointer : Int) + countTotal .move (p.take k) ≤ 2 ^ 63 - 1

end Program

namespace Machine

/-- Executing `nodes`, in this order, leads from `todo` on `m` to `todo'` on `m'`. -/
structure Executes (nodes : List Node) (todo : Program) (m : Machine) (todo' : Program)
    (m' : Machine) : Prop where
  execute_eq : ∀ steps, execute (steps + nodes.length) todo m = execute steps todo' m'
  executed_eq : ∀ steps, executed (steps + nodes.length) todo m = nodes ++ executed steps todo' m'

/-- From `m` to `m'` the pointer moved by `moved`, the cell at each offset from where it stood got
`added` more, modulo `2 ^ bits`, and no call was made. -/
structure Edited (moved : Int) (added : Int → Int) (m m' : Machine) : Prop where
  pointer_eq : (m'.pointer : Int) = m.pointer + moved
  cellSize_eq : m'.tape.cellSize = m.tape.cellSize
  cell_eq : ∀ i : Nat, (m'.tape.cell i : Int) =
    (m.tape.cell i + added (i - m.pointer)) % m.tape.cellSize.modulus
  streams_eq : m'.streams = m.streams

/-- Every cell is in range. -/
def InRange (m : Machine) : Prop :=
  ∀ i, m.tape.cell i < m.tape.cellSize.modulus

/-! ## Counted nodes -/

section

variable {nodes nodes' : List Node} {todo todo' todo'' : Program} {m m' m'' : Machine}

theorem Executes.refl (todo : Program) (m : Machine) : Executes [] todo m todo m :=
  ⟨fun _ => rfl, fun _ => rfl⟩

theorem Executes.of_next {node : Node} {rest : Program}
    (h : m.step (node :: rest) = .next todo' m') : Executes [node] (node :: rest) m todo' m' where
  execute_eq := execute_of_next h
  executed_eq := by
    intro steps
    show executed (steps + 1) _ _ = _
    simp only [executed, h]
    rfl

/-- An action that succeeds is one node. -/
theorem executes_act {action : Action} {count : Int} (h : m.perform action count = ⟨none, m'⟩)
    (rest : Program) : Executes [.act action count] (.act action count :: rest) m rest m' := by
  apply Executes.of_next
  rw [step_act, h]

theorem Executes.trans (h : Executes nodes todo m todo' m')
    (h' : Executes nodes' todo' m' todo'' m'') :
    Executes (nodes ++ nodes') todo m todo'' m'' where
  execute_eq := by
    intro steps
    rw [List.length_append, Nat.add_comm nodes.length, ← Nat.add_assoc, h.execute_eq, h'.execute_eq]
  executed_eq := by
    intro steps
    rw [List.length_append, Nat.add_comm nodes.length, ← Nat.add_assoc, h.executed_eq,
      h'.executed_eq, List.append_assoc]

/-- Where no nodes are left the machine halts, and what it executed is known. -/
theorem Executes.halts (h : Executes nodes todo m [] m') :
    execute (1 + nodes.length) todo m = some ⟨none, m'⟩ := by
  rw [h.execute_eq]
  rfl

theorem Executes.unique (h : Executes nodes todo m [] m') {steps : Nat} {o : Outcome}
    (ho : execute steps todo m = some o) :
    o = ⟨none, m'⟩ ∧ executed steps todo m = nodes := by
  have hlt : nodes.length < steps := by
    by_contra hle
    have hmore := execute_add ho (nodes.length - steps)
    have hlength : steps + (nodes.length - steps) = 0 + nodes.length := by omega
    rw [hlength, h.execute_eq] at hmore
    cases hmore
  refine ⟨execute_unique ho h.halts, ?_⟩
  obtain ⟨more, hsteps⟩ : ∃ more, steps = more + 1 + nodes.length :=
    ⟨steps - nodes.length - 1, by omega⟩
  rw [hsteps, h.executed_eq]
  exact List.append_nil nodes

end

/-! ## Edits -/

section

variable {m m' m'' : Machine} {moved moved' : Int} {added added' : Int → Int}

theorem Edited.refl (h : m.InRange) : Edited 0 (fun _ => 0) m m where
  pointer_eq := (Int.add_zero _).symm
  cellSize_eq := rfl
  cell_eq := by
    intro i
    have hlt := h i
    rw [Int.add_zero, Int.emod_eq_of_lt (by omega) (by omega)]
  streams_eq := rfl

/-- The second edit counts its offsets from where the first one led. -/
theorem Edited.trans (h : Edited moved added m m') (h' : Edited moved' added' m' m'') :
    Edited (moved + moved') (fun offset => added offset + added' (offset - moved)) m m'' where
  pointer_eq := by rw [h'.pointer_eq, h.pointer_eq, Int.add_assoc]
  cellSize_eq := h'.cellSize_eq.trans h.cellSize_eq
  cell_eq := by
    intro i
    rw [h'.cell_eq, h.cell_eq, h.cellSize_eq, h.pointer_eq, Int.emod_add_emod, Int.add_assoc,
      Int.sub_sub]
  streams_eq := h'.streams_eq.trans h.streams_eq

theorem Edited.congr (h : Edited moved added m m') (hmoved : moved = moved')
    (hadded : ∀ offset, added offset = added' offset) : Edited moved' added' m m' := by
  have hfun : added = added' := funext hadded
  rwa [hmoved, hfun] at h

theorem Edited.pointer_of_zero (h : Edited 0 added m m') : m'.pointer = m.pointer := by
  have hpointer := h.pointer_eq
  omega

/-- An edit leaves cells in range. -/
theorem Edited.inRange (h : Edited moved added m m') : m'.InRange := by
  intro i
  have hpos := m.tape.cellSize.modulus_pos
  have hlt := Int.emod_lt_of_pos (m.tape.cell i + added (i - m.pointer))
    (Int.natCast_pos.mpr hpos)
  rw [← h.cell_eq] at hlt
  rw [h.cellSize_eq]
  omega

/-- Making a cell addressable is no edit. -/
theorem edited_growTo (h : m.InRange) (index : Nat) :
    Edited 0 (fun _ => 0) m { m with tape := m.tape.growTo index } where
  pointer_eq := (Int.add_zero _).symm
  cellSize_eq := m.tape.cellSize_growTo index
  cell_eq := by
    intro i
    rw [← (Edited.refl h).cell_eq, Tape.cell_growTo]
  streams_eq := rfl

/-- A move between addressable cells succeeds. -/
theorem edited_move (h : m.InRange) {delta : Int} (hpointer : (m.pointer : Int) ≤ 2 ^ 63 - 1)
    (hlow : 0 ≤ (m.pointer : Int) + delta) (hhigh : (m.pointer : Int) + delta ≤ 2 ^ 63 - 1) :
    ∃ m', m.perform .move delta = ⟨none, m'⟩ ∧ Edited delta (fun _ => 0) m m' := by
  have htarget : target? m.pointer delta = some ((m.pointer : Int) + delta).toNat := by
    rw [target?_eq_some_iff, addressLimit]
    omega
  have hmove : m.move delta = ⟨none, (m.move delta).machine⟩ := by
    simp only [move, htarget]
  obtain ⟨⟨_, _, hsum⟩, hrow, _, hstreams⟩ := move_eq_none hmove
  refine ⟨(m.move delta).machine, hmove, hsum, hrow.cellSize_eq, ?_, hstreams⟩
  intro i
  rw [← (Edited.refl h).cell_eq, hrow.cell_eq]

/-- An addition edits the current cell. -/
theorem edited_add (h : m.InRange) (count : Int) :
    ∃ m', m.perform .add count = ⟨none, m'⟩ ∧
      Edited 0 (fun offset => if offset = 0 then count else 0) m m' := by
  refine ⟨_, rfl, (Int.add_zero _).symm, Tape.cellSize_add _ _ _, ?_, rfl⟩
  intro i
  show ((m.tape.add m.pointer count).cell i : Int) = _
  by_cases hi : m.pointer = i
  · subst hi
    rw [Tape.cell_add_self, Int.sub_self, if_pos rfl]
  · have hoffset : (i : Int) - m.pointer ≠ 0 := by omega
    rw [Tape.cell_add, if_neg hi, if_neg hoffset, ← (Edited.refl h).cell_eq]

end

end Machine

/-! ## One pass -/

namespace Program

variable {pointer pointer' : Nat} {rest : Program}

/-- Behind a move, what is addressable is counted from where it led. -/
theorem Addressable.of_move {delta : Int} (h : Addressable pointer (.act .move delta :: rest))
    (hpointer : (pointer' : Int) = pointer + delta) : Addressable pointer' rest := by
  intro k
  have hk := h (k + 1)
  rw [List.take_succ_cons, countTotal_act, if_pos rfl] at hk
  omega

theorem Addressable.of_add {count : Int} (h : Addressable pointer (.act .add count :: rest)) :
    Addressable pointer rest := by
  intro k
  have hk := h (k + 1)
  rwa [List.take_succ_cons, countTotal_act, if_neg (by decide)] at hk

/-- A linear program whose moves stay on the tape is executed node by node, and edits the cells as
its counts say. -/
theorem Linear.executes {p : Program} (h : p.Linear) {m : Machine} (hm : m.InRange)
    (hmoves : Addressable m.pointer p) (more : Program) :
    ∃ m', m.Executes p (p ++ more) more m' ∧
      m.Edited (p.countTotal .move) (fun offset => p.addedAt offset) m' := by
  induction h generalizing m with
  | nil => exact ⟨m, .refl more m, .refl hm⟩
  | @move delta rest _ ih =>
    have hstart := hmoves 0
    rw [List.take_zero, countTotal_nil, Int.add_zero] at hstart
    have hfirst := hmoves 1
    rw [List.take_succ_cons, List.take_zero, countTotal_act, if_pos rfl, countTotal_nil,
      Int.add_zero] at hfirst
    obtain ⟨m₁, hperform, hedited₁⟩ := Machine.edited_move hm hstart.2 hfirst.1 hfirst.2
    obtain ⟨m₂, hexecutes₂, hedited₂⟩ :=
      ih hedited₁.inRange (hmoves.of_move hedited₁.pointer_eq)
    refine ⟨m₂, (Machine.executes_act hperform (rest ++ more)).trans hexecutes₂, ?_⟩
    -- the rest adds at the same cells, at offsets that the move has shifted
    exact (hedited₁.trans hedited₂).congr rfl fun _ => Int.zero_add _
  | @add count rest _ ih =>
    obtain ⟨m₁, hperform, hedited₁⟩ := Machine.edited_add hm count
    have hmoves₁ : Addressable m₁.pointer rest := by
      rw [hedited₁.pointer_of_zero]
      exact hmoves.of_add
    obtain ⟨m₂, hexecutes₂, hedited₂⟩ := ih hedited₁.inRange hmoves₁
    refine ⟨m₂, (Machine.executes_act hperform (rest ++ more)).trans hexecutes₂, ?_⟩
    refine (hedited₁.trans hedited₂).congr ?_ ?_
    · rw [countTotal_act, if_neg (by decide), Int.zero_add]
    · intro offset
      rw [Int.sub_zero]
      rfl

end Program

/-! ## Turns of the loop -/

namespace Machine

variable {body : Program} {m : Machine}

/-- A loop on a zero cell is passed. -/
theorem executes_exit (body : Program) (hm : m.InRange) (hcell : m.tape.cell m.pointer = 0) :
    ∃ m', m.Executes [.loop body] [.loop body] [] m' ∧ m.Edited 0 (fun _ => 0) m' := by
  have hstep := m.step_loop body []
  rw [if_pos hcell] at hstep
  exact ⟨_, .of_next hstep, edited_growTo hm m.pointer⟩

/-- A loop on any other cell turns once, and is tested again at the same cell. -/
theorem executes_turn (hbody : body.Linear) (hnet : body.countTotal .move = 0) (hm : m.InRange)
    (hmoves : body.Addressable m.pointer) (hcell : m.tape.cell m.pointer ≠ 0) :
    ∃ m', m.Executes (.loop body :: body) [.loop body] [.loop body] m' ∧
      m.Edited 0 (fun offset => body.addedAt offset) m' := by
  have hstep := m.step_loop body []
  rw [if_neg hcell] at hstep
  have hentered := edited_growTo hm m.pointer
  obtain ⟨m', hexecutes, hedited⟩ := hbody.executes hentered.inRange hmoves [.loop body]
  refine ⟨m', (Executes.of_next hstep).trans hexecutes, ?_⟩
  refine (hentered.trans hedited).congr ?_ ?_
  · rw [hnet, Int.add_zero]
  · intro offset
    rw [Int.zero_add, Int.sub_zero]

/-- As long as the current cell is not zero, the loop turns, and each turn adds the same. -/
theorem executes_turns (hbody : body.Linear) (hnet : body.countTotal .move = 0) (hm : m.InRange)
    (hmoves : m.tape.cell m.pointer = 0 ∨ body.Addressable m.pointer) (n : Nat)
    (hcells : ∀ k < n, ¬ (m.tape.cellSize.modulus : Int) ∣
      m.tape.cell m.pointer + k * body.addedAt 0) :
    ∃ m', m.Executes (List.replicate n (.loop body :: body)).flatten [.loop body] [.loop body] m' ∧
      m.Edited 0 (fun offset => n * body.addedAt offset) m' := by
  induction n with
  | zero =>
    refine ⟨m, .refl _ m, (Edited.refl hm).congr rfl ?_⟩
    intro offset
    rw [Nat.cast_zero, Int.zero_mul]
  | succ n ih =>
    obtain ⟨m₁, hexecutes₁, hedited₁⟩ := ih fun k hk => hcells k (by omega)
    have hpointer := hedited₁.pointer_of_zero
    -- the first test was not zero, so the moves stay on the tape
    have hmoves₁ : body.Addressable m₁.pointer := by
      rcases hmoves with hzero | hmoves
      · have h := hcells 0 (by omega)
        simp [hzero] at h
      · rw [hpointer]
        exact hmoves
    have hcell₁ : m₁.tape.cell m₁.pointer ≠ 0 := by
      intro hzero
      have hcell := hedited₁.cell_eq m.pointer
      rw [← hpointer, hzero, hpointer, Int.sub_self] at hcell
      exact hcells n (by omega) (Int.dvd_of_emod_eq_zero hcell.symm)
    obtain ⟨m₂, hexecutes₂, hedited₂⟩ :=
      executes_turn hbody hnet hedited₁.inRange hmoves₁ hcell₁
    refine ⟨m₂, ?_, (hedited₁.trans hedited₂).congr rfl ?_⟩
    · rw [List.replicate_succ', List.flatten_append, List.flatten_singleton]
      exact hexecutes₁.trans hexecutes₂
    · intro offset
      push_cast
      rw [Int.sub_zero]
      ring

end Machine

/-! ## Getting to zero -/

/-- Adding a number again and again to another one gets to a multiple of `modulus` exactly if the
greatest common divisor of the number and `modulus` divides the other one. -/
theorem exists_dvd_add_mul_iff {modulus : Nat} (hpos : 0 < modulus) (value : Nat) (step : Int) :
    (∃ n : Nat, (modulus : Int) ∣ value + n * step) ↔ Int.gcd step modulus ∣ value := by
  constructor
  · rintro ⟨n, hn⟩
    have hstep : (Int.gcd step modulus : Int) ∣ n * step :=
      Dvd.dvd.mul_left (Int.gcd_dvd_left step modulus) _
    have hsum : (Int.gcd step modulus : Int) ∣ value + n * step :=
      (Int.gcd_dvd_right step modulus).trans hn
    exact Int.natCast_dvd_natCast.mp ((dvd_add_left hstep).mp hsum)
  · intro h
    obtain ⟨x, y, hxy⟩ := Int.gcd_dvd_iff.mp h
    have hne : (modulus : Int) ≠ 0 := by omega
    -- any natural number that is `-x` modulo `modulus` will do
    obtain ⟨q, hq⟩ : (modulus : Int) ∣ -x % modulus - -x := Int.dvd_sub_self_of_emod_eq rfl
    have hmod : -x % modulus = -x + modulus * q := by omega
    refine ⟨(-x % modulus).toNat, y + q * step, ?_⟩
    rw [Int.toNat_of_nonneg (Int.emod_nonneg _ hne), hxy, hmod]
    ring

namespace Machine

variable {body : Program} {m : Machine}

/-- If the current cell gets to zero, the loop ends after the least number of turns that does it. -/
theorem executes_loop (hbody : body.Linear) (hnet : body.countTotal .move = 0) (hm : m.InRange)
    (hmoves : m.tape.cell m.pointer = 0 ∨ body.Addressable m.pointer) {n : Nat}
    (hn : IsLeast {n : Nat | (m.tape.cellSize.modulus : Int) ∣
      m.tape.cell m.pointer + n * body.addedAt 0} n) :
    ∃ m', m.Executes ((List.replicate n (.loop body :: body)).flatten ++ [.loop body])
        [.loop body] [] m' ∧
      m.Edited 0 (fun offset => n * body.addedAt offset) m' := by
  have hcells : ∀ k < n, ¬ (m.tape.cellSize.modulus : Int) ∣
      m.tape.cell m.pointer + k * body.addedAt 0 := by
    intro k hk hdvd
    have hle := hn.2 hdvd
    omega
  obtain ⟨m₁, hexecutes₁, hedited₁⟩ := executes_turns hbody hnet hm hmoves n hcells
  have hzero : m₁.tape.cell m₁.pointer = 0 := by
    have hcell := hedited₁.cell_eq m.pointer
    rw [Int.sub_self, Int.emod_eq_zero_of_dvd hn.1] at hcell
    rw [hedited₁.pointer_of_zero]
    exact_mod_cast hcell
  obtain ⟨m₂, hexecutes₂, hedited₂⟩ := executes_exit body hedited₁.inRange hzero
  refine ⟨m₂, hexecutes₁.trans hexecutes₂, (hedited₁.trans hedited₂).congr rfl ?_⟩
  intro offset
  exact Int.add_zero _

/-- If the current cell never gets to zero, the loop never ends. -/
theorem execute_loop_eq_none (hbody : body.Linear) (hnet : body.countTotal .move = 0)
    (hm : m.InRange) (hmoves : m.tape.cell m.pointer = 0 ∨ body.Addressable m.pointer)
    (hcells : ∀ k : Nat, ¬ (m.tape.cellSize.modulus : Int) ∣
      m.tape.cell m.pointer + k * body.addedAt 0) (steps : Nat) :
    execute steps [.loop body] m = none := by
  obtain ⟨m₁, hexecutes, _⟩ :=
    executes_turns hbody hnet hm hmoves steps fun k _ => hcells k
  cases hexecute : execute steps [.loop body] m with
  | none => rfl
  | some o =>
    -- so many turns take at least as many steps, and after them no step is left
    have hlength : steps ≤ (List.replicate steps (.loop body :: body)).flatten.length := by
      rw [List.length_flatten, List.map_replicate, List.sum_replicate, smul_eq_mul]
      exact Nat.le_mul_of_pos_right steps (Nat.succ_pos _)
    obtain ⟨more, hmore⟩ := Nat.exists_eq_add_of_le hlength
    have hsome := execute_add hexecute more
    have hnone := hexecutes.execute_eq 0
    rw [Nat.zero_add, hmore, hsome] at hnone
    cases hnone

end Machine

/-- A loop whose body only moves and adds, with no net movement, on a machine that a session has
reached, with a zero cell under the pointer or moves that stay on the tape. It halts exactly if the
greatest common divisor of what a turn adds to the current cell and `2 ^ bits` divides that cell.
Then it succeeds after the least number of turns that makes the current cell zero, with the pointer
where it was. Every other cell has got so many times what a turn adds to it, modulo `2 ^ bits`, and
cells to which a turn adds nothing are as they were. No call was made. -/
theorem execute_linear_loop (length : Nat) (size : CellSize) (policy : EndPolicy)
    (streams : Streams) (s : Session)
    (hs : Session.Reaches (.idle (.fresh (.zeros length size) policy streams)) s)
    (body : Program) (hbody : body.Linear) (hnet : body.countTotal .move = 0)
    (hmoves : s.machine.tape.cell s.machine.pointer = 0 ∨ body.Addressable s.machine.pointer) :
    ((∃ steps o, Machine.execute steps [.loop body] s.machine = some o) ↔
      Int.gcd (body.addedAt 0) size.modulus ∣ s.machine.tape.cell s.machine.pointer) ∧
    ∀ steps o, Machine.execute steps [.loop body] s.machine = some o →
      ∃ n, IsLeast {n : Nat | (size.modulus : Int) ∣
          s.machine.tape.cell s.machine.pointer + n * body.addedAt 0} n ∧
        o.error? = none ∧
        Machine.executed steps [.loop body] s.machine =
          (List.replicate n (.loop body :: body)).flatten ++ [.loop body] ∧
        o.machine.pointer = s.machine.pointer ∧
        o.machine.tape.cell s.machine.pointer = 0 ∧
        (∀ i, i ≠ s.machine.pointer → (o.machine.tape.cell i : Int) =
          (s.machine.tape.cell i + n * body.addedAt (i - s.machine.pointer)) % size.modulus) ∧
        (∀ i : Nat, body.addedAt (i - s.machine.pointer) = 0 →
          o.machine.tape.cell i = s.machine.tape.cell i) ∧
        o.machine.streams = s.machine.streams := by
  have hinv : s.machine.Inv size policy :=
    (Session.reaches_inv hs (Machine.inv_fresh length size policy streams)).1
  generalize s.machine = m at *
  have hsize : m.tape.cellSize = size := hinv.cellSize_eq
  have hrange : m.InRange := by
    intro i
    rw [hsize]
    exact hinv.cell_lt i
  have hzero := exists_dvd_add_mul_iff size.modulus_pos (m.tape.cell m.pointer) (body.addedAt 0)
  by_cases hex : ∃ n : Nat, (size.modulus : Int) ∣ m.tape.cell m.pointer + n * body.addedAt 0
  · have hleast : IsLeast {n : Nat | (size.modulus : Int) ∣
        m.tape.cell m.pointer + n * body.addedAt 0} (Nat.find hex) :=
      ⟨Nat.find_spec hex, fun _ hn => Nat.find_min' hex hn⟩
    generalize Nat.find hex = n at hleast
    obtain ⟨m', hexecutes, hedited⟩ :=
      Machine.executes_loop hbody hnet hrange hmoves (n := n) (by rw [hsize]; exact hleast)
    constructor
    · exact ⟨fun _ => hzero.mp hex, fun _ => ⟨_, _, hexecutes.halts⟩⟩
    · intro steps o ho
      obtain ⟨rfl, hexecuted⟩ := hexecutes.unique ho
      have hcell := hedited.cell_eq
      rw [hsize] at hcell
      refine ⟨n, hleast, rfl, hexecuted, hedited.pointer_of_zero, ?_, ?_, ?_, hedited.streams_eq⟩
      · have h := hcell m.pointer
        rw [Int.sub_self, Int.emod_eq_zero_of_dvd hleast.1] at h
        exact_mod_cast h
      · intro i _
        exact hcell i
      · intro i hnone
        have h := hcell i
        have hlt := hinv.cell_lt i
        rw [hnone, Int.mul_zero, Int.add_zero, Int.emod_eq_of_lt (by omega) (by omega)] at h
        exact_mod_cast h
  · have hnever : ∀ steps, Machine.execute steps [.loop body] m = none := by
      apply Machine.execute_loop_eq_none hbody hnet hrange hmoves
      rw [hsize]
      exact fun k hk => hex ⟨k, hk⟩
    constructor
    · constructor
      · rintro ⟨steps, o, ho⟩
        rw [hnever] at ho
        cases ho
      · intro hgcd
        exact absurd (hzero.mpr hgcd) hex
    · intro steps o ho
      rw [hnever] at ho
      cases ho

/-- With cells of four bits, `2 + 10 * 3` is the first multiple of `16`, so a loop that adds `3` to
its cell and `5` to the next one turns ten times. One that adds `4` never gets from `2` to zero. -/
theorem execute_linear_loop_four_bits :
    Session.Reaches (.idle (.fresh (.zeros 1 .bits4) .fail ⟨[], [], [], []⟩))
      (.idle ⟨⟨#[2], .bits4⟩, 0, .fail, ⟨[], [], [], []⟩, []⟩) ∧
    (∃ steps o, Machine.execute steps
        [.loop [.act .move 1, .act .add 5, .act .move (-1), .act .add 3]]
        ⟨⟨#[2], .bits4⟩, 0, .fail, ⟨[], [], [], []⟩, []⟩ = some o ∧
      o.error? = none ∧ o.machine.tape.cell 0 = 0 ∧ o.machine.tape.cell 1 = 2) ∧
    ¬ ∃ steps o, Machine.execute steps [.loop [.act .add 4]]
      ⟨⟨#[2], .bits4⟩, 0, .fail, ⟨[], [], [], []⟩, []⟩ = some o := by
  have hexecute : Machine.execute 2 [.act .add 2]
      (.fresh (.zeros 1 .bits4) .fail ⟨[], [], [], []⟩) =
      some ⟨none, ⟨⟨#[2], .bits4⟩, 0, .fail, ⟨[], [], [], []⟩, []⟩⟩ := rfl
  have hreaches := Session.reaches_execute hexecute
  have hmoves : Program.Addressable 0
      [.act .move 1, .act .add 5, .act .move (-1), .act .add 3] := by
    intro k
    rcases k with _ | _ | _ | _ | k
    all_goals simp [Program.countTotal_act]
  have hmoves' : Program.Addressable 0 [.act .add 4] := by
    intro k
    rcases k with _ | k
    all_goals simp [Program.countTotal_act]
  have hloop := execute_linear_loop 1 .bits4 .fail ⟨[], [], [], []⟩ _ hreaches
    [.act .move 1, .act .add 5, .act .move (-1), .act .add 3]
    (.move 1 (.add 5 (.move (-1) (.add 3 .nil)))) rfl (Or.inr hmoves)
  have hnever := execute_linear_loop 1 .bits4 .fail ⟨[], [], [], []⟩ _ hreaches
    [.act .add 4] (.add 4 .nil) rfl (Or.inr hmoves')
  refine ⟨hreaches, ?_, fun hhalts => absurd (hnever.1.mp hhalts) (by decide)⟩
  obtain ⟨steps, o, ho⟩ := hloop.1.mpr (by decide)
  obtain ⟨n, hn, hnone, _, _, hzero, hcell, _⟩ := hloop.2 steps o ho
  have hdvd : (16 : Int) ∣ 2 + (n : Int) * 3 := hn.1
  have hle : n ≤ 10 := hn.2 (show (16 : Int) ∣ 2 + ((10 : Nat) : Int) * 3 by decide)
  have hten : n = 10 := by omega
  subst hten
  have hnext : (o.machine.tape.cell 1 : Int) = (0 + 10 * 5) % 16 := hcell 1 (by decide)
  exact ⟨steps, o, ho, hnone, hzero, by omega⟩

end TapeMachine
