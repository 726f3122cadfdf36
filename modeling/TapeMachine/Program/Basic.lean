import TapeMachine.Action

/-! # Programs

A program is a sequence of nodes. A node is an action with a signed count, or a loop that owns its
body.

* `Program.fold` is the one recursion over programs: it visits a sequence from the right and enters
  loop bodies on the way. Every measure and printer of programs is an instance of it.
* `Program.induct` is the matching induction principle.
-/

namespace TapeMachine

/-- One node of a program tree. -/
inductive Node where
  /-- An action and its net signed count. -/
  | act (action : Action) (count : Int)
  /-- A body that is repeated while the current cell is not zero. -/
  | loop (body : List Node)
deriving Repr

/-- A sequence of nodes. -/
abbrev Program := List Node

/-! ## Equality -/

mutual

/-- Decides equality of two nodes. -/
def Node.decEq : (a b : Node) → Decidable (a = b)
  | .act k m, .act l n =>
    if h : k = l ∧ m = n then .isTrue (by rw [h.1, h.2])
    else .isFalse (fun e => h (by cases e; exact ⟨rfl, rfl⟩))
  | .loop p, .loop q =>
    match Node.decEqList p q with
    | .isTrue h => .isTrue (by rw [h])
    | .isFalse h => .isFalse (fun e => h (by cases e; rfl))
  | .act _ _, .loop _ => .isFalse (fun e => by cases e)
  | .loop _, .act _ _ => .isFalse (fun e => by cases e)

/-- Decides equality of two sequences of nodes. -/
def Node.decEqList : (p q : List Node) → Decidable (p = q)
  | [], [] => .isTrue rfl
  | [], _ :: _ => .isFalse (fun e => by cases e)
  | _ :: _, [] => .isFalse (fun e => by cases e)
  | a :: p, b :: q =>
    match Node.decEq a b, Node.decEqList p q with
    | .isTrue h, .isTrue g => .isTrue (by rw [h, g])
    | .isFalse h, _ => .isFalse (fun e => h (by cases e; rfl))
    | _, .isFalse g => .isFalse (fun e => g (by cases e; rfl))

end

instance : DecidableEq Node := Node.decEq

namespace Program

/-! ## Recursion and induction -/

mutual

/-- Puts one node in front of the value of what follows it. -/
def foldNode {β : Type} (done : β) (act : Action → Int → β → β) (loop : β → β → β) :
    Node → β → β
  | .act action count, rest => act action count rest
  | .loop body, rest => loop (fold done act loop body) rest

/-- Replaces the end of each sequence by `done`, an action in front of a sequence by `act` and a
loop in front of a sequence by `loop`, applied to the values of its body and of what follows. -/
def fold {β : Type} (done : β) (act : Action → Int → β → β) (loop : β → β → β) : Program → β
  | [] => done
  | node :: rest => foldNode done act loop node (fold done act loop rest)

end

section

variable {β : Type} (done : β) (act : Action → Int → β → β) (loop : β → β → β)

@[simp]
theorem fold_nil : fold done act loop [] = done := rfl

@[simp]
theorem fold_act (action : Action) (count : Int) (rest : Program) :
    fold done act loop (.act action count :: rest) = act action count (fold done act loop rest) :=
  rfl

@[simp]
theorem fold_loop (body rest : Program) :
    fold done act loop (.loop body :: rest) =
      loop (fold done act loop body) (fold done act loop rest) := rfl

end

mutual

/-- The induction principle, for a single node in front of a sequence. -/
theorem inductNode {P : Program → Prop} (nil : P [])
    (act : ∀ action count rest, P rest → P (.act action count :: rest))
    (loop : ∀ body rest, P body → P rest → P (.loop body :: rest)) :
    ∀ (node : Node) (rest : Program), P rest → P (node :: rest)
  | .act action count, rest, h => act action count rest h
  | .loop body, rest, h => loop body rest (induct nil act loop body) h

/-- To prove a property of all programs, prove it of the empty one, and carry it over an action and
over a loop whose body has it too. -/
theorem induct {P : Program → Prop} (nil : P [])
    (act : ∀ action count rest, P rest → P (.act action count :: rest))
    (loop : ∀ body rest, P body → P rest → P (.loop body :: rest)) :
    ∀ p : Program, P p
  | [] => nil
  | node :: rest => inductNode nil act loop node rest (induct nil act loop rest)

end

/-! ## Measures -/

/-- The number of nodes at all nesting levels, loops included. -/
def nodeTotal (p : Program) : Nat :=
  p.fold 0 (fun _ _ rest => 1 + rest) (fun body rest => 1 + body + rest)

/-- The number of loops at all nesting levels. -/
def loopTotal (p : Program) : Nat :=
  p.fold 0 (fun _ _ rest => rest) (fun body rest => 1 + body + rest)

section

variable (action : Action) (count : Int) (body rest : Program)

@[simp]
theorem nodeTotal_act : nodeTotal (.act action count :: rest) = 1 + rest.nodeTotal := rfl

@[simp]
theorem nodeTotal_loop :
    nodeTotal (.loop body :: rest) = 1 + body.nodeTotal + rest.nodeTotal := rfl

@[simp]
theorem loopTotal_act : loopTotal (.act action count :: rest) = rest.loopTotal := rfl

@[simp]
theorem loopTotal_loop :
    loopTotal (.loop body :: rest) = 1 + body.loopTotal + rest.loopTotal := rfl

end

/-- The sum of the counts of one action, at all nesting levels. -/
def countTotal (action : Action) (p : Program) : Int :=
  p.fold 0 (fun a count rest => if a = action then count + rest else rest)
    (fun body rest => body + rest)

@[simp]
theorem countTotal_nil (action : Action) : countTotal action [] = 0 := rfl

@[simp]
theorem countTotal_act (action a : Action) (count : Int) (rest : Program) :
    countTotal action (.act a count :: rest) =
      if a = action then count + rest.countTotal action else rest.countTotal action := rfl

@[simp]
theorem countTotal_loop (action : Action) (body rest : Program) :
    countTotal action (.loop body :: rest) =
      body.countTotal action + rest.countTotal action := rfl

end Program

end TapeMachine
