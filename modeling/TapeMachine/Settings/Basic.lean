import TapeMachine.Duration
import TapeMachine.Machine

/-! # Settings

Four settings govern a run: the size of a cell, the number of cells a tape starts with, the unit in
which times are reported, and the end-of-input policy.
-/

namespace TapeMachine

/-- The settings of one run. -/
structure Settings where
  cellSize : CellSize
  memorySize : Nat
  timeUnit : TimeUnit
  endPolicy : EndPolicy
deriving DecidableEq, Repr

/-- The settings of a run that nobody configured. -/
def Settings.default : Settings := ⟨.bits8, 30000, .millisecond, .fail⟩

/-- The settings that were given explicitly. -/
structure ExplicitSettings where
  cellSize : Option CellSize
  memorySize : Option Nat
  timeUnit : Option TimeUnit
  endPolicy : Option EndPolicy
deriving DecidableEq, Repr

/-- Nothing was given explicitly. -/
def ExplicitSettings.nothing : ExplicitSettings := ⟨none, none, none, none⟩

/-- The fresh machine that the settings describe. -/
def Settings.machine (s : Settings) (streams : Streams) : Machine :=
  Machine.fresh (Tape.zeros s.memorySize s.cellSize) s.endPolicy streams

end TapeMachine
