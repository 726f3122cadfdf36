import TapeMachine.Program.Scan
import TapeMachine.Settings.Basic

/-! # Interpreting program text

The whole text is compiled first. Only a text that stands for a program is executed, on the fresh
machine that the settings describe, and then the sink is flushed.
-/

namespace TapeMachine

/-- Why a text could not be run to its end. -/
inductive InterpretError where
  | stray (error : StrayBracket)
  | runtime (error : RuntimeError)
deriving DecidableEq, Repr

/-- What went wrong, in one line. -/
def InterpretError.message : InterpretError → String
  | .stray e => e.message
  | .runtime e => e.message

/-- What an interpretation comes to. -/
inductive Interpretation where
  /-- The text stands for no program. -/
  | refused (error : StrayBracket)
  /-- The program was executed with this outcome, and the last flush is still to come. -/
  | executed (program : Program) (outcome : Outcome)
deriving DecidableEq, Repr

namespace Interpretation

/-- The error, if any. -/
def error? : Interpretation → Option InterpretError
  | .refused e => some (.stray e)
  | .executed _ o => (Machine.settle o).error?.map .runtime

/-- The bytes that were written. -/
def output : Interpretation → List UInt8
  | .refused _ => []
  | .executed _ o => (Machine.settle o).machine.streams.output

end Interpretation

/-- Interprets a text in at most `steps` steps; `none` if they do not suffice. -/
def interpret (steps : Nat) (settings : Settings) (streams : Streams) (code : String) :
    Option Interpretation :=
  match Program.ofText code with
  | .error e => some (.refused e)
  | .ok program =>
    (Machine.execute steps program (settings.machine streams)).map (.executed program)

end TapeMachine
