import TapeMachine.Cli.Arguments

/-! # A Unix platform

Arguments are read as described in `TapeMachine.Cli.Arguments`. The user's configuration is kept in
`XDG_CONFIG_HOME`, or in `.config` below `HOME`. A filter is a level, which `RUST_LOG` can name in
upper or lower case or by its number. What is to stand out is written red and bold.
-/

namespace TapeMachine.Cli

/-! ## Levels -/

namespace LogLevel

/-- The level's name, right-aligned to five characters. -/
def label : LogLevel → String
  | .error => "ERROR"
  | .warn => " WARN"
  | .info => " INFO"
  | .debug => "DEBUG"
  | .trace => "TRACE"

/-- How far down the level is: the more, the less it matters. -/
def rank : LogLevel → Nat
  | .error => 1
  | .warn => 2
  | .info => 3
  | .debug => 4
  | .trace => 5

end LogLevel

namespace Event

/-- The event as a line of the log. -/
def line (e : Event) : String :=
  e.level.label ++ " " ++ e.message ++ "\n"

/-- Shows the events down to a rank. -/
def upTo (rank : Nat) : EventFilter := fun e => e.level.rank ≤ rank

end Event

/-- The rank that a directive names. -/
def rankOfDirective? : String → Option Nat
  | "off" | "0" => some 0
  | "error" | "1" => some 1
  | "warn" | "2" => some 2
  | "info" | "3" => some 3
  | "debug" | "4" => some 4
  | "trace" | "5" => some 5
  | _ => none

/-! ## The platform -/

/-- A Unix platform. -/
def unix : Platform where
  request arguments := (parseArguments arguments).mapError Stop.report
  configHome env := do
    let home ← env "HOME"
    return (env "XDG_CONFIG_HOME").getD (joinPath home ".config")
  environmentFilter env := do
    let directive ← env "RUST_LOG"
    let rank ← rankOfDirective? (directive.map Char.toLower)
    return Event.upTo rank
  directiveFilter directive := Event.upTo ((rankOfDirective? directive).getD 0)
  emphasize text := "\x1b[1;31m" ++ text ++ "\x1b[0m"

end TapeMachine.Cli
