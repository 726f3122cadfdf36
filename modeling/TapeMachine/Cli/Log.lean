import TapeMachine.Settings.Resolve

/-! # Log events

While it works, the program reports events. Each has a level and a message. Which events are shown
is for a filter to decide.
-/

namespace TapeMachine.Cli

/-- How much an event matters. -/
inductive LogLevel where
  | error
  | warn
  | info
  | debug
  | trace
deriving DecidableEq, Repr

/-- What the program reports. -/
inductive Event where
  /-- The settings file was read. -/
  | settingsRead (path : String)
  /-- A program file was read. -/
  | programLoaded (path : String) (bytes symbols : Nat)
  /-- The settings are known and the program is at hand. -/
  | starting (settings : Settings) (symbols : Nat)
  /-- The program compiles. -/
  | compiled (symbols nodes loops : Nat)
  /-- The tape was lengthened. -/
  | tapeGrown (growth : Growth)
  /-- Execution has stopped. -/
  | finished (pointer length bits : Nat) (ok : Bool)
deriving DecidableEq, Repr

/-- Tells the events that are shown from those that are not. -/
abbrev EventFilter := Event → Bool

namespace Event

/-- The level of an event. -/
def level : Event → LogLevel
  | .starting _ _ => .info
  | _ => .debug

/-- The event in words. -/
def message : Event → String
  | .settingsRead path => s!"loaded config file path={path}"
  | .programLoaded path bytes symbols =>
    s!"program loaded path={path} bytes={bytes} symbols={symbols}"
  | .starting s symbols =>
    s!"starting interpreter cell_size={s.cellSize.bits} memory_size={s.memorySize} " ++
      s!"eof={s.endPolicy.name} symbols={symbols}"
  | .compiled symbols nodes loops =>
    s!"compiled program symbols={symbols} nodes={nodes} loops={loops}"
  | .tapeGrown g => s!"tape grown old_len={g.before} new_len={g.after} index={g.index}"
  | .finished pointer length bits ok =>
    s!"execution finished pointer={pointer} tape_len={length} cell_bits={bits} ok={ok}"

end Event

end TapeMachine.Cli
