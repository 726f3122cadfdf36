/-! # Durations

A run has two phases, and each is timed. A duration is a number of nanoseconds; it is reported in
whole units, rounded down.
-/

namespace TapeMachine

/-- The units in which durations are reported. -/
inductive TimeUnit where
  | nanosecond
  | microsecond
  | millisecond
  | second
deriving DecidableEq, Repr

namespace TimeUnit

/-- The unit in words. -/
def words : TimeUnit → String
  | .nanosecond => "nanoseconds"
  | .microsecond => "microseconds"
  | .millisecond => "milliseconds"
  | .second => "seconds"

/-- The unit's symbol, by which settings select it. -/
def symbol : TimeUnit → String
  | .nanosecond => "ns"
  | .microsecond => "us"
  | .millisecond => "ms"
  | .second => "s"

/-- The number of nanoseconds in one unit. -/
def inNanoseconds : TimeUnit → Nat
  | .nanosecond => 1
  | .microsecond => 1000
  | .millisecond => 1000000
  | .second => 1000000000

end TimeUnit

/-- A length of time. -/
structure Duration where
  nanoseconds : Nat
deriving DecidableEq, Repr

namespace Duration

/-- A number of seconds and nanoseconds. -/
def ofSeconds (seconds nanoseconds : Nat) : Duration :=
  ⟨seconds * TimeUnit.second.inNanoseconds + nanoseconds⟩

/-- The whole units in a duration. -/
def inUnits (d : Duration) (unit : TimeUnit) : Nat :=
  d.nanoseconds / unit.inNanoseconds

end Duration

/-- How long the two phases of a run took. -/
structure PhaseTimes where
  compile : Duration
  execute : Duration
deriving DecidableEq, Repr

namespace PhaseTimes

/-- The two lines of a summary, for two numbers that are already written out. -/
def summaryOf (unit : TimeUnit) (compile execute : String) : String :=
  s!"Time to parse: {compile} {unit.words}\nTime to execute: {execute} {unit.words}"

/-- The two lines that report the phases in whole units. -/
def summary (t : PhaseTimes) (unit : TimeUnit) : String :=
  summaryOf unit (toString (t.compile.inUnits unit)) (toString (t.execute.inUnits unit))

end PhaseTimes

end TapeMachine
