import TapeMachine.Cli.Log
import TapeMachine.Diagnostics
import TapeMachine.Program.Listing
import TapeMachine.ProgramFile
import TapeMachine.Settings.Load

/-! # The command line

An invocation is worked off in a fixed order: settings, program, start event, compilation, then the
listing or the execution. The first failure ends it with exit code 1.

* `Platform`: what is left to the platform. Whoever runs the program says how arguments are read,
  where the user's configuration is kept, which events a filter shows and how a text is made to
  stand out.
* `gather` finds the settings and the code. It needs no streams.
* `Assembly.listingReport` compiles and shows the listing, and `Assembly.conclude` reports what an
  interpretation comes to.
* `runInvocation` puts these together for scripted streams, and `runCommand` starts from the
  arguments and leaves out the events that are not to be shown.

What goes to standard error is a list of notices. Measured times are not part of them: a notice says
only that the timings are to be reported.
-/

namespace TapeMachine.Cli

/-! ## Requests and reports -/

/-- Where the program comes from. -/
inductive ProgramSource where
  | file (path : String)
  | inline (code : String)
deriving DecidableEq, Repr

/-- A complete request to run or show a program. -/
structure Invocation where
  source : ProgramSource
  settings : ExplicitSettings
  dump : Bool
  quiet : Bool
  verbose : Bool
deriving DecidableEq, Repr

/-- Something that is reported on standard error. -/
inductive Notice where
  /-- An event of the log. -/
  | event (event : Event)
  /-- An error message, line ends included. -/
  | error (text : String)
  /-- The timings of a run. -/
  | timings (unit : TimeUnit)
deriving DecidableEq, Repr

namespace Notice

/-- Whether a notice is shown; only events can be left out. -/
def isShown (shown : EventFilter) : Notice → Bool
  | .event e => shown e
  | _ => true

/-- The text of a notice; `line` writes the events and `times` the timings. -/
def text (line : Event → String) (times : TimeUnit → String) : Notice → String
  | .event e => line e
  | .error text => text
  | .timings unit => times unit ++ "\n"

end Notice

/-- What the program leaves behind. -/
structure CliReport where
  exitCode : Nat
  stdout : List UInt8
  notices : List Notice
deriving DecidableEq, Repr

namespace CliReport

/-- The report without the events that are not to be shown. -/
def filtered (shown : EventFilter) (r : CliReport) : CliReport :=
  { r with notices := r.notices.filter (·.isShown shown) }

/-- What is printed on standard error. -/
def stderr (line : Event → String) (times : TimeUnit → String) (r : CliReport) : String :=
  String.join (r.notices.map (·.text line times))

end CliReport

/-! ## The platform -/

/-- What the program leaves to the platform it runs on. -/
structure Platform where
  /-- What the arguments ask for, or what is left behind if they ask for no run. -/
  request : List String → Except CliReport Invocation
  /-- Where the user's configuration is kept. -/
  configHome : ConfigHome
  /-- The filter that the environment asks for. There is none if it does not ask, or not in a way
  that can be understood. -/
  environmentFilter : Environment → Option EventFilter
  /-- The filter that a directive stands for. -/
  directiveFilter : String → EventFilter
  /-- Makes a text stand out on a terminal. -/
  emphasize : String → String

/-- The name in front of error messages. -/
def programName : String := "bf"

namespace Platform

/-- How error messages are headed. -/
def style (platform : Platform) (terminal : Bool) : DiagnosticStyle :=
  ⟨some programName, terminal, platform.emphasize⟩

/-- The events that are shown: what the environment says comes before what the arguments say. -/
def shown (platform : Platform) (env : Environment) (verbose : Bool) : EventFilter :=
  match platform.environmentFilter env with
  | some filter => filter
  | none => platform.directiveFilter (if verbose then "debug" else "warn")

end Platform

section

variable (platform : Platform) (terminal : Bool)

/-! ## Before the compilation -/

/-- A failure with a one-line message. -/
def failure (notices : List Notice) (message : String) : CliReport :=
  ⟨1, [], notices ++ [.error ((platform.style terminal).errorLine message)]⟩

/-- The events of reading the settings file. -/
def settingsNotices (env : Environment) (disk : Disk) : List Notice :=
  match settingsFile? platform.configHome env disk with
  | some (path, _) => [.event (.settingsRead path)]
  | none => []

/-- The code of a program and the events of getting it. -/
def fetchCode (disk : Disk) : ProgramSource → Except ProgramFileError (String × List Notice)
  | .inline code => .ok (commandsOfText code, [])
  | .file path =>
    match ProgramFile.load disk path with
    | .error e => .error e
    | .ok loaded =>
      .ok (loaded.code, [.event (.programLoaded path loaded.size loaded.code.length)])

/-- Settings and code that have been found, and what has been reported so far. -/
structure Assembly where
  settings : Settings
  code : String
  notices : List Notice
deriving DecidableEq, Repr

/-- Finds the settings and the code, in this order, and announces the start. -/
def gather (invocation : Invocation) (env : Environment) (disk : Disk) :
    Except CliReport Assembly :=
  let notices := settingsNotices platform env disk
  match Settings.load platform.configHome invocation.settings env disk with
  | .error e => .error (failure platform terminal notices e.message)
  | .ok settings =>
    match fetchCode disk invocation.source with
    | .error e => .error (failure platform terminal notices e.message)
    | .ok (code, loading) =>
      .ok ⟨settings, code, notices ++ loading ++ [.event (.starting settings code.length)]⟩

namespace Assembly

/-! ## Compilation and execution -/

/-- The event that the code compiles. -/
def compiledNotice (a : Assembly) (program : Program) : Notice :=
  .event (.compiled a.code.length program.nodeTotal program.loopTotal)

/-- Compiles the code and reports the listing. -/
def listingReport (a : Assembly) : CliReport :=
  match Program.ofText a.code with
  | .error e =>
    ⟨1, [], a.notices ++ [.error ((platform.style terminal).explain a.code (.stray e))]⟩
  | .ok program =>
    ⟨0, program.listing.toUTF8.data.toList, a.notices ++ [a.compiledNotice program]⟩

/-- The events of an interpretation. -/
def interpretationNotices (a : Assembly) : Interpretation → List Notice
  | .refused _ => []
  | .executed program o =>
    let m := o.machine
    a.compiledNotice program :: m.growths.reverse.map (fun g => .event (.tapeGrown g)) ++
      [.event (.finished m.pointer m.tape.length m.tape.cellSize.bits o.error?.isNone)]

/-- What is reported after an interpretation: its error, or the timings unless they are not
wanted. -/
def closingNotices (quiet : Bool) (a : Assembly) : Option InterpretError → List Notice
  | some e => [.error ((platform.style terminal).explain a.code e)]
  | none => if quiet then [] else [.timings a.settings.timeUnit]

/-- Reports what the interpretation of the code comes to. -/
def conclude (quiet : Bool) (a : Assembly) (result : Interpretation) : CliReport :=
  ⟨if result.error?.isSome then 1 else 0, result.output,
    a.notices ++ a.interpretationNotices result ++
      a.closingNotices platform terminal quiet result.error?⟩

end Assembly

/-! ## All together -/

/-- Runs an invocation on scripted streams in at most `steps` steps; `none` if they do not
suffice. -/
def runInvocation (steps : Nat) (invocation : Invocation) (env : Environment) (disk : Disk)
    (streams : Streams) : Option CliReport :=
  match gather platform terminal invocation env disk with
  | .error report => some report
  | .ok a =>
    if invocation.dump then some (a.listingReport platform terminal)
    else (interpret steps a.settings streams a.code).map
      (a.conclude platform terminal invocation.quiet)

/-- Runs the program with some arguments on scripted streams. -/
def runCommand (steps : Nat) (arguments : List String) (env : Environment) (disk : Disk)
    (streams : Streams) : Option CliReport :=
  match platform.request arguments with
  | .error report => some report
  | .ok invocation =>
    (runInvocation platform terminal steps invocation env disk streams).map
      (·.filtered (platform.shown env invocation.verbose))

end

end TapeMachine.Cli
