import TapeMachine.Cli.Run

/-! # Command-line arguments

Arguments are read from left to right.

* A long option is `--name`, and `--name=value` gives its value at once. A short option is `-n`;
  short options can share one dash, and what follows one that takes a value is its value, without a
  `=` in front. Otherwise the value is the next argument.
* Only the value of `--code` may be any argument. The others must not look like options.
* `--` ends the options. What is no option is the path of the program.
* Every option may be given once. Exactly one of the path and `--code` must be given.
* `--help` and `--version` take effect as soon as they are read.
-/

namespace TapeMachine.Cli

/-! ## Options -/

/-- The options that take a value. -/
inductive ValueOption where
  | code
  | cellSize
  | memorySize
  | timeUnit
  | endPolicy
deriving DecidableEq, Repr

/-- The options that switch something on. -/
inductive Switch where
  | dump
  | quiet
  | verbose
deriving DecidableEq, Repr

/-- The options that ask about the program itself. -/
inductive Inquiry where
  | help
  | version
deriving DecidableEq, Repr

/-- The options of the command line. -/
inductive Opt where
  | value (option : ValueOption)
  | switch (switch : Switch)
  | inquiry (inquiry : Inquiry)
deriving DecidableEq, Repr

namespace Opt

/-- The option of a short name. -/
def ofShort? : Char → Option Opt
  | 'e' => some (.value .code)
  | 'c' => some (.value .cellSize)
  | 'm' => some (.value .memorySize)
  | 'r' => some (.value .timeUnit)
  | 'q' => some (.switch .quiet)
  | 'v' => some (.switch .verbose)
  | 'h' => some (.inquiry .help)
  | 'V' => some (.inquiry .version)
  | _ => none

/-- The option of a long name. -/
def ofLong? : String → Option Opt
  | "code" => some (.value .code)
  | "cell-size" => some (.value .cellSize)
  | "memory-size" => some (.value .memorySize)
  | "runtime-units" => some (.value .timeUnit)
  | "eof" => some (.value .endPolicy)
  | "dump" => some (.switch .dump)
  | "quiet" => some (.switch .quiet)
  | "verbose" => some (.switch .verbose)
  | "help" => some (.inquiry .help)
  | "version" => some (.inquiry .version)
  | _ => none

end Opt

/-! ## What the arguments say -/

/-- Why the arguments are refused. -/
inductive UsageError where
  | unknownArgument (argument : String)
  | unexpectedValue (argument : String)
  | missingValue (option : ValueOption)
  | repeated (option : Opt)
  | invalidValue (cause : ValueError)
  | emptyPath
  | secondPath (argument : String)
  | noProgram
  | twoPrograms
deriving DecidableEq, Repr

/-- The long name of an option. -/
def ValueOption.name : ValueOption → String
  | .code => "--code"
  | .cellSize => "--cell-size"
  | .memorySize => "--memory-size"
  | .timeUnit => "--runtime-units"
  | .endPolicy => "--eof"

/-- The long name of an option. -/
def Opt.name : Opt → String
  | .value option => option.name
  | .switch .dump => "--dump"
  | .switch .quiet => "--quiet"
  | .switch .verbose => "--verbose"
  | .inquiry .help => "--help"
  | .inquiry .version => "--version"

/-- What is wrong with the arguments, in one line. -/
def UsageError.message : UsageError → String
  | .unknownArgument argument => s!"unexpected argument '{argument}' found"
  | .unexpectedValue argument => s!"unexpected value for '{argument}' found"
  | .missingValue option => s!"a value is required for '{option.name}' but none was supplied"
  | .repeated option => s!"the argument '{option.name}' cannot be used multiple times"
  | .invalidValue cause => s!"invalid value: {cause.message}"
  | .emptyPath => "a value is required for '[file-path]' but none was supplied"
  | .secondPath argument => s!"unexpected argument '{argument}' found"
  | .noProgram => "the following required arguments were not provided: <file-path|--code <CODE>>"
  | .twoPrograms => "the argument '[file-path]' cannot be used with '--code <CODE>'"

/-- Why reading stops before the last argument. -/
inductive Stop where
  | usage (error : UsageError)
  | answer (inquiry : Inquiry)
deriving DecidableEq, Repr

/-- What has been read so far. -/
structure Given where
  path : Option String
  code : Option String
  settings : ExplicitSettings
  dump : Bool
  quiet : Bool
  verbose : Bool
  /-- The option whose value is the next argument. -/
  awaiting : Option ValueOption
  /-- Whether `--` has ended the options. -/
  optionsEnded : Bool
deriving DecidableEq, Repr

namespace Given

/-- Nothing has been read. -/
def nothing : Given := ⟨none, none, .nothing, false, false, false, none, false⟩

/-- The first value of a setting, for an option that may be given once. -/
def once {α : Type} (option : ValueOption) (before : Option α) (value : Except ValueError α) :
    Except Stop (Option α) :=
  match before, value with
  | some _, _ => .error (.usage (.repeated (.value option)))
  | none, .error cause => .error (.usage (.invalidValue cause))
  | none, .ok value => .ok (some value)

/-- Takes the value of an option. -/
def setValue (g : Given) (option : ValueOption) (text : String) : Except Stop Given := do
  let g := { g with awaiting := none }
  let o := g.settings
  match option with
  | .code => return { g with code := ← once option g.code (.ok text) }
  | .cellSize =>
    let cellSize ← once option o.cellSize (CellSize.ofText text)
    return { g with settings := { o with cellSize } }
  | .memorySize =>
    let memorySize ← once option o.memorySize (memorySizeOfText text)
    return { g with settings := { o with memorySize } }
  | .timeUnit =>
    let timeUnit ← once option o.timeUnit (valueOfName TimeUnit.ofSymbol? .timeUnit text)
    return { g with settings := { o with timeUnit } }
  | .endPolicy =>
    let endPolicy ← once option o.endPolicy (valueOfName EndPolicy.ofName? .endPolicy text)
    return { g with settings := { o with endPolicy } }

/-- Switches something on. -/
def setSwitch (g : Given) (switch : Switch) : Except Stop Given :=
  let again := .error (.usage (.repeated (.switch switch)))
  match switch with
  | .dump => if g.dump then again else .ok { g with dump := true }
  | .quiet => if g.quiet then again else .ok { g with quiet := true }
  | .verbose => if g.verbose then again else .ok { g with verbose := true }

/-- Takes the path of the program. -/
def setPath (g : Given) (path : String) : Except Stop Given :=
  if g.path.isSome then .error (.usage (.secondPath path))
  else if path.isEmpty then .error (.usage .emptyPath)
  else .ok { g with path := some path }

/-! ## Reading -/

/-- Reads a long option, `--` removed. -/
def readLong (g : Given) (argument : List Char) : Except Stop Given :=
  let name := String.ofList (argument.takeWhile (· ≠ '='))
  let attached := argument.dropWhile (· ≠ '=')
  match Opt.ofLong? name, attached with
  | none, _ => .error (.usage (.unknownArgument name))
  | some (.value option), [] => .ok { g with awaiting := some option }
  | some (.value option), _ :: value => g.setValue option (String.ofList value)
  | some _, _ :: _ => .error (.usage (.unexpectedValue name))
  | some (.switch switch), [] => g.setSwitch switch
  | some (.inquiry inquiry), [] => .error (.answer inquiry)

/-- The value that is attached to a short option, without a `=` in front. -/
def attachedValue : List Char → List Char
  | '=' :: value => value
  | value => value

/-- Reads short options that share one dash. -/
def readShorts (g : Given) : List Char → Except Stop Given
  | [] => .ok g
  | name :: rest =>
    match Opt.ofShort? name with
    | none => .error (.usage (.unknownArgument (String.singleton name)))
    | some (.value option) =>
      if rest.isEmpty then .ok { g with awaiting := some option }
      else g.setValue option (String.ofList (attachedValue rest))
    | some (.switch switch) => do (← g.setSwitch switch).readShorts rest
    | some (.inquiry inquiry) => .error (.answer inquiry)

/-- Whether an argument has the form of an option: a dash alone has not. -/
def looksLikeOption : List Char → Bool
  | '-' :: _ :: _ => true
  | _ => false

/-- Reads one argument. -/
def readArgument (g : Given) (argument : String) : Except Stop Given :=
  let chars := argument.toList
  match g.awaiting with
  | some .code => g.setValue .code argument
  | some option =>
    if looksLikeOption chars then .error (.usage (.missingValue option))
    else g.setValue option argument
  | none =>
    if g.optionsEnded then g.setPath argument
    else match chars with
      | ['-', '-'] => .ok { g with optionsEnded := true }
      | '-' :: '-' :: long => g.readLong long
      | '-' :: short :: more => g.readShorts (short :: more)
      | _ => g.setPath argument

/-- The request, once all arguments have been read. -/
def finish (g : Given) : Except Stop Invocation :=
  match g.awaiting, g.path, g.code with
  | some option, _, _ => .error (.usage (.missingValue option))
  | none, none, none => .error (.usage .noProgram)
  | none, some _, some _ => .error (.usage .twoPrograms)
  | none, some path, none => .ok ⟨.file path, g.settings, g.dump, g.quiet, g.verbose⟩
  | none, none, some code => .ok ⟨.inline code, g.settings, g.dump, g.quiet, g.verbose⟩

end Given

/-- What the arguments ask for. -/
def parseArguments (arguments : List String) : Except Stop Invocation :=
  arguments.foldlM Given.readArgument Given.nothing >>= Given.finish

/-! ## Without a run -/

/-- What `--help` prints. -/
def helpText : String :=
  "An interpreter for brainfuck scripts.\n\n" ++
  "Usage: bf [OPTIONS] <file-path|--code <CODE>>\n\n" ++
  "Arguments:\n" ++
  "  [file-path]  Path to the brainfuck script (.b or .bf)\n\n" ++
  "Options:\n" ++
  "  -e, --code <CODE>           Run CODE instead of a script file\n" ++
  "  -c, --cell-size <BITS>      Size of each memory cell in bits: 4, 8, 16 or 32 " ++
    "(fallback BF_CELL_SIZE; default 8)\n" ++
  "  -m, --memory-size <CELLS>   Number of cells in memory " ++
    "(fallback BF_MEMORY_SIZE; default 30000)\n" ++
  "  -r, --runtime-units <UNIT>  Units to report runtime in " ++
    "(fallback BF_RUNTIME_UNITS; default ms) [possible values: ns, us, ms, s]\n" ++
  "      --eof <POLICY>          What ',' does at end of input " ++
    "(fallback BF_EOF; default error) [possible values: error, zero, unchanged]\n" ++
  "      --dump                  Print the compiled program instead of executing it\n" ++
  "  -q, --quiet                 Do not print the timing report\n" ++
  "  -v, --verbose               Log compiler and tape activity to stderr\n" ++
  "  -h, --help                  Print help\n" ++
  "  -V, --version               Print version\n"

/-- The line that `--version` prints. -/
def versionLine : String := "bf 0.1.0\n"

/-- What `--help` and `--version` print. -/
def Inquiry.answer : Inquiry → String
  | .help => helpText
  | .version => versionLine

/-- What is left behind if the arguments ask for no run: an answer, or exit code 2 and a message. -/
def Stop.report : Stop → CliReport
  | .answer inquiry => ⟨0, inquiry.answer.toUTF8.data.toList, []⟩
  | .usage e =>
    ⟨2, [], [.error s!"error: {e.message}\n\nFor more information, try '--help'.\n"]⟩

end TapeMachine.Cli
