import TapeMachine.Cli.Unix

/-! # The program

The outer layer: it looks up arguments, variables and files, feeds standard input to the machine as
it is asked for, and passes on what the machine writes.
-/

namespace TapeMachine.Cli

/-- What stands at a path of the real disk. -/
def probeDisk (path : String) : IO Probe := do
  try
    let bytes ← IO.FS.readBinFile path
    return .content bytes.data.toList
  catch
    | .noFileOrDirectory .. | .inappropriateType .. | .invalidArgument .. | .noSuchThing .. =>
      return .absent
    | e => return .unreadable (toString e)

/-- The variables that the program looks at. -/
def variableNames : List String :=
  ["BF_CONFIG", "XDG_CONFIG_HOME", "HOME", "RUST_LOG", "BF_CELL_SIZE", "BF_MEMORY_SIZE",
   "BF_RUNTIME_UNITS", "BF_EOF"]

/-- The part of the environment that the program looks at. -/
def readEnvironment : IO Environment := do
  let values ← variableNames.mapM fun name => return (name, ← IO.getEnv name)
  return fun name => (values.find? (·.1 == name)).bind (·.2)

/-- The part of the disk that the program looks at. -/
def readDisk (env : Environment) (source : ProgramSource) : IO Disk := do
  let paths := (settingsPath? unix.configHome env).toList ++ match source with
    | .file path => [path]
    | .inline _ => []
  let found ← paths.mapM fun path => return (path, ← probeDisk path)
  return fun path => ((found.find? (·.1 == path)).map (·.2)).getD .absent

/-- The fault that a failed call of the system amounts to. -/
def faultOf (e : IO.Error) : Fault := ⟨.other, toString e⟩

/-- Gives the machine the answer to its next read, if its next node reads. -/
def supply (input : IO.FS.Stream) (todo : Program) (m : Machine) : IO Machine := do
  match todo, m.streams.reads with
  | .act .input _ :: _, [] =>
    let reply : ReadReply ← try
        match (← input.read 1).data.toList with
        | [] => pure .endOfInput
        | value :: _ => pure (.byte value)
      catch e => pure (.fault (faultOf e))
    return { m with streams := { m.streams with reads := [reply] } }
  | _, _ => return m

/-- Passes on what the machine wrote, and forgets the calls. -/
def deliver (output : IO.FS.Stream) (m : Machine) : IO Machine := do
  if m.streams.trace.isEmpty then return m
  let bytes := m.streams.output
  unless bytes.isEmpty do output.write ⟨bytes.toArray⟩
  if m.streams.flushCount ≠ 0 then output.flush
  return { m with streams := { m.streams with trace := [] } }

/-- Executes nodes to the end, or up to the first byte that cannot be passed on. -/
partial def drive (input output : IO.FS.Stream) (todo : Program) (m : Machine) : IO Outcome := do
  let m ← supply input todo m
  match m.step todo with
  | .next todo m =>
    match ← (deliver output m).toBaseIO with
    | .ok m => drive input output todo m
    | .error e => return ⟨some (.stream (faultOf e)), m⟩
  | .halt outcome => return outcome

/-- Prints what a report has for standard error, and gives back its exit code. -/
def announce (times : TimeUnit → String) (report : CliReport) : IO UInt32 := do
  let stderr ← IO.getStderr
  stderr.putStr (report.stderr Event.line times)
  stderr.flush
  return UInt32.ofNat report.exitCode

/-- Prints a report that needs no execution, and gives back its exit code. -/
def present (report : CliReport) : IO UInt32 := do
  let stdout ← IO.getStdout
  stdout.write ⟨report.stdout.toArray⟩
  stdout.flush
  announce (fun _ => "") report

/-- Works off an invocation. -/
def perform (invocation : Invocation) : IO UInt32 := do
  let env ← readEnvironment
  let disk ← readDisk env invocation.source
  let terminal ← (← IO.getStderr).isTty
  let shown := unix.shown env invocation.verbose
  match gather unix terminal invocation env disk with
  | .error report => present (report.filtered shown)
  | .ok a =>
    if invocation.dump then
      present ((a.listingReport unix terminal).filtered shown)
    else
      let conclude := fun result => (a.conclude unix terminal invocation.quiet result).filtered shown
      let start ← IO.monoNanosNow
      let compiled ← IO.lazyPure fun _ => Program.ofText a.code
      let middle ← IO.monoNanosNow
      match compiled with
      | .error e => present (conclude (.refused e))
      | .ok program =>
        -- what is known before the execution is printed before it
        let begun := CliReport.filtered shown ⟨0, [], a.notices ++ [a.compiledNotice program]⟩
        let _ ← present begun
        let machine := a.settings.machine (Streams.ofBytes [])
        let outcome ← drive (← IO.getStdin) (← IO.getStdout) program machine
        let finish ← IO.monoNanosNow
        let times : PhaseTimes := ⟨⟨middle - start⟩, ⟨finish - middle⟩⟩
        let report := conclude (.executed program outcome)
        announce times.summary { report with notices := report.notices.drop begun.notices.length }

end TapeMachine.Cli

/-- The program. -/
def main (arguments : List String) : IO UInt32 := do
  match TapeMachine.Cli.unix.request arguments with
  | .error report => TapeMachine.Cli.present report
  | .ok invocation => TapeMachine.Cli.perform invocation
