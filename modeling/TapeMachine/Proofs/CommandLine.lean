import TapeMachine.Cli.Unix
import TapeMachine.Proofs.Layering
import TapeMachine.Proofs.Simulation

/-! # What a command comes to

An invocation fails before anything is executed, or shows a listing, or executes a program. Its exit
code and its standard output depend on nothing else. This holds on every platform.

* `FileBinds`: what the settings file says, wherever the platform keeps it.
* `Invocation.Compiles`: the settings resolve, the program is found and it compiles. Whether an
  invocation does so decides what is gathered (`gather_of_compiles`, `gather_of_not_compiles`).
* `runInvocation_failure`, `runInvocation_listing`, `runInvocation_execution`: the result in each of
  the three cases.
* `runInvocation_result_congr`: invocations that compile alike have the same result.
* `runCommand_result`: the result of a command, and what does not change it.
-/

namespace TapeMachine

/-! ## Model -/

/-- Where the settings file is: `BF_CONFIG` names it, or it is kept with the user's
configuration. -/
inductive SettingsAt (home : ConfigHome) (env : Environment) : String → Prop where
  | named {path : String} : env "BF_CONFIG" = some path → SettingsAt home env path
  | kept {dir : String} :
      env "BF_CONFIG" = none → home env = some dir → SettingsAt home env (joinPath dir "bf.toml")

/-- What the settings file says: the bindings of its text, or nothing if there is no text. -/
inductive FileBinds (home : ConfigHome) (env : Environment) (disk : Disk) : Bindings → Prop where
  | text {path text : String} :
      SettingsAt home env path → (disk path).text? = some text →
      FileBinds home env disk (.ofText text)
  | nothing :
      (∀ path, SettingsAt home env path → (disk path).text? = none) → FileBinds home env disk []

namespace Cli

/-- The code that a source gives: the commands of a text, or of a file with a program's name. -/
inductive ProgramSource.Gives (disk : Disk) : ProgramSource → String → Prop where
  | inline {text : String} : Gives disk (.inline text) (commandsOfText text)
  | file {path : String} {bytes : List UInt8} :
      disk path = .content bytes → ProgramFile.isNamed path = true →
      Gives disk (.file path) (commandsOfBytes bytes)

/-- The settings resolve, the program is found, and it compiles. -/
structure Invocation.Compiles (i : Invocation) (home : ConfigHome) (env : Environment)
    (disk : Disk) (settings : Settings) (program : Program) : Prop where
  settings_eq : ∃ bindings, FileBinds home env disk bindings ∧
    Settings.resolve i.settings env bindings = .ok settings
  program_eq : ∃ code, i.source.Gives disk code ∧ Program.ofText code = .ok program

/-- The exit code and the standard output. -/
def CliReport.result (r : CliReport) : Nat × List UInt8 := (r.exitCode, r.stdout)

/-- The exit code and the standard output of an execution with this outcome. -/
def executionResult (o : Outcome) : Nat × List UInt8 :=
  (if o.error?.isSome then 1 else 0, o.machine.streams.output)

/-- The result of an invocation: it fails before anything is executed, or shows a listing, or
executes a program. -/
inductive Invocation.Results (i : Invocation) (home : ConfigHome) (env : Environment)
    (disk : Disk) (streams : Streams) : Nat × List UInt8 → Prop where
  | failure :
      (¬∃ settings program, i.Compiles home env disk settings program) →
      Results i home env disk streams (1, [])
  | listing {settings : Settings} {program : Program} :
      i.Compiles home env disk settings program → i.dump = true →
      Results i home env disk streams (0, program.listing.toUTF8.data.toList)
  | execution {settings : Settings} {program : Program} {o : Outcome} :
      i.Compiles home env disk settings program → i.dump = false →
      Machine.RunsTo program (settings.machine streams) o →
      Results i home env disk streams (executionResult o)

/-- The command with these arguments ends, and leaves this report behind. -/
def CommandEnds (platform : Platform) (terminal : Bool) (arguments : List String)
    (env : Environment) (disk : Disk) (streams : Streams) (report : CliReport) : Prop :=
  ∃ steps, runCommand platform terminal steps arguments env disk streams = some report

/-- Where the user's configuration is kept has nothing to do with what is to be logged. -/
def Platform.HomeIgnoresLog (platform : Platform) : Prop :=
  ∀ env env' : Environment, (∀ name, name ≠ "RUST_LOG" → env' name = env name) →
    platform.configHome env' = platform.configHome env

theorem unix_homeIgnoresLog : unix.HomeIgnoresLog := by
  intro env env' henv
  simp only [unix, henv "HOME" (by decide), henv "XDG_CONFIG_HOME" (by decide)]

end Cli

/-! ## The settings file -/

section

variable {home : ConfigHome} {env : Environment} {disk : Disk}

theorem settingsPath?_eq_some_iff {path : String} :
    settingsPath? home env = some path ↔ SettingsAt home env path := by
  unfold settingsPath?
  constructor
  · intro h
    cases hconfig : env "BF_CONFIG" with
    | some named =>
      rw [hconfig] at h
      cases h
      exact .named hconfig
    | none =>
      rw [hconfig] at h
      obtain ⟨dir, hdir, rfl⟩ := Option.map_eq_some_iff.mp h
      exact .kept hconfig hdir
  · intro h
    cases h with
    | named hconfig => rw [hconfig]
    | kept hconfig hdir => rw [hconfig, hdir, Option.map_some]

theorem settingsFile?_eq_some_iff {path text : String} :
    settingsFile? home env disk = some (path, text) ↔
      SettingsAt home env path ∧ (disk path).text? = some text := by
  simp only [settingsFile?, Option.bind_eq_bind, Option.bind_eq_some_iff, Option.pure_def,
    Option.some.injEq, Prod.mk.injEq, settingsPath?_eq_some_iff]
  constructor
  · rintro ⟨path', hpath, text', htext, rfl, rfl⟩
    exact ⟨hpath, htext⟩
  · rintro ⟨hpath, htext⟩
    exact ⟨path, hpath, text, htext, rfl, rfl⟩

theorem fileBinds_iff {bindings : Bindings} :
    FileBinds home env disk bindings ↔ settingsBindings home env disk = bindings := by
  constructor
  · intro h
    cases h with
    | text hpath htext =>
      rw [settingsBindings, settingsFile?_eq_some_iff.mpr ⟨hpath, htext⟩]
    | nothing hnone =>
      cases hfile : settingsFile? home env disk with
      | none => rw [settingsBindings, hfile]
      | some file =>
        obtain ⟨hpath, htext⟩ := settingsFile?_eq_some_iff.mp hfile
        rw [hnone _ hpath] at htext
        cases htext
  · rintro rfl
    cases hfile : settingsFile? home env disk with
    | some file =>
      obtain ⟨hpath, htext⟩ := settingsFile?_eq_some_iff.mp hfile
      rw [settingsBindings, hfile]
      exact .text hpath htext
    | none =>
      rw [settingsBindings, hfile]
      refine .nothing fun path hpath => ?_
      cases htext : (disk path).text? with
      | none => rfl
      | some text =>
        rw [settingsFile?_eq_some_iff.mpr ⟨hpath, htext⟩] at hfile
        cases hfile

/-- Settings are loaded by resolving them against what the settings file says. -/
theorem load_eq_ok_iff {given : ExplicitSettings} {settings : Settings} :
    Settings.load home given env disk = .ok settings ↔
      ∃ bindings, FileBinds home env disk bindings ∧
        Settings.resolve given env bindings = .ok settings := by
  simp only [fileBinds_iff, exists_eq_left', Settings.load]

end

namespace Cli

/-! ## Before the execution -/

section

variable {platform : Platform} {terminal : Bool} {i i' : Invocation} {home : ConfigHome}
  {env env' : Environment} {disk disk' : Disk} {settings : Settings} {program : Program}

theorem fetchCode_eq_ok_iff {source : ProgramSource} {code : String} :
    (∃ loading, fetchCode disk source = .ok (code, loading)) ↔ source.Gives disk code := by
  constructor
  · rintro ⟨loading, h⟩
    cases source with
    | inline text =>
      cases h
      exact .inline
    | file path =>
      unfold fetchCode ProgramFile.load at h
      cases hprobe : disk path with
      | absent => simp [hprobe] at h
      | unreadable why => cases hname : ProgramFile.isNamed path <;> simp [hprobe, hname] at h
      | content bytes =>
        cases hname : ProgramFile.isNamed path with
        | false => simp [hprobe, hname] at h
        | true =>
          simp only [hprobe, hname, if_true, Except.ok.injEq, Prod.mk.injEq] at h
          obtain ⟨rfl, -⟩ := h
          exact .file hprobe hname
  · intro h
    cases h with
    | inline => exact ⟨[], rfl⟩
    | file hprobe hname => simp [fetchCode, ProgramFile.load, hprobe, hname]

/-- An invocation does not compile, or does and shows a listing, or does and executes a program. -/
theorem compiles_cases (i : Invocation) (home : ConfigHome) (env : Environment) (disk : Disk) :
    (¬∃ settings program, i.Compiles home env disk settings program) ∨
    (∃ settings program, i.Compiles home env disk settings program ∧ i.dump = true) ∨
    (∃ settings program, i.Compiles home env disk settings program ∧ i.dump = false) := by
  by_cases hc : ∃ settings program, i.Compiles home env disk settings program
  · obtain ⟨settings, program, hc⟩ := hc
    cases hdump : i.dump with
    | true => exact Or.inr (Or.inl ⟨settings, program, hc, rfl⟩)
    | false => exact Or.inr (Or.inr ⟨settings, program, hc, rfl⟩)
  · exact Or.inl hc

/-- What compiles is gathered. -/
theorem gather_of_compiles (terminal : Bool)
    (h : i.Compiles platform.configHome env disk settings program) :
    ∃ a, gather platform terminal i env disk = .ok a ∧ a.settings = settings ∧
      Program.ofText a.code = .ok program := by
  obtain ⟨code, hgives, hprogram⟩ := h.program_eq
  obtain ⟨loading, hcode⟩ := fetchCode_eq_ok_iff.mpr hgives
  simp only [gather, load_eq_ok_iff.mpr h.settings_eq, hcode]
  exact ⟨_, rfl, rfl, hprogram⟩

/-- What does not compile is not gathered, or its code is refused. -/
theorem gather_of_not_compiles (terminal : Bool)
    (h : ¬∃ settings program, i.Compiles platform.configHome env disk settings program) :
    (∃ notices, gather platform terminal i env disk = .error ⟨1, [], notices⟩) ∨
    (∃ a e, gather platform terminal i env disk = .ok a ∧ Program.ofText a.code = .error e) := by
  cases hsettings : Settings.load platform.configHome i.settings env disk with
  | error e =>
    simp only [gather, hsettings]
    exact Or.inl ⟨_, rfl⟩
  | ok settings =>
    cases hcode : fetchCode disk i.source with
    | error e =>
      simp only [gather, hsettings, hcode]
      exact Or.inl ⟨_, rfl⟩
    | ok fetched =>
      obtain ⟨code, loading⟩ := fetched
      cases hprogram : Program.ofText code with
      | error e =>
        simp only [gather, hsettings, hcode]
        exact Or.inr ⟨_, e, rfl, hprogram⟩
      | ok program =>
        have hgives := fetchCode_eq_ok_iff.mp ⟨loading, hcode⟩
        exact absurd ⟨settings, program, load_eq_ok_iff.mp hsettings, code, hgives, hprogram⟩ h

theorem ProgramSource.Gives.unique {source : ProgramSource} {code code' : String}
    (h : source.Gives disk code) (h' : source.Gives disk code') : code = code' := by
  obtain ⟨loading, hcode⟩ := fetchCode_eq_ok_iff.mpr h
  obtain ⟨loading', hcode'⟩ := fetchCode_eq_ok_iff.mpr h'
  rw [hcode] at hcode'
  cases hcode'
  rfl

/-- An invocation compiles to one program, with one choice of settings. -/
theorem Invocation.Compiles.unique {settings' : Settings} {program' : Program}
    (h : i.Compiles home env disk settings program)
    (h' : i.Compiles home env disk settings' program') :
    settings = settings' ∧ program = program' := by
  obtain ⟨code, hgives, hprogram⟩ := h.program_eq
  obtain ⟨code', hgives', hprogram'⟩ := h'.program_eq
  cases hgives.unique hgives'
  have hload := load_eq_ok_iff.mpr h.settings_eq
  have hload' := load_eq_ok_iff.mpr h'.settings_eq
  exact ⟨Except.ok.inj (hload.symm.trans hload'), Except.ok.inj (hprogram.symm.trans hprogram')⟩

/-! ## Results -/

@[simp]
theorem result_filtered (r : CliReport) (shown : EventFilter) :
    (r.filtered shown).result = r.result := rfl

@[simp]
theorem result_conclude_executed (quiet : Bool) (a : Assembly) (program : Program) (o : Outcome) :
    (a.conclude platform terminal quiet (.executed program o)).result =
      executionResult (Machine.settle o) := by
  simp only [Assembly.conclude, CliReport.result, executionResult, Interpretation.error?,
    Interpretation.output, Option.isSome_map]

/-- The streams are of no importance to an invocation that fails before the execution. -/
theorem runInvocation_failure (terminal : Bool)
    (h : ¬∃ settings program, i.Compiles platform.configHome env disk settings program) :
    ∃ report, report.result = (1, []) ∧
      ∀ steps streams, runInvocation platform terminal steps i env disk streams = some report := by
  rcases gather_of_not_compiles terminal h with ⟨notices, hgather⟩ | ⟨a, e, hgather, hcode⟩
  · refine ⟨⟨1, [], notices⟩, rfl, ?_⟩
    intro steps streams
    simp only [runInvocation, hgather]
  · cases hdump : i.dump with
    | true =>
      refine ⟨a.listingReport platform terminal, ?_, ?_⟩
      · simp only [Assembly.listingReport, hcode, CliReport.result]
      · intro steps streams
        simp only [runInvocation, hgather, hdump, if_true]
    | false =>
      refine ⟨a.conclude platform terminal i.quiet (.refused e), rfl, ?_⟩
      intro steps streams
      simp only [runInvocation, hgather, hdump, interpret, hcode, Bool.false_eq_true, if_false,
        Option.map_some]

/-- Nor are they to one that shows a listing. -/
theorem runInvocation_listing (terminal : Bool)
    (h : i.Compiles platform.configHome env disk settings program) (hdump : i.dump = true) :
    ∃ report, report.result = (0, program.listing.toUTF8.data.toList) ∧
      ∀ steps streams, runInvocation platform terminal steps i env disk streams = some report := by
  obtain ⟨a, hgather, -, hcode⟩ := gather_of_compiles terminal h
  refine ⟨a.listingReport platform terminal, ?_, ?_⟩
  · simp only [Assembly.listingReport, hcode, CliReport.result]
  · intro steps streams
    simp only [runInvocation, hgather, hdump, if_true]

/-- An execution has the result of a run of the program. -/
theorem runInvocation_execution (terminal : Bool)
    (h : i.Compiles platform.configHome env disk settings program) (hdump : i.dump = false)
    (steps : Nat) (streams : Streams) :
    (runInvocation platform terminal steps i env disk streams).map CliReport.result =
      (Machine.run steps program (settings.machine streams)).map executionResult := by
  obtain ⟨a, hgather, rfl, hcode⟩ := gather_of_compiles terminal h
  simp only [runInvocation, hgather, hdump, interpret, hcode, Machine.run, Bool.false_eq_true,
    if_false, Option.map_map, Function.comp_def, result_conclude_executed]

/-- Invocations that compile alike have the same result. -/
theorem runInvocation_result_congr (hdump : i'.dump = i.dump)
    (hcompiles : ∀ settings program,
      i'.Compiles platform.configHome env' disk' settings program ↔
        i.Compiles platform.configHome env disk settings program)
    (steps : Nat) (streams : Streams) :
    (runInvocation platform terminal steps i' env' disk' streams).map CliReport.result =
      (runInvocation platform terminal steps i env disk streams).map CliReport.result := by
  rcases compiles_cases i platform.configHome env disk with
    h | ⟨settings, program, h, hd⟩ | ⟨settings, program, h, hd⟩
  · have h' : ¬∃ settings program,
        i'.Compiles platform.configHome env' disk' settings program := by
      simpa only [hcompiles] using h
    obtain ⟨report, hreport, hrun⟩ := runInvocation_failure terminal h
    obtain ⟨report', hreport', hrun'⟩ := runInvocation_failure terminal h'
    rw [hrun, hrun', Option.map_some, Option.map_some, hreport, hreport']
  · have h' := (hcompiles settings program).mpr h
    obtain ⟨report, hreport, hrun⟩ := runInvocation_listing terminal h hd
    obtain ⟨report', hreport', hrun'⟩ := runInvocation_listing terminal h' (hdump.trans hd)
    rw [hrun, hrun', Option.map_some, Option.map_some, hreport, hreport']
  · have h' := (hcompiles settings program).mpr h
    rw [runInvocation_execution terminal h hd, runInvocation_execution terminal h' (hdump.trans hd)]

/-- The settings do not depend on what is to be logged. -/
theorem load_congr (hhome : platform.HomeIgnoresLog)
    (henv : ∀ name, name ≠ "RUST_LOG" → env' name = env name) (given : ExplicitSettings)
    (disk : Disk) :
    Settings.load platform.configHome given env' disk =
      Settings.load platform.configHome given env disk := by
  have hbindings : settingsBindings platform.configHome env' disk =
      settingsBindings platform.configHome env disk := by
    simp only [settingsBindings, settingsFile?, settingsPath?, henv "BF_CONFIG" (by decide),
      hhome env env' henv]
  unfold Settings.load
  rw [hbindings]
  apply Settings.resolve_congr <;>
    exact ⟨fun _ => henv _ (by decide), fun _ _ => rfl⟩

/-- What compiles is the same, whatever is to be logged or reported. -/
theorem compiles_congr (hhome : platform.HomeIgnoresLog)
    (henv : ∀ name, name ≠ "RUST_LOG" → env' name = env name) (quiet verbose : Bool) :
    Invocation.Compiles { i with quiet, verbose } platform.configHome env' disk settings program ↔
      i.Compiles platform.configHome env disk settings program := by
  have hload := load_congr hhome henv i.settings disk
  constructor
  · rintro ⟨hsettings, hprogram⟩
    exact ⟨load_eq_ok_iff.mp (hload.symm.trans (load_eq_ok_iff.mpr hsettings)), hprogram⟩
  · rintro ⟨hsettings, hprogram⟩
    exact ⟨load_eq_ok_iff.mp (hload.trans (load_eq_ok_iff.mpr hsettings)), hprogram⟩

/-- What is logged or reported makes no difference to the result. -/
theorem runInvocation_result_logging (hhome : platform.HomeIgnoresLog)
    (henv : ∀ name, name ≠ "RUST_LOG" → env' name = env name) (quiet verbose : Bool) (steps : Nat)
    (streams : Streams) :
    (runInvocation platform terminal steps { i with quiet, verbose } env' disk streams).map
        CliReport.result =
      (runInvocation platform terminal steps i env disk streams).map CliReport.result := by
  apply runInvocation_result_congr
  · rfl
  · intro settings program
    exact compiles_congr hhome henv quiet verbose

/-- The numbers of steps that suffice all lead to the same interpretation. -/
theorem interpret_unique {n n' : Nat} {streams : Streams} {code : String}
    {result result' : Interpretation} (h : interpret n settings streams code = some result)
    (h' : interpret n' settings streams code = some result') : result = result' := by
  unfold interpret at h h'
  cases hcode : Program.ofText code with
  | error e =>
    simp only [hcode, Option.some.injEq] at h h'
    exact h.symm.trans h'
  | ok program =>
    simp only [hcode, Option.map_eq_some_iff] at h h'
    obtain ⟨o, ho, rfl⟩ := h
    obtain ⟨o', ho', rfl⟩ := h'
    rw [Machine.execute_unique ho ho']

/-- And to the same report. -/
theorem runInvocation_unique {n n' : Nat} {streams : Streams} {report report' : CliReport}
    (h : runInvocation platform terminal n i env disk streams = some report)
    (h' : runInvocation platform terminal n' i env disk streams = some report') :
    report = report' := by
  unfold runInvocation at h h'
  cases hgather : gather platform terminal i env disk with
  | error r =>
    simp only [hgather, Option.some.injEq] at h h'
    exact h.symm.trans h'
  | ok a =>
    cases hdump : i.dump with
    | true =>
      simp only [hgather, hdump, if_true, Option.some.injEq] at h h'
      exact h.symm.trans h'
    | false =>
      simp only [hgather, hdump, Bool.false_eq_true, if_false, Option.map_eq_some_iff] at h h'
      obtain ⟨result, hresult, rfl⟩ := h
      obtain ⟨result', hresult', rfl⟩ := h'
      rw [interpret_unique hresult hresult']

/-- An invocation has one result. -/
theorem Invocation.Results.unique {streams : Streams} {result result' : Nat × List UInt8}
    (h : i.Results home env disk streams result) (h' : i.Results home env disk streams result') :
    result = result' := by
  cases h with
  | failure hnot =>
    cases h' with
    | failure _ => rfl
    | listing hc _ => exact absurd ⟨_, _, hc⟩ hnot
    | execution hc _ _ => exact absurd ⟨_, _, hc⟩ hnot
  | listing hc hdump =>
    cases h' with
    | failure hnot => exact absurd ⟨_, _, hc⟩ hnot
    | listing hc' _ => rw [(hc.unique hc').2]
    | execution _ hdump' _ => simp [hdump] at hdump'
  | execution hc hdump hrun =>
    cases h' with
    | failure hnot => exact absurd ⟨_, _, hc⟩ hnot
    | listing _ hdump' => simp [hdump] at hdump'
    | execution hc' _ hrun' =>
      obtain ⟨rfl, rfl⟩ := hc.unique hc'
      rw [hrun.unique hrun']

/-- The exit code is 0 exactly if every step succeeds. -/
theorem Invocation.Results.exitCode_eq_zero_iff {streams : Streams} {result : Nat × List UInt8}
    (h : i.Results home env disk streams result) :
    result.1 = 0 ↔ ∃ settings program, i.Compiles home env disk settings program ∧
      (i.dump = false → ∃ o, Machine.RunsTo program (settings.machine streams) o ∧
        o.error? = none) := by
  constructor
  · intro hzero
    cases h with
    | failure _ => cases hzero
    | listing hc hdump => exact ⟨_, _, hc, by simp [hdump]⟩
    | execution hc hdump hrun =>
      refine ⟨_, _, hc, fun _ => ⟨_, hrun, ?_⟩⟩
      simpa [executionResult] using hzero
  · rintro ⟨settings, program, hc, hruns⟩
    cases hdump : i.dump with
    | true => rw [h.unique (.listing hc hdump)]
    | false =>
      obtain ⟨o, hrun, hok⟩ := hruns hdump
      rw [h.unique (.execution hc hdump hrun), executionResult, hok]
      rfl

/-- There is no other exit code than 0 and 1. -/
theorem Invocation.Results.exitCode_cases {streams : Streams} {result : Nat × List UInt8}
    (h : i.Results home env disk streams result) : result.1 = 0 ∨ result.1 = 1 := by
  cases h with
  | failure _ => exact Or.inr rfl
  | listing _ _ => exact Or.inl rfl
  | execution _ _ _ =>
    unfold executionResult
    split
    · exact Or.inr rfl
    · exact Or.inl rfl

/-- What an invocation comes to is its result. -/
theorem results_of_runInvocation {steps : Nat} {streams : Streams} {report : CliReport}
    (h : runInvocation platform terminal steps i env disk streams = some report) :
    i.Results platform.configHome env disk streams report.result := by
  rcases compiles_cases i platform.configHome env disk with
    hc | ⟨settings, program, hc, hdump⟩ | ⟨settings, program, hc, hdump⟩
  · obtain ⟨report', hresult, hrun⟩ := runInvocation_failure terminal hc
    rw [runInvocation_unique h (hrun steps streams), hresult]
    exact .failure hc
  · obtain ⟨report', hresult, hrun⟩ := runInvocation_listing terminal hc hdump
    rw [runInvocation_unique h (hrun steps streams), hresult]
    exact .listing hc hdump
  · have hresult := runInvocation_execution terminal hc hdump steps streams
    rw [h, Option.map_some, eq_comm, Option.map_eq_some_iff] at hresult
    obtain ⟨o, hrun, ho⟩ := hresult
    rw [← ho]
    exact .execution hc hdump ⟨steps, hrun⟩

/-- An invocation comes to something if its program halts, should it be executed. -/
theorem exists_runInvocation (terminal : Bool) {streams : Streams}
    (hhalts : ∀ settings program, i.Compiles platform.configHome env disk settings program → i.dump = false →
      Machine.Halts program (settings.machine streams)) :
    ∃ steps report, runInvocation platform terminal steps i env disk streams = some report := by
  rcases compiles_cases i platform.configHome env disk with
    hc | ⟨settings, program, hc, hdump⟩ | ⟨settings, program, hc, hdump⟩
  · obtain ⟨report, _, hrun⟩ := runInvocation_failure terminal hc
    exact ⟨0, report, hrun 0 streams⟩
  · obtain ⟨report, _, hrun⟩ := runInvocation_listing terminal hc hdump
    exact ⟨0, report, hrun 0 streams⟩
  · obtain ⟨o, steps, ho⟩ := hhalts settings program hc hdump
    have hresult := runInvocation_execution terminal hc hdump steps streams
    rw [ho, Option.map_some, Option.map_eq_some_iff] at hresult
    obtain ⟨report, hrun, _⟩ := hresult
    exact ⟨steps, report, hrun⟩

/-! ## Commands -/

theorem runCommand_eq {arguments : List String} (hparse : platform.request arguments = .ok i)
    (steps : Nat) (env : Environment) (disk : Disk) (streams : Streams) :
    runCommand platform terminal steps arguments env disk streams =
      (runInvocation platform terminal steps i env disk streams).map
        (·.filtered (platform.shown env i.verbose)) := by
  rw [runCommand, hparse]

/-- A command has one report. -/
theorem CommandEnds.unique {arguments : List String} {streams : Streams}
    {report report' : CliReport}
    (h : CommandEnds platform terminal arguments env disk streams report)
    (h' : CommandEnds platform terminal arguments env disk streams report') : report = report' := by
  obtain ⟨n, hn⟩ := h
  obtain ⟨n', hn'⟩ := h'
  unfold runCommand at hn hn'
  cases hparse : platform.request arguments with
  | error stop =>
    simp only [hparse, Option.some.injEq] at hn hn'
    exact hn.symm.trans hn'
  | ok i =>
    simp only [hparse, Option.map_eq_some_iff] at hn hn'
    obtain ⟨r, hr, rfl⟩ := hn
    obtain ⟨r', hr', rfl⟩ := hn'
    rw [runInvocation_unique hr hr']

end

/-- The exit code and the standard output of a command whose arguments ask for a run, on any
platform and on any input, if the program, should it come to its execution, halts.

* The command ends, and with one report.
* The exit code is 0 if the settings resolve, the program is found, it compiles and, unless a
  listing is asked for, its run on a fresh machine ends without an error. Otherwise it is 1.
* Nothing is written if one of the steps before the run fails. A listing is written as it stands,
  and nothing is read. A run writes what the machine writes, also if it ends with an error.
* What is logged, and whether timings are reported, makes no difference: arguments that ask for the
  same but for these have the same result, and `RUST_LOG` can be set to anything. -/
theorem runCommand_result (platform : Platform) (hhome : platform.HomeIgnoresLog) (terminal : Bool)
    (arguments : List String) (i : Invocation) (env : Environment) (disk : Disk)
    (input : List UInt8) (hparse : platform.request arguments = .ok i)
    (hhalts : ∀ settings program, i.Compiles platform.configHome env disk settings program →
      i.dump = false →
      Machine.Halts program (.fresh (.zeros settings.memorySize settings.cellSize)
        settings.endPolicy (.ofBytes input))) :
    ∃ report, CommandEnds platform terminal arguments env disk (.ofBytes input) report ∧
      (∀ other, CommandEnds platform terminal arguments env disk (.ofBytes input) other →
        other = report) ∧
      (report.exitCode = 0 ↔
        ∃ settings program, i.Compiles platform.configHome env disk settings program ∧
          (i.dump = false → ∃ o, Machine.RunsTo program
            (.fresh (.zeros settings.memorySize settings.cellSize) settings.endPolicy
              (.ofBytes input)) o ∧ o.error? = none)) ∧
      (report.exitCode = 0 ∨ report.exitCode = 1) ∧
      ((¬∃ settings program, i.Compiles platform.configHome env disk settings program) →
        report.stdout = []) ∧
      (∀ settings program, i.Compiles platform.configHome env disk settings program →
        i.dump = true →
        report.stdout = program.listing.toUTF8.data.toList ∧
        ∀ steps streams,
          runCommand platform terminal steps arguments env disk streams = some report) ∧
      (∀ settings program o, i.Compiles platform.configHome env disk settings program →
        i.dump = false →
        Machine.RunsTo program (.fresh (.zeros settings.memorySize settings.cellSize)
          settings.endPolicy (.ofBytes input)) o →
        report.stdout = o.machine.streams.output) ∧
      (∀ arguments' quiet verbose env',
        platform.request arguments' = .ok { i with quiet, verbose } →
        (∀ name, name ≠ "RUST_LOG" → env' name = env name) →
        ∀ steps streams,
          (runCommand platform terminal steps arguments' env' disk streams).map CliReport.result =
            (runCommand platform terminal steps arguments env disk streams).map
              CliReport.result) := by
  obtain ⟨steps, report, hrun⟩ := exists_runInvocation terminal hhalts
  have hresults := results_of_runInvocation hrun
  have hends : CommandEnds platform terminal arguments env disk (.ofBytes input)
      (report.filtered (platform.shown env i.verbose)) := by
    refine ⟨steps, ?_⟩
    rw [runCommand_eq hparse, hrun, Option.map_some]
  refine ⟨_, hends, fun other hother => hother.unique hends, ?_, ?_, ?_, ?_, ?_, ?_⟩
  · exact hresults.exitCode_eq_zero_iff
  · exact hresults.exitCode_cases
  · intro hnot
    exact congrArg Prod.snd (hresults.unique (.failure hnot))
  · intro settings program hc hdump
    refine ⟨congrArg Prod.snd (hresults.unique (.listing hc hdump)), ?_⟩
    obtain ⟨report', _, hany⟩ := runInvocation_listing terminal hc hdump
    intro steps' streams
    rw [runCommand_eq hparse, hany, runInvocation_unique hrun (hany steps _), Option.map_some]
  · intro settings program o hc hdump ho
    exact congrArg Prod.snd (hresults.unique (.execution hc hdump ho))
  · intro arguments' quiet verbose env' hparse' henv steps' streams
    simp only [runCommand_eq hparse, runCommand_eq hparse', Option.map_map, Function.comp_def,
      result_filtered]
    exact runInvocation_result_logging hhome henv quiet verbose steps' streams

/-- The byte that was written before the input ran out is there, and the exit code tells of the
error. -/
theorem runCommand_result_exhausted :
    ∃ report, CommandEnds unix true ["-m", "1", "-e", "+.,"]
        (fun name => if name = "HOME" then some "/home/user" else none) (fun _ => .absent)
        (.ofBytes []) report ∧
      report.exitCode = 1 ∧ report.stdout = [1] := by
  generalize henv : (fun name => if name = "HOME" then some "/home/user" else none :
    Environment) = env
  have hparse : unix.request ["-m", "1", "-e", "+.,"] =
      .ok ⟨.inline "+.,", ⟨none, some 1, none, none⟩, false, false, false⟩ := by
    rfl
  have hcompiles : Invocation.Compiles
      ⟨.inline "+.,", ⟨none, some 1, none, none⟩, false, false, false⟩ unix.configHome env
      (fun _ => .absent) ⟨.bits8, 1, .millisecond, .fail⟩
      [.act .add 1, .act .output 1, .act .input 1] := by
    refine ⟨⟨[], .nothing fun _ _ => rfl, ?_⟩, _, .inline, by rfl⟩
    rw [← henv]
    rfl
  obtain ⟨o, hrun, herror, houtput⟩ : ∃ o,
      Machine.run 3 [.act .add 1, .act .output 1, .act .input 1]
        (.fresh (.zeros 1 .bits8) .fail (.ofBytes [])) = some o ∧
      o.error? = some .noInput ∧ o.machine.streams.output = [1] :=
    ⟨_, rfl, rfl, rfl⟩
  have hhalts : Machine.RunsTo _ _ o := ⟨3, hrun⟩
  obtain ⟨report, hends, -, hzero, hexit, -, -, hstdout, -⟩ :=
    runCommand_result unix unix_homeIgnoresLog true ["-m", "1", "-e", "+.,"] _ env
      (fun _ => .absent) [] hparse (by
        intro settings program hcompiles' _
        obtain ⟨rfl, rfl⟩ := hcompiles.unique hcompiles'
        exact ⟨o, hhalts⟩)
  refine ⟨report, hends, hexit.resolve_left ?_, ?_⟩
  · intro hsuccess
    obtain ⟨settings, program, hcompiles', hruns⟩ := hzero.mp hsuccess
    obtain ⟨rfl, rfl⟩ := hcompiles.unique hcompiles'
    obtain ⟨o', ho', hnone⟩ := hruns rfl
    rw [hhalts.unique ho', hnone] at herror
    cases herror
  · rw [hstdout _ _ o hcompiles rfl hhalts, houtput]

end Cli

end TapeMachine
