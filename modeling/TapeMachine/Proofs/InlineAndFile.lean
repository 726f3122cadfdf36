import TapeMachine.Cli.Unix

/-! # Code given inline and code in a file

A program is the same whether its text is given inline or stands in a file. Inline, the commands are
picked from the characters of the text; in a file, from the bytes. A byte of a character that takes
several is never a command.

* `filter_utf8EncodeChar`: so it is with one character, and `commandsOfText_eq_commandsOfBytes` with
  a text.
* `CliReport.withoutLoading`: a report without the event that a program file was read. Up to this
  event both ways gather the same (`gather_file`) and lead to the same report
  (`runInvocation_file`).
* `inline_agrees_with_file`: all of it together, for commands on any platform.
-/

namespace TapeMachine

/-! ## Commands among bytes -/

/-- The commands are ASCII characters. -/
theorem toNat_lt_of_isCommand {c : Char} (h : isCommand c = true) : c.toNat < 128 := by
  have hall : ∀ d ∈ commandChars, d.toNat < 128 := by
    simp [commandChars]
  exact hall c (List.contains_iff_mem.mp h)

theorem toNat_charOfByte (b : UInt8) : (Char.ofNat b.toNat).toNat = b.toNat := by
  have hlt := b.toNat_lt
  have hvalid : b.toNat.isValidChar := Or.inl (by omega)
  unfold Char.ofNat
  rw [dif_pos hvalid]
  rfl

/-- A character that is not ASCII is encoded by bytes that are not ASCII either. -/
theorem le_toNat_of_mem_utf8EncodeChar {c : Char} (hc : 128 ≤ c.toNat) {b : UInt8}
    (hb : b ∈ String.utf8EncodeChar c) : 128 ≤ b.toNat := by
  have hval : c.val.toNat = c.toNat := rfl
  simp only [String.utf8EncodeChar, hval] at hb
  -- two, three or four bytes: the first is at least 192, each other one at least 128
  split at hb
  · omega
  · split at hb
    · simp only [List.mem_cons, List.not_mem_nil, or_false] at hb
      rcases hb with rfl | rfl <;> rw [UInt8.toNat_ofNat'] <;> omega
    · split at hb
      · simp only [List.mem_cons, List.not_mem_nil, or_false] at hb
        rcases hb with rfl | rfl | rfl <;> rw [UInt8.toNat_ofNat'] <;> omega
      · simp only [List.mem_cons, List.not_mem_nil, or_false] at hb
        rcases hb with rfl | rfl | rfl | rfl <;> rw [UInt8.toNat_ofNat'] <;> omega

/-- A character and its encoding hold the same commands: the character itself, or none. -/
theorem filter_utf8EncodeChar (c : Char) :
    ((String.utf8EncodeChar c).map fun b => Char.ofNat b.toNat).filter isCommand =
      [c].filter isCommand := by
  by_cases hc : c.toNat < 128
  · have hval : c.val.toNat = c.toNat := rfl
    have hencode : String.utf8EncodeChar c = [UInt8.ofNat c.toNat] := by
      unfold String.utf8EncodeChar
      simp only [hval, if_pos (Nat.le_of_lt_succ hc)]
    have hbyte : (UInt8.ofNat c.toNat).toNat = c.toNat := by
      rw [UInt8.toNat_ofNat']
      omega
    rw [hencode, List.map_singleton, hbyte, Char.ofNat_toNat]
  · have hnone : ∀ d, 128 ≤ d.toNat → ¬isCommand d = true := by
      intro d hd hcommand
      have := toNat_lt_of_isCommand hcommand
      omega
    rw [List.filter_eq_nil_iff.mpr, List.filter_eq_nil_iff.mpr]
    · simp only [List.mem_singleton, forall_eq]
      exact hnone c (by omega)
    · simp only [List.mem_map, forall_exists_index, and_imp, forall_apply_eq_imp_iff₂]
      intro b hb
      apply hnone
      rw [toNat_charOfByte]
      exact le_toNat_of_mem_utf8EncodeChar (by omega) hb

theorem toUTF8_eq_flatMap (s : String) :
    s.toUTF8.data.toList = s.toList.flatMap String.utf8EncodeChar := by
  rw [← String.ofList_toList (s := s), String.toUTF8_eq_toByteArray, String.toByteArray_ofList,
    String.toList_ofList, List.utf8Encode]
  exact List.toList_data_toByteArray

/-- The commands of a text are those of its encoding. -/
theorem commandsOfText_eq_commandsOfBytes (s : String) :
    commandsOfText s = commandsOfBytes s.toUTF8.data.toList := by
  unfold commandsOfText commandsOfBytes
  rw [toUTF8_eq_flatMap]
  induction s.toList with
  | nil => rfl
  | cons c rest ih =>
    rw [List.flatMap_cons, List.map_append, List.filter_append, filter_utf8EncodeChar,
      String.ofList_append, ← ih, ← String.ofList_append, ← List.filter_append,
      List.singleton_append]

theorem commandsOfBytes_append (a b : List UInt8) :
    commandsOfBytes (a ++ b) = commandsOfBytes a ++ commandsOfBytes b := by
  simp [commandsOfBytes, String.ofList_append]

theorem commandsOfText_commandsOfBytes (a : List UInt8) :
    commandsOfText (commandsOfBytes a) = commandsOfBytes a := by
  simp [commandsOfBytes, commandsOfText]

namespace Cli

/-! ## Up to loading -/

/-- Whether a notice says that a program file was read. -/
def Notice.isLoading : Notice → Bool
  | .event (.programLoaded _ _ _) => true
  | _ => false

/-- The notices that do not say that a program file was read. -/
def withoutLoading (notices : List Notice) : List Notice :=
  notices.filter (!·.isLoading)

/-- The report without the event that a program file was read. -/
def CliReport.withoutLoading (r : CliReport) : CliReport :=
  { r with notices := Cli.withoutLoading r.notices }

/-- What has been gathered, without the event that a program file was read. -/
def Assembly.withoutLoading (a : Assembly) : Assembly :=
  { a with notices := Cli.withoutLoading a.notices }

@[simp]
theorem withoutLoading_append (a b : List Notice) :
    withoutLoading (a ++ b) = withoutLoading a ++ withoutLoading b :=
  List.filter_append ..

@[simp]
theorem withoutLoading_idem (notices : List Notice) :
    withoutLoading (withoutLoading notices) = withoutLoading notices := by
  simp [withoutLoading]

section

variable (platform : Platform) (terminal : Bool)

/-- A listing does not look at what was reported before. -/
theorem listingReport_withoutLoading (a : Assembly) :
    (a.withoutLoading.listingReport platform terminal).withoutLoading =
      (a.listingReport platform terminal).withoutLoading := by
  unfold Assembly.listingReport
  simp only [Assembly.withoutLoading]
  cases Program.ofText a.code with
  | error e => simp [CliReport.withoutLoading]
  | ok program => simp [CliReport.withoutLoading, Assembly.compiledNotice]

/-- Nor does what follows an interpretation. -/
theorem conclude_withoutLoading (quiet : Bool) (a : Assembly) (result : Interpretation) :
    (a.withoutLoading.conclude platform terminal quiet result).withoutLoading =
      (a.conclude platform terminal quiet result).withoutLoading := by
  have hevents : a.withoutLoading.interpretationNotices result =
      a.interpretationNotices result := rfl
  have hclosing : ∀ e, a.withoutLoading.closingNotices platform terminal quiet e =
      a.closingNotices platform terminal quiet e := fun _ => rfl
  have hnotices : a.withoutLoading.notices = withoutLoading a.notices := rfl
  simp only [Assembly.conclude, CliReport.withoutLoading, hevents, hclosing, hnotices,
    withoutLoading_append, withoutLoading_idem]

theorem withoutLoading_runInvocation (steps : Nat) (i : Invocation) (env : Environment)
    (disk : Disk) (streams : Streams) :
    (runInvocation platform terminal steps i env disk streams).map CliReport.withoutLoading =
      match (gather platform terminal i env disk).map Assembly.withoutLoading with
      | .error report => some report.withoutLoading
      | .ok a =>
        if i.dump then some (a.listingReport platform terminal).withoutLoading
        else (interpret steps a.settings streams a.code).map fun result =>
          (a.conclude platform terminal i.quiet result).withoutLoading := by
  unfold runInvocation
  cases gather platform terminal i env disk with
  | error report => rfl
  | ok a =>
    simp only [Except.map, listingReport_withoutLoading, conclude_withoutLoading]
    cases i.dump with
    | true => rfl
    | false =>
      simp only [Bool.false_eq_true, if_false, Option.map_map]
      rfl

end

/-- Leaving out what is not shown leaves out the loading, if that is not shown. -/
theorem filtered_withoutLoading {shown : EventFilter}
    (hhidden : ∀ path bytes symbols, shown (.programLoaded path bytes symbols) = false)
    (r : CliReport) : r.withoutLoading.filtered shown = r.filtered shown := by
  have hnotices : (withoutLoading r.notices).filter (·.isShown shown) =
      r.notices.filter (·.isShown shown) := by
    rw [withoutLoading, List.filter_filter]
    apply List.filter_congr
    rintro (event | text | unit) _
    · cases event with
      | programLoaded path bytes symbols => simp [Notice.isShown, hhidden]
      | settingsRead | starting | compiled | tapeGrown | finished => simp [Notice.isLoading]
    · rfl
    · rfl
  simp only [CliReport.filtered, CliReport.withoutLoading, hnotices]

/-! ## Two ways to the same code -/

section

variable {platform : Platform} {env : Environment} {disk disk' : Disk} {text path : String}
  (hsettings : settingsFile? platform.configHome env disk' =
    settingsFile? platform.configHome env disk)
  (hprobe : disk' path = .content text.toUTF8.data.toList)
  (hname : ProgramFile.isNamed path = true)

include hsettings hprobe hname

/-- Both ways to some code gather the same. -/
theorem gather_file (terminal : Bool) (i : Invocation) :
    (gather platform terminal { i with source := .file path } env disk').map
        Assembly.withoutLoading =
      (gather platform terminal { i with source := .inline text } env disk).map
        Assembly.withoutLoading := by
  have hnotices : settingsNotices platform env disk' = settingsNotices platform env disk := by
    simp only [settingsNotices, hsettings]
  have hload : Settings.load platform.configHome i.settings env disk' =
      Settings.load platform.configHome i.settings env disk := by
    simp only [Settings.load, settingsBindings, hsettings]
  have hfetch : fetchCode disk' (.file path) = .ok (commandsOfText text,
      [.event (.programLoaded path text.toUTF8.data.toList.length
        (commandsOfText text).length)]) := by
    simp only [fetchCode, ProgramFile.load, hprobe, hname, if_true,
      commandsOfText_eq_commandsOfBytes]
  unfold gather
  simp only [hnotices, hload, hfetch]
  cases Settings.load platform.configHome i.settings env disk with
  | error e => rfl
  | ok settings =>
    simp [fetchCode, Except.map, Assembly.withoutLoading, withoutLoading, Notice.isLoading]

/-- Both ways to some code lead to the same report. -/
theorem runInvocation_file (terminal : Bool) (steps : Nat) (i : Invocation) (streams : Streams) :
    (runInvocation platform terminal steps { i with source := .file path } env disk' streams).map
        CliReport.withoutLoading =
      (runInvocation platform terminal steps { i with source := .inline text } env disk
        streams).map CliReport.withoutLoading := by
  rw [withoutLoading_runInvocation, withoutLoading_runInvocation,
    gather_file hsettings hprobe hname]

end

/-- Two reports that can differ only if it is shown that a program file was read. -/
structure CliReport.Agree (shown : EventFilter) (r r' : CliReport) : Prop where
  exitCode_eq : r.exitCode = r'.exitCode
  stdout_eq : r.stdout = r'.stdout
  stderr_eq :
    (∀ path bytes symbols, shown (.programLoaded path bytes symbols) = false) →
      ∀ line times, r.stderr line times = r'.stderr line times

theorem agree_of_withoutLoading {shown : EventFilter} {r r' : CliReport}
    (h : r.withoutLoading = r'.withoutLoading) :
    (r.filtered shown).Agree shown (r'.filtered shown) := by
  constructor
  · change r.withoutLoading.exitCode = r'.withoutLoading.exitCode
    rw [h]
  · change r.withoutLoading.stdout = r'.withoutLoading.stdout
    rw [h]
  · intro hhidden line times
    rw [← filtered_withoutLoading hhidden r, ← filtered_withoutLoading hhidden r', h]

/-- Inline code and code in a file come to the same.

* The commands of a text are those of its encoding. The commands of any bytes can be picked piece by
  piece, and picking them again changes nothing.
* On every platform, on a terminal or not, a command with inline code and a command with a readable
  file that holds the encoding of this code end after the same number of steps or both do not, with
  the same exit code and standard output. Standard error is the same, whatever the times and however
  events are written, if it is not shown that a program file was read. All else is the same for
  both: what the other arguments ask for, the environment, the settings file, and the streams. -/
theorem inline_agrees_with_file :
    (∀ text : String, commandsOfText text = commandsOfBytes text.toUTF8.data.toList) ∧
    (∀ a b : List UInt8, commandsOfBytes (a ++ b) = commandsOfBytes a ++ commandsOfBytes b) ∧
    (∀ a : List UInt8, commandsOfText (commandsOfBytes a) = commandsOfBytes a ∧
      commandsOfBytes (commandsOfBytes a).toUTF8.data.toList = commandsOfBytes a) ∧
    (∀ (platform : Platform) (terminal : Bool) (text path : String) (i : Invocation)
      (arguments arguments' : List String) (env : Environment) (disk disk' : Disk)
      (streams : Streams) (steps : Nat),
      platform.request arguments = .ok { i with source := .inline text } →
      platform.request arguments' = .ok { i with source := .file path } →
      settingsFile? platform.configHome env disk' = settingsFile? platform.configHome env disk →
      disk' path = .content text.toUTF8.data.toList → ProgramFile.isNamed path = true →
      Option.Rel (CliReport.Agree (platform.shown env i.verbose))
        (runCommand platform terminal steps arguments env disk streams)
        (runCommand platform terminal steps arguments' env disk' streams)) := by
  refine ⟨commandsOfText_eq_commandsOfBytes, commandsOfBytes_append, ?_, ?_⟩
  · intro a
    have hagain := commandsOfText_commandsOfBytes a
    exact ⟨hagain, (commandsOfText_eq_commandsOfBytes _).symm.trans hagain⟩
  · intro platform terminal text path i arguments arguments' env disk disk' streams steps hparse
      hparse' hsettings hprobe hname
    have hsame := runInvocation_file hsettings hprobe hname terminal steps i streams
    rw [runCommand, hparse, runCommand, hparse']
    dsimp only
    cases hinline :
        runInvocation platform terminal steps { i with source := .inline text } env disk streams with
    | none =>
      rw [hinline, Option.map_none, Option.map_eq_none_iff] at hsame
      rw [hsame]
      exact .none
    | some r =>
      rw [hinline, Option.map_some, Option.map_eq_some_iff] at hsame
      obtain ⟨r', hr', heq⟩ := hsame
      rw [hr']
      exact .some (agree_of_withoutLoading heq.symm)

/-- A comment of two bytes is passed over both ways, on the same disk. -/
theorem inline_agrees_with_file_comment :
    let env : Environment := fun name => if name = "BF_CONFIG" then some "bf.toml" else none
    let disk : Disk := fun path => if path = "p.b" then .content [195, 169, 43, 46] else .absent
    Option.Rel (CliReport.Agree (Event.upTo 2))
      (runCommand unix true 3 ["-m", "1", "-e", "é+."] env disk (.ofBytes []))
      (runCommand unix true 3 ["-m", "1", "p.b"] env disk (.ofBytes [])) ∧
    (runCommand unix true 3 ["-m", "1", "-e", "é+."] env disk (.ofBytes [])).map
      CliReport.stdout = some [1] := by
  intro env disk
  obtain ⟨-, -, -, hagree⟩ := inline_agrees_with_file
  refine ⟨?_, by decide +revert⟩
  exact hagree unix true "é+." "p.b"
    ⟨.inline "", ⟨none, some 1, none, none⟩, false, false, false⟩ _ _ env disk disk _ _ rfl rfl
    rfl (by decide) (by decide)

end Cli

end TapeMachine
