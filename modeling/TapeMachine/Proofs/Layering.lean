import TapeMachine.Settings.Resolve

/-! # Layers of settings

Each setting is decided by one layer, and what lies below that layer does not matter.

* `Setting.Selects`: the layer that decides a setting has it, and no layer above has it.
* `Setting.Yields` and `Setting.Refuses`: what the selected layer comes to, a value or an error.
  One setting has the one or the other (`resolve_eq_ok_iff`, `resolve_eq_error_iff`).
* `Setting.SameVisible`: two environments and two files say the same about a setting as far as it
  can be seen. Then they decide it alike (`resolve_congr`).
* `resolve_layered`: all four settings together, the first refusal first.
-/

namespace TapeMachine

namespace Setting

variable {α : Type}

/-! ## Model -/

/-- The layer that decides a setting: it has the setting, and no layer above has it. -/
inductive Selects (s : Setting α) (given : Option α) (env : Environment) (file : Bindings) :
    Choice α → Prop where
  | given {value : α} : given = some value → Selects s given env file (.value value)
  /-- The variable counts as soon as it is set, also to the empty text. -/
  | envVar {text : String} :
      given = none → env s.envVar = some text →
      Selects s given env file (.text (.envVar s.envVar) text)
  | key {text : String} :
      given = none → env s.envVar = none → file.get? s.key = some text →
      Selects s given env file (.text (.key s.key) text)
  | default :
      given = none → env s.envVar = none → file.get? s.key = none →
      Selects s given env file (.value s.default)

/-- If a text is selected, it is a value of the setting. -/
def Accepts (s : Setting α) (given : Option α) (env : Environment) (file : Bindings) : Prop :=
  ∀ origin text, s.Selects given env file (.text origin text) → ∃ value, s.parse text = .ok value

/-- The value of the selected layer. -/
def Yields (s : Setting α) (given : Option α) (env : Environment) (file : Bindings) (value : α) :
    Prop :=
  s.Selects given env file (.value value) ∨
    ∃ origin text, s.Selects given env file (.text origin text) ∧ s.parse text = .ok value

/-- The selected text is no value of the setting. The error shows the text as it stands and names
the variable, or the key and the settings file. -/
structure Refuses (s : Setting α) (given : Option α) (env : Environment) (file : Bindings)
    (e : InvalidSetting) : Prop where
  selected : s.Selects given env file (.text e.origin e.value)
  cause : s.parse e.value = .error e.cause
  name : e.origin.name = if (env s.envVar).isSome then s.envVar else s.key ++ " in bf.toml"

/-- As far as no layer above hides them, the variable and the key of a setting are the same. -/
structure SameVisible (s : Setting α) (given : Option α) (env env' : Environment)
    (file file' : Bindings) : Prop where
  envVar_eq : given = none → env' s.envVar = env s.envVar
  key_eq : given = none → env s.envVar = none → file'.get? s.key = file.get? s.key

/-! ## One setting -/

variable {s : Setting α} {given : Option α} {env env' : Environment} {file file' : Bindings}

/-- The layer that is selected is the one that is chosen. -/
theorem selects_iff {choice : Choice α} :
    s.Selects given env file choice ↔ s.choose given env file = choice := by
  unfold choose
  constructor
  · intro h
    cases h with
    | given hgiven => rw [hgiven]
    | envVar hgiven hvar => rw [hgiven, hvar]
    | key hgiven hvar hkey => rw [hgiven, hvar, hkey]
    | default hgiven hvar hkey => rw [hgiven, hvar, hkey]
  · rintro rfl
    -- down the layers, as long as they do not have the setting
    cases hgiven : given with
    | some value => exact .given rfl
    | none =>
      cases hvar : env s.envVar with
      | some text => exact .envVar rfl hvar
      | none =>
        cases hkey : file.get? s.key with
        | some text => exact .key rfl hvar hkey
        | none => exact .default rfl hvar hkey

/-- Some layer is selected. -/
theorem selects_choose (s : Setting α) (given : Option α) (env : Environment) (file : Bindings) :
    s.Selects given env file (s.choose given env file) :=
  selects_iff.mpr rfl

/-- A setting resolves to the value of its selected layer. -/
theorem resolve_eq_ok_iff {value : α} :
    s.resolve given env file = .ok value ↔ s.Yields given env file value := by
  constructor
  · intro h
    have hselected := s.selects_choose given env file
    unfold resolve at h
    cases hchoice : s.choose given env file with
    | value v =>
      rw [hchoice] at h hselected
      have hv : v = value := Except.ok.inj h
      rw [hv] at hselected
      exact Or.inl hselected
    | text origin text =>
      rw [hchoice] at h hselected
      refine Or.inr ⟨origin, text, hselected, ?_⟩
      cases hparse : s.parse text with
      | ok v =>
        simp only [read, hparse, Except.ok.injEq] at h
        rw [h]
      | error cause => simp only [read, hparse, reduceCtorEq] at h
  · rintro (hvalue | ⟨origin, text, htext, hparse⟩)
    · rw [resolve, selects_iff.mp hvalue, read]
    · rw [resolve, selects_iff.mp htext, read, hparse]

/-- A setting fails to resolve with the refusal of its selected text. -/
theorem resolve_eq_error_iff {e : InvalidSetting} :
    s.resolve given env file = .error e ↔ s.Refuses given env file e := by
  constructor
  · intro h
    have hselected := s.selects_choose given env file
    unfold resolve at h
    cases hchoice : s.choose given env file with
    | value v =>
      rw [hchoice] at h
      simp only [read, reduceCtorEq] at h
    | text origin text =>
      rw [hchoice] at h hselected
      cases hparse : s.parse text with
      | ok v => simp only [read, hparse, reduceCtorEq] at h
      | error cause =>
        have he : ⟨origin, text, cause⟩ = e := by
          simpa only [read, hparse, Except.error.injEq] using h
        subst he
        refine ⟨hselected, hparse, ?_⟩
        cases hselected with
        | envVar hgiven hvar => rw [hvar]; rfl
        | key hgiven hvar hkey =>
          rw [hvar]
          simp [Origin.name, toString]
  · intro h
    rw [resolve, selects_iff.mp h.selected, read, h.cause]

/-- A setting resolves exactly if its selected text, should there be one, is accepted. -/
theorem accepts_iff :
    s.Accepts given env file ↔ ∃ value, s.resolve given env file = .ok value := by
  constructor
  · intro haccepts
    cases hresolve : s.resolve given env file with
    | ok value => exact ⟨value, rfl⟩
    | error e =>
      have hrefuses := resolve_eq_error_iff.mp hresolve
      obtain ⟨value, hvalue⟩ := haccepts _ _ hrefuses.selected
      rw [hrefuses.cause] at hvalue
      cases hvalue
  · rintro ⟨value, hresolve⟩ origin text hselected
    rw [resolve, selects_iff.mp hselected] at hresolve
    cases hparse : s.parse text with
    | ok v => exact ⟨v, rfl⟩
    | error cause => simp only [read, hparse, reduceCtorEq] at hresolve

/-- What cannot be seen does not matter. -/
theorem resolve_congr (h : s.SameVisible given env env' file file') :
    s.resolve given env' file' = s.resolve given env file := by
  have hchoose : s.choose given env' file' = s.choose given env file := by
    unfold choose
    cases hgiven : given with
    | some value => rfl
    | none =>
      simp only [h.envVar_eq hgiven]
      cases hvar : env s.envVar with
      | some text => rfl
      | none => simp only [h.key_eq hgiven hvar]
  rw [resolve, resolve, hchoose]

end Setting

/-! ## All settings -/

section

variable {ε α β : Type} {x : Except ε α} {f : α → Except ε β}

/-- Two steps succeed if both do. -/
theorem bind_eq_ok_iff {b : β} : x >>= f = .ok b ↔ ∃ a, x = .ok a ∧ f a = .ok b := by
  cases x with
  | error e => simp [bind, Except.bind]
  | ok a => simp [bind, Except.bind]

/-- Two steps fail if the first does, or else the second. -/
theorem bind_eq_error_iff {e : ε} :
    x >>= f = .error e ↔ x = .error e ∨ ∃ a, x = .ok a ∧ f a = .error e := by
  cases x with
  | error e' => simp [bind, Except.bind]
  | ok a => simp [bind, Except.bind]

end

namespace Settings

variable {given : ExplicitSettings} {env env' : Environment} {file file' : Bindings}

theorem resolve_eq_ok_iff {c : Settings} :
    resolve given env file = .ok c ↔
      cellSizeSetting.resolve given.cellSize env file = .ok c.cellSize ∧
      memorySizeSetting.resolve given.memorySize env file = .ok c.memorySize ∧
      timeUnitSetting.resolve given.timeUnit env file = .ok c.timeUnit ∧
      endPolicySetting.resolve given.endPolicy env file = .ok c.endPolicy := by
  simp only [resolve, bind_eq_ok_iff]
  constructor
  · rintro ⟨cellSize, hsize, memorySize, hmemory, timeUnit, hunit, endPolicy, hpolicy, hc⟩
    have hc' : ⟨cellSize, memorySize, timeUnit, endPolicy⟩ = c := Except.ok.inj hc
    subst hc'
    exact ⟨hsize, hmemory, hunit, hpolicy⟩
  · rintro ⟨hsize, hmemory, hunit, hpolicy⟩
    exact ⟨_, hsize, _, hmemory, _, hunit, _, hpolicy, rfl⟩

/-- The first setting that fails decides. -/
theorem resolve_eq_error_iff {e : InvalidSetting} :
    resolve given env file = .error e ↔
      cellSizeSetting.resolve given.cellSize env file = .error e ∨
      (∃ size, cellSizeSetting.resolve given.cellSize env file = .ok size) ∧
        (memorySizeSetting.resolve given.memorySize env file = .error e ∨
        (∃ length, memorySizeSetting.resolve given.memorySize env file = .ok length) ∧
          (timeUnitSetting.resolve given.timeUnit env file = .error e ∨
          (∃ unit, timeUnitSetting.resolve given.timeUnit env file = .ok unit) ∧
            endPolicySetting.resolve given.endPolicy env file = .error e)) := by
  have hlast : ∀ c : Settings, (pure c : Except InvalidSetting Settings) ≠ .error e := by
    intro c hc
    cases hc
  simp only [resolve, bind_eq_error_iff, hlast, and_false, exists_false, or_false,
    exists_and_right]

/-- What cannot be seen does not matter. -/
theorem resolve_congr
    (hsize : cellSizeSetting.SameVisible given.cellSize env env' file file')
    (hmemory : memorySizeSetting.SameVisible given.memorySize env env' file file')
    (hunit : timeUnitSetting.SameVisible given.timeUnit env env' file file')
    (hpolicy : endPolicySetting.SameVisible given.endPolicy env env' file file') :
    resolve given env' file' = resolve given env file := by
  unfold resolve
  rw [Setting.resolve_congr hsize, Setting.resolve_congr hmemory, Setting.resolve_congr hunit,
    Setting.resolve_congr hpolicy]

end Settings

/-- Settings are resolved layer by layer, whatever was given explicitly, stands in the environment
and is bound in the settings file.

* There are settings exactly if every text that is selected is accepted, and then each of them is
  the value of its selected layer.
* Otherwise the error is the refusal of the first setting, in the order cell size, memory size,
  unit, end of input, whose selected text is not accepted.
* Variables and keys that a higher layer hides, and those of no setting, do not matter. -/
theorem resolve_layered (given : ExplicitSettings) (env : Environment) (file : Bindings) :
    ((∃ c, Settings.resolve given env file = .ok c) ↔
      Settings.cellSizeSetting.Accepts given.cellSize env file ∧
      Settings.memorySizeSetting.Accepts given.memorySize env file ∧
      Settings.timeUnitSetting.Accepts given.timeUnit env file ∧
      Settings.endPolicySetting.Accepts given.endPolicy env file) ∧
    (∀ c, Settings.resolve given env file = .ok c →
      Settings.cellSizeSetting.Yields given.cellSize env file c.cellSize ∧
      Settings.memorySizeSetting.Yields given.memorySize env file c.memorySize ∧
      Settings.timeUnitSetting.Yields given.timeUnit env file c.timeUnit ∧
      Settings.endPolicySetting.Yields given.endPolicy env file c.endPolicy) ∧
    (∀ e, Settings.resolve given env file = .error e ↔
      Settings.cellSizeSetting.Refuses given.cellSize env file e ∨
      Settings.cellSizeSetting.Accepts given.cellSize env file ∧
        (Settings.memorySizeSetting.Refuses given.memorySize env file e ∨
        Settings.memorySizeSetting.Accepts given.memorySize env file ∧
          (Settings.timeUnitSetting.Refuses given.timeUnit env file e ∨
          Settings.timeUnitSetting.Accepts given.timeUnit env file ∧
            Settings.endPolicySetting.Refuses given.endPolicy env file e))) ∧
    (∀ env' file',
      Settings.cellSizeSetting.SameVisible given.cellSize env env' file file' →
      Settings.memorySizeSetting.SameVisible given.memorySize env env' file file' →
      Settings.timeUnitSetting.SameVisible given.timeUnit env env' file file' →
      Settings.endPolicySetting.SameVisible given.endPolicy env env' file file' →
      Settings.resolve given env' file' = Settings.resolve given env file) := by
  refine ⟨?_, ?_, ?_, ?_⟩
  · simp only [Setting.accepts_iff, Settings.resolve_eq_ok_iff]
    constructor
    · rintro ⟨c, hsize, hmemory, hunit, hpolicy⟩
      exact ⟨⟨_, hsize⟩, ⟨_, hmemory⟩, ⟨_, hunit⟩, ⟨_, hpolicy⟩⟩
    · rintro ⟨⟨size, hsize⟩, ⟨length, hmemory⟩, ⟨unit, hunit⟩, ⟨policy, hpolicy⟩⟩
      exact ⟨⟨size, length, unit, policy⟩, hsize, hmemory, hunit, hpolicy⟩
  · intro c hc
    simp only [← Setting.resolve_eq_ok_iff]
    exact Settings.resolve_eq_ok_iff.mp hc
  · intro e
    simp only [Setting.accepts_iff, ← Setting.resolve_eq_error_iff]
    exact Settings.resolve_eq_error_iff
  · intro env' file' hsize hmemory hunit hpolicy
    exact Settings.resolve_congr hsize hmemory hunit hpolicy

/-- An empty variable is refused, before a key that would be refused too. A variable that is hidden,
a key that is hidden, and a variable and a key of no setting come and go. -/
theorem resolve_layered_hidden :
    Settings.resolve ⟨none, some 5, none, none⟩
        (fun name => if name = "BF_CELL_SIZE" then some "" else
          if name = "BF_MEMORY_SIZE" then some "many" else none)
        [("eof", "maybe")] =
      .error ⟨.envVar "BF_CELL_SIZE", "", .cellSize ""⟩ ∧
    Settings.resolve ⟨none, some 5, none, none⟩
        (fun name => if name = "BF_CELL_SIZE" then some "" else
          if name = "PATH" then some "/bin" else none)
        [("cell_size", "16"), ("eof", "maybe"), ("colour", "red")] =
      .error ⟨.envVar "BF_CELL_SIZE", "", .cellSize ""⟩ := by
  have herror : Settings.resolve ⟨none, some 5, none, none⟩
      (fun name => if name = "BF_CELL_SIZE" then some "" else
        if name = "BF_MEMORY_SIZE" then some "many" else none)
      [("eof", "maybe")] =
      .error ⟨.envVar "BF_CELL_SIZE", "", .cellSize ""⟩ := by
    rfl
  obtain ⟨_, _, _, hsame⟩ := resolve_layered ⟨none, some 5, none, none⟩
    (fun name => if name = "BF_CELL_SIZE" then some "" else
      if name = "BF_MEMORY_SIZE" then some "many" else none)
    [("eof", "maybe")]
  refine ⟨herror, ?_⟩
  rw [← herror]
  apply hsame
  · constructor
    · intro _
      rfl
    · intro _ hvar
      cases hvar
  · constructor
    · intro hgiven
      cases hgiven
    · intro hgiven
      cases hgiven
  · exact ⟨fun _ => rfl, fun _ _ => rfl⟩
  · exact ⟨fun _ => rfl, fun _ _ => rfl⟩

end TapeMachine
