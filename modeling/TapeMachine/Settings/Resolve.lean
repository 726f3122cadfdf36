import TapeMachine.Settings.Bindings
import TapeMachine.Settings.Value

/-! # Resolving settings

A setting is taken from the first layer that has it: the value given explicitly, the environment
variable (even if it is empty), the binding of the settings file, the default. Only the text of the
layer that is taken has to be valid.

The settings are resolved in a fixed order, and the first refusal is the answer.
-/

namespace TapeMachine

/-- The environment: the texts of the variables that are set. -/
abbrev Environment := String → Option String

/-! ## One setting -/

/-- Where the text of a setting comes from. -/
inductive Origin where
  /-- An environment variable. -/
  | envVar (name : String)
  /-- A key of the settings file. -/
  | key (name : String)
deriving DecidableEq, Repr

/-- The origin as messages name it. -/
def Origin.name : Origin → String
  | .envVar name => name
  | .key name => s!"{name} in bf.toml"

/-- A text that is no value of its setting. -/
structure InvalidSetting where
  origin : Origin
  value : String
  cause : ValueError
deriving DecidableEq, Repr

/-- What went wrong, in one line. -/
def InvalidSetting.message (e : InvalidSetting) : String :=
  s!"Config error: invalid value '{e.value}' for {e.origin.name}: {e.cause.message}"

/-- How one setting is named and read. -/
structure Setting (α : Type) where
  envVar : String
  key : String
  parse : String → Except ValueError α
  default : α

/-- The layer that decides a setting. -/
inductive Choice (α : Type) where
  /-- A value that needs no reading. -/
  | value (value : α)
  /-- A text that has to be read. -/
  | text (origin : Origin) (text : String)

namespace Setting

variable {α : Type}

/-- The first layer that has the setting. -/
def choose (s : Setting α) (given : Option α) (env : Environment) (file : Bindings) : Choice α :=
  match given with
  | some value => .value value
  | none =>
    match env s.envVar with
    | some text => .text (.envVar s.envVar) text
    | none =>
      match file.get? s.key with
      | some text => .text (.key s.key) text
      | none => .value s.default

/-- The value of a layer, or why its text is refused. -/
def read (s : Setting α) : Choice α → Except InvalidSetting α
  | .value value => .ok value
  | .text origin text =>
    match s.parse text with
    | .ok value => .ok value
    | .error cause => .error ⟨origin, text, cause⟩

/-- The value of the setting. -/
def resolve (s : Setting α) (given : Option α) (env : Environment) (file : Bindings) :
    Except InvalidSetting α :=
  s.read (s.choose given env file)

end Setting

/-! ## All settings -/

namespace Settings

/-- The size of a cell. -/
def cellSizeSetting : Setting CellSize :=
  ⟨"BF_CELL_SIZE", "cell_size", CellSize.ofText, default.cellSize⟩

/-- The number of cells a tape starts with. -/
def memorySizeSetting : Setting Nat :=
  ⟨"BF_MEMORY_SIZE", "memory_size", memorySizeOfText, default.memorySize⟩

/-- The unit in which times are reported. -/
def timeUnitSetting : Setting TimeUnit :=
  ⟨"BF_RUNTIME_UNITS", "runtime_units", TimeUnit.ofText, default.timeUnit⟩

/-- The end-of-input policy. -/
def endPolicySetting : Setting EndPolicy :=
  ⟨"BF_EOF", "eof", EndPolicy.ofText, default.endPolicy⟩

/-- Resolves all settings, in the order cell size, memory size, unit, end of input. -/
def resolve (given : ExplicitSettings) (env : Environment) (file : Bindings) :
    Except InvalidSetting Settings := do
  let cellSize ← cellSizeSetting.resolve given.cellSize env file
  let memorySize ← memorySizeSetting.resolve given.memorySize env file
  let timeUnit ← timeUnitSetting.resolve given.timeUnit env file
  let endPolicy ← endPolicySetting.resolve given.endPolicy env file
  return { cellSize, memorySize, timeUnit, endPolicy }

end Settings

end TapeMachine
