import TapeMachine.Disk
import TapeMachine.Settings.Resolve

/-! # Loading settings

The settings file is named by `BF_CONFIG`, or is `bf.toml` in the user's configuration directory.
Where that directory is, and whether there is one, depends on the platform and is a parameter here.
A file that is missing, cannot be read or is not text counts as empty, and so does a file without a
path.
-/

namespace TapeMachine

/-- The user's configuration directory, if the platform finds one. -/
abbrev ConfigHome := Environment → Option String

/-- The path of the settings file. -/
def settingsPath? (home : ConfigHome) (env : Environment) : Option String :=
  match env "BF_CONFIG" with
  | some path => some path
  | none => (home env).map fun dir => joinPath dir "bf.toml"

/-- The settings file with its path and its text, if there is one. -/
def settingsFile? (home : ConfigHome) (env : Environment) (disk : Disk) :
    Option (String × String) := do
  let path ← settingsPath? home env
  let text ← (disk path).text?
  return (path, text)

/-- The bindings of the settings file. -/
def settingsBindings (home : ConfigHome) (env : Environment) (disk : Disk) : Bindings :=
  match settingsFile? home env disk with
  | some (_, text) => .ofText text
  | none => []

/-- Resolves the settings against the environment and the settings file. -/
def Settings.load (home : ConfigHome) (given : ExplicitSettings) (env : Environment)
    (disk : Disk) : Except InvalidSetting Settings :=
  Settings.resolve given env (settingsBindings home env disk)

end TapeMachine
