import TapeMachine.Text.Blank
import TapeMachine.Text.Split

/-! # The settings file

A settings file is read line by line. Blanks at both ends of a line do not matter.

* Empty lines and lines that start with `#` are skipped.
* `[name]` starts a section; only the lines of the section `interpreter` count.
* `key = value` binds a key. Blanks around both do not matter, and one pair of double quotes around
  the value is removed.

Everything else is skipped too. A key that is bound more than once has the value of its last
binding.
-/

namespace TapeMachine

/-! ## Bindings -/

/-- Keys and values in the order in which they were bound. -/
abbrev Bindings := List (String × String)

namespace Bindings

/-- The value that a key was bound to last. -/
def get? (b : Bindings) (key : String) : Option String :=
  (b.reverse.find? (·.1 == key)).map (·.2)

/-- Each key once, with its last value, in the order of the keys. -/
def entries (b : Bindings) : List (String × String) :=
  (b.foldr (fun entry later =>
      if later.any (·.1 == entry.1) then later else entry :: later) []).mergeSort
    fun x y => decide (x.1 ≤ y.1)

end Bindings

/-! ## Lines -/

/-- What a line of a settings file says. -/
inductive SettingsLine where
  /-- Nothing. -/
  | skipped
  /-- A section of this name starts. -/
  | header (name : List Char)
  /-- A key is bound to a value. -/
  | binding (key value : List Char)
deriving DecidableEq, Repr

namespace SettingsLine

/-- The value without its quotes, if it has one on each side. -/
def unquote : List Char → List Char
  | '"' :: rest => if rest.getLast? = some '"' then rest.dropLast else '"' :: rest
  | value => value

/-- What a line without blanks at its ends says. -/
def ofTrimmed (line : List Char) : SettingsLine :=
  if line.head? = some '[' ∧ line.getLast? = some ']' then .header (line.drop 1).dropLast
  else if line.head? = some '#' then .skipped
  else match line.dropWhile (· ≠ '=') with
    | [] => .skipped
    | _ :: value =>
      .binding (Text.trimChars (line.takeWhile (· ≠ '='))) (unquote (Text.trimChars value))

/-- What a line says. -/
def ofChars (line : List Char) : SettingsLine :=
  ofTrimmed (Text.trimChars line)

end SettingsLine

/-! ## Files -/

/-- The section that holds the settings. -/
def settingsSection : List Char := "interpreter".toList

/-- The bindings of a sequence of lines; `inside` says whether the section of the settings has
started. -/
def bindingsOfLines (inside : Bool) : List SettingsLine → Bindings
  | [] => []
  | .skipped :: rest => bindingsOfLines inside rest
  | .header name :: rest => bindingsOfLines (name == settingsSection) rest
  | .binding key value :: rest =>
    if inside then (String.ofList key, String.ofList value) :: bindingsOfLines inside rest
    else bindingsOfLines inside rest

/-- The bindings that a settings file holds. -/
def Bindings.ofText (content : String) : Bindings :=
  bindingsOfLines false ((Text.lines content.toList).map SettingsLine.ofChars)

end TapeMachine
