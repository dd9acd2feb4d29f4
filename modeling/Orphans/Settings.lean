import Orphans.FileSystem.Lookup
import Orphans.Toml.Document

/-! The settings file of a project. -/

set_option autoImplicit false

namespace Orphans

/-- The settings that the file gives; what it does not mention is absent. -/
structure Settings where
  extensions : Option (List String)
  exclude : Option (List String)
  jobs : Option Nat
  aliasConfig : Option String
  exempt : Option (List String)
  /-- The output section. Its format may be absent while the section is there. -/
  output : Option (Option String)
  deriving DecidableEq, Repr

namespace Settings

def empty : Settings := ⟨none, none, none, none, none, none⟩

def fileName : String := "deadfile.toml"

def isJsonFormat (format : String) : Bool := format.toList.map Char.toLower = "json".toList

def wantsJson (settings : Settings) : Bool :=
  match settings.output with
  | some (some format) => isJsonFormat format
  | _ => false

def text? : Toml.Value → Option String
  | .string text => some text
  | _ => none

def texts? : Toml.Value → Option (List String)
  | .array items => items.mapM text?
  | _ => none

def natural? : Toml.Value → Option Nat
  | .integer value => if 0 ≤ value then some value.toNat else none
  | _ => none

/-- The format of an output section. The section may be a table, an array with the format in front, or a
moment, which has no format. -/
def output? : Toml.Value → Option (Option String)
  | .table entries =>
    match entries.lookup "format" with
    | some value => (text? value).map some
    | none => some none
  | .array (first :: _) => (text? first).map some
  | .moment _ => some none
  | _ => none

/-- Take over one entry of the file. Unknown entries and values of a wrong type are refused. -/
def withEntry (settings : Settings) (entry : String × Toml.Value) : Option Settings :=
  match entry.1 with
  | "extensions" => (texts? entry.2).map fun value => { settings with extensions := some value }
  | "exclude" => (texts? entry.2).map fun value => { settings with exclude := some value }
  | "jobs" => (natural? entry.2).map fun value => { settings with jobs := some value }
  | "tsconfig" => (text? entry.2).map fun value => { settings with aliasConfig := some value }
  | "exempt" => (texts? entry.2).map fun value => { settings with exempt := some value }
  | "output" => (output? entry.2).map fun value => { settings with output := some value }
  | _ => none

def parse? (text : String) : Option Settings :=
  (Toml.parse? text).bind fun entries => entries.foldlM withEntry empty

inductive Problem where
  | unreadable (path : String)
  | invalid
  deriving DecidableEq, Repr

def Problem.message : Problem → String
  | .unreadable path => "Failed to read " ++ path
  | .invalid => "Invalid " ++ fileName

def parse (text : String) : Except Problem Settings :=
  match parse? text with
  | some settings => .ok settings
  | none => .error .invalid

def load (fileSystem : FileSystem) (root : String) : Except Problem (Option Settings) :=
  let path := Path.join root fileName
  if fileSystem.contains path then
    match fileSystem.readText path with
    | .ok text => (parse text).map some
    | .error _ => .error (.unreadable path)
  else .ok none

end Settings

end Orphans
