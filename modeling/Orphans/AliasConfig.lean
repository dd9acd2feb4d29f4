import Orphans.Alias
import Orphans.Failure
import Orphans.FileSystem.Lookup
import Orphans.Json.Document

/-! Loading the alias table of a project.

The table is the `paths` object of a configuration file. A file without one may extend another file,
which is then read in its place. Loading never fails: what cannot be used gives an empty table and a
diagnostic.
-/

set_option autoImplicit false

namespace Orphans

structure AliasLoad where
  table : AliasTable
  /-- The configuration file, if there is one. -/
  source : Option String
  diagnostic : Option Diagnostic
  deriving Repr

namespace AliasConfig

def defaultSources : List String := ["tsconfig.json", "jsconfig.json"]

def maxHops : Nat := 3

def targets : Json.Value → List String
  | .array items => items.filterMap Json.Value.string?
  | .string text => [text]
  | _ => []

def table? (document : Json.Value) : Option AliasTable := do
  let options ← document.field? "compilerOptions"
  let paths ← options.field? "paths"
  let fields ← paths.fields?
  return .ofEntries (fields.map fun (key, value) => (key, targets value))

def extended? (document : Json.Value) : Option String := do
  let value ← document.field? "extends"
  value.string?

/-- The paths that `target` may mean in the file `source`: the path itself, or else the path with `.json`
behind it. Names of packages mean no file. -/
def candidates (source target : String) : List String :=
  if target.toList.head? = some '.' ∨ Path.isAbsolute target then
    let path := Path.join ((Path.parent? source).getD ".") target
    [path, path ++ ".json"]
  else []

def follow? (fileSystem : FileSystem) (source target : String) : Option String :=
  (candidates source target).find? fileSystem.isFile

def readDocument (fileSystem : FileSystem) (path : String) : Except Failure Json.Value :=
  match fileSystem.readText path with
  | .error refusal => .error (.unreadable path refusal.message)
  | .ok text =>
    match Json.parse text with
    | .error fault => .error (.aliasConfig path ("invalid JSON: " ++ fault.message))
    | .ok document => .ok document

def read (fileSystem : FileSystem) : Nat → String → Except Failure AliasTable
  | hops, path =>
    match readDocument fileSystem path with
    | .error failure => .error failure
    | .ok document =>
      match table? document, extended? document with
      | some table, _ => .ok table
      | none, none => .ok []
      | none, some target =>
        match hops with
        | 0 => .error (.aliasConfig path "extends chain too deep")
        | hops + 1 =>
          match follow? fileSystem path target with
          | some next => read fileSystem hops next
          | none => .ok []

def filesRead (fileSystem : FileSystem) : Nat → String → List (String × Option String)
  | hops, path =>
    match readDocument fileSystem path with
    | .error _ => [(path, none)]
    | .ok document =>
      match table? document, extended? document with
      | none, some target =>
        (path, some target) ::
          match hops with
          | 0 => []
          | hops + 1 =>
            match follow? fileSystem path target with
            | some next => filesRead fileSystem hops next
            | none => []
      | _, _ => [(path, none)]

theorem length_filesRead_le (fileSystem : FileSystem) (hops : Nat) (path : String) :
    (filesRead fileSystem hops path).length ≤ hops + 1 := by
  induction hops generalizing path with
  | zero =>
    unfold filesRead
    split
    · simp
    · split <;> simp
  | succ hops ih =>
    unfold filesRead
    split
    · simp
    · split
      · simp only [List.length_cons]
        split
        · exact Nat.succ_le_succ (ih _)
        · simp
      · simp

def blame (source : String) : Failure → Failure
  | .aliasConfig path message => .aliasConfig path message
  | failure => .aliasConfig source failure.message

def sources (root : String) : Option String → List String
  | some path => [Path.join root path]
  | none => defaultSources.map (Path.join root)

/-- The configuration file. The one asked for need not be there; of the usual ones, the first that is
there is taken. -/
def source? (fileSystem : FileSystem) (root : String) (explicit : Option String) : Option String :=
  match explicit with
  | some path => some (Path.join root path)
  | none => (sources root none).find? fileSystem.isFile

def load (fileSystem : FileSystem) (root : String) (explicit : Option String) : AliasLoad :=
  match source? fileSystem root explicit with
  | none => ⟨[], none, none⟩
  | some source =>
    match read fileSystem maxHops source with
    | .ok table => ⟨table, some source, none⟩
    | .error failure => ⟨[], some source, some (blame source failure).toDiagnostic⟩

def consulted (fileSystem : FileSystem) (root : String) (explicit : Option String) : List String :=
  sources root explicit ++
    match source? fileSystem root explicit with
    | none => []
    | some source => (filesRead fileSystem maxHops source).flatMap fun (path, target) =>
      path :: (target.map (candidates path)).getD []

end AliasConfig

end Orphans
