import Orphans.Path
import Orphans.Sorting

/-! Problems that an analysis survives.

A diagnostic stands next to the result. Its file or directory contributes nothing, and the run goes on.
-/

set_option autoImplicit false

namespace Orphans

/-- What a diagnostic is about. The constructors are listed in the order of reports. -/
inductive Diagnostic.Kind where
  | unreadableFile
  | unlistableDirectory
  | aliasConfig
  | workerFailure
  deriving DecidableEq, Repr

namespace Diagnostic.Kind

def rank : Diagnostic.Kind → Nat
  | .unreadableFile => 0
  | .unlistableDirectory => 1
  | .aliasConfig => 2
  | .workerFailure => 3

def label : Diagnostic.Kind → String
  | .unreadableFile => "unreadable file"
  | .unlistableDirectory => "unlistable directory"
  | .aliasConfig => "alias config"
  | .workerFailure => "worker failure"

def identifier : Diagnostic.Kind → String
  | .unreadableFile => "unreadable_file"
  | .unlistableDirectory => "unlistable_directory"
  | .aliasConfig => "alias_config"
  | .workerFailure => "worker_failure"

end Diagnostic.Kind

structure Diagnostic where
  kind : Diagnostic.Kind
  path : Option String
  message : String
  deriving DecidableEq, Repr

namespace Diagnostic

def text (diagnostic : Diagnostic) : String :=
  "[" ++ diagnostic.kind.label ++ "] " ++
    match diagnostic.path with
    | some path => path ++ ": " ++ diagnostic.message
    | none => diagnostic.message

/-- A missing path comes before every path. -/
def pathBefore : Option String → Option String → Bool
  | none, some _ => true
  | some first, some second => Path.before first second
  | _, none => false

def before (first second : Diagnostic) : Bool :=
  if first.kind ≠ second.kind then first.kind.rank < second.kind.rank
  else if pathBefore first.path second.path then true
  else if pathBefore second.path first.path then false
  else first.message < second.message

def sort (diagnostics : List Diagnostic) : List Diagnostic := Sorting.sort before diagnostics

end Diagnostic

end Orphans
