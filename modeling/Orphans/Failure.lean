import Orphans.Diagnostic

/-! What can go wrong.

Invalid options and cancellation end an analysis. The other failures concern one file each, and an
analysis that meets one turns it into a diagnostic.
-/

set_option autoImplicit false

namespace Orphans

inductive Failure where
  | unreadable (path message : String)
  | aliasConfig (path message : String)
  | worker (path message : String)
  | invalidArgument (message : String)
  | cancelled
  deriving DecidableEq, Repr

namespace Failure

def noWorker : Failure := .invalidArgument "jobs must be at least 1"

def noExtension : Failure := .invalidArgument "at least one file extension is required"

def message : Failure → String
  | .unreadable path message => "I/O error at " ++ path ++ ": " ++ message
  | .aliasConfig path message => "Alias config error at " ++ path ++ ": " ++ message
  | .worker path message => "Worker failed on " ++ path ++ ": " ++ message
  | .invalidArgument message => "Invalid argument: " ++ message
  | .cancelled => "Analysis cancelled"

def path? : Failure → Option String
  | .unreadable path _ | .aliasConfig path _ | .worker path _ => some path
  | .invalidArgument _ | .cancelled => none

def diagnosticKind : Failure → Diagnostic.Kind
  | .aliasConfig _ _ => .aliasConfig
  | .worker _ _ => .workerFailure
  | .unreadable _ _ | .invalidArgument _ | .cancelled => .unreadableFile

def toDiagnostic (failure : Failure) : Diagnostic :=
  ⟨failure.diagnosticKind, failure.path?, failure.message⟩

end Failure

end Orphans
