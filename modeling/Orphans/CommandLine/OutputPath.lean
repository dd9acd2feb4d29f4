import Orphans.Path

/-! Paths to which output may be written.

Such a path is relative and has no `..` segment, with either slash read as a separator, so that it stays
inside the working directory.
-/

set_option autoImplicit false

namespace Orphans.CommandLine.OutputPath

inductive Fault where
  | nul
  | absolute (path : String)
  | climbs (path : String)
  deriving DecidableEq, Repr

def Fault.message : Fault → String
  | .nul => "Output path contains null bytes"
  | .absolute path => "Output path must be relative, not absolute: " ++ path
  | .climbs path => "Path traversal (..) not allowed in output paths: " ++ path

/-- The segments of a path in which both slashes separate. -/
def segments (path : String) : List (List Char) :=
  (path.toList.map fun c => if c = '\\' then '/' else c).splitOn '/'

def check (path : String) : Except Fault Unit :=
  if '\x00' ∈ path.toList then .error .nul
  else if path.toList.head? = some '/' ∨ path.toList.head? = some '\\' then .error (.absolute path)
  else if ['.', '.'] ∈ segments path then .error (.climbs path)
  else .ok ()

end Orphans.CommandLine.OutputPath
