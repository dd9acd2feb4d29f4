import Orphans.Extension
import Orphans.Failure

/-! What an analysis is asked to do. -/

set_option autoImplicit false

namespace Orphans

structure Options where
  /-- The path of the project root. -/
  root : String
  /-- The accepted extensions, in the order of resolution. -/
  extensions : List String
  /-- The names of directories that are passed over wherever they appear. -/
  excludedDirectories : List String
  /-- The alias configuration, if it is not one of the usual files. -/
  aliasConfig : Option String
  jobs : Nat
  batchSize : Nat
  /-- File names that are exempt on top of the usual ones. -/
  exemptNames : List String
  deriving DecidableEq, Repr

namespace Options

def defaultExtensions : List String := ["tsx", "ts"]

def defaultExcludedDirectories : List String := ["node_modules", ".next", ".git", "dist", "build"]

def initial (root : String) (jobs : Nat) : Options where
  root := root
  extensions := defaultExtensions
  excludedDirectories := defaultExcludedDirectories
  aliasConfig := none
  jobs := jobs
  batchSize := 1
  exemptNames := []

/-- Options that no run can use are refused: there has to be a worker, and an extension. -/
def validate (options : Options) : Except Failure Unit :=
  if options.jobs = 0 then .error .noWorker
  else if options.extensions.all fun extension => Extension.normalize extension = "" then
    .error .noExtension
  else .ok ()

end Options

end Orphans
