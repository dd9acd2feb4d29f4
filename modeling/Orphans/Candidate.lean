import Orphans.Key
import Orphans.Path

/-! Candidate files, and the files that are left out as test artifacts. -/

set_option autoImplicit false

namespace Orphans

/-- A source file that takes part in the analysis, given by its path on disk. -/
structure Candidate where
  path : String
  deriving DecidableEq, Repr

namespace Candidate

def key (candidate : Candidate) : String := Key.normalize candidate.path

def extension (candidate : Candidate) : String := (Path.extension? candidate.path).getD ""

def fileName (candidate : Candidate) : String := Key.name candidate.key

end Candidate

namespace TestArtifact

/-- The endings that mark a test file before its extension, or a test folder. -/
def endings : List String := [".test", ".spec"]

def hasEnding (name : String) : Bool :=
  endings.any fun ending => ending.toList.isSuffixOf name.toList

def isTestFolder (name : String) : Bool :=
  "__tests__".toList.isPrefixOf name.toList || hasEnding name

/-- A path is a test artifact if a folder on the way is a test folder, or if its stem has a test ending. -/
def includes (path : List Path.Component) : Bool :=
  (path.dropLast.any fun component => isTestFolder component.text) ||
    match path.getLast? with
    | some (.name text) => hasEnding (Path.stem text)
    | _ => false

end TestArtifact

end Orphans
