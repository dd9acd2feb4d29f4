import Orphans.Decimal.Binary64
import Orphans.Diagnostic
import Orphans.Edge
import Orphans.Graph
import Orphans.Key

/-! The result of an analysis, and the views of it that reports show. -/

set_option autoImplicit false

namespace Orphans

/-- The files of a project by standing, and the imports between them, as seen from the root. -/
structure Analysis where
  /-- The absolute path of the root. -/
  root : String
  totalFiles : Nat
  referenced : List String
  unreferenced : List String
  exempt : List String
  edges : List Edge
  diagnostics : List Diagnostic
  deriving DecidableEq, Repr

namespace Analysis

def hasUnreferenced (analysis : Analysis) : Bool := !analysis.unreferenced.isEmpty

def files (analysis : Analysis) : List String :=
  analysis.referenced ++ analysis.unreferenced ++ analysis.exempt

def graph (analysis : Analysis) : Graph := .build analysis.files analysis.edges

def namesIn (directory : String) (files : List String) : List String :=
  Sorting.sort Sorting.textBefore ((files.filter fun file => Key.parent file = directory).map Key.name)

def byDirectory (analysis : Analysis) : List (String × List String) :=
  (Ascending.ofList (analysis.unreferenced.map Key.parent)).map fun directory =>
    (directory, namesIn directory analysis.unreferenced)

/-- The part of a file's name behind its last dot, which has to have something before it. -/
def extensionOf (file : String) : String := (Path.nameExtension? (Key.name file)).getD ""

def byExtension (analysis : Analysis) : List (String × Nat) :=
  (Ascending.ofList (analysis.unreferenced.map extensionOf)).map fun extension =>
    (extension, (analysis.unreferenced.filter fun file => extensionOf file = extension).length)

def percentage (analysis : Analysis) : Size :=
  if analysis.totalFiles = 0 then .zero
  else
    ((Size.ofNat analysis.unreferenced.length).divide (.ofNat analysis.totalFiles)).multiply
      (.ofNat 100)

end Analysis

end Orphans
