import Orphans.Ascending
import Orphans.Candidate

/-! Referenced, unreferenced and exempt files.

Some files are entered by a framework and not imported. They are recognised by name, after resolution,
so that they still count as targets of other files.
-/

set_option autoImplicit false

namespace Orphans

/-- The names of files that a framework enters on its own. -/
structure Conventions where
  names : List String
  deriving DecidableEq, Repr

namespace Conventions

def routing : List String :=
  ["page.tsx", "page.ts", "layout.tsx", "layout.ts", "loading.tsx", "loading.ts", "error.tsx",
    "error.ts", "route.tsx", "route.ts", "middleware.ts", "not-found.tsx"]

def none : Conventions := ⟨[]⟩

def withExtra (extra : List String) : Conventions := ⟨routing ++ extra⟩

def exempts (conventions : Conventions) (fileName : String) : Bool := fileName ∈ conventions.names

end Conventions

inductive Standing where
  | referenced
  | exempt
  | unreferenced
  deriving DecidableEq, Repr

def Candidate.standing (candidate : Candidate) (referenced : List String)
    (conventions : Conventions) : Standing :=
  if candidate.key ∈ referenced then .referenced
  else if conventions.exempts candidate.fileName then .exempt
  else .unreferenced

structure Classification where
  referenced : List String
  unreferenced : List String
  exempt : List String
  deriving DecidableEq, Repr

/-- The keys of the files with one standing. Keys in `referenced` that belong to no file play no part. -/
def keysStanding (standing : Standing) (files : List Candidate) (referenced : List String)
    (conventions : Conventions) : List String :=
  Ascending.ofList <|
    (files.filter fun file => file.standing referenced conventions = standing).map Candidate.key

def classify (files : List Candidate) (referenced : List String) (conventions : Conventions) :
    Classification where
  referenced := keysStanding .referenced files referenced conventions
  unreferenced := keysStanding .unreferenced files referenced conventions
  exempt := keysStanding .exempt files referenced conventions

end Orphans
