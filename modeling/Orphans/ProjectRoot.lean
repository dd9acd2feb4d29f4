import Orphans.FileSystem.Lookup

/-! The root of the project that a path belongs to. -/

set_option autoImplicit false

namespace Orphans.ProjectRoot

def markers : List String := ["package.json", "tsconfig.json"]

def isMarked (fileSystem : FileSystem) (directory : String) : Bool :=
  markers.any fun marker => fileSystem.isFile (Path.join directory marker)

def chain : Nat → String → List String
  | 0, path => [path]
  | steps + 1, path =>
    path :: match Path.parent? path with
      | some parent => chain steps parent
      | none => []

/-- A path and all its parents. A parent is shorter than its path, so the length of the path bounds the
chain. -/
def ancestors (path : String) : List String := chain path.length path

def first (fileSystem : FileSystem) (path : String) : String :=
  if fileSystem.isFile path then (Path.parent? path).getD path else path

/-- The nearest marked directory at or above a path, or the path itself if none is marked. The empty path
stands for itself. -/
def find (fileSystem : FileSystem) (path : String) : String :=
  let start := (fileSystem.absolute? path).getD path
  ((ancestors (first fileSystem start)).find? (isMarked fileSystem)).getD start

end Orphans.ProjectRoot
