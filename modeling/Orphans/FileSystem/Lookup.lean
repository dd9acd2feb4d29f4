import Orphans.FileSystem.Node
import Orphans.FileSystem.Refusal
import Orphans.Path

/-! Looking up paths.

A path is read piece by piece. Every piece, also an idle one, asks for a directory to stand in; `..` leads
to the parent of the directory that was reached, and a link is replaced by its target, so what a path
means depends on the tree and not on its text alone.
-/

set_option autoImplicit false

namespace Orphans

structure FileSystem where
  /-- The directory at `/`. -/
  root : Node
  /-- The location of the working directory, which no link leads through. -/
  workingDirectory : List String

namespace FileSystem

inductive Ending where
  /-- It has to exist, and a link is followed. -/
  | follow
  /-- It has to exist, and a link is left alone. -/
  | keep
  /-- It names a file that may be missing, and a link is followed. -/
  | create
  deriving DecidableEq, Repr

def maxLinks : Nat := 40

def maxNameLength : Nat := 255

def maxPathLength : Nat := 4095

def isTooLong (path : String) : Bool := maxPathLength < path.utf8ByteSize

def missing (name : String) : Refusal :=
  if maxNameLength < name.utf8ByteSize then .nameTooLong else .notFound

def start (here : List String) (path : String) : List String :=
  if Path.isAbsolute path then [] else here

/-- Read the pieces of a path from the directory at `here`. A link hands over to `follow`, with the place
where it stands, its target and the pieces behind it. No file is made behind a separator at the end. -/
def walkWith (root : Node) (ending : Ending)
    (follow : List String → String → List String → Except Refusal (List String)) :
    List String → List String → Except Refusal (List String)
  | here, [] => .ok here
  | here, piece :: rest =>
    match (root.get? here).bind Node.entries? with
    | none => .error .notADirectory
    | some entries =>
      if Path.isIdle piece then walkWith root ending follow here rest
      else if piece = ".." then walkWith root ending follow here.dropLast rest
      else if ending = .create ∧ rest ≠ [] ∧ rest.all (· == "") then .error .isADirectory
      else
        match entries.lookup piece with
        | none =>
          if ending = .create ∧ rest = [] ∧ missing piece = .notFound then .ok (here ++ [piece])
          else .error (missing piece)
        | some (.link target) =>
          if ending = .keep ∧ rest = [] then .ok (here ++ [piece]) else follow here target rest
        | some _ => walkWith root ending follow (here ++ [piece]) rest

def walk (root : Node) (ending : Ending) : Nat → List String → List String →
    Except Refusal (List String)
  | 0 => walkWith root ending fun _ _ _ => .error .tooManyLinks
  | links + 1 => walkWith root ending fun here target rest =>
    walk root ending links (start here target) (Path.pieces target ++ rest)

def locate (fileSystem : FileSystem) (ending : Ending) (path : String) :
    Except Refusal (List String) :=
  if path = "" then .error .notFound
  else if '\x00' ∈ path.toList then .error .nulInPath
  else if isTooLong path then .error .nameTooLong
  else
    walk fileSystem.root ending maxLinks (start fileSystem.workingDirectory path) (Path.pieces path)

def find (fileSystem : FileSystem) (ending : Ending) (path : String) : Except Refusal Node :=
  match fileSystem.locate ending path with
  | .error refusal => .error refusal
  | .ok location =>
    match fileSystem.root.get? location with
    | some node => .ok node
    | none => .error .notFound

def contains (fileSystem : FileSystem) (path : String) : Bool :=
  match fileSystem.find .follow path with
  | .ok _ => true
  | .error _ => false

def isFile (fileSystem : FileSystem) (path : String) : Bool :=
  match fileSystem.find .follow path with
  | .ok node => node.isFile
  | .error _ => false

def readText (fileSystem : FileSystem) (path : String) : Except Refusal String :=
  match fileSystem.find .follow path with
  | .ok (.file (some text)) => .ok text
  | .ok (.file none) => .error .notText
  | .ok _ => .error .isADirectory
  | .error refusal => .error refusal

def workingPath (fileSystem : FileSystem) : String :=
  "/" ++ Path.joinPieces fileSystem.workingDirectory

def absolute? (fileSystem : FileSystem) (path : String) : Option String :=
  Path.absolute? fileSystem.workingPath path

end FileSystem

end Orphans
