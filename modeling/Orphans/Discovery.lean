import Orphans.Candidate
import Orphans.Diagnostic
import Orphans.Extension
import Orphans.FileSystem.Lookup

/-! Finding the candidate files of a project.

The tree is walked in the order of names. An excluded directory is passed over with all that lies below
it, links are not followed, and test artifacts are left out. The root itself is never excluded, and it may
be a link.
-/

set_option autoImplicit false

namespace Orphans

structure Rules where
  /-- The accepted extensions, without dots. -/
  extensions : List String
  excludedDirectories : List String
  deriving DecidableEq, Repr

namespace Rules

def configure (extensions excludedDirectories : List String) : Rules :=
  ⟨Extension.normalizeAll extensions, excludedDirectories⟩

def acceptsName (rules : Rules) (name : String) : Bool :=
  match Path.nameExtension? name with
  | some extension => extension ∈ rules.extensions
  | none => false

def excludes (rules : Rules) (name : String) : Bool := name ∈ rules.excludedDirectories

mutual

def locationsIn (rules : Rules) : List (String × Node) → List (List String)
  | [] => []
  | (name, node) :: rest => locationsAt rules name node ++ locationsIn rules rest

def locationsAt (rules : Rules) (name : String) : Node → List (List String)
  | .file _ => if rules.acceptsName name then [[name]] else []
  | .link _ => []
  | .directory entries =>
    if rules.excludes name then [] else (locationsIn rules entries).map (name :: ·)

end

mutual

/-- The locations of the directories that are not passed over, each before those below it. -/
def directoriesIn (rules : Rules) : List (String × Node) → List (List String)
  | [] => []
  | (name, node) :: rest => directoriesAt rules name node ++ directoriesIn rules rest

def directoriesAt (rules : Rules) (name : String) : Node → List (List String)
  | .directory entries =>
    if rules.excludes name then [] else [name] :: (directoriesIn rules entries).map (name :: ·)
  | _ => []

end

def candidatesIn (rules : Rules) (entries : List (String × Node)) : List (List String) :=
  (rules.locationsIn entries).filter fun location =>
    !TestArtifact.includes (location.map Path.Component.name)

end Rules

structure Discovery where
  files : List Candidate
  diagnostics : List Diagnostic
  deriving DecidableEq, Repr

namespace Discovery

def nothing : Discovery := ⟨[], []⟩

def pathAt (root : String) (location : List String) : String := location.foldl Path.join root

def unlistable (path : String) (refusal : Refusal) : Diagnostic :=
  ⟨.unlistableDirectory, some path, "IO error for operation on " ++ path ++ ": " ++ refusal.message⟩

/-- Whether the walk gets to a location: the path of the directory around it is not too long. -/
def isReached (root : String) (location : List String) : Bool :=
  !FileSystem.isTooLong (pathAt root location.dropLast)

def tooLong (rules : Rules) (root : String) (entries : List (String × Node)) : List String :=
  ((rules.directoriesIn entries).filter (isReached root)).map (pathAt root) |>.filter
    FileSystem.isTooLong

def ofDirectory (rules : Rules) (root : String) (entries : List (String × Node)) : Discovery where
  files := ((rules.candidatesIn entries).filter (isReached root)).map fun location =>
    ⟨pathAt root location⟩
  diagnostics := (tooLong rules root entries).map (unlistable · .nameTooLong)

/-- A root that is a file is a candidate itself, whatever its name but for the extension. -/
def ofFile (rules : Rules) (root : String) : Discovery :=
  if ((Path.fileName? root).map rules.acceptsName).getD false then ⟨[⟨root⟩], []⟩ else nothing

def refused (root : String) (refusal : Refusal) : Discovery := ⟨[], [unlistable root refusal]⟩

end Discovery

def discover (fileSystem : FileSystem) (root : String) (rules : Rules) : Discovery :=
  match fileSystem.find .keep root with
  | .error refusal => .refused root refusal
  | .ok (.file _) => .ofFile rules root
  | .ok (.directory entries) => .ofDirectory rules root entries
  | .ok (.link _) =>
    match fileSystem.find .follow root with
    | .error refusal => .refused root refusal
    | .ok (.directory entries) => .ofDirectory rules root entries
    | .ok _ => .nothing

end Orphans
