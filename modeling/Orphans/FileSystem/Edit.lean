import Orphans.FileSystem.Lookup

/-! Changing a file system. -/

set_option autoImplicit false

namespace Orphans.FileSystem

def set (fileSystem : FileSystem) (location : List String) (node : Option Node) : FileSystem :=
  { fileSystem with root := fileSystem.root.set node location }

def destination (fileSystem : FileSystem) (path : String) : Except Refusal (List String) :=
  match fileSystem.locate .create path with
  | .error refusal => .error refusal
  | .ok location =>
    match fileSystem.root.get? location with
    | some (.directory _) => .error .isADirectory
    | _ => .ok location

/-- The file system after a text is written to a path. The file is made if it is missing, the directories
on the way are not. -/
def write (fileSystem : FileSystem) (path : String) (text : Option String) :
    Except Refusal FileSystem :=
  match fileSystem.destination path with
  | .ok location => .ok (fileSystem.set location (some (.file text)))
  | .error refusal => .error refusal

def makeDirectory (fileSystem : FileSystem) (path : String) : Except Refusal FileSystem := do
  let location ← fileSystem.locate .create path
  match fileSystem.root.get? location with
  | some (.directory _) => .ok fileSystem
  | some _ => .error .alreadyExists
  | none => .ok (fileSystem.set location (some (.directory [])))

def makeDirectories (fileSystem : FileSystem) (path : String) : Except Refusal FileSystem :=
  let parts := (Path.pieces path).filter fun piece => !Path.isIdle piece
  (List.range parts.length).foldlM
    (fun fileSystem count =>
      fileSystem.makeDirectory ("/" ++ Path.joinPieces (parts.take (count + 1))))
    fileSystem

def makeLink (fileSystem : FileSystem) (path target : String) : Except Refusal FileSystem :=
  match fileSystem.locate .keep path with
  | .ok _ => .error .alreadyExists
  | .error _ =>
    match fileSystem.locate .create path with
    | .ok location => .ok (fileSystem.set location (some (.link target)))
    | .error refusal => .error refusal

def remove (fileSystem : FileSystem) (path : String) : Except Refusal FileSystem :=
  match fileSystem.locate .keep path with
  | .ok location => .ok (fileSystem.set location none)
  | .error refusal => .error refusal

def enter (fileSystem : FileSystem) (path : String) : Except Refusal FileSystem := do
  let location ← fileSystem.locate .follow path
  match fileSystem.root.get? location with
  | some (.directory _) => .ok { fileSystem with workingDirectory := location }
  | _ => .error .notADirectory

end Orphans.FileSystem
