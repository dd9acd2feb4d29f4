import Orphans.CommandLine.Session

/-! The disk as a run of the command sees it.

Before a run, the part of the disk that it can look at is read into a file system: the way up from the
path to the root of the file system, the project below its root, and the configuration files. A file that
cannot be read counts as one without text.
-/

set_option autoImplicit false

namespace Orphans.Disk

def readFile (path : String) : IO Node := do
  try
    return .file (String.fromUTF8? (← IO.FS.readBinFile path))
  catch _ =>
    return .file none

def kind? (entry : IO.FS.DirEntry) : IO (Option IO.FS.FileType) := do
  try
    return some (← entry.path.symlinkMetadata).type
  catch _ =>
    return none

/-- The path behind all links. A link that leads nowhere stands for itself. -/
def realPath (path : String) : IO String := do
  try
    return (← IO.FS.realPath path).toString
  catch _ =>
    return path

def location (path : String) : List String := (Path.pieces path).filter fun piece => piece ≠ ""

def put (fileSystem : FileSystem) (path : String) (node : Node) : FileSystem :=
  match fileSystem.makeDirectories ((Path.parent? path).getD "/") with
  | .ok ready => ready.set (location path) (some node)
  | .error _ => fileSystem

/-- Make what lies on the way from `here` known, link by link. -/
partial def reveal (fileSystem : FileSystem) (here : String) : List String → IO FileSystem
  | [] => return fileSystem
  | piece :: rest => do
    if Path.isIdle piece then reveal fileSystem here rest
    else if piece = ".." then reveal fileSystem ((Path.parent? here).getD "/") rest
    else
      let path := Path.join here piece
      match ← kind? ⟨← IO.FS.realPath here, piece⟩ with
      | some .dir =>
        let known := match fileSystem.makeDirectories path with
          | .ok known => known
          | .error _ => fileSystem
        reveal known path rest
      | some .symlink =>
        let target ← realPath path
        let known := put fileSystem path (.link target)
        if target = path then return known else reveal known "/" (Path.pieces target ++ rest)
      | some .file => return put fileSystem path (← readFile path)
      | _ => return fileSystem

def revealPath (fileSystem : FileSystem) (path : String) : IO FileSystem :=
  if path = "" ∨ '\x00' ∈ path.toList then return fileSystem
  else if Path.isAbsolute path then reveal fileSystem "/" (Path.pieces path)
  else reveal fileSystem fileSystem.workingPath (Path.pieces path)

/-- All that a walk can reach below a directory. -/
partial def entries (rules : Rules) (path : String) : IO (List (String × Node)) := do
  let mut found := []
  for entry in ← (← IO.FS.realPath path).readDir do
    let below := Path.join path entry.fileName
    match ← kind? entry with
    | some .dir =>
      let inner ← if rules.excludes entry.fileName then pure [] else entries rules below
      found := Node.setEntry entry.fileName (.directory inner) found
    | some .file =>
      let node ← if rules.acceptsName entry.fileName then readFile below else pure (.file none)
      found := Node.setEntry entry.fileName node found
    | some .symlink => found := Node.setEntry entry.fileName (.link (← realPath below)) found
    | _ => pure ()
  return found

def revealProject (fileSystem : FileSystem) (root : String) (rules : Rules) : IO FileSystem := do
  match fileSystem.locate .follow root with
  | .error _ => return fileSystem
  | .ok location =>
    match fileSystem.root.get? location with
    | some (.directory _) =>
      let inner ← entries rules root
      return fileSystem.set location (some (.directory inner))
    | _ => return fileSystem

/-- Make known what the arguments of an analysis lead to. Each configuration file may name another one,
so the last step is repeated. -/
def survey (workingPath : String) (arguments : CommandLine.Arguments) : IO FileSystem := do
  let path := arguments.target
  let start : FileSystem := ⟨.directory [], location workingPath⟩
  let start ← revealPath start workingPath
  let start ← revealPath start path
  let absolute := (start.absolute? path).getD path
  let marks := (ProjectRoot.ancestors absolute).flatMap fun directory =>
    ProjectRoot.markers.map (Path.join directory)
  let above ← marks.foldlM revealPath start
  let root := ProjectRoot.find above path
  let configured ← revealPath above (Path.join root Settings.fileName)
  let options := (CommandLine.planAt configured 1 arguments path).options
  let project ← revealProject configured root
    (.configure options.extensions options.excludedDirectories)
  let mut known := project
  for path in Path.join root Settings.fileName :: marks do
    known ← revealPath known path
  for _ in [0 : AliasConfig.maxHops + 2] do
    known ← (AliasConfig.consulted known root options.aliasConfig).foldlM revealPath known
  return known

def refusalText (error : IO.Error) : String :=
  match error with
  | .noFileOrDirectory _ _ _ => Refusal.notFound.message
  | .inappropriateType _ 20 _ => Refusal.notADirectory.message
  | .inappropriateType _ 21 _ => Refusal.isADirectory.message
  | .invalidArgument _ 36 _ => Refusal.nameTooLong.message
  | .invalidArgument _ 40 _ => Refusal.tooManyLinks.message
  | error => toString error

end Orphans.Disk
