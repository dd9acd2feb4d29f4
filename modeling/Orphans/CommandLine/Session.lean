import Orphans.Analysis.Run
import Orphans.CommandLine.Arguments
import Orphans.CommandLine.OutputPath
import Orphans.FileSystem.Edit
import Orphans.ProjectRoot
import Orphans.Report.Document
import Orphans.Report.Dot
import Orphans.Report.Plain
import Orphans.Settings

/-! One run of the command. -/

set_option autoImplicit false

namespace Orphans.CommandLine

structure Reply where
  exit : Nat
  stdout : String
  stderr : String
  /-- A path and the text that belongs there. -/
  file : Option (String × String)
  deriving DecidableEq, Repr

namespace Reply

def fatal (message : String) : Reply := ⟨1, "", "Error: " ++ message ++ "\n", none⟩

def printing (stdout : String) : Reply := ⟨0, stdout, "", none⟩

end Reply

def usageExit : Nat := 2

structure Plan where
  options : Options
  json : Bool
  deriving DecidableEq, Repr

def preferred (given : List String) (settings : Option (List String)) (default : List String) :
    List String :=
  if given.isEmpty then settings.getD default else given

/-- Arguments win over settings, and settings win over defaults. Exempt names add up. -/
def plan (arguments : Arguments) (root : String) (processors : Nat) (settings : Settings) : Plan where
  options :=
    { root := root
      extensions :=
        preferred arguments.extensions settings.extensions Options.defaultExtensions
      excludedDirectories :=
        preferred arguments.exclude settings.exclude Options.defaultExcludedDirectories
      aliasConfig := arguments.aliasConfig.or settings.aliasConfig
      jobs := (arguments.jobs.or settings.jobs).getD processors
      batchSize := (Options.initial root processors).batchSize
      exemptNames := settings.exempt.getD [] ++ arguments.exempt }
  json := arguments.json || settings.wantsJson

/-- The settings of a project. Settings that cannot be used are ignored. -/
def settingsAt (fileSystem : FileSystem) (root : String) : Settings :=
  match Settings.load fileSystem root with
  | .ok (some settings) => settings
  | _ => .empty

def report (arguments : Arguments) (json : Bool) (analysis : Analysis) (elapsed : Nat) : String :=
  if json then Report.json analysis elapsed ++ "\n"
  else Report.plain analysis elapsed ++ if arguments.verbose then Report.statistics analysis else ""

def verdict (analysis : Analysis) : Nat := if analysis.hasUnreferenced then 1 else 0

def conclude (arguments : Arguments) (json : Bool) (analysis : Analysis) (elapsed : Nat) : Reply :=
  let printed := report arguments json analysis elapsed
  match arguments.dotFile with
  | some path =>
    match OutputPath.check path with
    | .ok () => ⟨verdict analysis, printed, "", some (path, Report.dot analysis)⟩
    | .error fault =>
      ⟨usageExit, printed, "[ERROR] Invalid output path: " ++ fault.message ++ "\n", none⟩
  | none =>
    let graph := if arguments.dot then Report.dot analysis ++ "\n" else ""
    ⟨verdict analysis, printed ++ graph, "", none⟩

def planAt (fileSystem : FileSystem) (processors : Nat) (arguments : Arguments) (path : String) :
    Plan :=
  let root := ProjectRoot.find fileSystem path
  plan arguments root processors (settingsAt fileSystem root)

/-- The path inside the project, which is the working directory unless one is given. -/
def Arguments.target (arguments : Arguments) : String := arguments.path.getD "."

def prepare (fileSystem : FileSystem) (processors : Nat) (arguments : Arguments) :
    Except Reply (Bool × Analysis) :=
  let path := arguments.target
  if fileSystem.contains path then
    let plan := planAt fileSystem processors arguments path
    match Analysis.run fileSystem plan.options false with
    | .ok analysis => .ok (plan.json, analysis)
    | .error failure =>
      .error (.fatal ("Analysis failed for: " ++ plan.options.root ++ "\n\nCaused by:\n    " ++
        failure.message))
  else .error (.fatal ("Path does not exist: " ++ path))

/-- The reply to the arguments of an analysis, on a machine with so many processors, when the analysis
takes `elapsed` nanoseconds. -/
def analyse (fileSystem : FileSystem) (processors elapsed : Nat) (arguments : Arguments) : Reply :=
  match prepare fileSystem processors arguments with
  | .ok (json, analysis) => conclude arguments json analysis elapsed
  | .error reply => reply

def versionText : String := "deadfile-cli 0.1.0\n"

def usageText : String :=
  "Usage: deadfile [OPTIONS] [PATH]\n\n" ++
    "Options:\n" ++
    "      --files <EXT>...     File extensions to analyze\n" ++
    "      --exclude <DIR>...   Directory names to exclude\n" ++
    "  -j, --jobs <JOBS>        Number of workers\n" ++
    "      --tsconfig <FILE>    Alias config file, relative to the project root\n" ++
    "      --exempt <NAME>...   Extra file names treated as framework entry points\n" ++
    "      --json               Output results in JSON format\n" ++
    "  -v, --verbose            Print import statistics after the report\n" ++
    "      --dot                Generate Graphviz DOT output for the import graph\n" ++
    "      --dot-file <FILE>    Write DOT output to a file instead of stdout\n" ++
    "  -h, --help               Print help\n" ++
    "  -V, --version            Print version\n"

def reply (fileSystem : FileSystem) (processors elapsed : Nat) (arguments : List String) : Reply :=
  match parse? arguments with
  | none => ⟨usageExit, "", usageText, none⟩
  | some .help => .printing usageText
  | some .version => .printing versionText
  | some (.analyse arguments) => analyse fileSystem processors elapsed arguments

/-- The warning about a file that could not be written. It leaves the exit status as it is. -/
def writeWarning (path message : String) : String :=
  "[WARN] DOT write failed to " ++ path ++ ": " ++ message ++ "\n"

def Reply.perform (reply : Reply) (fileSystem : FileSystem) : Reply × FileSystem :=
  match reply.file with
  | none => (reply, fileSystem)
  | some (path, text) =>
    match fileSystem.write path (some text) with
    | .ok written => (reply, written)
    | .error refusal =>
      ({ reply with stderr := reply.stderr ++ writeWarning path refusal.message }, fileSystem)

end Orphans.CommandLine
