import Orphans.AliasConfig
import Orphans.Analysis
import Orphans.Classification
import Orphans.Discovery
import Orphans.Linker
import Orphans.Options

/-! Running an analysis.

Only invalid options and cancellation end a run without a result. Every other problem becomes a
diagnostic of the result.
-/

set_option autoImplicit false

namespace Orphans.Analysis

def relativeKeys (root : String) (keys : List String) : List String :=
  Sorting.sort Sorting.textBefore (keys.map (Key.relativeTo root))

def relativeEdges (root : String) (edges : List Edge) : List Edge :=
  Sorting.sort Edge.before <| edges.map fun edge =>
    ⟨Key.relativeTo root edge.importer, Key.relativeTo root edge.imported⟩

def discovery (fileSystem : FileSystem) (options : Options) (root : String) : Discovery :=
  discover fileSystem root (.configure options.extensions options.excludedDirectories)

def assemble (options : Options) (root : String) (aliases : AliasLoad) (found : Discovery)
    (references : References) : Analysis :=
  let key := Key.normalize root
  let classes := classify found.files references.referenced (.withExtra options.exemptNames)
  { root := root
    totalFiles := found.files.length
    referenced := relativeKeys key classes.referenced
    unreferenced := relativeKeys key classes.unreferenced
    exempt := relativeKeys key classes.exempt
    edges := relativeEdges key references.edges
    diagnostics :=
      Diagnostic.sort (aliases.diagnostic.toList ++ found.diagnostics ++ references.diagnostics) }

def runAt (fileSystem : FileSystem) (options : Options) (cancelled : Bool) (root : String) :
    Except Failure Analysis := do
  let aliases := AliasConfig.load fileSystem root options.aliasConfig
  let found := discovery fileSystem options root
  let linker := Linker.configure (Key.normalize root) options.extensions aliases.table found.files
  let references ← linker.collect fileSystem ⟨options.jobs, options.batchSize⟩ cancelled found.files
  return assemble options root aliases found references

def run (fileSystem : FileSystem) (options : Options) (cancelled : Bool) : Except Failure Analysis := do
  options.validate
  match fileSystem.absolute? options.root with
  | none => .error (.unreadable options.root "cannot make an empty path absolute")
  | some root => runAt fileSystem options cancelled root

end Orphans.Analysis
