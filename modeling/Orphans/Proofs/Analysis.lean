import Orphans.Analysis.Run
import Orphans.Proofs.Discovery
import Orphans.Proofs.References

/-! What an analysis says about a project.

The result is described by the files that were discovered and by which file reaches which key: the edges
are the pairs of files in which the first reaches the second, and everything else follows from the edges
and from the names of the files. Stages are passed once each, from the outcome of one file to the lists
that a reader sees.
-/

set_option autoImplicit false

namespace Orphans

open Ascending (Ascends)

/-- The importer can be read, and one of the specifiers in its text may stand for the key. -/
def Candidate.Reaches (fileSystem : FileSystem) (scheme : Specifier.Scheme) (resolver : Resolver)
    (importer : Candidate) (key : String) : Prop :=
  ∃ text, fileSystem.readText importer.path = .ok text ∧
    ∃ specifier ∈ Import.specifiers scheme text, key ∈ resolver.resolve specifier importer.key

/-! ### The outcome of a file -/

theorem Import.specifiers_empty (scheme : Specifier.Scheme) : specifiers scheme "" = [] := by
  have nothing : occurrences "" = [] := by decide
  simp [specifiers, nothing, Ascending.ofList]

namespace Linker

variable (linker : Linker) (fileSystem : FileSystem) (file : Candidate)

theorem file_outcome : (linker.outcome fileSystem file).file = file.key := by
  unfold outcome
  split <;> rfl

theorem mem_targets_outcome {key : String} :
    key ∈ (linker.outcome fileSystem file).targets ↔
      file.Reaches fileSystem linker.scheme linker.resolver key ∧ key ∈ linker.known := by
  unfold outcome Candidate.Reaches
  cases read : fileSystem.readText file.path with
  | error refusal => simp [outcomeOfRefusal]
  | ok text => simp [outcomeOfText, targets]

theorem mem_known_configure {root : String} {extensions : List String} {aliases : AliasTable}
    {files : List Candidate} {key : String} :
    key ∈ (configure root extensions aliases files).known ↔ ∃ file ∈ files, file.key = key := by
  simp [configure]

theorem mem_edges_outcomes {root : String} {extensions : List String} {aliases : AliasTable}
    {files : List Candidate} {edge : Edge} :
    edge ∈ (References.ofOutcomes
        (files.map ((configure root extensions aliases files).outcome fileSystem))).edges ↔
      ∃ importer ∈ files, ∃ imported ∈ files,
        importer.Reaches fileSystem (Specifier.Scheme.initial.withAliases aliases)
          (.configure root extensions aliases) imported.key ∧
        edge = ⟨importer.key, imported.key⟩ := by
  rw [References.mem_edges_ofOutcomes]
  constructor
  · rintro ⟨outcome, member, importerKey, target⟩
    obtain ⟨importer, importing, rfl⟩ := List.mem_map.mp member
    rw [file_outcome] at importerKey
    obtain ⟨reaches, known⟩ := (mem_targets_outcome _ _ _).mp target
    obtain ⟨imported, importable, importedKey⟩ := mem_known_configure.mp known
    exact ⟨importer, importing, imported, importable, importedKey ▸ reaches,
      congrArg₂ Edge.mk importerKey importedKey.symm⟩
  · rintro ⟨importer, importing, imported, importable, reaches, rfl⟩
    refine ⟨_, List.mem_map_of_mem importing, (file_outcome _ _ _).symm, ?_⟩
    exact (mem_targets_outcome _ _ _).mpr ⟨reaches, mem_known_configure.mpr ⟨imported, importable, rfl⟩⟩

theorem collect_eq (pool : Pool) (jobs : pool.jobs ≠ 0) (files : List Candidate) :
    linker.collect fileSystem pool false files =
      .ok (.ofOutcomes (files.map (linker.outcome fileSystem))) := by
  have nobodyCancels : (files.map fun file =>
      Task.finished file (linker.outcome fileSystem file)).any Task.cancels = false := by
    simp [Task.finished]
  rw [collect, Pool.run_eq, if_neg jobs, nobodyCancels, List.map_map]
  rfl

end Linker

/-! ### The standing of a file -/

namespace Candidate

variable {file : Candidate} {referenced : List String} {conventions : Conventions}

theorem standing_eq_referenced_iff :
    file.standing referenced conventions = .referenced ↔ file.key ∈ referenced := by
  unfold standing
  split
  · simpa
  · split <;> simpa

theorem standing_eq_exempt_iff :
    file.standing referenced conventions = .exempt ↔
      file.key ∉ referenced ∧ file.fileName ∈ conventions.names := by
  unfold standing Conventions.exempts
  split
  · simp_all
  · split <;> simp_all

theorem standing_eq_unreferenced_iff :
    file.standing referenced conventions = .unreferenced ↔
      file.key ∉ referenced ∧ file.fileName ∉ conventions.names := by
  unfold standing Conventions.exempts
  split
  · simp_all
  · split <;> simp_all

theorem standing_congr {other : Candidate} (same : file.key = other.key) :
    file.standing referenced conventions = other.standing referenced conventions := by
  unfold standing fileName
  rw [same]

end Candidate

theorem mem_keysStanding {standing : Standing} {files : List Candidate} {referenced : List String}
    {conventions : Conventions} {key : String} :
    key ∈ keysStanding standing files referenced conventions ↔
      ∃ file ∈ files, file.standing referenced conventions = standing ∧ file.key = key := by
  simp [keysStanding, and_assoc]

/-! ### The lists of a result -/

namespace Analysis

theorem mem_relativeKeys {root : String} {keys : List String} {key : String} :
    key ∈ relativeKeys root keys ↔ ∃ whole ∈ keys, Key.relativeTo root whole = key := by
  rw [relativeKeys, Sorting.mem_sort, List.mem_map]

theorem mem_relativeEdges {root : String} {edges : List Edge} {edge : Edge} :
    edge ∈ relativeEdges root edges ↔
      ∃ whole ∈ edges, ⟨Key.relativeTo root whole.importer, Key.relativeTo root whole.imported⟩ = edge := by
  rw [relativeEdges, Sorting.mem_sort, List.mem_map]

theorem ascends_relativeKeys {root : String} {keys : List String} (ascends : Ascends keys)
    (rooted : ∀ key ∈ keys, Key.IsRooted key) : Ascends (relativeKeys root keys) := by
  refine Sorting.ascends_sort Sorting.textBefore_iff (ascends.nodup.map_on ?_)
  intro key inside other otherInside same
  exact Key.relativeTo_injective root (rooted key inside) (rooted other otherInside) same

theorem ascends_relativeEdges {root : String} {edges : List Edge} (ascends : Ascends edges)
    (rooted : ∀ edge ∈ edges, Key.IsRooted edge.importer ∧ Key.IsRooted edge.imported) :
    Ascends (relativeEdges root edges) := by
  refine Sorting.ascends_sort Edge.before_iff (ascends.nodup.map_on ?_)
  rintro ⟨importer, imported⟩ inside ⟨otherImporter, otherImported⟩ otherInside same
  obtain ⟨sameImporter, sameImported⟩ := Edge.mk.inj same
  obtain ⟨importerRooted, importedRooted⟩ := rooted _ inside
  obtain ⟨otherImporterRooted, otherImportedRooted⟩ := rooted _ otherInside
  exact congrArg₂ Edge.mk
    (Key.relativeTo_injective root importerRooted otherImporterRooted sameImporter)
    (Key.relativeTo_injective root importedRooted otherImportedRooted sameImported)

/-- What an analysis has to say about `files`, seen from the key `root`, if `reaches` tells which file
reaches which key and the files called one of `exemptNames` are entered without an import. -/
structure Describes (root : String) (files : List Candidate) (reaches : Candidate → String → Prop)
    (exemptNames : List String) (analysis : Analysis) : Prop where
  edges_ascend : Ascends analysis.edges
  mem_edges : ∀ edge, edge ∈ analysis.edges ↔
    ∃ importer ∈ files, ∃ imported ∈ files, reaches importer imported.key ∧
      edge = ⟨Key.relativeTo root importer.key, Key.relativeTo root imported.key⟩
  mem_referenced : ∀ key, key ∈ analysis.referenced ↔ ∃ edge ∈ analysis.edges, edge.imported = key
  mem_unreferenced : ∀ key, key ∈ analysis.unreferenced ↔ key ∉ analysis.referenced ∧
    ∃ file ∈ files, file.fileName ∉ exemptNames ∧ Key.relativeTo root file.key = key
  mem_exempt : ∀ key, key ∈ analysis.exempt ↔ key ∉ analysis.referenced ∧
    ∃ file ∈ files, file.fileName ∈ exemptNames ∧ Key.relativeTo root file.key = key
  referenced_ascend : Ascends analysis.referenced
  unreferenced_ascend : Ascends analysis.unreferenced
  exempt_ascend : Ascends analysis.exempt
  referenced_unreferenced : analysis.referenced.Disjoint analysis.unreferenced
  referenced_exempt : analysis.referenced.Disjoint analysis.exempt
  unreferenced_exempt : analysis.unreferenced.Disjoint analysis.exempt
  mem_files : ∀ key, key ∈ analysis.files ↔ ∃ file ∈ files, Key.relativeTo root file.key = key

section Assembly
variable {options : Options} {root : String} {aliases : AliasLoad} {found : Discovery}
  {references : References} {reaches : Candidate → String → Prop}

theorem mem_relative_standing {standing : Standing} {conventions : Conventions} {key : String} :
    key ∈ relativeKeys root (keysStanding standing found.files references.referenced conventions) ↔
      ∃ file ∈ found.files, file.standing references.referenced conventions = standing ∧
        Key.relativeTo root file.key = key := by
  rw [mem_relativeKeys]
  constructor
  · rintro ⟨whole, member, seen⟩
    obtain ⟨file, inside, stands, rfl⟩ := mem_keysStanding.mp member
    exact ⟨file, inside, stands, seen⟩
  · rintro ⟨file, inside, stands, seen⟩
    exact ⟨file.key, mem_keysStanding.mpr ⟨file, inside, stands, rfl⟩, seen⟩

theorem disjoint_standing (rooted : ∀ file ∈ found.files, Key.IsRooted file.key) {first second : Standing}
    (different : first ≠ second) (conventions : Conventions) :
    (relativeKeys root (keysStanding first found.files references.referenced conventions)).Disjoint
      (relativeKeys root (keysStanding second found.files references.referenced conventions)) := by
  intro key inFirst inSecond
  obtain ⟨file, inside, stands, seen⟩ := mem_relative_standing.mp inFirst
  obtain ⟨other, otherInside, otherStands, otherSeen⟩ := mem_relative_standing.mp inSecond
  have same := Key.relativeTo_injective root (rooted file inside) (rooted other otherInside)
    (seen.trans otherSeen.symm)
  exact different (stands.symm.trans ((Candidate.standing_congr same).trans otherStands))

theorem ascends_standing (rooted : ∀ file ∈ found.files, Key.IsRooted file.key) (standing : Standing)
    (conventions : Conventions) :
    Ascends (relativeKeys root (keysStanding standing found.files references.referenced conventions)) := by
  refine ascends_relativeKeys (Ascending.ascends_ofList _) fun key member => ?_
  obtain ⟨file, inside, -, rfl⟩ := mem_keysStanding.mp member
  exact rooted file inside

theorem mem_without_importer (rooted : ∀ file ∈ found.files, Key.IsRooted file.key) {standing : Standing}
    (different : Standing.referenced ≠ standing) {conventions : Conventions} {named : Candidate → Prop}
    (stands_iff : ∀ file, file.standing references.referenced conventions = standing ↔
      file.key ∉ references.referenced ∧ named file) {key : String} :
    key ∈ relativeKeys root (keysStanding standing found.files references.referenced conventions) ↔
      key ∉ relativeKeys root (keysStanding .referenced found.files references.referenced conventions) ∧
        ∃ file ∈ found.files, named file ∧ Key.relativeTo root file.key = key := by
  constructor
  · -- A referenced file may be seen as the same key only if it has the same key, and so the same standing.
    intro member
    obtain ⟨file, inside, stands, seen⟩ := mem_relative_standing.mp member
    exact ⟨fun imported => disjoint_standing rooted different conventions imported member,
      file, inside, ((stands_iff file).mp stands).2, seen⟩
  · rintro ⟨notImported, file, inside, hasName, seen⟩
    refine mem_relative_standing.mpr ⟨file, inside, (stands_iff file).mpr ⟨?_, hasName⟩, seen⟩
    intro imported
    exact notImported (mem_relative_standing.mpr
      ⟨file, inside, Candidate.standing_eq_referenced_iff.mpr imported, seen⟩)

/-- The last stage: relative keys and the standings keep what the merged references say. -/
theorem describes_assemble (rooted : ∀ file ∈ found.files, Key.IsRooted file.key)
    (edgesAscend : Ascends references.edges)
    (mem_edges : ∀ edge, edge ∈ references.edges ↔ ∃ importer ∈ found.files, ∃ imported ∈ found.files,
      reaches importer imported.key ∧ edge = ⟨importer.key, imported.key⟩)
    (mem_referenced : ∀ key, key ∈ references.referenced ↔ ∃ edge ∈ references.edges, edge.imported = key) :
    (assemble options root aliases found references).Describes (Key.normalize root) found.files reaches
      (Conventions.routing ++ options.exemptNames) where
  edges_ascend := ascends_relativeEdges edgesAscend fun edge member => by
    obtain ⟨importer, importing, imported, importable, -, rfl⟩ := (mem_edges edge).mp member
    exact ⟨rooted importer importing, rooted imported importable⟩
  mem_edges edge := by
    refine mem_relativeEdges.trans ⟨?_, ?_⟩
    · rintro ⟨whole, member, rfl⟩
      obtain ⟨importer, importing, imported, importable, reached, rfl⟩ := (mem_edges whole).mp member
      exact ⟨importer, importing, imported, importable, reached, rfl⟩
    · rintro ⟨importer, importing, imported, importable, reached, rfl⟩
      exact ⟨_, (mem_edges _).mpr ⟨importer, importing, imported, importable, reached, rfl⟩, rfl⟩
  mem_referenced key := by
    refine mem_relative_standing.trans ⟨?_, ?_⟩
    · rintro ⟨file, inside, stands, rfl⟩
      obtain ⟨edge, member, target⟩ :=
        (mem_referenced file.key).mp (Candidate.standing_eq_referenced_iff.mp stands)
      exact ⟨_, mem_relativeEdges.mpr ⟨edge, member, rfl⟩, congrArg (Key.relativeTo _) target⟩
    · rintro ⟨edge, member, rfl⟩
      obtain ⟨whole, inside, rfl⟩ := mem_relativeEdges.mp member
      obtain ⟨importer, -, imported, importable, -, rfl⟩ := (mem_edges whole).mp inside
      exact ⟨imported, importable,
        Candidate.standing_eq_referenced_iff.mpr ((mem_referenced _).mpr ⟨_, inside, rfl⟩), rfl⟩
  mem_unreferenced key :=
    mem_without_importer rooted (by decide) fun _ => Candidate.standing_eq_unreferenced_iff
  mem_exempt key := mem_without_importer rooted (by decide) fun _ => Candidate.standing_eq_exempt_iff
  referenced_ascend := ascends_standing rooted _ _
  unreferenced_ascend := ascends_standing rooted _ _
  exempt_ascend := ascends_standing rooted _ _
  referenced_unreferenced := disjoint_standing rooted (by decide) _
  referenced_exempt := disjoint_standing rooted (by decide) _
  unreferenced_exempt := disjoint_standing rooted (by decide) _
  mem_files key := by
    -- Every file has some standing, and there is a list for each.
    have members : key ∈ (assemble options root aliases found references).files ↔
        ∃ standing, key ∈ relativeKeys (Key.normalize root)
          (keysStanding standing found.files references.referenced (.withExtra options.exemptNames)) := by
      simp only [files, List.mem_append, or_assoc]
      constructor
      · rintro (member | member | member)
        · exact ⟨.referenced, member⟩
        · exact ⟨.unreferenced, member⟩
        · exact ⟨.exempt, member⟩
      · rintro ⟨standing, member⟩
        cases standing with
        | referenced => exact .inl member
        | exempt => exact .inr (.inr member)
        | unreferenced => exact .inr (.inl member)
    simp only [members, mem_relative_standing]
    constructor
    · rintro ⟨-, file, inside, -, seen⟩
      exact ⟨file, inside, seen⟩
    · rintro ⟨file, inside, seen⟩
      exact ⟨_, file, inside, rfl, seen⟩

end Assembly

/-! ### Whole runs -/

section Runs
variable {options : Options} {root : String}

def reaches (fileSystem : FileSystem) (options : Options) (root : String) : Candidate → String → Prop :=
  let aliases := (AliasConfig.load fileSystem root options.aliasConfig).table
  Candidate.Reaches fileSystem (Specifier.Scheme.initial.withAliases aliases)
    (.configure (Key.normalize root) options.extensions aliases)

theorem jobs_ne_zero_of_validate (valid : options.validate = .ok ()) : options.jobs ≠ 0 := by
  intro none
  rw [Options.validate, if_pos none] at valid
  cases valid

theorem run_of_validate (fileSystem : FileSystem) (valid : options.validate = .ok ()) :
    run fileSystem options false =
      match fileSystem.absolute? options.root with
      | none => .error (.unreadable options.root "cannot make an empty path absolute")
      | some root => runAt fileSystem options false root := by
  rw [run, valid]
  rfl

theorem run_of_absolute {fileSystem : FileSystem} (valid : options.validate = .ok ())
    (absolute : fileSystem.absolute? options.root = some root) :
    run fileSystem options false = runAt fileSystem options false root := by
  rw [run_of_validate fileSystem valid, absolute]

def linker (fileSystem : FileSystem) (options : Options) (root : String) : Linker :=
  .configure (Key.normalize root) options.extensions
    (AliasConfig.load fileSystem root options.aliasConfig).table (discovery fileSystem options root).files

theorem runAt_eq (fileSystem : FileSystem) (jobs : options.jobs ≠ 0) (root : String) :
    runAt fileSystem options false root =
      .ok (assemble options root (AliasConfig.load fileSystem root options.aliasConfig)
        (discovery fileSystem options root)
        (.ofOutcomes ((discovery fileSystem options root).files.map
          ((linker fileSystem options root).outcome fileSystem)))) := by
  have collected := (linker fileSystem options root).collect_eq fileSystem ⟨options.jobs, options.batchSize⟩ jobs
    (discovery fileSystem options root).files
  unfold linker at collected ⊢
  simp only [runAt, collected]
  rfl

theorem run_without_files {fileSystem : FileSystem} (valid : options.validate = .ok ())
    (absolute : fileSystem.absolute? options.root = some root)
    (nothing : (discovery fileSystem options root).files = []) :
    ∃ analysis, run fileSystem options false = .ok analysis ∧ analysis.totalFiles = 0 ∧
      analysis.diagnostics = Diagnostic.sort
        ((AliasConfig.load fileSystem root options.aliasConfig).diagnostic.toList ++
          (discovery fileSystem options root).diagnostics) := by
  refine ⟨_, (run_of_absolute valid absolute).trans (runAt_eq _ (jobs_ne_zero_of_validate valid) _), ?_, ?_⟩
  · simp [assemble, nothing]
  · have noReferences : (References.ofOutcomes []).diagnostics = [] := rfl
    simp [assemble, nothing, noReferences]

theorem runAt_describes (fileSystem : FileSystem) (jobs : options.jobs ≠ 0) (absolute : Path.isAbsolute root = true) :
    ∃ analysis, runAt fileSystem options false root = .ok analysis ∧
      analysis.totalFiles = (discovery fileSystem options root).files.length ∧
      analysis.Describes (Key.normalize root) (discovery fileSystem options root).files
        (reaches fileSystem options root) (Conventions.routing ++ options.exemptNames) := by
  refine ⟨_, runAt_eq fileSystem jobs root, rfl, ?_⟩
  -- What is left are facts about the merged references, whatever pool has merged them.
  apply describes_assemble
  · intro file member
    exact Key.isRooted_normalize (isAbsolute_of_mem_discover absolute member)
  · exact References.ascends_edges_ofOutcomes
  · exact fun edge => Linker.mem_edges_outcomes fileSystem
  · exact fun key => References.mem_referenced_iff_edge

theorem not_cancelled_of_runAt {fileSystem : FileSystem} {cancelled : Bool} {analysis : Analysis}
    (ran : runAt fileSystem options cancelled root = .ok analysis) : cancelled = false := by
  simp only [runAt, bind, Except.bind] at ran
  split at ran
  · cases ran
  · next collected =>
    rw [Linker.collect, Pool.run_eq] at collected
    by_contra cancels
    rw [Bool.eq_true_of_not_eq_false cancels, Bool.true_or, if_pos rfl] at collected
    split at collected <;> cases collected

theorem describes_of_run {fileSystem : FileSystem} {cancelled : Bool} {analysis : Analysis}
    (ran : run fileSystem options cancelled = .ok analysis) :
    fileSystem.absolute? options.root = some analysis.root ∧
      analysis.Describes (Key.normalize analysis.root) (discovery fileSystem options analysis.root).files
        (reaches fileSystem options analysis.root) (Conventions.routing ++ options.exemptNames) := by
  cases valid : options.validate with
  | error failure =>
    rw [run, valid] at ran
    cases ran
  | ok _ =>
    rw [run, valid] at ran
    cases absolute : fileSystem.absolute? options.root with
    | none =>
      rw [absolute] at ran
      cases ran
    | some root =>
      rw [absolute] at ran
      replace ran : runAt fileSystem options cancelled root = .ok analysis := ran
      -- A cancelled run has no result, so this one went to its end and is the one described above.
      obtain rfl := not_cancelled_of_runAt ran
      have jobs := jobs_ne_zero_of_validate valid
      have placed : analysis.root = root := by
        rw [runAt_eq fileSystem jobs root] at ran
        exact congrArg Analysis.root (Except.ok.inj ran).symm
      obtain ⟨_, again, -, describes⟩ :=
        runAt_describes fileSystem jobs (FileSystem.isAbsolute_absolute? absolute)
      obtain rfl := Except.ok.inj (again.symm.trans ran)
      rw [placed]
      exact ⟨rfl, describes⟩

/-- A run that is not cancelled says of the discovered files what there is to say. It fails for an empty
path only, which no directory makes absolute. -/
theorem run_describes (fileSystem : FileSystem) (options : Options) (valid : options.validate = .ok ()) :
    (options.root = "" ∧ run fileSystem options false =
      .error (.unreadable options.root "cannot make an empty path absolute")) ∨
    ∃ root analysis, fileSystem.absolute? options.root = some root ∧
      run fileSystem options false = .ok analysis ∧
      analysis.Describes (Key.normalize root) (discovery fileSystem options root).files
        (reaches fileSystem options root) (Conventions.routing ++ options.exemptNames) := by
  have started := run_of_validate fileSystem valid
  cases absolute : fileSystem.absolute? options.root with
  | none =>
    rw [absolute] at started
    exact .inl ⟨Path.absolute?_eq_none_iff.mp absolute, started⟩
  | some root =>
    rw [absolute] at started
    obtain ⟨analysis, ran, -, describes⟩ := runAt_describes fileSystem
      (jobs_ne_zero_of_validate valid) (FileSystem.isAbsolute_absolute? absolute)
    exact .inr ⟨root, analysis, rfl, started.trans ran, describes⟩

/-- Two files that import each other, a stray that imports one of them, a page that a framework enters,
and a file that is no text. -/
def smallProject : FileSystem where
  root := .directory [("app", .directory
    [("main.ts", .file (some "import { part } from './part'")),
     ("page.tsx", .file (some "")),
     ("part.ts", .file (some "import './main'; import './missing'")),
     ("stray.ts", .file (some "import './part'")),
     ("torn.ts", .file none)])]
  workingDirectory := []

theorem run_describes_smallProject :
    (Options.initial "/app" 4).validate = .ok () ∧
    ∃ analysis, run smallProject (.initial "/app" 4) false = .ok analysis ∧
      analysis.edges = [⟨"main.ts", "part.ts"⟩, ⟨"part.ts", "main.ts"⟩, ⟨"stray.ts", "part.ts"⟩] ∧
      analysis.unreferenced = ["stray.ts", "torn.ts"] ∧ analysis.exempt = ["page.tsx"] ∧
      analysis.Describes "/app" (discovery smallProject (.initial "/app" 4) "/app").files
        (reaches smallProject (.initial "/app" 4) "/app") Conventions.routing := by
  have valid : (Options.initial "/app" 4).validate = .ok () := by decide
  have computed : run smallProject (.initial "/app" 4) false = .ok
      { root := "/app"
        totalFiles := 5
        referenced := ["main.ts", "part.ts"]
        unreferenced := ["stray.ts", "torn.ts"]
        exempt := ["page.tsx"]
        edges := [⟨"main.ts", "part.ts"⟩, ⟨"part.ts", "main.ts"⟩, ⟨"stray.ts", "part.ts"⟩]
        diagnostics := [⟨.unreadableFile, some "/app/torn.ts",
          "I/O error at /app/torn.ts: stream did not contain valid UTF-8"⟩] } := by
    decide +kernel
  have placed : smallProject.absolute? "/app" = some "/app" := by decide +kernel
  refine ⟨valid, ?_⟩
  rcases run_describes smallProject _ valid with ⟨empty, -⟩ | ⟨root, analysis, absolute, ran, describes⟩
  · exact absurd empty (by decide)
  · obtain rfl := Option.some.inj (placed.symm.trans absolute)
    obtain rfl := Except.ok.inj (computed.symm.trans ran)
    exact ⟨_, computed, rfl, rfl, rfl, describes⟩

end Runs

end Analysis

end Orphans
