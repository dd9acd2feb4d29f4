import Orphans.Proofs.Candidates

/-! Projects that grow.

A tree lies within another one if everything in it is still there: files and links as they were, and
directories as directories, whatever else they hold. Paths that lead somewhere go on leading there, files
are still found and read the same, and so an import that reached a file still reaches it. What has been
added can make files referenced and never unreferenced.
-/

set_option autoImplicit false

namespace Orphans

/-! ### Trees within trees -/

namespace Node

inductive Persists : Node → Node → Prop where
  | file (text : Option String) : Persists (.file text) (.file text)
  | link (target : String) : Persists (.link target) (.link target)
  | directory (entries others : List (String × Node)) : Persists (.directory entries) (.directory others)

def Within (node larger : Node) : Prop :=
  ∀ location found, node.get? location = some found →
    ∃ other, larger.get? location = some other ∧ found.Persists other

theorem Persists.refl (node : Node) : node.Persists node := by
  cases node with
  | file text => exact .file text
  | link target => exact .link target
  | directory entries => exact .directory entries entries

theorem Within.refl (node : Node) : node.Within node :=
  fun _ found inside => ⟨found, inside, .refl found⟩

theorem Within.persists {node larger : Node} (within : node.Within larger) : node.Persists larger := by
  obtain ⟨other, inside, persists⟩ := within [] node (by simp [get?])
  have same : larger = other := by simpa [get?] using inside
  exact same ▸ persists

theorem Within.get? {node larger : Node} (within : node.Within larger) {location : List String} {below : Node}
    (found : node.get? location = some below) :
    ∃ other, larger.get? location = some other ∧ below.Within other := by
  obtain ⟨other, atLocation, -⟩ := within location below found
  refine ⟨other, atLocation, fun further deeper inside => ?_⟩
  have whole : node.get? (location ++ further) = some deeper := by
    rw [get?_append, found]
    exact inside
  obtain ⟨last, lastInside, persists⟩ := within _ _ whole
  rw [get?_append, atLocation] at lastInside
  exact ⟨last, lastInside, persists⟩

theorem within_directory {entries others : List (String × Node)}
    (kept : ∀ entry ∈ entries, ∃ other, others.lookup entry.1 = some other ∧ entry.2.Within other) :
    (Node.directory entries).Within (.directory others) := by
  intro location found inside
  cases location with
  | nil =>
    obtain rfl : Node.directory entries = found := by simpa [Node.get?] using inside
    exact ⟨.directory others, by simp [Node.get?], .directory _ _⟩
  | cons name rest =>
    cases child : entries.lookup name with
    | none => simp [Node.get?, child] at inside
    | some node =>
      obtain ⟨before, behind, split, -⟩ := List.lookup_eq_some_iff.mp child
      obtain ⟨other, otherChild, within⟩ := kept (name, node) (by simp [split])
      simp only [Node.get?, child] at inside
      simpa only [Node.get?, otherChild] using within rest found inside

theorem Within.directory {node : Node} {entries : List (String × Node)}
    (within : (Node.directory entries).Within node) : ∃ others, node = .directory others := by
  cases within.persists with
  | directory _ others => exact ⟨others, rfl⟩

theorem Within.file {node : Node} {text : Option String} (within : (Node.file text).Within node) :
    node = .file text := by
  cases within.persists
  rfl

theorem Within.link {node : Node} {target : String} (within : (Node.link target).Within node) :
    node = .link target := by
  cases within.persists
  rfl

theorem Within.not_isLink {node larger : Node} (within : node.Within larger) (solid : ¬ node.IsLink) :
    ¬ larger.IsLink := by
  rintro ⟨target, rfl⟩
  cases within.persists
  exact solid ⟨target, rfl⟩

end Node

/-! ### Looking up, finding and reading -/

namespace FileSystem

theorem Leads.within {root larger : Node} (within : root.Within larger) {ending : Ending} {links : Nat}
    {here pieces location : List String} (leads : Leads root ending links here pieces location) :
    Leads larger ending links here pieces location := by
  induction leads with
  | done links here => exact .done links here
  | stay directory idle _ ih =>
    obtain ⟨other, atHere, kept⟩ := within.get? directory
    obtain ⟨others, rfl⟩ := kept.directory
    exact .stay atHere idle ih
  | up directory _ ih =>
    obtain ⟨other, atHere, kept⟩ := within.get? directory
    obtain ⟨others, rfl⟩ := kept.directory
    exact .up atHere ih
  | enter busy down found solid _ ih =>
    obtain ⟨other, there, kept⟩ := within.get? found
    exact .enter busy down there (kept.not_isLink solid) ih
  | keep busy down keeps found =>
    obtain ⟨other, there, kept⟩ := within.get? found
    obtain rfl := kept.link
    exact .keep busy down keeps there
  | follow busy down follows found _ ih =>
    obtain ⟨other, there, kept⟩ := within.get? found
    obtain rfl := kept.link
    exact .follow busy down follows there ih

section Larger
variable {fileSystem larger : FileSystem} (within : fileSystem.root.Within larger.root) {path : String}
  (absolute : Path.isAbsolute path = true)
include within absolute

theorem find_within {ending : Ending} (looks : ending ≠ .create) {node : Node}
    (found : fileSystem.find ending path = .ok node) :
    ∃ other, larger.find ending path = .ok other ∧ node.Within other := by
  obtain ⟨notEmpty, noNul, short, location, leads, inside⟩ := (find_eq_ok_iff looks).mp found
  obtain ⟨other, there, kept⟩ := within.get? inside
  -- An absolute path does not begin at the working directory, which may be another one.
  have sameStart : start fileSystem.workingDirectory path = start larger.workingDirectory path := by
    simp only [start, absolute, if_true]
  rw [sameStart] at leads
  exact ⟨other, (find_eq_ok_iff looks).mpr ⟨notEmpty, noNul, short, location, leads.within within, there⟩, kept⟩

theorem readText_within {text : String} (read : fileSystem.readText path = .ok text) :
    larger.readText path = .ok text := by
  unfold readText at read
  split at read
  · next found =>
    obtain ⟨other, there, kept⟩ := find_within within absolute (by decide) found
    obtain rfl := kept.file
    rw [readText, there, ← read]
  · cases read
  · cases read
  · cases read

end Larger

end FileSystem

theorem Rules.candidatesIn_within (rules : Rules) {entries others : List (String × Node)}
    (formed : Node.WellFormedEntries entries) (othersFormed : Node.WellFormedEntries others)
    (within : (Node.directory entries).Within (.directory others)) :
    rules.candidatesIn entries ⊆ rules.candidatesIn others := by
  intro location member
  obtain ⟨counts, text, inside⟩ := (rules.mem_candidatesIn_iff formed).mp member
  obtain ⟨other, there, kept⟩ := within.get? inside
  obtain rfl := kept.file
  exact (rules.mem_candidatesIn_iff othersFormed).mpr ⟨counts, text, there⟩

theorem Discovery.ofDirectory_within (rules : Rules) (root : String) {entries others : List (String × Node)}
    (formed : Node.WellFormedEntries entries) (othersFormed : Node.WellFormedEntries others)
    (within : (Node.directory entries).Within (.directory others)) :
    (ofDirectory rules root entries).files ⊆ (ofDirectory rules root others).files := by
  intro file member
  obtain ⟨location, found, rfl⟩ := List.mem_map.mp member
  obtain ⟨candidate, reached⟩ := List.mem_filter.mp found
  exact List.mem_map.mpr ⟨location, List.mem_filter.mpr
    ⟨rules.candidatesIn_within formed othersFormed within candidate, reached⟩, rfl⟩

theorem discover_within {fileSystem larger : FileSystem} (within : fileSystem.root.Within larger.root)
    (formed : fileSystem.root.WellFormed) (largerFormed : larger.root.WellFormed) {root : String}
    (absolute : Path.isAbsolute root = true) (rules : Rules) :
    (discover fileSystem root rules).files ⊆ (discover larger root rules).files := by
  -- The walk looks at the root twice: as it stands, and behind a link.
  cases first : fileSystem.find .keep root with
  | error refusal => simp [discover, first, Discovery.refused]
  | ok node =>
    obtain ⟨other, otherFirst, kept⟩ := FileSystem.find_within within absolute (by decide) first
    cases node with
    | file text =>
      obtain rfl := kept.file
      simp [discover, first, otherFirst]
    | directory entries =>
      obtain ⟨others, rfl⟩ := kept.directory
      simp only [discover, first, otherFirst]
      exact Discovery.ofDirectory_within rules root (FileSystem.wellFormed_of_find formed first)
        (FileSystem.wellFormed_of_find largerFormed otherFirst) kept
    | link target =>
      obtain rfl := kept.link
      cases second : fileSystem.find .follow root with
      | error refusal => simp [discover, first, second, Discovery.refused]
      | ok node =>
        obtain ⟨last, otherSecond, lastKept⟩ := FileSystem.find_within within absolute (by decide) second
        cases node with
        | file text => simp [discover, first, second, Discovery.nothing]
        | link target => simp [discover, first, second, Discovery.nothing]
        | directory entries =>
          obtain ⟨others, rfl⟩ := lastKept.directory
          simp only [discover, first, otherFirst, second, otherSecond]
          exact Discovery.ofDirectory_within rules root (FileSystem.wellFormed_of_find formed second)
            (FileSystem.wellFormed_of_find largerFormed otherSecond) lastKept

/-! ### Results -/

theorem Candidate.Reaches.within {fileSystem larger : FileSystem} (within : fileSystem.root.Within larger.root)
    {scheme : Specifier.Scheme} {resolver : Resolver} {importer : Candidate} {key : String}
    (absolute : Path.isAbsolute importer.path = true)
    (reaches : importer.Reaches fileSystem scheme resolver key) : importer.Reaches larger scheme resolver key := by
  obtain ⟨text, read, specifier, member, resolved⟩ := reaches
  exact ⟨text, FileSystem.readText_within within absolute read, specifier, member, resolved⟩

namespace Analysis

theorem Describes.grows {root : String} {files more : List Candidate} {reaches farther : Candidate → String → Prop}
    {exemptNames : List String} {analysis grown : Analysis}
    (describes : analysis.Describes root files reaches exemptNames)
    (grownDescribes : grown.Describes root more farther exemptNames) (found : files ⊆ more)
    (still : ∀ importer ∈ files, ∀ key, reaches importer key → farther importer key) :
    analysis.edges ⊆ grown.edges ∧ analysis.referenced ⊆ grown.referenced := by
  have edges : analysis.edges ⊆ grown.edges := by
    intro edge member
    obtain ⟨importer, importing, imported, importable, reached, rfl⟩ := (describes.mem_edges edge).mp member
    exact (grownDescribes.mem_edges _).mpr
      ⟨importer, found importing, imported, found importable, still importer importing _ reached, rfl⟩
  refine ⟨edges, fun key member => ?_⟩
  obtain ⟨edge, inside, target⟩ := (describes.mem_referenced key).mp member
  exact (grownDescribes.mem_referenced key).mpr ⟨edge, edges inside, target⟩

/-- What was referenced in a project stays referenced when files are added to it. -/
theorem run_grows {fileSystem larger : FileSystem} {options : Options} {root : String}
    (formed : fileSystem.root.WellFormed) (largerFormed : larger.root.WellFormed)
    (within : fileSystem.root.Within larger.root) (valid : options.validate = .ok ())
    (absolute : fileSystem.absolute? options.root = some root)
    (sameRoot : larger.absolute? options.root = some root)
    (sameAliases : (AliasConfig.load larger root options.aliasConfig).table =
      (AliasConfig.load fileSystem root options.aliasConfig).table) :
    ∃ analysis grown, run fileSystem options false = .ok analysis ∧ run larger options false = .ok grown ∧
      analysis.edges ⊆ grown.edges ∧ analysis.referenced ⊆ grown.referenced ∧
      analysis.referenced.Disjoint grown.unreferenced ∧ analysis.referenced.Disjoint grown.exempt := by
  have rootAbsolute := FileSystem.isAbsolute_absolute? absolute
  have jobs := jobs_ne_zero_of_validate valid
  have started := run_of_absolute valid absolute
  have largerStarted := run_of_absolute valid sameRoot
  obtain ⟨analysis, ran, -, describes⟩ := runAt_describes fileSystem jobs rootAbsolute
  obtain ⟨grown, grownRan, -, grownDescribes⟩ := runAt_describes larger jobs rootAbsolute
  obtain ⟨edges, referenced⟩ := describes.grows grownDescribes
    (discover_within within formed largerFormed rootAbsolute _) (by
      intro importer member key reached
      unfold reaches at reached ⊢
      rw [sameAliases]
      exact reached.within within (isAbsolute_of_mem_discover rootAbsolute member))
  refine ⟨analysis, grown, started.trans ran, largerStarted.trans grownRan, edges, referenced, ?_, ?_⟩
  · exact fun key inside => grownDescribes.referenced_unreferenced (referenced inside)
  · exact fun key inside => grownDescribes.referenced_exempt (referenced inside)

def youngProject : FileSystem where
  root := .directory [("app", .directory
    [("main.ts", .file (some "import './part'")), ("part.ts", .file (some ""))])]
  workingDirectory := []

/-- The young project with two more files that its import may mean, one of them preferred, and with an importer of its
first file. -/
def agedProject : FileSystem where
  root := .directory [("app", .directory
    [("main.ts", .file (some "import './part'")),
     ("part", .directory [("index.ts", .file (some "import '../main'"))]),
     ("part.ts", .file (some "")),
     ("part.tsx", .file (some ""))])]
  workingDirectory := []

theorem youngProject_within_agedProject : youngProject.root.Within agedProject.root := by
  refine Node.within_directory fun entry member => ?_
  obtain rfl := List.mem_singleton.mp member
  refine ⟨_, rfl, Node.within_directory fun entry member => ?_⟩
  rcases List.mem_pair.mp member with rfl | rfl
  · exact ⟨_, by simp, .refl _⟩
  · exact ⟨_, by simp [List.lookup_cons], .refl _⟩

theorem run_grows_agedProject :
    youngProject.root.WellFormed ∧ agedProject.root.WellFormed ∧
    youngProject.root.Within agedProject.root ∧ (Options.initial "/app" 2).validate = .ok () ∧
    (AliasConfig.load agedProject "/app" none).table = (AliasConfig.load youngProject "/app" none).table ∧
    ∃ analysis grown, run youngProject (.initial "/app" 2) false = .ok analysis ∧
      run agedProject (.initial "/app" 2) false = .ok grown ∧
      analysis.edges = [⟨"main.ts", "part.ts"⟩] ∧ grown.edges.length = 4 ∧
      analysis.edges ⊆ grown.edges ∧ analysis.referenced ⊆ grown.referenced ∧
      analysis.referenced.Disjoint grown.unreferenced ∧ analysis.referenced.Disjoint grown.exempt := by
  have formed : youngProject.root.WellFormed := by decide
  have agedFormed : agedProject.root.WellFormed := by decide
  have valid : (Options.initial "/app" 2).validate = .ok () := by decide
  have placed : youngProject.absolute? "/app" = some "/app" := by decide +kernel
  have agedPlaced : agedProject.absolute? "/app" = some "/app" := by decide +kernel
  have sameAliases : (AliasConfig.load agedProject "/app" none).table =
      (AliasConfig.load youngProject "/app" none).table := by decide +kernel
  have edges : (run youngProject (.initial "/app" 2) false).map edges = .ok [⟨"main.ts", "part.ts"⟩] := by
    decide +kernel
  have agedEdges : (run agedProject (.initial "/app" 2) false).map (·.edges.length) = .ok 4 := by
    decide +kernel
  obtain ⟨analysis, grown, ran, grownRan, grows⟩ := run_grows formed agedFormed
    youngProject_within_agedProject valid placed agedPlaced sameAliases
  rw [ran] at edges
  rw [grownRan] at agedEdges
  exact ⟨formed, agedFormed, youngProject_within_agedProject, valid, sameAliases, analysis, grown, ran, grownRan,
    Except.ok.inj edges, Except.ok.inj agedEdges, grows⟩

end Analysis

end Orphans
