import Orphans.Proofs.Candidates
import Orphans.Proofs.Resolution

/-! Moving a project.

A directory that lies at two roots is analysed twice. Paths and keys hold the root, a result does not: seen
from the root, a file is where it lies below it, and as long as no import climbs above the root, it is the
places below the root that decide which file is meant. What can make a difference is the length of the
paths, which may be within the limit from one root and not from the other.
-/

set_option autoImplicit false

namespace Orphans

open Key (IsTrail trail)

/-! ### One root -/

/-- The directory with these entries lies at the root, which is in normal form and is not `/`. -/
structure Placement (fileSystem : FileSystem) (root : String) (entries : List (String × Node)) : Prop where
  absolute : Path.isAbsolute root = true
  normal : Key.IsNormal root
  below : root ≠ "/"
  found : fileSystem.find .follow root = .ok (.directory entries)

namespace Rules

variable (rules : Rules) (entries : List (String × Node))

def NamesPlain : Prop :=
  ∀ location ∈ rules.candidatesIn entries, ∀ name ∈ location, '\\' ∉ name.toList

def ImportsStayBelow (aliases : AliasTable) : Prop :=
  ∀ location ∈ rules.candidatesIn entries, ∀ text,
    (Node.directory entries).get? location = some (.file (some text)) →
      ∀ specifier ∈ Import.specifiers (Specifier.Scheme.initial.withAliases aliases) text,
        Resolver.StaysBelow aliases specifier (location.dropLast.map String.toList)

/-- Every candidate is within reach from both roots or from none, and so is the directory around it. -/
def SameReach (root other : String) : Prop :=
  ∀ location ∈ rules.candidatesIn entries,
    FileSystem.isTooLong (Discovery.pathAt root location.dropLast) =
      FileSystem.isTooLong (Discovery.pathAt other location.dropLast) ∧
    FileSystem.isTooLong (Discovery.pathAt root location) = FileSystem.isTooLong (Discovery.pathAt other location)

instance : Decidable (rules.NamesPlain entries) :=
  inferInstanceAs (Decidable (∀ location ∈ rules.candidatesIn entries, _))

instance (root other : String) : Decidable (rules.SameReach entries root other) :=
  inferInstanceAs (Decidable (∀ location ∈ rules.candidatesIn entries, _))

end Rules

namespace Placement

variable {fileSystem : FileSystem} {root : String} {entries : List (String × Node)}
  (placement : Placement fileSystem root entries)
include placement

theorem isTrail : IsTrail (Key.segments root.toList) root :=
  Key.isTrail_of_isNormal placement.absolute placement.normal placement.below

theorem absolute? : fileSystem.absolute? root = some root := by
  obtain ⟨-, clean, -⟩ := (FileSystem.find_eq_ok_iff (by decide)).mp placement.found
  exact placement.isTrail.absolute? clean _

variable {rules : Rules} (formed : Node.WellFormedEntries entries) (plain : rules.NamesPlain entries)
  {location : List String} (candidate : location ∈ rules.candidatesIn entries)
include formed plain candidate

theorem isTrail_pathAt :
    IsTrail (Key.segments root.toList ++ location.map String.toList) (Discovery.pathAt root location) :=
  Discovery.isTrail_pathAt placement.isTrail (rules.named_of_mem_candidatesIn formed candidate).2
    (plain location candidate)

theorem exists_isTrail_concat : ∃ front name, location = front ++ [name] ∧
    IsTrail (Key.segments root.toList ++ front.map String.toList ++ [name.toList])
      (Discovery.pathAt root location) := by
  have written := placement.isTrail_pathAt formed plain candidate
  have inhabited := (rules.named_of_mem_candidatesIn formed candidate).1
  obtain ⟨front, name, rfl⟩ : ∃ front name, location = front ++ [name] :=
    ⟨_, _, (List.dropLast_append_getLast inhabited).symm⟩
  rw [List.map_append, List.map_singleton, ← List.append_assoc] at written
  exact ⟨front, name, rfl, written⟩

theorem key_pathAt : (Candidate.mk (Discovery.pathAt root location)).key = Discovery.pathAt root location :=
  (placement.isTrail_pathAt formed plain candidate).isNormal

theorem relativeTo_key : Key.relativeTo (Key.normalize root) (Candidate.mk (Discovery.pathAt root location)).key =
    .ofList (Key.joinSegments (location.map String.toList)) := by
  have inhabited : location.map String.toList ≠ [] := by
    simpa using (rules.named_of_mem_candidatesIn formed candidate).1
  have written := placement.isTrail_pathAt formed plain candidate
  rw [placement.key_pathAt formed plain candidate, placement.normal]
  apply String.toList_injective
  rw [Key.toList_relativeTo, written.spelled, Key.trail_append, ← placement.isTrail.spelled,
    ← Key.slash_joinSegments inhabited, Key.relativeChars_append placement.isTrail.getLast?_ne, String.toList_ofList]

theorem getLast?_eq_fileName :
    location.getLast? = some (Candidate.mk (Discovery.pathAt root location)).fileName := by
  have sameKey := placement.key_pathAt formed plain candidate
  obtain ⟨front, name, rfl, written⟩ := placement.exists_isTrail_concat formed plain candidate
  rw [List.getLast?_concat, Candidate.fileName, sameKey]
  exact congrArg some (String.toList_injective written.name.symm)

end Placement

/-- The file at `location` has an import that may mean `target`, both below the directory with these entries. -/
def ImportsBelow (aliases : AliasTable) (extensions : List String) (entries : List (String × Node))
    (location target : List String) : Prop :=
  ∃ text, (Node.directory entries).get? location = some (.file (some text)) ∧
    ∃ specifier ∈ Import.specifiers (Specifier.Scheme.initial.withAliases aliases) text,
      ∃ route ∈ Resolver.routes aliases specifier (location.dropLast.map String.toList),
        ∃ suffix ∈ Resolver.suffixes extensions specifier,
          trail (Key.advance route.1 route.2) ++ suffix.toList = trail (target.map String.toList)

namespace Placement

variable {fileSystem : FileSystem} {root : String} {entries : List (String × Node)}
  (placement : Placement fileSystem root entries) {rules : Rules} (formed : Node.WellFormedEntries entries)
  (plain : rules.NamesPlain entries)
include placement formed plain

theorem mem_resolve_iff (aliases : AliasTable) (extensions : List String) {location target : List String}
    (importing : location ∈ rules.candidatesIn entries) (imported : target ∈ rules.candidatesIn entries)
    {specifier : String} (stays : Resolver.StaysBelow aliases specifier (location.dropLast.map String.toList)) :
    (Candidate.mk (Discovery.pathAt root target)).key ∈
        (Resolver.configure (Key.normalize root) extensions aliases).resolve specifier
          (Candidate.mk (Discovery.pathAt root location)).key ↔
      ∃ route ∈ Resolver.routes aliases specifier (location.dropLast.map String.toList),
        ∃ suffix ∈ Resolver.suffixes (Extension.normalizeAll extensions) specifier,
          trail (Key.advance route.1 route.2) ++ suffix.toList = trail (target.map String.toList) := by
  have rootWritten : IsTrail (Key.segments root.toList)
      (Resolver.configure (Key.normalize root) extensions aliases).root := by
    have sameRoot : Key.normalize (Key.normalize root) = root :=
      (congrArg Key.normalize placement.normal).trans placement.normal
    rw [Resolver.configure, sameRoot]
    exact placement.isTrail
  have targetWritten := placement.isTrail_pathAt formed plain imported
  rw [placement.key_pathAt formed plain importing, placement.key_pathAt formed plain imported]
  obtain ⟨front, name, rfl, originWritten⟩ := placement.exists_isTrail_concat formed plain importing
  rw [List.dropLast_concat] at stays ⊢
  exact Resolver.mem_resolve_below rootWritten originWritten stays targetWritten

theorem reaches_iff {options : Options}
    (stay : rules.ImportsStayBelow entries (AliasConfig.load fileSystem root options.aliasConfig).table)
    {location target : List String} (importing : location ∈ rules.candidatesIn entries)
    (imported : target ∈ rules.candidatesIn entries) :
    Analysis.reaches fileSystem options root ⟨Discovery.pathAt root location⟩
        (Candidate.mk (Discovery.pathAt root target)).key ↔
      FileSystem.isTooLong (Discovery.pathAt root location) = false ∧
        ImportsBelow (AliasConfig.load fileSystem root options.aliasConfig).table
          (Extension.normalizeAll options.extensions) entries location target := by
  obtain ⟨inhabited, named⟩ := rules.named_of_mem_candidatesIn formed importing
  obtain ⟨-, text, inside⟩ := (rules.mem_candidatesIn_iff formed).mp importing
  have read := FileSystem.readText_pathAt placement.found placement.absolute inhabited named inside
  -- Whether the file can be read depends on the length of its path, and its text on the entries alone.
  have reads : ∀ content, fileSystem.readText (Discovery.pathAt root location) = .ok content ↔
      FileSystem.isTooLong (Discovery.pathAt root location) = false ∧
        (Node.directory entries).get? location = some (.file (some content)) := by
    intro content
    rw [read, inside]
    cases FileSystem.isTooLong (Discovery.pathAt root location) <;> cases text <;> simp
  simp only [Analysis.reaches, Candidate.Reaches, ImportsBelow, reads, and_assoc, exists_and_left]
  refine and_congr_right fun _ => exists_congr fun content => and_congr_right fun holds =>
    exists_congr fun specifier => and_congr_right fun written => ?_
  exact placement.mem_resolve_iff formed plain _ _ importing imported
    (stay location importing content holds specifier written)

end Placement

/-! ### Two roots -/

namespace Analysis

theorem Describes.congr {root other : String} {locations : List (List String)} {file moved : List String → Candidate}
    {reaches movedReaches : Candidate → String → Prop} {exemptNames : List String} {analysis changed : Analysis}
    (describes : analysis.Describes root (locations.map file) reaches exemptNames)
    (movedDescribes : changed.Describes other (locations.map moved) movedReaches exemptNames)
    (seen : ∀ location ∈ locations,
      Key.relativeTo root (file location).key = Key.relativeTo other (moved location).key)
    (called : ∀ location ∈ locations, (file location).fileName = (moved location).fileName)
    (reached : ∀ location ∈ locations, ∀ target ∈ locations,
      reaches (file location) (file target).key ↔ movedReaches (moved location) (moved target).key) :
    changed.referenced = analysis.referenced ∧ changed.unreferenced = analysis.unreferenced ∧
      changed.exempt = analysis.exempt ∧ changed.edges = analysis.edges := by
  -- All four lists ascend, so they are equal as soon as they have the same members.
  have edges : changed.edges = analysis.edges := by
    refine movedDescribes.edges_ascend.ext describes.edges_ascend fun edge => ?_
    rw [movedDescribes.mem_edges, describes.mem_edges]
    simp only [List.mem_map, exists_exists_and_eq_and]
    refine exists_congr fun location => and_congr_right fun importing =>
      exists_congr fun target => and_congr_right fun imported => ?_
    rw [seen location importing, seen target imported, reached location importing target imported]
  have referenced : changed.referenced = analysis.referenced := by
    refine movedDescribes.referenced_ascend.ext describes.referenced_ascend fun key => ?_
    rw [movedDescribes.mem_referenced, describes.mem_referenced, edges]
  have listed : ∀ (admits : String → Prop) (key : String),
      (∃ found ∈ locations.map moved, admits found.fileName ∧ Key.relativeTo other found.key = key) ↔
        ∃ found ∈ locations.map file, admits found.fileName ∧ Key.relativeTo root found.key = key := by
    intro admits key
    simp only [List.mem_map, exists_exists_and_eq_and]
    refine exists_congr fun location => and_congr_right fun inside => ?_
    rw [seen location inside, called location inside]
  refine ⟨referenced, ?_, ?_, edges⟩
  · refine movedDescribes.unreferenced_ascend.ext describes.unreferenced_ascend fun key => ?_
    rw [movedDescribes.mem_unreferenced, describes.mem_unreferenced, referenced]
    exact and_congr_right fun _ => listed (· ∉ exemptNames) key
  · refine movedDescribes.exempt_ascend.ext describes.exempt_ascend fun key => ?_
    rw [movedDescribes.mem_exempt, describes.mem_exempt, referenced]
    exact and_congr_right fun _ => listed (· ∈ exemptNames) key

/-- The run at a root is about the locations of the candidates that are within reach. -/
theorem run_placed {fileSystem : FileSystem} {options : Options} {root : String} {entries : List (String × Node)}
    (placement : Placement fileSystem root entries) (valid : options.validate = .ok ())
    {locations : List (List String)} (reached : locations =
      ((Rules.configure options.extensions options.excludedDirectories).candidatesIn entries).filter
        (Discovery.isReached root)) :
    ∃ analysis, run fileSystem { options with root := root } false = .ok analysis ∧
      analysis.totalFiles = locations.length ∧
      analysis.Describes (Key.normalize root) (locations.map fun location => ⟨Discovery.pathAt root location⟩)
        (reaches fileSystem options root) (Conventions.routing ++ options.exemptNames) := by
  let rooted : Options := { options with root := root }
  have rootedValid : rooted.validate = .ok () := valid
  have files : (discovery fileSystem rooted root).files =
      locations.map fun location => ⟨Discovery.pathAt root location⟩ := by
    rw [discovery, discover_of_directory placement.found, Discovery.ofDirectory, reached]
  obtain ⟨analysis, ran, total, describes⟩ :=
    runAt_describes fileSystem (jobs_ne_zero_of_validate rootedValid) placement.absolute
  rw [files] at total describes
  rw [List.length_map] at total
  exact ⟨analysis, (run_of_absolute rootedValid placement.absolute?).trans ran, total, describes⟩

/-- Where a project lies has no influence on its result, as long as the same paths are within the limit. -/
theorem run_relocated {fileSystem otherSystem : FileSystem} {options : Options} {root other : String}
    {entries : List (String × Node)} (formed : Node.WellFormedEntries entries) (valid : options.validate = .ok ())
    (placement : Placement fileSystem root entries) (otherPlacement : Placement otherSystem other entries)
    (sameAliases : (AliasConfig.load otherSystem other options.aliasConfig).table =
      (AliasConfig.load fileSystem root options.aliasConfig).table)
    (plain : (Rules.configure options.extensions options.excludedDirectories).NamesPlain entries)
    (stay : (Rules.configure options.extensions options.excludedDirectories).ImportsStayBelow entries
      (AliasConfig.load fileSystem root options.aliasConfig).table)
    (sameReach : (Rules.configure options.extensions options.excludedDirectories).SameReach entries root other) :
    ∃ analysis moved, run fileSystem { options with root := root } false = .ok analysis ∧
      run otherSystem { options with root := other } false = .ok moved ∧
      moved.totalFiles = analysis.totalFiles ∧ moved.referenced = analysis.referenced ∧
      moved.unreferenced = analysis.unreferenced ∧ moved.exempt = analysis.exempt ∧
      moved.edges = analysis.edges := by
  let rules := Rules.configure options.extensions options.excludedDirectories
  have sameLocations : (rules.candidatesIn entries).filter (Discovery.isReached root) =
      (rules.candidatesIn entries).filter (Discovery.isReached other) := by
    refine List.filter_congr fun location candidate => ?_
    rw [Discovery.isReached, Discovery.isReached, (sameReach location candidate).1]
  -- Both results are about the same locations, each seen from its own root.
  obtain ⟨analysis, ran, total, describes⟩ := run_placed placement valid rfl
  obtain ⟨moved, otherRan, otherTotal, otherDescribes⟩ := run_placed otherPlacement valid sameLocations
  have otherStay := sameAliases ▸ stay
  refine ⟨analysis, moved, ran, otherRan, otherTotal.trans total.symm, describes.congr otherDescribes ?_ ?_ ?_⟩
  · intro location member
    have candidate := (List.mem_filter.mp member).1
    rw [placement.relativeTo_key formed plain candidate, otherPlacement.relativeTo_key formed plain candidate]
  · intro location member
    have candidate := (List.mem_filter.mp member).1
    exact Option.some.inj ((placement.getLast?_eq_fileName formed plain candidate).symm.trans
      (otherPlacement.getLast?_eq_fileName formed plain candidate))
  · intro location importing target imported
    have importer := (List.mem_filter.mp importing).1
    have target := (List.mem_filter.mp imported).1
    rw [placement.reaches_iff formed plain stay importer target,
      otherPlacement.reaches_iff formed plain otherStay importer target, sameAliases, (sameReach location importer).2]

def mobileFiles : List (String × Node) :=
  [("main.ts", .file (some "import '@/part'; import './src'")),
   ("src", .directory [("index.ts", .file (some "import '../main'")), ("part.ts", .file (some ""))]),
   ("tsconfig.json", .file (some
     "\x7b\"compilerOptions\": \x7b\"paths\": \x7b\"@/*\": [\"./src/*\"]\x7d\x7d\x7d"))]

/-- A place whose own names are those of excluded directories and of test folders. -/
def remotePlace (entries : List (String × Node)) : FileSystem where
  root := .directory [("dist", .directory [("__tests__", .directory [("app.test", .directory entries)])])]
  workingDirectory := ["dist"]

theorem run_relocated_mobileFiles :
    Node.WellFormedEntries mobileFiles ∧ (Options.initial "." 2).validate = .ok () ∧
    Placement (workshop mobileFiles) "/ws" mobileFiles ∧
    Placement (remotePlace mobileFiles) "/dist/__tests__/app.test" mobileFiles ∧
    ∃ analysis moved, run (workshop mobileFiles) (.initial "/ws" 2) false = .ok analysis ∧
      run (remotePlace mobileFiles) (.initial "/dist/__tests__/app.test" 2) false = .ok moved ∧
      analysis.edges =
        [⟨"main.ts", "src/index.ts"⟩, ⟨"main.ts", "src/part.ts"⟩, ⟨"src/index.ts", "main.ts"⟩] ∧
      moved.totalFiles = analysis.totalFiles ∧ moved.referenced = analysis.referenced ∧
      moved.unreferenced = analysis.unreferenced ∧ moved.exempt = analysis.exempt ∧
      moved.edges = analysis.edges := by
  have formed : Node.WellFormedEntries mobileFiles := by decide
  have valid : (Options.initial "." 2).validate = .ok () := by decide
  have placement : Placement (workshop mobileFiles) "/ws" mobileFiles :=
    ⟨by decide, by decide +kernel, by decide, rfl⟩
  have otherPlacement : Placement (remotePlace mobileFiles) "/dist/__tests__/app.test" mobileFiles :=
    ⟨by decide, by decide +kernel, by decide, rfl⟩
  let rules := Rules.configure Options.defaultExtensions Options.defaultExcludedDirectories
  have table : (AliasConfig.load (workshop mobileFiles) "/ws" none).table = [⟨"@", .directory, ["./src"]⟩] := by
    decide +kernel
  have sameAliases : (AliasConfig.load (remotePlace mobileFiles) "/dist/__tests__/app.test" none).table =
      (AliasConfig.load (workshop mobileFiles) "/ws" none).table := by
    decide +kernel
  have seen : rules.candidatesIn mobileFiles = [["main.ts"], ["src", "index.ts"], ["src", "part.ts"]] := by
    decide +kernel
  have stay : rules.ImportsStayBelow mobileFiles (AliasConfig.load (workshop mobileFiles) "/ws" none).table := by
    unfold Rules.ImportsStayBelow
    rw [seen, table]
    intro location member text inside
    simp only [List.mem_cons, List.not_mem_nil, or_false] at member
    rcases member with rfl | rfl | rfl <;> cases inside <;> decide +kernel
  obtain ⟨analysis, moved, ran, otherRan, same⟩ := run_relocated formed valid placement otherPlacement sameAliases
    (by decide +kernel) stay (by decide +kernel)
  have edges : (run (workshop mobileFiles) (.initial "/ws" 2) false).map edges =
      .ok [⟨"main.ts", "src/index.ts"⟩, ⟨"main.ts", "src/part.ts"⟩, ⟨"src/index.ts", "main.ts"⟩] := by
    decide +kernel
  have ranHere : run (workshop mobileFiles) (.initial "/ws" 2) false = .ok analysis := ran
  rw [ranHere] at edges
  exact ⟨formed, valid, placement, otherPlacement, analysis, moved, ran, otherRan, Except.ok.inj edges, same⟩

def loneFile : Node := .directory [("a.ts", .file (some ""))]

theorem eq_of_mem_candidatesIn_loneFile {rules : Rules} {loop : String} {location : List String}
    (member : location ∈ rules.candidatesIn (besideLoop loop loneFile)) : location = ["lib", "a.ts"] := by
  have inside := (List.mem_filter.mp member).1
  cases excluded : rules.excludes "lib" <;> cases accepted : rules.acceptsName "a.ts" <;>
    simp [besideLoop, loneFile, Rules.locationsIn, Rules.locationsAt, excluded, accepted] at inside
  exact inside

theorem candidatesIn_loneFile (loop : String) :
    (Rules.configure Options.defaultExtensions Options.defaultExcludedDirectories).candidatesIn
      (besideLoop loop loneFile) = [["lib", "a.ts"]] := by
  have walked : (Rules.configure Options.defaultExtensions Options.defaultExcludedDirectories).excludes "lib" =
    false := by decide
  have accepted :
    (Rules.configure Options.defaultExtensions Options.defaultExcludedDirectories).acceptsName "a.ts" = true := by
    decide
  have counts : TestArtifact.includes [.name "lib", .name "a.ts"] = false := by decide
  simp [besideLoop, loneFile, Rules.candidatesIn, Rules.locationsIn, Rules.locationsAt, walked, accepted, counts]

/-- A file of the same project is found from one root and is out of reach from another. -/
theorem run_loses_distant_file :
    ∃ root entries, Node.WellFormedEntries entries ∧
      Placement (workshop entries) "/ws" entries ∧ Placement (workshop entries) root entries ∧
      AliasConfig.load (workshop entries) root none = AliasConfig.load (workshop entries) "/ws" none ∧
      (∀ rules : Rules, rules.NamesPlain entries) ∧
      (∀ rules : Rules, rules.ImportsStayBelow entries (AliasConfig.load (workshop entries) "/ws" none).table) ∧
      ∃ analysis moved, run (workshop entries) (.initial "/ws" 2) false = .ok analysis ∧
        run (workshop entries) (.initial root 2) false = .ok moved ∧
        analysis.totalFiles = 1 ∧ moved.totalFiles = 0 := by
  obtain ⟨loop, root, full⟩ := exists_isFull
  have absent : ∀ name ∈ AliasConfig.defaultSources, (besideLoop loop loneFile).lookup name = none := by
    intro name inside
    have notLib : ∀ name ∈ AliasConfig.defaultSources, (name == "lib") = false := by decide
    simp [besideLoop, List.lookup_cons, notLib name inside, beq_false_of_ne (full.uncommon name inside)]
  have placement : Placement (workshop (besideLoop loop loneFile)) "/ws" (besideLoop loop loneFile) :=
    ⟨by decide, by decide +kernel, by decide, rfl⟩
  have otherPlacement : Placement (workshop (besideLoop loop loneFile)) root (besideLoop loop loneFile) := by
    obtain ⟨absolute, normal, below⟩ := full.isNormal_root
    exact ⟨absolute, normal, below, full.find_besideLoop loneFile⟩
  have valid : ∀ root, (Options.initial root 2).validate = .ok () := fun _ => rfl
  obtain ⟨analysis, ran, total, -⟩ := run_placed placement (valid "/ws") rfl
  obtain ⟨moved, otherRan, otherTotal, -⟩ := run_placed otherPlacement (valid root) rfl
  refine ⟨root, _, full.wellFormed_besideLoop (by decide), placement, otherPlacement, ?_, ?_, ?_, analysis, moved,
    ran, otherRan, total.trans ?_, otherTotal.trans ?_⟩
  · rw [full.load, load_workshop absent]
  · intro rules location member
    rw [eq_of_mem_candidatesIn_loneFile member]
    decide
  · -- A text without imports has none that could climb.
    intro rules location member text inside
    rw [eq_of_mem_candidatesIn_loneFile member] at inside
    cases inside
    simp [Import.specifiers_empty]
  · have near : Discovery.isReached "/ws" ["lib", "a.ts"] = true := by decide +kernel
    simp [Options.initial, candidatesIn_loneFile, near]
  · have far : Discovery.isReached root ["lib", "a.ts"] = false := by
      simpa [Discovery.isReached, Discovery.pathAt] using full.isTooLong_join (by decide : Node.isName "lib" = true)
    simp [Options.initial, candidatesIn_loneFile, far]

end Analysis

end Orphans
