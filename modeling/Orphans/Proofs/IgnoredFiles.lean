import Orphans.Proofs.Candidates
import Orphans.Proofs.Roots

/-! What an analysis does not see.

Files in excluded directories, test artifacts, files of other kinds, links and the directories themselves
take no part. Two directories that differ in such nodes only have the same candidates with the same texts,
and so every import reaches the same files. The one trace that an ignored node may leave is a diagnostic: a
directory whose path is too long cannot be listed, whatever it holds.
-/

set_option autoImplicit false

namespace Orphans

/-! ### Nodes that do not count -/

namespace Rules

variable (rules : Rules)

def Ignores (location : List String) : Node → Prop
  | .file _ => rules.ignoresFile location = true
  | .link _ => True
  | .directory _ => True

/-- What counts lies in both directories, at the same locations. -/
def DifferInIgnored (entries others : List (String × Node)) : Prop :=
  ∀ location node, ¬ rules.Ignores location node →
    ((Node.directory entries).get? location = some node ↔ (Node.directory others).get? location = some node)

variable {entries others : List (String × Node)}

theorem DifferInIgnored.file_iff {rules : Rules} (differ : rules.DifferInIgnored entries others)
    {location : List String} (counts : rules.ignoresFile location = false) (text : Option String) :
    (Node.directory entries).get? location = some (.file text) ↔
      (Node.directory others).get? location = some (.file text) :=
  differ location (.file text) (by simp [Ignores, counts])

variable (formed : Node.WellFormedEntries entries) (othersFormed : Node.WellFormedEntries others)
include formed othersFormed

theorem differInIgnored_iff :
    rules.DifferInIgnored entries others ↔
      rules.candidatesIn entries = rules.candidatesIn others ∧
        ∀ location ∈ rules.candidatesIn entries,
          (Node.directory entries).get? location = (Node.directory others).get? location := by
  constructor
  · intro differ
    constructor
    · -- Both walks meet the locations in ascending order, so the same members make the same list.
      refine Ascending.Ascends.ext ((rules.ascends_locationsIn formed).filter _)
        ((rules.ascends_locationsIn othersFormed).filter _) fun location => ?_
      refine (rules.mem_candidatesIn_iff formed).trans (.trans ?_ (rules.mem_candidatesIn_iff othersFormed).symm)
      exact and_congr_right fun counts => exists_congr (differ.file_iff counts)
    · intro location member
      obtain ⟨counts, text, inside⟩ := (rules.mem_candidatesIn_iff formed).mp member
      rw [inside, (differ.file_iff counts text).mp inside]
  · rintro ⟨same, agree⟩ location node counts
    cases node with
    | link target => exact absurd trivial counts
    | directory inner => exact absurd trivial counts
    | file text =>
      have counts : rules.ignoresFile location = false := by simpa [Ignores] using counts
      constructor
      · intro inside
        rw [← agree location ((rules.mem_candidatesIn_iff formed).mpr ⟨counts, text, inside⟩), inside]
      · intro inside
        have member := (rules.mem_candidatesIn_iff othersFormed).mpr ⟨counts, text, inside⟩
        rw [agree location (same ▸ member), inside]

end Rules

/-! ### Runs that see the same -/

namespace Analysis

section Seen
variable {fileSystem other : FileSystem} {options : Options} {root : String} {entries others : List (String × Node)}
  (placed : fileSystem.find .follow root = .ok (.directory entries))
  (otherPlaced : other.find .follow root = .ok (.directory others))
  (formed : Node.WellFormedEntries entries) (othersFormed : Node.WellFormedEntries others)
include placed otherPlaced formed othersFormed

theorem files_of_differInIgnored {rules : Rules} (differ : rules.DifferInIgnored entries others) :
    (discover other root rules).files = (discover fileSystem root rules).files := by
  obtain ⟨sameCandidates, -⟩ := (rules.differInIgnored_iff formed othersFormed).mp differ
  rw [discover_of_directory placed, discover_of_directory otherPlaced, Discovery.ofDirectory, Discovery.ofDirectory,
    sameCandidates]

theorem outcome_of_differInIgnored {rules : Rules} (differ : rules.DifferInIgnored entries others)
    (absolute : Path.isAbsolute root = true) (linker : Linker) {file : Candidate}
    (found : file ∈ (discover fileSystem root rules).files) :
    linker.outcome other file = linker.outcome fileSystem file := by
  obtain ⟨sameCandidates, sameNodes⟩ := (rules.differInIgnored_iff formed othersFormed).mp differ
  rw [discover_of_directory placed] at found
  obtain ⟨location, reached, rfl⟩ := List.mem_map.mp found
  have member := (List.mem_filter.mp reached).1
  obtain ⟨inhabited, named⟩ := rules.named_of_mem_candidatesIn formed member
  obtain ⟨-, text, inside⟩ := (rules.mem_candidatesIn_iff formed).mp member
  have otherInside := (sameNodes location member).symm.trans inside
  unfold Linker.outcome
  rw [FileSystem.readText_pathAt placed absolute inhabited named inside,
    FileSystem.readText_pathAt otherPlaced absolute inhabited named otherInside]

end Seen

theorem diagnostics_discovery {fileSystem : FileSystem} {root : String} {entries : List (String × Node)}
    (placed : fileSystem.find .follow root = .ok (.directory entries)) (options : Options) :
    (discovery fileSystem options root).diagnostics =
      (Discovery.tooLong (.configure options.extensions options.excludedDirectories) root entries).map
        (Discovery.unlistable · .nameTooLong) := by
  rw [discovery, discover_of_directory placed, Discovery.ofDirectory]

theorem diagnostics_assemble_perm (options : Options) (root : String) (aliases : AliasLoad) (found : Discovery)
    (references : References) :
    (assemble options root aliases found references).diagnostics.Perm
      (aliases.diagnostic.toList ++ references.diagnostics ++ found.diagnostics) := by
  refine (Sorting.sort_perm _ _).trans ?_
  rw [List.append_assoc, List.append_assoc]
  exact List.perm_append_comm.append_left _

/-- What is ignored has no influence on a result, apart from the directories that cannot be listed. -/
theorem run_differInIgnored {fileSystem other : FileSystem} {options : Options} {root : String}
    {entries others : List (String × Node)}
    (formed : fileSystem.root.WellFormed) (otherFormed : other.root.WellFormed)
    (valid : options.validate = .ok ())
    (absolute : fileSystem.absolute? options.root = some root)
    (sameRoot : other.absolute? options.root = some root)
    (placed : fileSystem.find .follow root = .ok (.directory entries))
    (otherPlaced : other.find .follow root = .ok (.directory others))
    (sameAliases : (AliasConfig.load other root options.aliasConfig).table =
      (AliasConfig.load fileSystem root options.aliasConfig).table)
    (sameProblem : (AliasConfig.load other root options.aliasConfig).diagnostic =
      (AliasConfig.load fileSystem root options.aliasConfig).diagnostic)
    (differ : (Rules.configure options.extensions options.excludedDirectories).DifferInIgnored entries others) :
    ∃ analysis changed, run fileSystem options false = .ok analysis ∧ run other options false = .ok changed ∧
      changed = { analysis with diagnostics := changed.diagnostics } ∧
      let unlisted := Discovery.tooLong (.configure options.extensions options.excludedDirectories) root entries
      let othersUnlisted := Discovery.tooLong (.configure options.extensions options.excludedDirectories) root others
      (∃ shared,
        analysis.diagnostics.Perm (shared ++ unlisted.map (Discovery.unlistable · .nameTooLong)) ∧
        changed.diagnostics.Perm (shared ++ othersUnlisted.map (Discovery.unlistable · .nameTooLong))) ∧
      (unlisted = othersUnlisted → changed = analysis) := by
  have rootAbsolute := FileSystem.isAbsolute_absolute? absolute
  have jobs := jobs_ne_zero_of_validate valid
  have entriesFormed : Node.WellFormedEntries entries := FileSystem.wellFormed_of_find formed placed
  have othersFormed : Node.WellFormedEntries others := FileSystem.wellFormed_of_find otherFormed otherPlaced
  have sameFiles : (discovery other options root).files = (discovery fileSystem options root).files :=
    files_of_differInIgnored placed otherPlaced entriesFormed othersFormed differ
  -- A linker knows the aliases and the files, and nothing else of the tree.
  have sameLinker : linker other options root = linker fileSystem options root := by
    rw [linker, linker, sameAliases, sameFiles]
  have sameOutcomes :
      (discovery other options root).files.map ((linker other options root).outcome other) =
        (discovery fileSystem options root).files.map ((linker fileSystem options root).outcome fileSystem) := by
    rw [sameFiles, sameLinker]
    exact List.map_congr_left fun file found =>
      outcome_of_differInIgnored placed otherPlaced entriesFormed othersFormed differ rootAbsolute _ found
  have problems := diagnostics_discovery placed options
  have otherProblems := diagnostics_discovery otherPlaced options
  have ran := (run_of_absolute valid absolute).trans (runAt_eq fileSystem jobs root)
  have otherRan := (run_of_absolute valid sameRoot).trans (runAt_eq other jobs root)
  rw [sameOutcomes] at otherRan
  refine ⟨_, _, ran, otherRan, ?_, ⟨_, problems ▸ diagnostics_assemble_perm _ _ _ _ _, ?_⟩, fun sameLong => ?_⟩
  · simp only [assemble, sameFiles]
  · rw [← sameProblem, ← otherProblems]
    exact diagnostics_assemble_perm _ _ _ _ _
  · simp only [assemble, sameFiles, sameProblem, problems, otherProblems, sameLong]

def bareFiles : List (String × Node) :=
  [("main.ts", .file (some "import './part'; import './part.test'; import './latest'; import './dist/part'")),
   ("part.ts", .file (some ""))]

/-- The bare files among a build, notes, a link and a test, which are what the imports mean, and import in turn. -/
def litteredFiles : List (String × Node) :=
  [("dist", .directory [("part.ts", .file (some "import '../main'"))]),
   ("latest.ts", .link "main.ts"),
   ("main.ts", .file (some "import './part'; import './part.test'; import './latest'; import './dist/part'")),
   ("notes", .directory [("main.md", .file (some "import '../main'"))]),
   ("part.test.ts", .file (some "import './main'")),
   ("part.ts", .file (some ""))]

theorem run_differInIgnored_litteredFiles :
    (workshop bareFiles).root.WellFormed ∧ (workshop litteredFiles).root.WellFormed ∧
    (Options.initial "/ws" 2).validate = .ok () ∧
    (Rules.configure Options.defaultExtensions Options.defaultExcludedDirectories).DifferInIgnored
      bareFiles litteredFiles ∧
    ∃ analysis, run (workshop bareFiles) (.initial "/ws" 2) false = .ok analysis ∧
      run (workshop litteredFiles) (.initial "/ws" 2) false = .ok analysis ∧
      analysis.edges = [⟨"main.ts", "part.ts"⟩] := by
  have formed : (workshop bareFiles).root.WellFormed := by decide
  have otherFormed : (workshop litteredFiles).root.WellFormed := by decide
  have valid : (Options.initial "/ws" 2).validate = .ok () := by decide
  let rules := Rules.configure Options.defaultExtensions Options.defaultExcludedDirectories
  have seen : rules.candidatesIn bareFiles = [["main.ts"], ["part.ts"]] := by decide +kernel
  have otherSeen : rules.candidatesIn litteredFiles = [["main.ts"], ["part.ts"]] := by decide +kernel
  have differ : rules.DifferInIgnored bareFiles litteredFiles := by
    refine (rules.differInIgnored_iff (by decide) (by decide)).mpr ⟨seen.trans otherSeen.symm, ?_⟩
    rw [seen]
    intro location member
    rcases List.mem_pair.mp member with rfl | rfl <;> rfl
  obtain ⟨analysis, changed, ran, otherRan, -, -, same⟩ := run_differInIgnored formed otherFormed valid
    (by decide +kernel : (workshop bareFiles).absolute? "/ws" = some "/ws") (by decide +kernel) rfl rfl
    (by decide +kernel) (by decide +kernel) differ
  obtain rfl := same (by decide +kernel)
  have edges : (run (workshop bareFiles) (.initial "/ws" 2) false).map edges = .ok [⟨"main.ts", "part.ts"⟩] := by
    decide +kernel
  rw [ran] at edges
  exact ⟨formed, otherFormed, valid, differ, changed, ran, otherRan, Except.ok.inj edges⟩

/-- Adding an empty directory is noticed if it cannot be listed. -/
theorem run_reports_ignored_directory :
    ∃ root entries others, (workshop entries).root.WellFormed ∧ (workshop others).root.WellFormed ∧
      (workshop entries).absolute? root = some root ∧ (workshop others).absolute? root = some root ∧
      (workshop entries).find .follow root = .ok (.directory entries) ∧
      (workshop others).find .follow root = .ok (.directory others) ∧
      AliasConfig.load (workshop others) root none = AliasConfig.load (workshop entries) root none ∧
      (∀ rules : Rules, rules.DifferInIgnored entries others) ∧
      ∃ analysis changed, run (workshop entries) (.initial root 2) false = .ok analysis ∧
        run (workshop others) (.initial root 2) false = .ok changed ∧
        analysis.diagnostics = [] ∧
        changed.diagnostics = [Discovery.unlistable (Path.join root "lib") .nameTooLong] := by
  obtain ⟨loop, root, full⟩ := exists_isFull
  let entries := [(loop, Node.link ".")]
  let others := besideLoop loop (.directory [])
  have formed : Node.WellFormedEntries entries := ⟨full.named, by simp, trivial, trivial⟩
  have othersFormed : Node.WellFormedEntries others := full.wellFormed_besideLoop trivial
  have placed := full.find entries (by simp [entries])
  have otherPlaced := full.find_besideLoop (.directory [])
  have nothing : ∀ rules : Rules, rules.candidatesIn entries = [] ∧ rules.candidatesIn others = [] := by
    simp [entries, others, besideLoop, Rules.candidatesIn, Rules.locationsIn, Rules.locationsAt]
  have differ : ∀ rules : Rules, rules.DifferInIgnored entries others := by
    intro rules
    obtain ⟨none, noneElse⟩ := nothing rules
    exact (rules.differInIgnored_iff formed othersFormed).mpr ⟨none.trans noneElse.symm, by simp [none]⟩
  have valid : (Options.initial root 2).validate = .ok () := rfl
  have found : discovery (workshop entries) (.initial root 2) root = .nothing := by
    rw [discovery, discover_of_directory placed, Discovery.ofDirectory, (nothing _).1]
    simp [entries, Discovery.tooLong, Rules.directoriesIn, Rules.directoriesAt, Discovery.nothing]
  have otherFound : discovery (workshop others) (.initial root 2) root =
      ⟨[], [Discovery.unlistable (Path.join root "lib") .nameTooLong]⟩ := by
    have walked : (Rules.configure Options.defaultExtensions Options.defaultExcludedDirectories).excludes "lib" =
      false := by decide
    have long := full.isTooLong_join (by decide : Node.isName "lib" = true)
    rw [discovery, discover_of_directory otherPlaced, Discovery.ofDirectory, (nothing _).2]
    simp [besideLoop, Discovery.tooLong, Rules.directoriesIn, Rules.directoriesAt, Options.initial, walked,
      Discovery.isReached, Discovery.pathAt, full.isTooLong_root, long]
  obtain ⟨analysis, ran, -, quiet⟩ :=
    run_without_files valid (full.absolute (workshop entries)) (by rw [found]; rfl)
  obtain ⟨changed, otherRan, -, loud⟩ :=
    run_without_files valid (full.absolute (workshop others)) (by rw [otherFound])
  refine ⟨root, entries, others, wellFormed_workshop formed, wellFormed_workshop othersFormed, full.absolute _,
    full.absolute _, placed, otherPlaced, by rw [full.load, full.load], differ, analysis, changed, ran, otherRan,
    ?_, ?_⟩
  · rw [quiet, found, Options.initial, full.load]
    rfl
  · rw [loud, otherFound, Options.initial, full.load]
    rfl

end Analysis

end Orphans
