import Mathlib.Data.List.TakeWhile
import Orphans.Proofs.Relocation
import Orphans.Proofs.Text.ByteOrder

/-! A walk as a filter.

A walk passes over excluded directories and never looks below them. It finds what one would find by listing every file
and keeping those that are eligible, which is said of the folders on the way and of the two parts of the name. Each is
found once, in the order of the names on the way. Only what the walk cannot reach is missing: a directory whose path
is too long is not listed.
-/

set_option autoImplicit false

namespace Orphans

namespace Path

/-- The cut is at the last dot, and nothing is cut from a name that begins with it. -/
theorem splitNameChars_eq_some_iff {name stem extension : List Char} :
    splitNameChars name = (stem, some extension) ↔
      stem ≠ [] ∧ '.' ∉ extension ∧ name = stem ++ '.' :: extension := by
  constructor
  · intro cut
    have whole : name.reverse.takeWhile (· ≠ '.') ++ name.reverse.dropWhile (· ≠ '.') = name.reverse :=
      List.takeWhile_append_dropWhile
    unfold splitNameChars at cut
    split at cut
    · cases cut
    · cases cut
    · next dot before more found =>
      obtain ⟨rfl, rfl⟩ : before.reverse = stem ∧ (name.reverse.takeWhile (· ≠ '.')).reverse = extension := by
        simpa using cut
      -- What ends the stretch without dots is a dot.
      have isDot : dot = '.' := by
        have kept := List.head?_dropWhile_not (· ≠ '.') name.reverse
        rw [found] at kept
        simpa using kept
      refine ⟨?_, ?_, ?_⟩
      · intro empty
        exact more (List.reverse_eq_nil_iff.mp empty)
      · intro inside
        simpa using List.mem_takeWhile_imp (List.mem_reverse.mp inside)
      · calc name
          _ = (name.reverse.takeWhile (· ≠ '.') ++ name.reverse.dropWhile (· ≠ '.')).reverse := by
            rw [whole, List.reverse_reverse]
          _ = before.reverse ++ '.' :: (name.reverse.takeWhile (· ≠ '.')).reverse := by
            rw [found, isDot]
            simp
  · rintro ⟨inhabited, dotless, rfl⟩
    have turned : (stem ++ '.' :: extension).reverse = extension.reverse ++ '.' :: stem.reverse := by simp
    have different : ∀ c ∈ extension.reverse, decide (c ≠ '.') = true := by
      intro c member
      apply decide_eq_true
      rintro rfl
      exact dotless (List.mem_reverse.mp member)
    obtain ⟨first, others, shape⟩ := List.exists_cons_of_ne_nil (List.reverse_ne_nil_iff.mpr inhabited)
    have back : stem = (first :: others).reverse := by rw [← shape, List.reverse_reverse]
    rw [splitNameChars, turned, List.dropWhile_append_of_pos different, List.takeWhile_append_of_pos different, shape]
    simp [back]

section Cut
variable {stem extension : String} (inhabited : stem ≠ "") (dotless : '.' ∉ extension.toList)
include inhabited dotless

theorem splitNameChars_append :
    splitNameChars (stem ++ "." ++ extension).toList = (stem.toList, some extension.toList) :=
  splitNameChars_eq_some_iff.mpr ⟨mt String.toList_eq_nil_iff.mp inhabited, dotless, by simp⟩

theorem stem_append : Path.stem (stem ++ "." ++ extension) = stem := by
  rw [Path.stem, splitNameChars_append inhabited dotless, String.ofList_toList]

theorem nameExtension?_append : nameExtension? (stem ++ "." ++ extension) = some extension := by
  rw [nameExtension?, splitNameChars_append inhabited dotless, Option.map_some, String.ofList_toList]

end Cut

theorem exists_cut_of_nameExtension? {name extension : String} (found : nameExtension? name = some extension) :
    ∃ stem, stem ≠ "" ∧ '.' ∉ extension.toList ∧ name = stem ++ "." ++ extension := by
  obtain ⟨chars, second, rfl⟩ := Option.map_eq_some_iff.mp found
  have cut : splitNameChars name.toList = ((splitNameChars name.toList).1, some chars) := Prod.ext rfl second
  obtain ⟨inhabited, dotless, whole⟩ := splitNameChars_eq_some_iff.mp cut
  refine ⟨.ofList (splitNameChars name.toList).1, ?_, ?_, ?_⟩
  · simpa using inhabited
  · simpa using dotless
  · apply String.toList_injective
    simpa using whole

end Path

namespace TestArtifact

theorem hasEnding_eq_false_iff {name : String} :
    hasEnding name = false ↔ ∀ ending ∈ [".test", ".spec"], ¬ ending.toList <:+ name.toList := by
  simp [hasEnding, endings, ← List.isSuffixOf_iff_suffix]

theorem isTestFolder_eq_false_iff {name : String} :
    isTestFolder name = false ↔
      ¬ "__tests__".toList <+: name.toList ∧ hasEnding name = false := by
  simp [isTestFolder, ← List.isPrefixOf_iff_prefix]

theorem includes_eq_false_iff {folders : List String} {name : String} :
    includes ((folders ++ [name]).map Path.Component.name) = false ↔
      (∀ folder ∈ folders, isTestFolder folder = false) ∧
        hasEnding (Path.stem name) = false := by
  simp [includes, Path.Component.text]

end TestArtifact

namespace Rules

open TestArtifact

/-- A file that counts, by the folders on the way to it and by its name, cut at the last dot. -/
structure Eligible (extensions excludedDirectories folders : List String) (stem extension : String) : Prop where
  stem_ne : stem ≠ ""
  extension_ne : extension ≠ ""
  dotless : '.' ∉ extension.toList
  accepted : ∃ text ∈ extensions, Extension.normalize text = extension
  included : ∀ folder ∈ folders, folder ∉ excludedDirectories
  outside : ∀ folder ∈ folders, ¬ "__tests__".toList <+: folder.toList
  untested : ∀ part ∈ stem :: folders, ∀ ending ∈ [".test", ".spec"], ¬ ending.toList <:+ part.toList

instance (extensions excludedDirectories folders : List String) (stem extension : String) :
    Decidable (Eligible extensions excludedDirectories folders stem extension) :=
  decidable_of_iff (stem ≠ "" ∧ extension ≠ "" ∧ '.' ∉ extension.toList ∧
    (∃ text ∈ extensions, Extension.normalize text = extension) ∧ (∀ folder ∈ folders, folder ∉ excludedDirectories) ∧
    (∀ folder ∈ folders, ¬ "__tests__".toList <+: folder.toList) ∧
    ∀ part ∈ stem :: folders, ∀ ending ∈ [".test", ".spec"], ¬ ending.toList <:+ part.toList)
    ⟨fun ⟨a, b, c, d, e, f, g⟩ => ⟨a, b, c, d, e, f, g⟩, fun ⟨a, b, c, d, e, f, g⟩ => ⟨a, b, c, d, e, f, g⟩⟩

theorem acceptsName_iff {rules : Rules} {name : String} :
    rules.acceptsName name = true ↔ ∃ extension ∈ rules.extensions, Path.nameExtension? name = some extension := by
  unfold acceptsName
  cases Path.nameExtension? name <;> simp

theorem ignoresFile_eq_false_iff {extensions excludedDirectories location : List String} :
    (configure extensions excludedDirectories).ignoresFile location = false ↔
      ∃ folders stem extension, location = folders ++ [stem ++ "." ++ extension] ∧
        Eligible extensions excludedDirectories folders stem extension := by
  rcases List.eq_nil_or_concat location with rfl | ⟨folders, name, rfl⟩
  · simp [ignoresFile]
  · rw [List.concat_eq_append, ignoresFile, Bool.or_eq_false_iff, Bool.or_eq_false_iff, Bool.not_eq_false',
      includes_eq_false_iff, List.dropLast_concat, List.getLast?_concat, Option.any_some, acceptsName_iff]
    constructor
    · rintro ⟨⟨included, folderOk, stemOk⟩, extension, accepted, found⟩
      obtain ⟨stem, inhabited, dotless, rfl⟩ := Path.exists_cut_of_nameExtension? found
      rw [Path.stem_append inhabited dotless] at stemOk
      obtain ⟨text, kept⟩ := List.mem_filter.mp accepted
      refine ⟨folders, stem, extension, rfl, inhabited, by simpa using kept, dotless, List.mem_map.mp text, ?_, ?_, ?_⟩
      · simpa [excludes, configure] using included
      · exact fun folder member => (isTestFolder_eq_false_iff.mp (folderOk folder member)).1
      · intro part member
        rcases List.mem_cons.mp member with rfl | inside
        · exact hasEnding_eq_false_iff.mp stemOk
        · exact hasEnding_eq_false_iff.mp (isTestFolder_eq_false_iff.mp (folderOk part inside)).2
    · rintro ⟨others, stem, extension, same, eligible⟩
      obtain ⟨rfl, last⟩ := List.append_inj' same rfl
      obtain rfl := List.singleton_inj.mp last
      have untested : ∀ part ∈ stem :: folders, hasEnding part = false := fun part member =>
        hasEnding_eq_false_iff.mpr (eligible.untested part member)
      refine ⟨⟨?_, ?_, ?_⟩, extension, ?_, Path.nameExtension?_append eligible.stem_ne eligible.dotless⟩
      · simpa [excludes, configure] using eligible.included
      · exact fun folder member => isTestFolder_eq_false_iff.mpr
          ⟨eligible.outside folder member, untested folder (List.mem_cons_of_mem _ member)⟩
      · rw [Path.stem_append eligible.stem_ne eligible.dotless]
        exact untested stem List.mem_cons_self
      · exact List.mem_filter.mpr ⟨List.mem_map.mpr eligible.accepted, by simpa using eligible.extension_ne⟩

end Rules

theorem Discovery.pathAt_injective {root : String} (rooted : root ≠ "") {location other : List String}
    (inhabited : location ≠ []) (otherInhabited : other ≠ []) (named : ∀ name ∈ location, Node.isName name = true)
    (otherNamed : ∀ name ∈ other, Node.isName name = true) (same : pathAt root location = pathAt root other) :
    location = other := by
  obtain ⟨stem, -, paths⟩ := exists_stem_pathAt rooted
  have trails := congrArg String.toList same
  rw [paths location inhabited named, paths other otherInhabited otherNamed, List.append_cancel_left_eq] at trails
  have cut := congrArg (fun chars => List.splitOn '/' ([] ++ chars)) trails
  simp only [splitOn_append_names named, splitOn_append_names otherNamed, List.append_cancel_left_eq] at cut
  exact List.map_injective_iff.mpr (fun _ _ => String.toList_injective) cut

/-- A root that leads to a directory yields the eligible files below it, each once and ascending by the bytes of the
names on the way, as far as the directories around them have paths of an admitted length. -/
theorem discover_eq_filter {fileSystem : FileSystem} (formed : fileSystem.root.WellFormed) {root : String}
    {entries : List (String × Node)} (placed : fileSystem.find .follow root = .ok (.directory entries))
    (extensions excludedDirectories : List String) :
    ∃ locations : List (List String),
      (discover fileSystem root (.configure extensions excludedDirectories)).files =
        locations.map (fun location => ⟨Discovery.pathAt root location⟩) ∧
      (discover fileSystem root (.configure extensions excludedDirectories)).files.Nodup ∧
      locations.Pairwise (fun location later => location.map Text.bytes < later.map Text.bytes) ∧
      ∀ location, location ∈ locations ↔
        ∃ folders stem extension, location = folders ++ [stem ++ "." ++ extension] ∧
          Rules.Eligible extensions excludedDirectories folders stem extension ∧
          (∃ text, (Node.directory entries).get? location = some (.file text)) ∧
          (Discovery.pathAt root folders).utf8ByteSize ≤ FileSystem.maxPathLength := by
  let rules := Rules.configure extensions excludedDirectories
  have entriesFormed : Node.WellFormedEntries entries := FileSystem.wellFormed_of_find formed placed
  obtain ⟨rooted, -⟩ := (FileSystem.find_eq_ok_iff (by decide)).mp placed
  have ascends : ((rules.candidatesIn entries).filter (Discovery.isReached root)).Pairwise (· < ·) :=
    ((rules.ascends_locationsIn entriesFormed).filter _).filter _
  have named : ∀ location ∈ (rules.candidatesIn entries).filter (Discovery.isReached root),
      location ≠ [] ∧ ∀ name ∈ location, Node.isName name = true := fun location member =>
    rules.named_of_mem_candidatesIn entriesFormed (List.mem_filter.mp member).1
  refine ⟨(rules.candidatesIn entries).filter (Discovery.isReached root), ?_, ?_,
    ascends.imp (List.map_lt fun _ _ => Text.bytes_lt), ?_⟩
  · rw [discover_of_directory placed]
    rfl
  · rw [discover_of_directory placed]
    -- The names on the way can be read off a path, so different locations have different paths.
    refine List.Nodup.map_on (fun location member other otherMember same => ?_) (ascends.imp ne_of_lt)
    obtain ⟨inhabited, names⟩ := named location member
    obtain ⟨otherInhabited, otherNames⟩ := named other otherMember
    exact Discovery.pathAt_injective rooted inhabited otherInhabited names otherNames ((Candidate.mk.injEq _ _).mp same)
  · intro location
    rw [List.mem_filter, rules.mem_candidatesIn_iff entriesFormed, Rules.ignoresFile_eq_false_iff]
    constructor
    · rintro ⟨⟨⟨folders, stem, extension, rfl, eligible⟩, file⟩, reached⟩
      refine ⟨folders, stem, extension, rfl, eligible, file, ?_⟩
      simpa [Discovery.isReached, FileSystem.isTooLong] using reached
    · rintro ⟨folders, stem, extension, rfl, eligible, file, short⟩
      refine ⟨⟨⟨folders, stem, extension, rfl, eligible⟩, file⟩, ?_⟩
      simpa [Discovery.isReached, FileSystem.isTooLong] using short

/-- A folder beside a file whose name goes on, an excluded folder, a file of that name, a test and a link. -/
def mixedFiles : List (String × Node) :=
  [("a", .directory [("z.d.ts", .file (some ""))]),
   ("a.ts", .file (some "")),
   ("dist.ts", .directory [("b.ts", .file (some ""))]),
   ("e", .directory [("dist.ts", .file none), ("e.test.ts", .file (some ""))]),
   ("f.ts", .link "a.ts")]

def linkedProject : FileSystem where
  root := .directory [("app", .directory mixedFiles), ("ws", .link "app")]
  workingDirectory := []

theorem discover_eq_filter_linkedProject :
    linkedProject.root.WellFormed ∧ linkedProject.find .follow "ws" = .ok (.directory mixedFiles) ∧
      (discover linkedProject "ws" (.configure [".ts"] ["dist.ts"])).files.Nodup ∧
      ⟨"ws/a/z.d.ts"⟩ ∈ (discover linkedProject "ws" (.configure [".ts"] ["dist.ts"])).files ∧
      ⟨"ws/e/dist.ts"⟩ ∈ (discover linkedProject "ws" (.configure [".ts"] ["dist.ts"])).files := by
  have formed : linkedProject.root.WellFormed := by decide
  have placed : linkedProject.find .follow "ws" = .ok (.directory mixedFiles) := rfl
  obtain ⟨locations, files, once, -, found⟩ := discover_eq_filter formed placed [".ts"] ["dist.ts"]
  refine ⟨formed, placed, once, ?_, ?_⟩
  · rw [files, List.mem_map]
    refine ⟨["a", "z.d.ts"], (found _).mpr ⟨["a"], "z.d", "ts", ?_, ?_, ⟨_, rfl⟩, ?_⟩, ?_⟩ <;> decide +kernel
  · rw [files, List.mem_map]
    refine ⟨["e", "dist.ts"], (found _).mpr ⟨["e"], "dist", "ts", ?_, ?_, ⟨_, rfl⟩, ?_⟩, ?_⟩ <;> decide +kernel

/-- An eligible file is missed if the directory around it has too long a path. -/
theorem discover_misses_distant_file :
    ∃ root entries, (workshop entries).root.WellFormed ∧
      (workshop entries).find .follow root = .ok (.directory entries) ∧
      Rules.Eligible ["ts"] [] ["lib"] "a" "ts" ∧
      (Node.directory entries).get? ["lib", "a" ++ "." ++ "ts"] = some (.file (some "")) ∧
      (discover (workshop entries) root (.configure ["ts"] [])).files = [] := by
  obtain ⟨loop, root, full⟩ := exists_isFull
  have placed := full.find_besideLoop Analysis.loneFile
  refine ⟨root, _, wellFormed_workshop (full.wellFormed_besideLoop (by decide)), placed, by decide, ?_, ?_⟩
  · simp [besideLoop, Analysis.loneFile, Node.get?]
  · rw [discover_of_directory placed, Discovery.ofDirectory, List.map_eq_nil_iff, List.filter_eq_nil_iff]
    intro location member
    have far := full.isTooLong_join (by decide : Node.isName "lib" = true)
    rw [Analysis.eq_of_mem_candidatesIn_loneFile member]
    simpa [Discovery.isReached, Discovery.pathAt] using far

end Orphans
