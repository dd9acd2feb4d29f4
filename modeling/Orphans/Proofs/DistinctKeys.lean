import Mathlib.Data.List.Dedup
import Orphans.Proofs.Analysis

/-! Files with keys of their own.

A walk meets every file once, and the paths of different files differ. Their keys need not: a key reads a
back slash as a separator, although a name may hold one. A result lists every key once, so its lists are
as long together as the list of files exactly if no two files share a key, and no two do if there is no
back slash below the root.
-/

set_option autoImplicit false

namespace Orphans

theorem Node.isSegment_of_isName {name : String} (named : isName name = true) (plain : '\\' ∉ name.toList) :
    Key.IsSegment name.toList := by
  simp only [isName, Bool.and_eq_true, decide_eq_true_eq, List.all_eq_true] at named
  obtain ⟨⟨⟨notEmpty, notCurrent⟩, notParent⟩, chars⟩ := named
  exact ⟨fun empty => notEmpty (String.toList_injective empty),
    fun current => notCurrent (String.toList_injective current),
    fun parent => notParent (String.toList_injective parent),
    fun slash => (chars _ slash).1 rfl, plain⟩

theorem Node.splitOn_of_isName {name : String} (named : isName name = true) :
    name.toList.splitOn '/' = [name.toList] ∧ name.toList ≠ [] := by
  simp only [isName, Bool.and_eq_true, decide_eq_true_eq, List.all_eq_true] at named
  obtain ⟨⟨⟨notEmpty, -⟩, -⟩, chars⟩ := named
  exact ⟨List.splitOn_eq_singleton fun slash => (chars _ slash).1 rfl,
    fun empty => notEmpty (String.toList_injective empty)⟩

theorem Node.slash_not_mem_of_isName {name : String} (named : isName name = true) : '/' ∉ name.toList := by
  simp only [isName, Bool.and_eq_true, decide_eq_true_eq, List.all_eq_true] at named
  exact fun slash => (named.2 _ slash).1 rfl

namespace Path

theorem isAbsolute_of_isName {name : String} (named : Node.isName name = true) : isAbsolute name = false := by
  rw [Bool.eq_false_iff]
  intro absolute
  obtain ⟨rest, chars⟩ := isAbsolute_iff.mp absolute
  simp [Node.isName, chars] at named

theorem toList_join {base name : String} (absolute : isAbsolute base = true)
    (relative : isAbsolute name = false) :
    (∃ front, base.toList = front ++ ['/'] ∧ (join base name).toList = base.toList ++ name.toList) ∨
      (join base name).toList = base.toList ++ '/' :: name.toList := by
  obtain ⟨rest, chars⟩ := isAbsolute_iff.mp absolute
  unfold join
  rw [relative, if_neg Bool.false_ne_true]
  split
  · next ending =>
    rcases ending with empty | slash
    · rw [chars] at empty
      cases empty
    · obtain ⟨front, ended⟩ := List.getLast?_eq_some_iff.mp slash
      exact .inl ⟨front, ended, String.toList_append⟩
  · exact .inr (by simp [String.toList_append])

end Path

/-! ### Reading a location back from a path -/

namespace Discovery

/-- A way to read names off a path: a separator at the end is idle, and an admitted name behind a separator
is read as it is. -/
structure ReadsBack (read : List Char → List (List Char)) (Admits : String → Prop) : Prop where
  isName : ∀ name, Admits name → Node.isName name = true
  concat : ∀ front, read (front ++ ['/']) = read front
  append : ∀ front name, Admits name → read (front ++ '/' :: name.toList) = read front ++ [name.toList]

namespace ReadsBack

variable {read : List Char → List (List Char)} {Admits : String → Prop} (reads : ReadsBack read Admits)
include reads

theorem read_join {base name : String} (absolute : Path.isAbsolute base = true) (admitted : Admits name) :
    read (Path.join base name).toList = read base.toList ++ [name.toList] := by
  have relative := Path.isAbsolute_of_isName (reads.isName name admitted)
  rcases Path.toList_join absolute relative with ⟨front, ended, joined⟩ | joined
  · rw [joined, ended, List.append_assoc, List.singleton_append, reads.append front name admitted,
      reads.concat]
  · rw [joined, reads.append _ name admitted]

theorem read_pathAt {root : String} (absolute : Path.isAbsolute root = true) {location : List String}
    (admitted : ∀ name ∈ location, Admits name) :
    read (pathAt root location).toList = read root.toList ++ location.map String.toList := by
  induction location generalizing root with
  | nil => simp [pathAt]
  | cons first rest ih =>
    calc read (pathAt (Path.join root first) rest).toList
      _ = read (Path.join root first).toList ++ rest.map String.toList :=
        ih (Path.isAbsolute_join absolute first) fun name member =>
          admitted name (List.mem_cons_of_mem _ member)
      _ = read root.toList ++ (first :: rest).map String.toList := by
        rw [reads.read_join absolute (admitted first List.mem_cons_self)]
        simp

theorem location_eq {root : String} (absolute : Path.isAbsolute root = true) {location other : List String}
    (admitted : ∀ name ∈ location, Admits name) (otherAdmitted : ∀ name ∈ other, Admits name)
    (same : read (pathAt root location).toList = read (pathAt root other).toList) :
    location = other := by
  rw [reads.read_pathAt absolute admitted, reads.read_pathAt absolute otherAdmitted] at same
  exact List.map_injective_iff.mpr (fun _ _ => String.toList_injective) (List.append_cancel_left same)

end ReadsBack

theorem readsBack_pieces :
    ReadsBack (fun chars => (chars.splitOn '/').filter (· ≠ [])) (Node.isName · = true) where
  isName _ named := named
  concat front := by simp [List.splitOn_append_cons_self]
  append front name named := by
    obtain ⟨single, notEmpty⟩ := Node.splitOn_of_isName named
    simp [List.splitOn_append_cons_self, single, notEmpty]

theorem readsBack_segments :
    ReadsBack Key.segments fun name => Node.isName name = true ∧ '\\' ∉ name.toList where
  isName _ admitted := admitted.1
  concat front := Key.segments_concat_slash front
  append front _ admitted :=
    Key.segments_append_slash front (Node.isSegment_of_isName admitted.1 admitted.2)

theorem exists_behind_root {root : String} (absolute : Path.isAbsolute root = true) {location : List String}
    (named : ∀ name ∈ location, Node.isName name = true) :
    ∃ behind, (pathAt root location).toList = root.toList ++ behind ∧
      ∀ name ∈ location, ∀ c ∈ name.toList, c ∈ behind := by
  induction location generalizing root with
  | nil => exact ⟨[], by simp [pathAt], by simp⟩
  | cons first rest ih =>
    obtain ⟨more, path, chars⟩ := ih (Path.isAbsolute_join absolute first) fun name member =>
      named name (List.mem_cons_of_mem _ member)
    have relative := Path.isAbsolute_of_isName (named first List.mem_cons_self)
    obtain ⟨step, joined, own⟩ : ∃ step, (Path.join root first).toList = root.toList ++ step ∧
        ∀ c ∈ first.toList, c ∈ step := by
      rcases Path.toList_join absolute relative with ⟨-, -, joined⟩ | joined
      · exact ⟨_, joined, fun c member => member⟩
      · exact ⟨_, joined, fun c member => List.mem_cons_of_mem _ member⟩
    refine ⟨step ++ more, by rw [← List.append_assoc, ← joined]; exact path, ?_⟩
    intro name member c inside
    rcases List.mem_cons.mp member with rfl | inRest
    · exact List.mem_append_left _ (own c inside)
    · exact List.mem_append_right _ (chars name inRest c inside)

end Discovery

/-! ### The files of a walk -/

def KeysDiffer (files : List Candidate) : Prop :=
  ∀ file ∈ files, ∀ other ∈ files, file.key = other.key → file = other

instance (files : List Candidate) : Decidable (KeysDiffer files) :=
  inferInstanceAs (Decidable (∀ file ∈ files, ∀ other ∈ files, file.key = other.key → file = other))

def Candidate.PlainBelow (root : String) (file : Candidate) : Prop :=
  '\\' ∉ file.path.toList.drop root.toList.length

instance (root : String) (file : Candidate) : Decidable (file.PlainBelow root) :=
  inferInstanceAs (Decidable ('\\' ∉ file.path.toList.drop root.toList.length))

section Walk
variable {fileSystem : FileSystem} {root : String} (rules : Rules) (formed : fileSystem.root.WellFormed)
include formed

theorem discover_locations :
    ∃ locations : List (List String), locations.Nodup ∧
      (∀ location ∈ locations, ∀ name ∈ location, Node.isName name = true) ∧
      (discover fileSystem root rules).files = locations.map fun location => ⟨Discovery.pathAt root location⟩ := by
  rcases discover_files fileSystem root rules with files | files | ⟨ending, entries, found, files⟩
  · exact ⟨[], .nil, by simp, files⟩
  · -- A root that is a file lies at the empty location.
    exact ⟨[[]], List.nodup_singleton _, by simp, files⟩
  · have entriesFormed : Node.WellFormedEntries entries := FileSystem.wellFormed_of_find formed found
    have nodup : (rules.locationsIn entries).Nodup :=
      (rules.ascends_locationsIn entriesFormed).imp fun before => ne_of_lt before
    refine ⟨_, (nodup.filter _).filter _, ?_, files⟩
    intro location member
    have inside := (List.mem_filter.mp (List.mem_filter.mp member).1).1
    exact rules.isName_of_mem_locationsIn entriesFormed location inside

variable (absolute : Path.isAbsolute root = true)
include absolute

theorem nodup_discover : (discover fileSystem root rules).files.Nodup := by
  obtain ⟨locations, nodup, named, files⟩ := discover_locations rules formed
  rw [files]
  refine nodup.map_on fun location member other otherMember same => ?_
  refine Discovery.readsBack_pieces.location_eq absolute (named location member) (named other otherMember) ?_
  rw [(Candidate.mk.injEq _ _).mp same]

theorem keysDiffer_discover
    (plain : ∀ file ∈ (discover fileSystem root rules).files, file.PlainBelow root) :
    KeysDiffer (discover fileSystem root rules).files := by
  obtain ⟨locations, -, named, files⟩ := discover_locations rules formed
  rw [files] at plain ⊢
  -- A back slash in a name would show in the path behind the root.
  have admitted : ∀ location ∈ locations, ∀ name ∈ location,
      Node.isName name = true ∧ '\\' ∉ name.toList := by
    intro location member name inside
    refine ⟨named location member name inside, fun slash => ?_⟩
    obtain ⟨behind, path, chars⟩ := Discovery.exists_behind_root absolute (named location member)
    refine plain _ (List.mem_map_of_mem member) ?_
    rw [path, List.drop_left]
    exact chars name inside _ slash
  intro file inside other otherInside same
  obtain ⟨location, member, rfl⟩ := List.mem_map.mp inside
  obtain ⟨otherLocation, otherMember, rfl⟩ := List.mem_map.mp otherInside
  have segments := Key.segments_eq_of_normalize_eq (Discovery.isAbsolute_pathAt absolute location)
    (Discovery.isAbsolute_pathAt absolute otherLocation) same
  rw [Discovery.readsBack_segments.location_eq absolute (admitted location member)
    (admitted otherLocation otherMember) segments]

end Walk

/-! ### Counting -/

namespace Analysis

section Counting
variable {root : String} {files : List Candidate} {reaches : Candidate → String → Prop}
  {exemptNames : List String} {analysis : Analysis}
  (describes : analysis.Describes root files reaches exemptNames)
include describes

theorem Describes.nodup_files : analysis.files.Nodup := by
  refine List.Nodup.append (List.Nodup.append describes.referenced_ascend.nodup
    describes.unreferenced_ascend.nodup describes.referenced_unreferenced) describes.exempt_ascend.nodup ?_
  exact List.disjoint_append_left.mpr ⟨describes.referenced_exempt, describes.unreferenced_exempt⟩

theorem Describes.length_files_eq_iff (rooted : ∀ file ∈ files, Key.IsRooted file.key) (nodup : files.Nodup) :
    files.length = analysis.files.length ↔ KeysDiffer files := by
  let seen := files.map fun file => Key.relativeTo root file.key
  -- The lists of the result are the seen keys without repetition.
  have listed : analysis.files.Perm seen.dedup := by
    refine (List.perm_ext_iff_of_nodup describes.nodup_files (List.nodup_dedup seen)).mpr fun key => ?_
    rw [describes.mem_files, List.mem_dedup, List.mem_map]
  calc files.length = analysis.files.length
    _ ↔ seen.dedup.length = seen.length := by rw [listed.length_eq, List.length_map, eq_comm]
    _ ↔ seen.Nodup :=
      ⟨fun same => List.dedup_eq_self.mp ((List.dedup_sublist seen).eq_of_length same),
        fun once => congrArg List.length once.dedup⟩
    _ ↔ KeysDiffer files := by
      rw [List.nodup_map_iff_inj_on nodup]
      constructor
      · intro injective file inside other otherInside same
        exact injective file inside other otherInside (congrArg (Key.relativeTo root) same)
      · intro differ file inside other otherInside same
        exact differ file inside other otherInside
          (Key.relativeTo_injective root (rooted file inside) (rooted other otherInside) same)

end Counting

/-- The count of files agrees with the lists exactly if no two files share a key, and none do if there is
no back slash below the root. -/
theorem totalFiles_eq_iff_keysDiffer {fileSystem : FileSystem} {options : Options} {root : String}
    (formed : fileSystem.root.WellFormed) (valid : options.validate = .ok ())
    (absolute : fileSystem.absolute? options.root = some root) :
    ∃ analysis, run fileSystem options false = .ok analysis ∧
      analysis.totalFiles = (discovery fileSystem options root).files.length ∧
      (discovery fileSystem options root).files.Nodup ∧
      (analysis.totalFiles =
          analysis.referenced.length + analysis.unreferenced.length + analysis.exempt.length ↔
        KeysDiffer (discovery fileSystem options root).files) ∧
      ((∀ file ∈ (discovery fileSystem options root).files, file.PlainBelow root) →
        KeysDiffer (discovery fileSystem options root).files) := by
  have rootAbsolute := FileSystem.isAbsolute_absolute? absolute
  obtain ⟨analysis, ran, total, describes⟩ :=
    runAt_describes fileSystem (jobs_ne_zero_of_validate valid) rootAbsolute
  have started := run_of_validate fileSystem valid
  rw [absolute] at started
  have nodup := nodup_discover (.configure options.extensions options.excludedDirectories) formed rootAbsolute
  have counted := describes.length_files_eq_iff
    (fun file member => Key.isRooted_normalize (isAbsolute_of_mem_discover rootAbsolute member)) nodup
  refine ⟨analysis, started.trans ran, total, nodup, ?_, keysDiffer_discover _ formed rootAbsolute⟩
  rw [total, ← counted, files, List.length_append, List.length_append]

/-- Back slashes above the root do no harm. -/
def nestedProject : FileSystem where
  root := .directory [("a\\b", .directory
    [("c", .directory [("d.ts", .file (some "import '../d'"))]),
     ("d.ts", .file (some "")),
     ("page.ts", .file none)])]
  workingDirectory := ["a\\b"]

theorem totalFiles_nestedProject :
    nestedProject.root.WellFormed ∧ (Options.initial "." 2).validate = .ok () ∧
    nestedProject.absolute? "." = some "/a\\b" ∧
    ∃ analysis, run nestedProject (.initial "." 2) false = .ok analysis ∧ analysis.totalFiles = 3 ∧
      analysis.totalFiles =
        analysis.referenced.length + analysis.unreferenced.length + analysis.exempt.length := by
  have formed : nestedProject.root.WellFormed := by decide
  have valid : (Options.initial "." 2).validate = .ok () := by decide
  have placed : nestedProject.absolute? "." = some "/a\\b" := by decide +kernel
  have found : (discovery nestedProject (.initial "." 2) "/a\\b").files =
      [⟨"/a\\b/c/d.ts"⟩, ⟨"/a\\b/d.ts"⟩, ⟨"/a\\b/page.ts"⟩] := by decide +kernel
  obtain ⟨analysis, ran, total, -, counted, differ⟩ := totalFiles_eq_iff_keysDiffer formed valid placed
  rw [found] at total counted differ
  exact ⟨formed, valid, placed, analysis, ran, total, counted.mpr (differ (by decide +kernel))⟩

/-- Two files whose paths differ in a separator and a back slash. -/
def conflatedProject : FileSystem where
  root := .directory [("app", .directory
    [("a", .directory [("b.ts", .file (some ""))]), ("a\\b.ts", .file (some ""))])]
  workingDirectory := []

theorem conflatedProject_loses_file :
    conflatedProject.root.WellFormed ∧ (Options.initial "/app" 1).validate = .ok () ∧
    (discovery conflatedProject (.initial "/app" 1) "/app").files =
      [⟨"/app/a/b.ts"⟩, ⟨"/app/a\\b.ts"⟩] ∧
    ¬ KeysDiffer (discovery conflatedProject (.initial "/app" 1) "/app").files ∧
    run conflatedProject (.initial "/app" 1) false = .ok
      { root := "/app"
        totalFiles := 2
        referenced := []
        unreferenced := ["a/b.ts"]
        exempt := []
        edges := []
        diagnostics := [] } := by
  refine ⟨by decide, by decide, ?_, ?_, ?_⟩ <;> decide +kernel

end Analysis

end Orphans
