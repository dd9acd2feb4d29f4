import Mathlib.Algebra.GroupWithZero.Nat
import Mathlib.Data.List.Sort
import Mathlib.Data.List.TakeWhile
import Orphans.Analysis
import Orphans.Proofs.Ascending
import Orphans.Proofs.Key.NormalForm

/-! Groups of unreferenced files.

A report lists the unreferenced files by directory and counts them by extension. Whatever items are grouped by, each
belongs to one group and is in it as often as it was listed, so nothing is lost and the sizes add up. A group of a
directory holds only names, but the keys can be put together again. There are two directories that are not the text
before the separator: `.`, where there is no separator, and `/`, where there is nothing before it. A key with `./` or
`//` and a name would be taken for one of theirs, and no normal form is written so.
-/

set_option autoImplicit false

namespace Orphans

/-! ### Groups of any items -/

namespace Sorting

variable {α : Type} [LinearOrder α] {before : α → α → Bool}
  (order : ∀ first second, before first second = true ↔ first < second)
include order

theorem insert_eq_orderedInsert (value : α) (values : List α) :
    insert before value values = values.orderedInsert (· ≤ ·) value := by
  induction values with
  | nil => rfl
  | cons first rest ih =>
    by_cases below : first < value
    · rw [insert, if_pos ((order first value).mpr below), List.orderedInsert_of_not_le _ rest (not_le.mpr below), ih]
    · rw [insert, if_neg (mt (order first value).mp below), List.orderedInsert_cons_of_le _ rest (not_lt.mp below)]

theorem sort_eq_insertionSort (values : List α) : sort before values = values.insertionSort (· ≤ ·) := by
  induction values with
  | nil => rfl
  | cons first rest ih =>
    have step : sort before (first :: rest) = insert before first (sort before rest) := rfl
    rw [step, ih, insert_eq_orderedInsert order, List.insertionSort_cons]

theorem pairwise_sort (values : List α) : (sort before values).Pairwise (· ≤ ·) := by
  rw [sort_eq_insertionSort order]
  exact List.pairwise_insertionSort _ values

end Sorting

namespace Ascending

variable {α β : Type} [DecidableEq α]

theorem flatMap_filter_perm (property : β → α) (items : List β) {groups : List α} (distinct : groups.Nodup) :
    (groups.flatMap fun group => items.filter fun item => property item = group).Perm
      (items.filter fun item => property item ∈ groups) := by
  induction groups with
  | nil => simp
  | cons first rest ih =>
    obtain ⟨fresh, restDistinct⟩ := List.nodup_cons.mp distinct
    -- Items of the first group are in none of the others, so one filter splits off just that group.
    have here : (items.filter fun item => property item ∈ first :: rest).filter (fun item => property item = first) =
        items.filter fun item => property item = first := by
      rw [List.filter_filter]
      refine List.filter_congr fun item _ => ?_
      by_cases same : property item = first <;> simp [same]
    have elsewhere : (items.filter fun item => property item ∈ first :: rest).filter
        (fun item => !decide (property item = first)) = items.filter fun item => property item ∈ rest := by
      rw [List.filter_filter]
      refine List.filter_congr fun item _ => ?_
      by_cases same : property item = first <;> simp [same, fresh]
    have parts := List.filter_append_perm (fun item => decide (property item = first))
      (items.filter fun item => property item ∈ first :: rest)
    rw [here, elsewhere] at parts
    rw [List.flatMap_cons]
    exact ((ih restDistinct).append_left _).trans parts

variable [LT α] [IsStrictTotalOrder α (· < ·)] [DecidableLT α]

theorem groups_perm (property : β → α) (items : List β) :
    ((ofList (items.map property)).flatMap fun group => items.filter fun item => property item = group).Perm items := by
  have grouped := flatMap_filter_perm property items (ascends_ofList (items.map property)).nodup
  have all : (items.filter fun item => property item ∈ ofList (items.map property)) = items := by
    rw [List.filter_eq_self]
    intro item listed
    exact decide_eq_true (mem_ofList.mpr (List.mem_map_of_mem listed))
  rwa [all] at grouped

theorem sum_length_groups (property : β → α) (items : List β) :
    ((ofList (items.map property)).map fun group => (items.filter fun item => property item = group).length).sum =
      items.length := by
  rw [← List.length_flatMap]
  exact (groups_perm property items).length_eq

end Ascending

/-! ### Directory and name -/

namespace Key

/-- The key of a name in a directory, where `.` is the directory of a lone name. -/
def rejoin (directory name : String) : String :=
  if directory = "." then name
  else if directory = "/" then "/" ++ name
  else directory ++ "/" ++ name

theorem eq_name_or_cut (text : List Char) :
    '/' ∉ text ∨ ∃ stem name, text = stem ++ '/' :: name ∧ '/' ∉ name := by
  by_cases slash : '/' ∈ text
  · obtain ⟨name, stem, turned, plain⟩ := List.eq_append_cons_of_mem (List.mem_reverse.mpr slash)
    refine .inr ⟨stem.reverse, name.reverse, ?_, mt List.mem_reverse.mp plain⟩
    rw [← List.reverse_reverse text, turned]
    simp
  · exact .inl slash

section Plain
variable {text : List Char} (plain : '/' ∉ text)
include plain

theorem parentChars_of_plain : parentChars text = ['.'] := by
  obtain ⟨-, different⟩ := reverse_cut [] plain
  rw [parentChars, List.dropWhile_eq_nil_iff.mpr different]

theorem nameChars_of_plain : nameChars text = text := by
  obtain ⟨-, different⟩ := reverse_cut [] plain
  rw [nameChars, List.takeWhile_eq_self_iff.mpr different, List.reverse_reverse]

end Plain

/-- No normal form has a separator behind a first dot or a first separator. -/
theorem normalizeChars_ne {c : Char} (stray : c = '.' ∨ c = '/') (path rest : List Char) :
    normalizeChars path ≠ c :: '/' :: rest := by
  obtain ⟨drive, rooted, segments, isDrive, folded, written⟩ := exists_folded path
  intro same
  rw [written] at same
  rcases isDrive with rfl | ⟨letter, alpha, rfl⟩
  · cases rooted with
    | true =>
      obtain ⟨-, behind⟩ := List.cons.inj same
      apply folded.head?_joinSegments
      rw [behind, List.head?_cons]
    | false =>
      by_cases empty : segments = []
      · subst empty
        cases same
      · rw [render_eq_spell (.inr (.inr empty)), List.nil_append, spell, if_neg Bool.false_ne_true] at same
        rcases stray with rfl | rfl
        · -- The dot would be a segment of its own.
          have pieces := folded.splitOn_joinSegments empty
          rw [same] at pieces
          have dot : ['.'] ∈ segments := by
            rw [← pieces]
            simp [List.splitOn_cons_eq_if_modifyHead]
          exact folded.ne_current dot rfl
        · apply folded.head?_joinSegments
          rw [same, List.head?_cons]
  · -- The second character is the colon of the drive.
    cases rooted <;> simp [render] at same

theorem rejoin_of_plain {key : String} (plain : '/' ∉ key.toList) : rejoin (parent key) (name key) = key := by
  have directory : parent key = "." := by
    apply String.toList_injective
    rw [toList_parent, parentChars_of_plain plain]
    rfl
  have lone : name key = key := by
    apply String.toList_injective
    rw [toList_name, nameChars_of_plain plain]
  rw [rejoin, if_pos directory, lone]

theorem rejoin_of_cut {key : String} {stem last : List Char} (whole : key.toList = stem ++ '/' :: last)
    (plain : '/' ∉ last) (notCurrent : stem ≠ ['.']) (notTop : stem ≠ ['/']) :
    rejoin (parent key) (name key) = key := by
  have lastName : (name key).toList = last := by rw [toList_name, whole, nameChars_append _ plain]
  apply String.toList_injective
  by_cases top : stem = []
  · subst top
    have directory : parent key = "/" := by
      apply String.toList_injective
      rw [toList_parent, whole, List.nil_append, parentChars_slash plain]
      rfl
    rw [rejoin, directory, if_neg (by decide), if_pos rfl, String.toList_append, lastName, whole]
    rfl
  · have directory : (parent key).toList = stem := by rw [toList_parent, whole, parentChars_append stem plain top]
    have elsewhere : parent key ≠ "." ∧ parent key ≠ "/" := by
      constructor
      · exact fun same => notCurrent (directory.symm.trans (congrArg String.toList same))
      · exact fun same => notTop (directory.symm.trans (congrArg String.toList same))
    rw [rejoin, if_neg elsewhere.1, if_neg elsewhere.2, String.toList_append, String.toList_append, directory, lastName,
      whole, List.append_assoc]
    rfl

theorem rejoin_parent_name (path : String) :
    rejoin (parent (normalize path)) (name (normalize path)) = normalize path := by
  rcases eq_name_or_cut (normalize path).toList with plain | ⟨stem, last, whole, plain⟩
  · exact rejoin_of_plain plain
  · have proper : ∀ c, c = '.' ∨ c = '/' → stem ≠ [c] := by
      rintro c stray rfl
      rw [toList_normalize] at whole
      exact normalizeChars_ne stray path.toList last whole
    exact rejoin_of_cut whole plain (proper '.' (.inl rfl)) (proper '/' (.inr rfl))

end Key

/-! ### Groups of unreferenced files -/

namespace Analysis

theorem namesIn_perm (directory : String) (files : List String) :
    (namesIn directory files).Perm ((files.filter fun file => Key.parent file = directory).map Key.name) :=
  Sorting.sort_perm Sorting.textBefore _

theorem pairwise_namesIn (directory : String) (files : List String) : (namesIn directory files).Pairwise (· ≤ ·) :=
  Sorting.pairwise_sort Sorting.textBefore_iff _

theorem rejoin_namesIn_perm {files : List String} (normalized : ∀ file ∈ files, ∃ path, Key.normalize path = file)
    (directory : String) :
    ((namesIn directory files).map (Key.rejoin directory)).Perm
      (files.filter fun file => Key.parent file = directory) := by
  have rejoined : ((files.filter fun file => Key.parent file = directory).map Key.name).map (Key.rejoin directory) =
      files.filter fun file => Key.parent file = directory := by
    rw [List.map_map]
    refine (List.map_congr_left fun file member => ?_).trans (List.map_id _)
    obtain ⟨listed, inside⟩ := List.mem_filter.mp member
    obtain ⟨path, rfl⟩ := normalized file listed
    rw [Function.comp_apply, ← of_decide_eq_true inside, Key.rejoin_parent_name, id]
  exact ((namesIn_perm directory files).map _).trans (.of_eq rejoined)

theorem namesIn_ne_nil {directory : String} {files : List String} (listed : directory ∈ files.map Key.parent) :
    namesIn directory files ≠ [] := by
  obtain ⟨file, member, inside⟩ := List.mem_map.mp listed
  have found : Key.name file ∈ namesIn directory files := by
    rw [(namesIn_perm directory files).mem_iff]
    exact List.mem_map_of_mem (List.mem_filter.mpr ⟨member, decide_eq_true inside⟩)
  exact List.ne_nil_of_mem found

section
variable (analysis : Analysis)

theorem ascends_byDirectory : Ascending.Ascends (analysis.byDirectory.map Prod.fst) := by
  have directories : analysis.byDirectory.map Prod.fst = Ascending.ofList (analysis.unreferenced.map Key.parent) := by
    simp [byDirectory, Function.comp_def]
  rw [directories]
  exact Ascending.ascends_ofList _

theorem ascends_byExtension : Ascending.Ascends (analysis.byExtension.map Prod.fst) := by
  have extensions : analysis.byExtension.map Prod.fst = Ascending.ofList (analysis.unreferenced.map extensionOf) := by
    simp [byExtension, Function.comp_def]
  rw [extensions]
  exact Ascending.ascends_ofList _

theorem sum_sizes_byDirectory :
    (analysis.byDirectory.map fun group => group.2.length).sum = analysis.unreferenced.length := by
  rw [← Ascending.sum_length_groups Key.parent analysis.unreferenced, byDirectory, List.map_map]
  refine congrArg List.sum (List.map_congr_left fun directory _ => ?_)
  rw [Function.comp_apply, (namesIn_perm directory analysis.unreferenced).length_eq, List.length_map]

theorem sum_counts_byExtension : (analysis.byExtension.map Prod.snd).sum = analysis.unreferenced.length := by
  rw [← Ascending.sum_length_groups extensionOf analysis.unreferenced, byExtension, List.map_map]
  rfl

end

/-- From the groups of the unreferenced files the list of their keys is put together again, in some order and with its
repetitions. Every directory and every extension is listed once, no group is empty, the names in a group ascend, and
the sizes of the groups of either kind add up to the number of the files. -/
theorem grouping_lossless (analysis : Analysis)
    (normalized : ∀ file ∈ analysis.unreferenced, ∃ path, Key.normalize path = file) :
    (analysis.byDirectory.flatMap fun group => group.2.map (Key.rejoin group.1)).Perm analysis.unreferenced ∧
    (∀ group ∈ analysis.byDirectory, group.2 ≠ [] ∧ group.2.Pairwise (· ≤ ·)) ∧
    (Ascending.Ascends (analysis.byDirectory.map Prod.fst) ∧ Ascending.Ascends (analysis.byExtension.map Prod.fst)) ∧
    (analysis.byDirectory.map fun group => group.2.length).sum = analysis.unreferenced.length ∧
    (analysis.byExtension.map Prod.snd).sum = analysis.unreferenced.length := by
  refine ⟨?_, ?_, ⟨analysis.ascends_byDirectory, analysis.ascends_byExtension⟩, analysis.sum_sizes_byDirectory,
    analysis.sum_counts_byExtension⟩
  · rw [byDirectory, List.flatMap_map]
    have inGroups := List.Perm.flatMap_left (Ascending.ofList (analysis.unreferenced.map Key.parent))
      fun directory _ => rejoin_namesIn_perm normalized directory
    exact inGroups.trans (Ascending.groups_perm Key.parent analysis.unreferenced)
  · intro group member
    obtain ⟨directory, listed, rfl⟩ := List.mem_map.mp member
    exact ⟨namesIn_ne_nil (Ascending.mem_ofList.mp listed), pairwise_namesIn directory analysis.unreferenced⟩

/-- Keys with a root, with a drive, with neither, and one that is listed twice. -/
def scatteredFiles : Analysis where
  root := "/p"
  totalFiles := 9
  referenced := []
  unreferenced := ["b/z.ts", "/", ".env", "b/a.ts", "/top.d.ts", "C:./x.ts", "b/a.ts", "../c", "C:/"]
  exempt := []
  edges := []
  diagnostics := []

theorem grouping_lossless_scatteredFiles :
    scatteredFiles.byDirectory =
      [(".", [".env"]), ("..", ["c"]), ("/", ["", "top.d.ts"]), ("C:", [""]), ("C:.", ["x.ts"]),
       ("b", ["a.ts", "a.ts", "z.ts"])] ∧
    (scatteredFiles.byDirectory.flatMap fun group => group.2.map (Key.rejoin group.1)).Perm
      scatteredFiles.unreferenced ∧
    scatteredFiles.byExtension = [("", 4), ("ts", 5)] ∧ (scatteredFiles.byExtension.map Prod.snd).sum = 9 := by
  have keys : scatteredFiles.unreferenced = ["b/z.ts", "/", ".env", "b/a.ts", "/top.d.ts", "./C:./x.ts", "b/a.ts",
      "../c", "C:/"].map Key.normalize := by
    decide +kernel
  obtain ⟨rejoined, -, -, -, counts⟩ := grouping_lossless scatteredFiles fun file listed => by
    rw [keys] at listed
    obtain ⟨path, -, same⟩ := List.mem_map.mp listed
    exact ⟨path, same⟩
  exact ⟨by decide +kernel, rejoined, by decide +kernel, counts⟩

end Analysis

end Orphans
