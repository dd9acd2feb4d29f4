import Orphans.CommandLine.OutputPath
import Orphans.Proofs.Key.NormalForm
import Orphans.Proofs.Path.Climbing

/-! Output stays below the working directory.

An accepted path has no `..` between separators of either kind, so whether back slashes separate or not, no step of it
leads up. It is relative too, and so it goes on from the directory that it is taken from.
-/

set_option autoImplicit false

namespace Orphans

namespace Key

/-! ### Rooted keys with or without a drive -/

/-- A path that begins with a separator, or has one right behind a drive. -/
def HasRoot (path : String) : Prop := (splitDrive (unify path.toList)).2.head? = some '/'

instance (path : String) : Decidable (HasRoot path) := inferInstanceAs (Decidable (_ = _))

theorem normalizeChars_behind {drive : List Char} (isDrive : IsDrive drive) (body : List Char) :
    normalizeChars (drive ++ '/' :: body) = drive ++ '/' :: joinSegments (segments ('/' :: body)) := by
  have cut : splitDrive (unify (drive ++ '/' :: body)) = (drive, '/' :: unify body) := by
    rcases isDrive with rfl | ⟨letter, alpha, rfl⟩
    · exact splitDrive_slash _
    · have plain : letter ≠ '\\' := by
        rintro rfl
        cases alpha
      simp [unify, plain, splitDrive, alpha]
  rw [normalizeChars_of_splitDrive cut]
  rfl

theorem exists_drive {key : String} (rooted : HasRoot key) (normal : IsNormal key) :
    ∃ drive names, IsDrive drive ∧ (∀ name ∈ names, IsSegment name) ∧
      key.toList = drive ++ '/' :: joinSegments names := by
  obtain ⟨drive, rest, cut, isDrive, text⟩ := exists_splitDrive (unify key.toList)
  have plain : '\\' ∉ rest := fun inside => not_mem_unify key.toList (text ▸ List.mem_append_right drive inside)
  have slash : (rest.head? == some '/') = true := by
    have head : (splitDrive (unify key.toList)).2.head? = some '/' := rooted
    rw [cut] at head
    simp [head]
  have written : key.toList = normalizeChars key.toList := by
    rw [← toList_normalize, normal]
  rw [normalizeChars_of_splitDrive cut, slash] at written
  refine ⟨drive, _, isDrive, ?_, written⟩
  intro name member
  have pieces : ∀ piece ∈ rest.splitOn '/', '/' ∉ piece ∧ '\\' ∉ piece := fun _ => plain_of_mem_splitOn plain
  exact isSegment_foldl_pushSegment pieces (by simp) name (List.mem_reverse.mp member)

section Written
variable {names : List (List Char)} (named : ∀ name ∈ names, IsSegment name)
include named

theorem toList_join_behind {drive : List Char} (isDrive : IsDrive drive) {base : String}
    (chars : base.toList = drive ++ '/' :: joinSegments names) (tail : String) :
    (join base tail).toList = drive ++ '/' :: joinSegments (advance names tail.toList) := by
  rw [toList_join, joinChars, chars]
  split
  · next empty => rw [normalizeChars_behind isDrive, segments_rooted named, empty, advance_nil]
  · rw [List.append_assoc, List.cons_append, normalizeChars_behind isDrive, ← List.cons_append, segments_append,
      segments_rooted named]

end Written

/-! ### Paths that do not climb -/

theorem atOrAbove_join {directory : String} (rooted : HasRoot directory) (normal : IsNormal directory) {path : String}
    (down : ['.', '.'] ∉ (unify path.toList).splitOn '/') : AtOrAbove directory (join directory path) := by
  obtain ⟨drive, names, isDrive, named, chars⟩ := exists_drive rooted normal
  have below : ∀ name ∈ advance names path.toList, IsSegment name := fun _ => isSegment_of_mem_advance named
  rw [AtOrAbove, toList_join_behind named isDrive chars, chars, segments_append_joinSegments named,
    segments_append_joinSegments below, List.prefix_append_right_inj]
  exact isPrefix_advance down names

/-- Cutting at both separators cuts the pieces between slashes once more. -/
theorem splitOn_unify (text : List Char) :
    (unify text).splitOn '/' = (text.splitOn '/').flatMap fun piece => (unify piece).splitOn '/' := by
  have joined : ∀ pieces : List (List Char), pieces ≠ [] →
      (unify (joinSegments pieces)).splitOn '/' = pieces.flatMap fun piece => (unify piece).splitOn '/' := by
    intro pieces
    induction pieces with
    | nil => exact fun some => absurd rfl some
    | cons first rest ih =>
      intro _
      by_cases last : rest = []
      · simp [last, joinSegments]
      · rw [joinSegments_cons, ← slash_joinSegments last, unify_append, unify_slash, List.splitOn_append_cons_self,
          ih last, List.flatMap_cons]
  have whole : joinSegments (text.splitOn '/') = text := List.intercalate_splitOn '/'
  rw [← joined _ (List.splitOn_ne_nil '/' text), whole]

end Key

namespace Path

theorem isPrefix_foldl_move {steps : List String} (down : ".." ∉ steps) (here : List String) :
    here <+: steps.foldl move here := by
  induction steps generalizing here with
  | nil => exact List.prefix_rfl
  | cons step rest ih =>
    obtain ⟨different, later⟩ := not_or.mp (mt List.mem_cons.mpr down)
    have first : here <+: move here step := by
      cases idle : isIdle step with
      | true => simp [move_idle idle]
      | false =>
        rw [move_down idle (Ne.symm different)]
        exact List.prefix_append here [step]
    exact first.trans (ih later _)

theorem isPrefix_place_join {directory path : String} (inhabited : directory ≠ "") (relative : isAbsolute path = false)
    (down : ".." ∉ pieces path) : place directory <+: place (join directory path) := by
  rw [place, place, steps_join inhabited relative, List.foldl_append]
  exact isPrefix_foldl_move (fun inside => down (List.mem_filter.mp inside).1) _

end Path

namespace CommandLine.OutputPath

theorem check_eq_ok_iff {path : String} :
    check path = .ok () ↔ '\x00' ∉ path.toList ∧
      ¬ (path.toList.head? = some '/' ∨ path.toList.head? = some '\\') ∧ ['.', '.'] ∉ segments path := by
  unfold check
  split
  · next nul => simp [nul]
  · next noNul =>
    split
    · next absolute => simp [absolute]
    · next relative =>
      split
      · next climbs => simp [climbs]
      · next down => simp [noNul, relative, down]

def IsStretch (separates : Char → Bool) (front path : String) : Prop :=
  ∃ rest : List Char, path.toList = front.toList ++ rest ∧ rest.head?.all separates = true

theorem IsStretch.refl (separates : Char → Bool) (path : String) : IsStretch separates path path :=
  ⟨[], by simp, rfl⟩

def isSlash (c : Char) : Bool := c == '/' || c == '\\'

theorem IsStretch.either {front path : String} (stretch : IsStretch (· == '/') front path) :
    IsStretch isSlash front path := by
  obtain ⟨rest, text, ends⟩ := stretch
  refine ⟨rest, text, ?_⟩
  cases rest with
  | nil => rfl
  | cons c _ => exact Bool.or_eq_true_iff.mpr (.inl ends)

theorem segments_subset_of_isStretch {front path : String} (stretch : IsStretch isSlash front path) :
    segments front ⊆ segments path := by
  obtain ⟨rest, text, ends⟩ := stretch
  cases rest with
  | nil =>
    rw [List.append_nil] at text
    rw [String.toList_injective text]
    exact List.Subset.refl _
  | cons c more =>
    -- Either separator reads as a slash, so the pieces of the front come first.
    have separator : (if c = '\\' then '/' else c) = '/' := by
      have kinds : c = '/' ∨ c = '\\' := by simpa [isSlash] using ends
      rcases kinds with rfl | rfl <;> rfl
    simp only [segments, text, List.map_append, List.map_cons, separator, List.splitOn_append_cons_self]
    exact List.subset_append_left _ _

theorem parent_mem_segments {path : String} (climbs : ".." ∈ Path.pieces path) : ['.', '.'] ∈ segments path := by
  obtain ⟨chars, member, spelled⟩ := List.mem_map.mp climbs
  have parent : chars = ['.', '.'] := by simpa using congrArg String.toList spelled
  subst parent
  have cut : segments path = (path.toList.splitOn '/').flatMap fun piece => (Key.unify piece).splitOn '/' :=
    Key.splitOn_unify path.toList
  rw [cut, List.mem_flatMap]
  exact ⟨['.', '.'], member, by decide⟩

/-- From any directory with a root, an accepted path leads nowhere but to the directory itself and below, at each of its
separators and at its end: as a key, where back slashes separate, and for a file system, where they do not. -/
theorem check_stays_inside {path : String} (accepted : check path = .ok ()) {directory : String}
    (rooted : Key.HasRoot directory) (normal : Key.IsNormal directory) :
    (∀ front, IsStretch isSlash front path → Key.AtOrAbove directory (Key.join directory front)) ∧
    ∀ front, IsStretch (· == '/') front path → Path.place directory <+: Path.place (Path.join directory front) := by
  obtain ⟨-, relative, down⟩ := check_eq_ok_iff.mp accepted
  have frontDown : ∀ front, IsStretch isSlash front path → ['.', '.'] ∉ segments front := fun front stretch climbs =>
    down (segments_subset_of_isStretch stretch climbs)
  constructor
  · intro front stretch
    exact Key.atOrAbove_join rooted normal (frontDown front stretch)
  · intro front stretch
    have inhabited : directory ≠ "" := by
      rintro rfl
      exact absurd rooted (by decide)
    have frontRelative : Path.isAbsolute front = false := by
      rw [← Bool.not_eq_true, Path.isAbsolute_iff]
      rintro ⟨more, chars⟩
      obtain ⟨rest, text, -⟩ := stretch
      exact relative (.inl (by simp [text, chars]))
    refine Path.isPrefix_place_join inhabited frontRelative fun climbs => ?_
    exact frontDown front stretch.either (parent_mem_segments climbs)

/-- Dots beside names, empty pieces, a colon and both separators, from a directory on a drive and from `/`. -/
theorem check_stays_inside_mixedSlashes :
    check ".\\a..//..b\\c:" = .ok () ∧ Key.join "C:/w" ".\\a..//..b\\c:" = "C:/w/a../..b/c:" ∧
      Key.AtOrAbove "C:/w" (Key.join "C:/w" ".\\a..//..b\\c:") ∧
      Key.AtOrAbove "C:/w" (Key.join "C:/w" ".\\a..") ∧
      Path.place "/" <+: Path.place (Path.join "/" ".\\a..") := by
  have accepted : check ".\\a..//..b\\c:" = .ok () := by decide +kernel
  obtain ⟨keys, -⟩ := check_stays_inside accepted (by decide : Key.HasRoot "C:/w") (by decide)
  obtain ⟨-, places⟩ := check_stays_inside accepted (by decide : Key.HasRoot "/") (by decide)
  have stretch : IsStretch (· == '/') ".\\a.." ".\\a..//..b\\c:" := ⟨"//..b\\c:".toList, by decide, rfl⟩
  exact ⟨accepted, by decide +kernel, keys _ (.refl _ _), keys _ stretch.either, places _ stretch⟩

end CommandLine.OutputPath

end Orphans
