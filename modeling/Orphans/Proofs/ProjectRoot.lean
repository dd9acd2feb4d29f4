import Orphans.ProjectRoot
import Orphans.Proofs.Path.Climbing

/-! The project root of a path.

The search for a project root goes through the parents of a text, and the parent of a text that ends in `..` is
no directory above it. What is found has the first steps of the path. Whether it lies at or above the path
depends on the steps behind: they must not climb out of it. A way that has climbed out comes back only through
the same directory, and there the search would have stopped before.
-/

set_option autoImplicit false

namespace Orphans.ProjectRoot

open FileSystem (Leads isTooLong maxLinks)
open Orphans.Path (steps place)

/-! ### Going up -/

structure IsFront (front path : String) (behind : List String) : Prop where
  absolute : Path.isAbsolute front = true
  text : front.toList <+: path.toList
  steps_eq : steps path = steps front ++ behind

namespace IsFront

theorem refl {path : String} (absolute : Path.isAbsolute path = true) : IsFront path path [] :=
  ⟨absolute, List.prefix_rfl, (List.append_nil _).symm⟩

theorem trans {first second third : String} {more behind : List String} (front : IsFront first second more)
    (longer : IsFront second third behind) : IsFront first third (more ++ behind) :=
  ⟨front.absolute, front.text.trans longer.text, by rw [longer.steps_eq, front.steps_eq, List.append_assoc]⟩

theorem of_parent? {path above : String} (absolute : Path.isAbsolute path = true)
    (parent : Path.parent? path = some above) : ∃ last, IsFront above path [last] := by
  rcases Path.parent?_of_isAbsolute absolute with ⟨none, -⟩ | ⟨other, last, found, rooted, text, extended⟩
  · rw [none] at parent
    cases parent
  · obtain rfl := Option.some.inj (found.symm.trans parent)
    exact ⟨last, rooted, text, extended⟩

end IsFront

/-- A search goes up from a path to the nearest directory, and passes every text on the way. The steps are those
that it leaves behind. -/
inductive Ascent (passed : String → Prop) (nearest : String) : String → List String → Prop where
  | here (absolute : Path.isAbsolute nearest = true) : Ascent passed nearest nearest []
  | up {path above last : String} {behind : List String} (parent : IsFront above path [last])
    (absolute : Path.isAbsolute path = true) (passes : passed path) (onwards : Ascent passed nearest above behind) :
    Ascent passed nearest path (behind ++ [last])

namespace Ascent
variable {passed : String → Prop} {nearest path : String} {behind : List String}

theorem isFront (ascent : Ascent passed nearest path behind) : IsFront nearest path behind := by
  induction ascent with
  | here absolute => exact .refl absolute
  | up parent _ _ _ ih => exact ih.trans parent

theorem between (ascent : Ascent passed nearest path behind) {front back : List String} (cut : behind = front ++ back)
    (some : front ≠ []) : ∃ other, IsFront other path back ∧ passed other := by
  induction ascent generalizing back with
  | here absolute => exact absurd (List.append_eq_nil_iff.mp cut.symm).1 some
  | @up path above last behind parent absolute passes onwards ih =>
    -- The text that has all the steps is the path itself, and the others were met further up.
    rcases List.eq_nil_or_concat back with rfl | ⟨more, final, rfl⟩
    · exact ⟨path, .refl absolute, passes⟩
    · rw [List.concat_eq_append, ← List.append_assoc] at cut
      obtain ⟨shorter, same⟩ := List.append_inj' cut rfl
      obtain ⟨other, reached, passes⟩ := ih shorter
      rw [List.concat_eq_append, ← same]
      exact ⟨other, reached.trans parent, passes⟩

end Ascent

theorem ascent_of_find? {marked : String → Bool} {passed : String → Prop}
    (passes : ∀ path, marked path = false → passed path) {count : Nat} {path nearest : String}
    (absolute : Path.isAbsolute path = true) (found : (chain count path).find? marked = some nearest) :
    marked nearest = true ∧ ∃ behind, Ascent passed nearest path behind := by
  induction count generalizing path with
  | zero =>
    obtain ⟨isMarked, rfl⟩ : marked path = true ∧ path = nearest := by
      simpa [chain, List.find?_cons_eq_some] using found
    exact ⟨isMarked, [], .here absolute⟩
  | succ count ih =>
    rw [chain, List.find?_cons] at found
    cases isMarked : marked path with
    | true =>
      obtain rfl : path = nearest := by simpa [isMarked] using found
      exact ⟨isMarked, [], .here absolute⟩
    | false =>
      rw [isMarked] at found
      cases above : Path.parent? path with
      | none => simp [above] at found
      | some parent =>
        -- The parent is a front of the path, and one step stays behind.
        obtain ⟨last, front⟩ := IsFront.of_parent? absolute above
        rw [above] at found
        obtain ⟨marks, behind, onwards⟩ := ih front.absolute found
        exact ⟨marks, behind ++ [last], .up front absolute (passes path isMarked) onwards⟩

theorem ascent_of_search {fileSystem : FileSystem} {start nearest : String} (absolute : Path.isAbsolute start = true)
    (found : (ancestors (first fileSystem start)).find? (isMarked fileSystem) = some nearest) :
    isMarked fileSystem nearest = true ∧ ∃ behind,
      Ascent (fun path => isMarked fileSystem path = false ∨ fileSystem.isFile path = true) nearest start behind := by
  have passes : ∀ path, isMarked fileSystem path = false →
      isMarked fileSystem path = false ∨ fileSystem.isFile path = true := fun _ => .inl
  unfold first at found
  split at found
  · next isFile =>
    cases above : Path.parent? start with
    | none =>
      rw [above] at found
      exact ascent_of_find? passes absolute found
    | some parent =>
      obtain ⟨last, front⟩ := IsFront.of_parent? absolute above
      rw [above] at found
      obtain ⟨marks, behind, onwards⟩ := ascent_of_find? passes front.absolute found
      exact ⟨marks, behind ++ [last], .up front absolute (.inr isFile) onwards⟩
  · exact ascent_of_find? passes absolute found

/-! ### What is found -/

theorem isName_of_mem_markers {marker : String} (member : marker ∈ markers) : Node.isName marker = true := by
  have all : ∀ marker ∈ markers, Node.isName marker = true := by decide
  exact all marker member

theorem isTooLong_join {front path : String} (text : front.toList <+: path.toList) {marker : String}
    (short : isTooLong (path ++ "/" ++ marker) = false) : isTooLong (Path.join front marker) = false := by
  obtain ⟨rest, chars⟩ := text
  obtain rfl : path = front ++ .ofList rest := by
    apply String.toList_injective
    simp [← chars]
  have shorter : (Path.join front marker).utf8ByteSize ≤ (front ++ .ofList rest ++ "/" ++ marker).utf8ByteSize := by
    unfold Path.join
    split
    · simp only [String.utf8ByteSize_append]
      omega
    · split
      · simp only [String.utf8ByteSize_append]
        omega
      · simp only [String.utf8ByteSize_append]
        omega
  simp only [isTooLong, decide_eq_false_iff_not, Nat.not_lt] at short ⊢
  omega

section Linkless
variable {fileSystem : FileSystem} (linkless : fileSystem.root.isLinkless = true)
include linkless

theorem exists_marker {directory : String} (absolute : Path.isAbsolute directory = true)
    (marked : isMarked fileSystem directory = true) :
    ∃ marker ∈ markers, ∃ text, fileSystem.root.get? (place directory ++ [marker]) = some (.file text) := by
  obtain ⟨marker, member, isFile⟩ := List.any_eq_true.mp marked
  obtain ⟨text, found⟩ := FileSystem.isFile_iff.mp isFile
  have inside := FileSystem.get?_place_of_find linkless (Path.isAbsolute_join absolute marker) found
  rw [Path.place_join_name absolute (isName_of_mem_markers member)] at inside
  exact ⟨marker, member, text, inside⟩

variable (formed : fileSystem.root.WellFormed)
include formed

theorem stops_at_place {nearest path other : String} {back : List String} (absolute : Path.isAbsolute nearest = true)
    (marked : isMarked fileSystem nearest = true)
    (walks : Leads fileSystem.root .follow maxLinks [] (steps path) (place path))
    (short : ∀ marker ∈ markers, isTooLong (path ++ "/" ++ marker) = false)
    (front : IsFront other path back) (same : place other = place nearest) :
    ¬ (isMarked fileSystem other = false ∨ fileSystem.isFile other = true) := by
  obtain ⟨marker, member, text, inside⟩ := exists_marker linkless absolute marked
  rw [← same] at inside
  rintro (unmarked | isFile)
  · rw [front.steps_eq] at walks
    have found := FileSystem.find_join_name linkless formed front.absolute (isName_of_mem_markers member)
      (walks.cut linkless) (isTooLong_join front.text (short marker member)) inside
    rw [isMarked, List.any_eq_false] at unmarked
    exact unmarked marker member (FileSystem.isFile_iff.mpr ⟨text, found⟩)
  · -- A marker lies in a directory, and this is a file.
    obtain ⟨entries, directory, -⟩ := Node.directory_of_get?_concat inside
    obtain ⟨text, found⟩ := FileSystem.isFile_iff.mp isFile
    have here := FileSystem.get?_place_of_find linkless front.absolute found
    cases here.symm.trans directory

theorem staysInside_of_isPrefix {nearest path : String} {behind : List String}
    (marked : isMarked fileSystem nearest = true)
    (ascent : Ascent (fun path => isMarked fileSystem path = false ∨ fileSystem.isFile path = true) nearest path behind)
    (walks : Leads fileSystem.root .follow maxLinks [] (steps path) (place path)) (plain : '\\' ∉ path.toList)
    (short : ∀ marker ∈ markers, isTooLong (path ++ "/" ++ marker) = false)
    (above : Key.segments nearest.toList <+: Key.segments path.toList) (below : Key.segments nearest.toList ≠ []) :
    Key.StaysInside behind := by
  have front := ascent.isFront
  have nearestPlain : '\\' ∉ nearest.toList := fun member => plain (front.text.subset member)
  rw [Path.segments_eq_place nearestPlain] at above below
  rw [Path.segments_eq_place plain] at above
  have inside : place nearest <+: behind.foldl Path.move (place nearest ++ []) := by
    rw [List.append_nil, place, ← List.foldl_append, ← front.steps_eq]
    exact (List.prefix_map_iff_of_injective fun _ _ => String.toList_injective).mp above
  by_contra climbs
  have stepsPlain : ∀ step ∈ behind, Path.IsPlain step := fun step member =>
    Path.isPlain_of_mem_steps plain (front.steps_eq ▸ List.mem_append_right _ member)
  obtain ⟨some, ⟨back, rfl⟩, inhabited, returns⟩ := Path.exists_return_of_climbs (by simpa using below) stepsPlain
    (by simpa [Key.StaysInside] using climbs) inside
  -- Where the way returns, the search has passed a text that leads to the directory found.
  obtain ⟨other, reached, passes⟩ := ascent.between rfl inhabited
  have sameSteps : steps other = steps nearest ++ some := by
    have both := reached.steps_eq.symm.trans front.steps_eq
    rw [← List.append_assoc] at both
    exact List.append_cancel_right both
  have same : place other = place nearest := by
    rw [place, sameSteps, List.foldl_append]
    rwa [List.append_nil] at returns
  exact stops_at_place linkless formed front.absolute marked walks short reached same passes

end Linkless

/-- The root found for an existing path in a tree without links has the first steps of the path. It lies at or
above the path if the steps behind it never climb out of it. In a path without back slashes, behind which a marker
is not too long, it otherwise lies above the path only if it is `/`. -/
theorem find_atOrAbove {fileSystem : FileSystem} (formed : fileSystem.root.WellFormed)
    (linkless : fileSystem.root.isLinkless = true) {path start : String} (known : fileSystem.contains path = true)
    (made : fileSystem.absolute? path = some start) :
    ∃ behind, steps start = steps (find fileSystem path) ++ behind ∧
      (Key.StaysInside behind →
        Key.AtOrAbove (Key.normalize (find fileSystem path)) (Key.normalize start)) ∧
      ('\\' ∉ start.toList → (∀ marker ∈ markers, isTooLong (start ++ "/" ++ marker) = false) →
        (Key.AtOrAbove (Key.normalize (find fileSystem path)) (Key.normalize start) ↔
          Key.StaysInside behind ∨ Key.normalize (find fileSystem path) = "/")) := by
  have absolute := FileSystem.isAbsolute_absolute? made
  have walks := FileSystem.leads_steps_of_contains linkless formed known made
  have finds : find fileSystem path =
      ((ancestors (first fileSystem start)).find? (isMarked fileSystem)).getD start := by
    rw [find, made]
    rfl
  rw [finds]
  cases search : (ancestors (first fileSystem start)).find? (isMarked fileSystem) with
  | none =>
    have stays : Key.StaysInside [] := rfl
    exact ⟨[], (List.append_nil _).symm, fun _ => List.prefix_rfl, fun _ _ => iff_of_true List.prefix_rfl (.inl stays)⟩
  | some nearest =>
    obtain ⟨marked, behind, ascent⟩ := ascent_of_search absolute search
    have front := ascent.isFront
    -- Behind the root the path is read on from there, and steps that never climb out of it end below.
    have inside : Key.StaysInside behind → Key.segments nearest.toList <+: Key.segments start.toList := by
      intro stays
      rw [Key.segments_eq_advanceAll start, front.steps_eq, Key.advanceAll_append, ← Key.segments_eq_advanceAll]
      exact Key.isPrefix_advanceAll stays _
    rw [Option.getD_some, Key.AtOrAbove, Key.segments_normalize front.absolute, Key.segments_normalize absolute]
    refine ⟨behind, front.steps_eq, inside, fun plain short => ?_⟩
    rw [Key.normalize_eq_slash_iff front.absolute]
    constructor
    · intro above
      refine or_iff_not_imp_right.mpr fun below => ?_
      exact staysInside_of_isPrefix linkless formed marked ascent walks plain short above below
    · rintro (stays | top)
      · exact inside stays
      · rw [top]
        exact List.nil_prefix

/-- A project, and a package in it that is a project of its own. -/
def nestedRoots : FileSystem where
  root := .directory [("w", .directory [
    ("a", .directory [
      ("b", .directory [("package.json", .file (some "\x7b\x7d"))]),
      ("c", .directory [])]),
    ("package.json", .file (some "\x7b\x7d"))])]
  workingDirectory := ["w"]

/-- Climbing out of an unmarked directory does not leave the project. -/
theorem find_atOrAbove_nestedRoots :
    nestedRoots.contains "a/c/.." = true ∧ nestedRoots.absolute? "a/c/.." = some "/w/a/c/.." ∧
      Key.AtOrAbove (Key.normalize (find nestedRoots "a/c/..")) (Key.normalize "/w/a/c/..") := by
  have known : nestedRoots.contains "a/c/.." = true := by decide +kernel
  have made : nestedRoots.absolute? "a/c/.." = some "/w/a/c/.." := by decide +kernel
  have found : find nestedRoots "a/c/.." = "/w" := by decide +kernel
  obtain ⟨behind, parts, -, exactly⟩ := find_atOrAbove (by decide) (by decide) known made
  rw [found] at parts
  have rest : behind = ["a", "c", ".."] := List.append_cancel_left (parts.symm.trans (by decide))
  refine ⟨known, made, (exactly (by decide) (by decide)).mpr (.inl ?_)⟩
  rw [rest]
  decide

/-- The text of a path goes up to the package that the path has left. -/
theorem find_misses_enclosingProject :
    nestedRoots.contains "a/b/.." = true ∧ nestedRoots.absolute? "a/b/.." = some "/w/a/b/.." ∧
      find nestedRoots "a/b/.." = "/w/a/b" ∧ Key.normalize "/w/a/b/.." = "/w/a" ∧
      ¬ Key.AtOrAbove (Key.normalize (find nestedRoots "a/b/..")) (Key.normalize "/w/a/b/..") := by
  decide +kernel

end Orphans.ProjectRoot
