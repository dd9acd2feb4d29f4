import Mathlib.Data.List.Basic
import Orphans.Key
import Orphans.Path

/-! Keys of absolute paths.

Below a root a key is determined by its segments: each is not empty, is neither `.` nor `..`, and holds no
separator of either kind. Normalisation of an absolute path gives such segments, and the view of a key from
a root loses nothing, whether the key lies below the root or elsewhere.
-/

set_option autoImplicit false

namespace Orphans.Key

/-! ### Segments -/

structure IsSegment (segment : List Char) : Prop where
  ne_nil : segment ≠ []
  ne_current : segment ≠ ['.']
  ne_parent : segment ≠ ['.', '.']
  no_slash : '/' ∉ segment
  no_backslash : '\\' ∉ segment

theorem not_mem_unify (path : List Char) : '\\' ∉ unify path := by
  intro member
  obtain ⟨c, -, same⟩ := List.mem_map.mp member
  split at same
  · cases same
  · next different => exact different same

theorem unify_of_not_mem {path : List Char} (plain : '\\' ∉ path) : unify path = path := by
  unfold unify
  conv_rhs => rw [← List.map_id path]
  refine List.map_congr_left fun c member => if_neg ?_
  rintro rfl
  exact plain member

@[simp] theorem unify_append (front back : List Char) : unify (front ++ back) = unify front ++ unify back :=
  List.map_append

@[simp] theorem unify_slash (path : List Char) : unify ('/' :: path) = '/' :: unify path := rfl

theorem mem_of_mem_splitOn {separator : Char} {text piece : List Char} (found : piece ∈ text.splitOn separator) :
    ∀ c ∈ piece, c ∈ text ∧ c ≠ separator := by
  induction text generalizing piece with
  | nil =>
    rw [List.splitOn_nil, List.mem_singleton] at found
    subst found
    simp
  | cons first rest ih =>
    rw [List.splitOn_cons_eq_if_modifyHead] at found
    split at found
    · rcases List.mem_cons.mp found with rfl | inRest
      · simp
      · exact fun c member => ⟨List.mem_cons_of_mem _ (ih inRest c member).1, (ih inRest c member).2⟩
    · -- The first character joins the first piece of the rest.
      next different =>
      have apart : first ≠ separator := by simpa using different
      cases pieces : rest.splitOn separator with
      | nil => exact absurd pieces (List.splitOn_ne_nil _ _)
      | cons head tail =>
        rw [pieces] at ih found
        rcases List.mem_cons.mp found with rfl | inTail
        · intro c member
          rcases List.mem_cons.mp member with rfl | inHead
          · exact ⟨List.mem_cons_self, apart⟩
          · have inherited := ih List.mem_cons_self c inHead
            exact ⟨List.mem_cons_of_mem _ inherited.1, inherited.2⟩
        · have inherited := ih (List.mem_cons_of_mem _ inTail)
          exact fun c member => ⟨List.mem_cons_of_mem _ (inherited c member).1, (inherited c member).2⟩

theorem plain_of_mem_splitOn {text piece : List Char} (noBackslash : '\\' ∉ text) (found : piece ∈ text.splitOn '/') :
    '/' ∉ piece ∧ '\\' ∉ piece := by
  have chars := mem_of_mem_splitOn found
  exact ⟨fun slash => (chars _ slash).2 rfl, fun backslash => noBackslash (chars _ backslash).1⟩

/-! ### Folding below a root -/

theorem pushSegment_of_isSegment (rooted : Bool) (kept : List (List Char)) {segment : List Char}
    (named : IsSegment segment) : pushSegment rooted kept segment = segment :: kept := by
  simp [pushSegment, named.ne_nil, named.ne_current, named.ne_parent]

/-- Below a root, a `..` never stays, so the kept segments all name something. -/
theorem isSegment_pushSegment {kept : List (List Char)} (keptNamed : ∀ segment ∈ kept, IsSegment segment)
    {segment : List Char} (noSlash : '/' ∉ segment) (noBackslash : '\\' ∉ segment) :
    ∀ other ∈ pushSegment true kept segment, IsSegment other := by
  unfold pushSegment
  split
  · exact keptNamed
  · next notIdle =>
    obtain ⟨notEmpty, notCurrent⟩ := not_or.mp notIdle
    split
    · -- A `..` takes the last segment away; at the root there is none to take.
      cases kept with
      | nil => simp
      | cons last rest =>
        have lastNamed := (keptNamed last List.mem_cons_self).ne_parent
        simp only [ne_eq, lastNamed, not_false_eq_true, if_true]
        exact fun other member => keptNamed other (List.mem_cons_of_mem _ member)
    · next notParent =>
      intro other member
      rcases List.mem_cons.mp member with rfl | inKept
      · exact ⟨notEmpty, notCurrent, notParent, noSlash, noBackslash⟩
      · exact keptNamed other inKept

theorem isSegment_foldl_pushSegment {segments kept : List (List Char)}
    (plain : ∀ segment ∈ segments, '/' ∉ segment ∧ '\\' ∉ segment)
    (keptNamed : ∀ segment ∈ kept, IsSegment segment) :
    ∀ segment ∈ segments.foldl (pushSegment true) kept, IsSegment segment := by
  induction segments generalizing kept with
  | nil => exact keptNamed
  | cons first rest ih =>
    obtain ⟨noSlash, noBackslash⟩ := plain first List.mem_cons_self
    exact ih (fun segment member => plain segment (List.mem_cons_of_mem _ member))
      (isSegment_pushSegment keptNamed noSlash noBackslash)

theorem foldSegments_append (rooted : Bool) (front : List (List Char)) {names : List (List Char)}
    (named : ∀ segment ∈ names, IsSegment segment) :
    foldSegments rooted (front ++ names) = foldSegments rooted front ++ names := by
  have pushed : ∀ kept, names.foldl (pushSegment rooted) kept = names.reverse ++ kept := by
    induction names with
    | nil => simp
    | cons first rest ih =>
      intro kept
      rw [List.foldl_cons, pushSegment_of_isSegment rooted kept (named first List.mem_cons_self),
        ih (fun segment member => named segment (List.mem_cons_of_mem _ member))]
      simp
  rw [foldSegments, List.foldl_append, pushed, List.reverse_append, List.reverse_reverse, foldSegments]

def segments (path : List Char) : List (List Char) := foldSegments true ((unify path).splitOn '/')

theorem isSegment_of_mem_segments {path segment : List Char} (member : segment ∈ segments path) :
    IsSegment segment := by
  have plain : ∀ piece ∈ (unify path).splitOn '/', '/' ∉ piece ∧ '\\' ∉ piece := fun _ =>
    plain_of_mem_splitOn (not_mem_unify path)
  exact isSegment_foldl_pushSegment plain (by simp) segment (List.mem_reverse.mp member)

theorem segments_append_slash (front : List Char) {name : List Char} (named : IsSegment name) :
    segments (front ++ '/' :: name) = segments front ++ [name] := by
  unfold segments
  rw [unify_append, unify_slash, unify_of_not_mem named.no_backslash, List.splitOn_append_cons_self,
    List.splitOn_eq_singleton named.no_slash, foldSegments_append true _ (by simpa using named)]

theorem segments_concat_slash (front : List Char) : segments (front ++ ['/']) = segments front := by
  unfold segments foldSegments
  rw [unify_append, unify_slash, List.splitOn_append_cons_self, List.foldl_append]
  simp [unify, pushSegment]

theorem splitDrive_slash (rest : List Char) : splitDrive ('/' :: rest) = ([], '/' :: rest) := by
  unfold splitDrive
  split
  · next letter more same =>
    obtain ⟨rfl, rfl⟩ := List.cons.inj same
    rfl
  · rfl

theorem normalizeChars_of_absolute {path : List Char} (absolute : (unify path).head? = some '/') :
    normalizeChars path = '/' :: joinSegments (segments path) := by
  obtain ⟨rest, unified⟩ : ∃ rest, unify path = '/' :: rest := by
    cases shape : unify path with
    | nil => simp [shape] at absolute
    | cons first rest => exact ⟨rest, by simpa [shape] using absolute⟩
  unfold normalizeChars segments
  simp [unified, splitDrive_slash, render]

/-! ### Keys as segments -/

section Joined
variable {names others : List (List Char)}

theorem splitOn_joinSegments (named : ∀ segment ∈ names, IsSegment segment) (inhabited : names ≠ []) :
    (joinSegments names).splitOn '/' = names :=
  List.splitOn_intercalate '/' (fun segment member => (named segment member).no_slash) inhabited

theorem joinSegments_eq_nil_iff (named : ∀ segment ∈ names, IsSegment segment) :
    joinSegments names = [] ↔ names = [] := by
  constructor
  · intro empty
    by_contra inhabited
    have pieces := splitOn_joinSegments named inhabited
    rw [empty, List.splitOn_nil] at pieces
    exact (named [] (pieces ▸ List.mem_singleton_self [])).ne_nil rfl
  · rintro rfl
    rfl

theorem joinSegments_injective (named : ∀ segment ∈ names, IsSegment segment)
    (otherNamed : ∀ segment ∈ others, IsSegment segment) (same : joinSegments names = joinSegments others) :
    names = others := by
  by_cases lone : names = []
  · rw [(joinSegments_eq_nil_iff named).mpr lone] at same
    rw [lone, (joinSegments_eq_nil_iff otherNamed).mp same.symm]
  · have inhabited : others ≠ [] := by
      rintro rfl
      exact lone ((joinSegments_eq_nil_iff named).mp same)
    rw [← splitOn_joinSegments named lone, same, splitOn_joinSegments otherNamed inhabited]

theorem after_slash (named : ∀ segment ∈ names, IsSegment segment) {front rest : List Char}
    (cut : '/' :: joinSegments names = front ++ '/' :: rest) : rest.head? ≠ some '/' ∧ rest ≠ ['.'] := by
  -- The pieces of the rest are the last segments of the key.
  have pieces := congrArg (List.splitOn '/') cut
  rw [List.splitOn_append_cons_self, List.splitOn_cons_eq_if_modifyHead, if_pos (beq_self_eq_true '/')] at pieces
  obtain ⟨piece, more, frontPieces⟩ := List.exists_cons_of_ne_nil (List.splitOn_ne_nil '/' front)
  rw [frontPieces, List.cons_append] at pieces
  have tails : (joinSegments names).splitOn '/' = more ++ rest.splitOn '/' := (List.cons.inj pieces).2
  by_cases lone : names = []
  · -- The key is `/` alone, and nothing follows its separator.
    subst lone
    have alone : more ++ rest.splitOn '/' = [[]] := tails.symm
    have nothing : rest = [] := by
      rcases List.append_eq_singleton_iff.mp alone with ⟨-, single⟩ | ⟨-, empty⟩
      · have whole : ['/'].intercalate (rest.splitOn '/') = rest := List.intercalate_splitOn '/'
        rw [← whole, single]
        rfl
      · exact absurd empty (List.splitOn_ne_nil '/' rest)
    simp [nothing]
  · rw [splitOn_joinSegments named lone] at tails
    have restNamed : ∀ piece ∈ rest.splitOn '/', IsSegment piece := fun piece member =>
      named piece (tails ▸ List.mem_append_right more member)
    constructor
    · intro slash
      obtain ⟨tail, rfl⟩ := List.head?_eq_some_iff.mp slash
      exact (restNamed [] (by simp [List.splitOn_cons_eq_if_modifyHead])).ne_nil rfl
    · rintro rfl
      exact (restNamed ['.'] (by simp [List.splitOn_cons_eq_if_modifyHead])).ne_current rfl

end Joined

/-! ### Views from a root -/

/-- The three ways in which a key is seen from a root: below it, at it, and elsewhere. -/
theorem relativeChars_cases (root key : List Char) :
    (∃ rest, key = Text.dropEndWhile (· == '/') root ++ '/' :: rest ∧ relativeChars root key = rest) ∨
    (key = Text.dropEndWhile (· == '/') root ∧ relativeChars root key = ['.']) ∨
    relativeChars root key = key := by
  unfold relativeChars
  split
  · next rest found => exact .inl ⟨rest, (List.isPrefixOf?_eq_some_iff_append_eq.mp found).symm, rfl⟩
  · next found =>
    have same := List.isPrefixOf?_eq_some_iff_append_eq.mp found
    exact .inr (.inl ⟨by rw [← same, List.append_nil], rfl⟩)
  · exact .inr (.inr rfl)

/-- A key below a root: a separator, and segments between separators. -/
def IsRooted (key : String) : Prop :=
  ∃ names : List (List Char), (∀ segment ∈ names, IsSegment segment) ∧ key.toList = '/' :: joinSegments names

theorem toList_normalize_of_absolute {path : String} (absolute : Path.isAbsolute path = true) :
    (normalize path).toList = '/' :: joinSegments (segments path.toList) := by
  have slash : path.toList.head? = some '/' := by simpa [Path.isAbsolute] using absolute
  obtain ⟨rest, chars⟩ := List.head?_eq_some_iff.mp slash
  rw [toList_normalize]
  exact normalizeChars_of_absolute (by rw [chars]; rfl)

theorem isRooted_normalize {path : String} (absolute : Path.isAbsolute path = true) :
    IsRooted (normalize path) :=
  ⟨segments path.toList, fun _ => isSegment_of_mem_segments, toList_normalize_of_absolute absolute⟩

theorem segments_eq_of_normalize_eq {path other : String} (absolute : Path.isAbsolute path = true)
    (otherAbsolute : Path.isAbsolute other = true) (same : normalize path = normalize other) :
    segments path.toList = segments other.toList := by
  have chars := congrArg String.toList same
  rw [toList_normalize_of_absolute absolute, toList_normalize_of_absolute otherAbsolute] at chars
  exact joinSegments_injective (fun _ => isSegment_of_mem_segments) (fun _ => isSegment_of_mem_segments)
    (List.cons.inj chars).2

def ofView (root view : List Char) : List Char :=
  if view = ['.'] then Text.dropEndWhile (· == '/') root
  else if view.head? = some '/' then view
  else Text.dropEndWhile (· == '/') root ++ '/' :: view

theorem ofView_relativeChars (root : List Char) {names : List (List Char)}
    (named : ∀ segment ∈ names, IsSegment segment) :
    ofView root (relativeChars root ('/' :: joinSegments names)) = '/' :: joinSegments names := by
  unfold ofView
  rcases relativeChars_cases root ('/' :: joinSegments names) with ⟨rest, cut, view⟩ | ⟨whole, view⟩ | view
  · obtain ⟨noSlash, notDot⟩ := after_slash named cut
    rw [view, if_neg notDot, if_neg noSlash, cut]
  · rw [view, if_pos rfl, whole]
  · -- A key that is seen as it is begins with a separator, unlike the other views.
    rw [view, if_neg (by simp), if_pos List.head?_cons]

theorem relativeTo_injective (root : String) {key other : String} (rooted : IsRooted key)
    (otherRooted : IsRooted other) (same : relativeTo root key = relativeTo root other) : key = other := by
  obtain ⟨names, named, chars⟩ := rooted
  obtain ⟨otherNames, otherNamed, otherChars⟩ := otherRooted
  apply String.toList_injective
  have seen : relativeChars root.toList key.toList = relativeChars root.toList other.toList := by
    rw [← toList_relativeTo, same, toList_relativeTo]
  rw [chars, otherChars] at seen ⊢
  rw [← ofView_relativeChars root.toList named, seen, ofView_relativeChars root.toList otherNamed]

end Orphans.Key
