import Orphans.Proofs.Key.Trail

/-! Reading on from a place.

A path that is read from a place goes up and down by its pieces, and where it leads is a fold over them that starts from
the segments of the place. Joining a path to an absolute one is that fold, so it may be done in any number of steps. As
long as the path does not climb above a directory, what lies above the directory has no say in where it leads.
-/

set_option autoImplicit false

namespace Orphans.Key

/-! ### Reading on from a place -/

/-- The segments that a path leads to, read from the place with the segments `names`. -/
def advance (names : List (List Char)) (path : List Char) : List (List Char) :=
  (((unify path).splitOn '/').foldl (pushSegment true) names.reverse).reverse

theorem segments_append (front path : List Char) : segments (front ++ '/' :: path) = advance (segments front) path := by
  simp [segments, foldSegments, advance, List.splitOn_append_cons_self]

theorem advance_append (names : List (List Char)) (front back : List Char) :
    advance names (front ++ '/' :: back) = advance (advance names front) back := by
  simp [advance, List.splitOn_append_cons_self]

theorem advance_nil (names : List (List Char)) : advance names [] = names := by
  simp [advance, unify, pushSegment]

theorem advance_current (names : List (List Char)) : advance names ['.'] = names := by
  simp [advance, unify, pushSegment, List.splitOn_eq_singleton]

theorem advance_parent {names : List (List Char)} (named : ∀ name ∈ names, IsSegment name) :
    advance names ['.', '.'] = names.dropLast := by
  have piece : ['.', '.'].splitOn '/' = [['.', '.']] := List.splitOn_eq_singleton (by decide)
  rcases List.eq_nil_or_concat names with rfl | ⟨front, last, rfl⟩
  · simp [advance, unify, piece, pushSegment]
  · have lastNamed := (named last (by simp)).ne_parent
    simp [advance, unify, piece, pushSegment, lastNamed]

theorem isSegment_of_mem_advance {names : List (List Char)} (named : ∀ name ∈ names, IsSegment name)
    {path name : List Char} (member : name ∈ advance names path) : IsSegment name := by
  have plain : ∀ piece ∈ (unify path).splitOn '/', '/' ∉ piece ∧ '\\' ∉ piece := fun _ =>
    plain_of_mem_splitOn (not_mem_unify path)
  exact isSegment_foldl_pushSegment plain (by simpa using named) name (List.mem_reverse.mp member)

/-! ### Names behind a place -/

section Written
variable {names : List (List Char)} (named : ∀ name ∈ names, IsSegment name)
include named

theorem segments_append_joinSegments (front : List Char) :
    segments (front ++ '/' :: joinSegments names) = segments front ++ names := by
  by_cases empty : names = []
  · subst empty
    rw [List.append_nil]
    exact segments_concat_slash front
  · have plain := not_mem_joinSegments (by decide) fun name member => (named name member).no_backslash
    unfold segments
    rw [unify_append, unify_slash, unify_of_not_mem plain, List.splitOn_append_cons_self,
      splitOn_joinSegments named empty, foldSegments_append true _ named]

theorem segments_rooted : segments ('/' :: joinSegments names) = names :=
  segments_append_joinSegments named []

theorem advance_joinSegments {above : List (List Char)} (aboveNamed : ∀ name ∈ above, IsSegment name) :
    advance above (joinSegments names) = above ++ names := by
  have whole := segments_append_joinSegments named ('/' :: joinSegments above)
  rwa [segments_append, segments_rooted aboveNamed] at whole

end Written

/-! ### Paths that stay below a place -/

theorem isSuffix_pushSegment (rooted : Bool) (kept : List (List Char)) {piece : List Char} (down : piece ≠ ['.', '.']) :
    kept <:+ pushSegment rooted kept piece := by
  by_cases idle : piece = [] ∨ piece = ['.']
  · simp [pushSegment, idle]
  · simp [pushSegment, idle, down]

theorem isSuffix_foldl_pushSegment (rooted : Bool) {pieces : List (List Char)} (down : ['.', '.'] ∉ pieces)
    (kept : List (List Char)) : kept <:+ pieces.foldl (pushSegment rooted) kept := by
  induction pieces generalizing kept with
  | nil => exact List.suffix_rfl
  | cons piece rest ih =>
    obtain ⟨here, later⟩ := not_or.mp (mt List.mem_cons.mpr down)
    exact (isSuffix_pushSegment rooted kept (Ne.symm here)).trans (ih later _)

theorem isPrefix_advance {path : List Char} (down : ['.', '.'] ∉ (unify path).splitOn '/') (names : List (List Char)) :
    names <+: advance names path := by
  rw [advance, ← List.reverse_suffix, List.reverse_reverse]
  exact isSuffix_foldl_pushSegment true down names.reverse

/-- How deep below a place a piece leads that is read so deep below it, unless it climbs above the place. -/
def depthAfter? (depth : Nat) (piece : List Char) : Option Nat :=
  if piece = [] ∨ piece = ['.'] then some depth
  else if piece = ['.', '.'] then if depth = 0 then none else some (depth - 1)
  else some (depth + 1)

def depthBelow? (depth : Nat) (path : List Char) : Option Nat :=
  ((unify path).splitOn '/').foldlM depthAfter? depth

theorem depthBelow?_append (depth : Nat) (front back : List Char) :
    depthBelow? depth (front ++ '/' :: back) = (depthBelow? depth front).bind (depthBelow? · back) := by
  simp only [depthBelow?, unify_append, unify_slash, List.splitOn_append_cons_self, List.foldlM_append]
  rfl

section Below
variable {kept : List (List Char)} (named : ∀ segment ∈ kept, segment ≠ ['.', '.']) {depth : Nat}
include named

/-- A piece that does not climb above the kept segments leaves alone what lies above them. -/
theorem pushSegment_below {piece : List Char} (stays : depthAfter? kept.length piece = some depth) :
    (∀ segment ∈ pushSegment true kept piece, segment ≠ ['.', '.']) ∧
    (pushSegment true kept piece).length = depth ∧
    ∀ above, pushSegment true (kept ++ above) piece = pushSegment true kept piece ++ above := by
  unfold depthAfter? at stays
  split at stays
  · next idle =>
    obtain rfl := Option.some.inj stays
    simpa [pushSegment, idle] using named
  · next busy =>
    split at stays
    · next parent =>
      cases kept with
      | nil => simp at stays
      | cons last others =>
        have lastNamed := named last List.mem_cons_self
        obtain rfl : others.length = depth := by simpa using stays
        have up : ∀ segments, pushSegment true (last :: segments) piece = segments := by
          simp [pushSegment, parent, lastNamed]
        simpa [up] using fun segment member => named segment (List.mem_cons_of_mem _ member)
    · next down =>
      obtain rfl := Option.some.inj stays
      simpa [pushSegment, busy, down] using named

theorem foldl_pushSegment_below {pieces : List (List Char)}
    (stays : pieces.foldlM depthAfter? kept.length = some depth) :
    (pieces.foldl (pushSegment true) kept).length = depth ∧
    ∀ above, pieces.foldl (pushSegment true) (kept ++ above) = pieces.foldl (pushSegment true) kept ++ above := by
  induction pieces generalizing kept with
  | nil => simpa using stays
  | cons piece rest ih =>
    rw [List.foldlM_cons] at stays
    obtain ⟨next, first, onwards⟩ := Option.bind_eq_some_iff.mp stays
    obtain ⟨nextNamed, rfl, alone⟩ := pushSegment_below named first
    simpa [alone] using ih nextNamed onwards

end Below

theorem advance_below {names : List (List Char)} (named : ∀ name ∈ names, IsSegment name) {path : List Char}
    {depth : Nat} (stays : depthBelow? names.length path = some depth) :
    (advance names path).length = depth ∧ ∀ above, advance (above ++ names) path = above ++ advance names path := by
  have keptNamed : ∀ segment ∈ names.reverse, segment ≠ ['.', '.'] := fun segment member =>
    (named segment (List.mem_reverse.mp member)).ne_parent
  rw [← List.length_reverse] at stays
  obtain ⟨length, alone⟩ := foldl_pushSegment_below keptNamed stays
  simpa [advance, alone] using length

/-! ### Joining -/

theorem toList_join_of_absolute {base : String} (absolute : Path.isAbsolute base = true) (path : String) :
    (Key.join base path).toList = '/' :: joinSegments (advance (segments base.toList) path.toList) := by
  have slash : ∀ rest, (unify (base.toList ++ rest)).head? = some '/' := by
    intro rest
    obtain ⟨more, chars⟩ := Path.isAbsolute_iff.mp absolute
    rw [chars]
    rfl
  rw [Key.toList_join, joinChars]
  split
  · next empty =>
    have alone := slash []
    rw [List.append_nil] at alone
    rw [normalizeChars_of_absolute alone, empty, advance_nil]
  · rw [normalizeChars_of_absolute (slash _), segments_append]

theorem isRooted_join {base : String} (absolute : Path.isAbsolute base = true) (path : String) :
    IsRooted (join base path) :=
  ⟨_, fun _ => isSegment_of_mem_advance fun _ => isSegment_of_mem_segments, toList_join_of_absolute absolute path⟩

theorem join_empty (base : String) : join base "" = normalize base := rfl

theorem segments_join {base : String} (absolute : Path.isAbsolute base = true) (path : String) :
    segments (join base path).toList = advance (segments base.toList) path.toList := by
  rw [toList_join_of_absolute absolute]
  exact segments_rooted fun _ => isSegment_of_mem_advance fun _ => isSegment_of_mem_segments

theorem IsRooted.isAbsolute {key : String} (rooted : IsRooted key) : Path.isAbsolute key = true := by
  obtain ⟨names, -, chars⟩ := rooted
  exact Path.isAbsolute_iff.mpr ⟨_, chars⟩

theorem IsRooted.isNormal {key : String} (rooted : IsRooted key) : IsNormal key := by
  have absolute := rooted.isAbsolute
  obtain ⟨names, named, chars⟩ := rooted
  apply String.toList_injective
  rw [toList_normalize_of_absolute absolute, chars, segments_rooted named]

/-- A key is determined by its segments, so two paths have the same key if they lead to the same place. -/
theorem IsRooted.ext {key other : String} (rooted : IsRooted key) (otherRooted : IsRooted other)
    (same : segments key.toList = segments other.toList) : key = other := by
  obtain ⟨names, named, chars⟩ := rooted
  obtain ⟨otherNames, otherNamed, otherChars⟩ := otherRooted
  rw [chars, segments_rooted named, otherChars, segments_rooted otherNamed] at same
  apply String.toList_injective
  rw [chars, otherChars, same]

section Absolute
variable {base : String} (absolute : Path.isAbsolute base = true)
include absolute

theorem join_join (front back : String) : join (join base front) back = join base (front ++ "/" ++ back) := by
  have first := isRooted_join absolute front
  refine (isRooted_join first.isAbsolute back).ext (isRooted_join absolute _) ?_
  rw [segments_join first.isAbsolute, segments_join absolute, segments_join absolute, ← advance_append]
  simp

theorem join_current (path : String) : join base ("./" ++ path) = join base path := by
  have chars : ("./" ++ path).toList = ['.'] ++ '/' :: path.toList := by simp
  refine (isRooted_join absolute _).ext (isRooted_join absolute path) ?_
  rw [segments_join absolute, segments_join absolute, chars, advance_append, advance_current]

end Absolute

/-! ### Keys and what lies above them -/

theorem isRooted_of_isNormal {key : String} (absolute : Path.isAbsolute key = true) (normal : IsNormal key) :
    IsRooted key := by
  have rooted := isRooted_normalize absolute
  rwa [normal] at rooted

section Parent
variable {key : String} (rooted : IsRooted key)
include rooted

theorem IsRooted.parent : IsRooted (Key.parent key) := by
  obtain ⟨names, named, chars⟩ := rooted
  refine ⟨names.dropLast, fun name member => named name (List.dropLast_subset names member), ?_⟩
  rw [toList_parent, chars, parentChars_rooted fun name member => (named name member).no_slash]

theorem IsRooted.segments_parent : segments (Key.parent key).toList = (segments key.toList).dropLast := by
  obtain ⟨names, named, chars⟩ := rooted
  rw [toList_parent, chars, parentChars_rooted fun name member => (named name member).no_slash, segments_rooted named,
    segments_rooted fun name member => named name (List.dropLast_subset names member)]

end Parent

def AtOrAbove (key other : String) : Prop := segments key.toList <+: segments other.toList

instance (key other : String) : Decidable (AtOrAbove key other) :=
  inferInstanceAs (Decidable (_ <+: _))

theorem segments_normalize {path : String} (absolute : Path.isAbsolute path = true) :
    segments (normalize path).toList = segments path.toList := by
  rw [toList_normalize_of_absolute absolute, segments_rooted fun _ => isSegment_of_mem_segments]

theorem normalize_eq_slash_iff {path : String} (absolute : Path.isAbsolute path = true) :
    normalize path = "/" ↔ segments path.toList = [] := by
  constructor
  · intro same
    rw [← segments_normalize absolute, same]
    decide
  · intro none
    apply String.toList_injective
    rw [toList_normalize_of_absolute absolute, none]
    rfl

end Orphans.Key
