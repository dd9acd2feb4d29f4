import Orphans.Proofs.Key.Advance

/-! Joining, and what undoes it.

What is joined to an absolute path depends on the place of the path alone, not on how it is written or in how many steps
it is reached. Two operations look at the text of a key and not at its segments: the view from a root compares
characters, and the parent is cut off at the last separator. Both agree with joining all the same. A key below a root is
joined back from its view, and the parent is where `..` leads, from where the name leads back.
-/

set_option autoImplicit false

namespace Orphans.Key

/-! ### Joining in steps -/

theorem join_normalize {base : String} (absolute : Path.isAbsolute base = true) (path : String) :
    join (normalize base) path = join base path := by
  have normalAbsolute := (isRooted_normalize absolute).isAbsolute
  refine (isRooted_join normalAbsolute path).ext (isRooted_join absolute path) ?_
  rw [segments_join normalAbsolute, segments_normalize absolute, segments_join absolute]

/-- Below a root it makes no difference whether paths are joined one by one or all at once, nor whether the base has
been normalized before. -/
theorem join_composes {base : String} (absolute : Path.isAbsolute base = true) :
    (∀ front back, join (join base front) back = join base (front ++ "/" ++ back)) ∧
      ∀ path, join (normalize base) path = join base path :=
  ⟨join_join absolute, join_normalize absolute⟩

/-- A climb past the root in the first step, and a second path that ends in a separator. -/
theorem join_composes_pastRoot :
    Path.isAbsolute "/a//b" = true ∧
      join (join "/a//b" "..\\../../C:.") "\\x/./" = join "/a//b" "..\\../../C:./\\x/./" ∧
      join "/a//b" "..\\../../C:./\\x/./" = "/C:./x" ∧ join (normalize "/a//b") "" = join "/a//b" "" := by
  have absolute : Path.isAbsolute "/a//b" = true := by decide
  obtain ⟨composed, normalized⟩ := join_composes absolute
  exact ⟨absolute, composed "..\\../../C:." "\\x/./", by decide +kernel, normalized ""⟩

/-! ### Joining a view to its root -/

theorem advance_relativeChars {above names : List (List Char)} (aboveNamed : ∀ name ∈ above, IsSegment name)
    (named : ∀ name ∈ names, IsSegment name) :
    advance above (relativeChars ('/' :: joinSegments above) ('/' :: joinSegments (above ++ names))) =
      above ++ names := by
  by_cases top : above = []
  · -- Of the only root that ends in a separator nothing is left to compare with.
    subst top
    have view : relativeChars ('/' :: joinSegments []) ('/' :: joinSegments names) = joinSegments names := rfl
    rw [List.nil_append, view]
    exact advance_joinSegments named aboveNamed
  · have ending : ('/' :: joinSegments above).getLast? ≠ some '/' := by
      rw [slash_joinSegments top]
      exact getLast?_trail aboveNamed
    by_cases here : names = []
    · rw [here, List.append_nil, relativeChars_self ending, advance_current]
    · rw [slash_joinSegments_append top here, relativeChars_append ending, advance_joinSegments named aboveNamed]

section Climbless
variable {names : List (List Char)} (named : ∀ name ∈ names, IsSegment name)
include named

theorem parent_not_mem_pieces : ['.', '.'] ∉ (unify ('/' :: joinSegments names)).splitOn '/' := by
  have plain := not_mem_joinSegments (by decide) fun name member => (named name member).no_backslash
  rw [unify_slash, unify_of_not_mem plain, List.splitOn_cons_eq_if_modifyHead, if_pos (beq_self_eq_true '/')]
  by_cases empty : names = []
  · subst empty
    decide
  · rw [splitOn_joinSegments named empty]
    simpa using fun climbs => (named _ climbs).ne_parent rfl

theorem parent_not_mem_view (root : List Char) :
    ['.', '.'] ∉ (unify (relativeChars root ('/' :: joinSegments names))).splitOn '/' := by
  have whole := parent_not_mem_pieces named
  rcases relativeChars_cases root ('/' :: joinSegments names) with ⟨rest, cut, view⟩ | ⟨-, view⟩ | view
  · rw [cut, unify_append, unify_slash, List.splitOn_append_cons_self] at whole
    rw [view]
    exact fun climbs => whole (List.mem_append_right _ climbs)
  · rw [view]
    decide
  · rwa [view]

end Climbless

theorem join_relativeTo_iff {root key : String} (rootRooted : IsRooted root) (rooted : IsRooted key) :
    join root (relativeTo root key) = key ↔ AtOrAbove root key := by
  have joined := segments_join rootRooted.isAbsolute (relativeTo root key)
  constructor
  · -- What is joined to the root without a climb stays below it.
    intro same
    obtain ⟨names, named, chars⟩ := rooted
    rw [same, toList_relativeTo, chars] at joined
    rw [AtOrAbove, chars, joined]
    exact isPrefix_advance (parent_not_mem_view named root.toList) _
  · rintro ⟨rest, below⟩
    refine (isRooted_join rootRooted.isAbsolute _).ext rooted ?_
    obtain ⟨above, aboveNamed, rootChars⟩ := rootRooted
    obtain ⟨names, named, chars⟩ := rooted
    rw [rootChars, chars, segments_rooted aboveNamed, segments_rooted named] at below
    subst below
    have restNamed : ∀ name ∈ rest, IsSegment name := fun name member => named name (List.mem_append_right above member)
    rw [joined, toList_relativeTo, rootChars, chars, segments_rooted aboveNamed, segments_rooted named]
    exact advance_relativeChars aboveNamed restNamed

/-- A key is joined back from its view exactly if it is the root or lies below it, and no two keys look the same from a
root, wherever they lie. -/
theorem relativeTo_invertible {root : String} (absolute : Path.isAbsolute root = true) (normal : IsNormal root) :
    (∀ key, Path.isAbsolute key = true → IsNormal key →
      (join root (relativeTo root key) = key ↔ AtOrAbove root key)) ∧
    ∀ key other, Path.isAbsolute key = true → IsNormal key → Path.isAbsolute other = true → IsNormal other →
      relativeTo root key = relativeTo root other → key = other := by
  have rootRooted := isRooted_of_isNormal absolute normal
  constructor
  · intro key keyAbsolute keyNormal
    exact join_relativeTo_iff rootRooted (isRooted_of_isNormal keyAbsolute keyNormal)
  · intro key other keyAbsolute keyNormal otherAbsolute otherNormal same
    exact relativeTo_injective root (isRooted_of_isNormal keyAbsolute keyNormal)
      (isRooted_of_isNormal otherAbsolute otherNormal) same

/-- The root itself and a file in it are joined back. A sibling that shares the beginning of its name with the root is
not, and it looks different from a file of the root. -/
theorem relativeTo_invertible_sibling :
    join "/p" (relativeTo "/p" "/p") = "/p" ∧ join "/p" (relativeTo "/p" "/p/x") = "/p/x" ∧
      join "/p" (relativeTo "/p" "/px") ≠ "/px" ∧ relativeTo "/p" "/px" ≠ relativeTo "/p" "/p/x" ∧
      join "/" (relativeTo "/" "/C:") = "/C:" := by
  have keys : ∀ key ∈ ["/", "/p", "/p/x", "/px", "/C:"], Path.isAbsolute key = true ∧ IsNormal key := by decide
  obtain ⟨absolute, normal⟩ := keys "/p" (by decide)
  obtain ⟨inside, insideNormal⟩ := keys "/p/x" (by decide)
  obtain ⟨sibling, siblingNormal⟩ := keys "/px" (by decide)
  obtain ⟨inverse, injective⟩ := relativeTo_invertible absolute normal
  obtain ⟨topInverse, -⟩ := relativeTo_invertible (keys "/" (by decide)).1 (keys "/" (by decide)).2
  refine ⟨(inverse "/p" absolute normal).mpr (by decide), (inverse "/p/x" inside insideNormal).mpr (by decide),
    mt (inverse "/px" sibling siblingNormal).mp (by decide), fun same => ?_,
    (topInverse "/C:" (keys "/C:" (by decide)).1 (keys "/C:" (by decide)).2).mpr (by decide)⟩
  exact absurd (injective "/px" "/p/x" sibling siblingNormal inside insideNormal same) (by decide)

/-! ### The parent as a join -/

section Parent
variable {key : String} (rooted : IsRooted key)
include rooted

theorem IsRooted.parent_eq_join : Key.parent key = join key ".." := by
  refine rooted.parent.ext (isRooted_join rooted.isAbsolute "..") ?_
  rw [rooted.segments_parent, segments_join rooted.isAbsolute]
  exact (advance_parent fun _ => isSegment_of_mem_segments).symm

theorem IsRooted.advance_name : advance (segments key.toList).dropLast (name key).toList = segments key.toList := by
  obtain ⟨names, named, chars⟩ := rooted
  rw [toList_name, chars, segments_rooted named]
  rcases List.eq_nil_or_concat names with rfl | ⟨front, last, rfl⟩
  · decide
  · rw [List.concat_eq_append] at named ⊢
    have lastNamed : ∀ name ∈ [last], IsSegment name :=
      fun name member => named name (List.mem_append_right front member)
    have frontNamed : ∀ name ∈ front, IsSegment name := fun name member => named name (List.mem_append_left _ member)
    have below := advance_joinSegments lastNamed frontNamed
    rw [joinSegments_singleton] at below
    rw [nameChars_rooted front (lastNamed last List.mem_cons_self).no_slash, List.dropLast_concat, below]

theorem IsRooted.join_parent_name : join (Key.parent key) (name key) = key := by
  refine (isRooted_join rooted.parent.isAbsolute _).ext rooted ?_
  rw [segments_join rooted.parent.isAbsolute, rooted.segments_parent, rooted.advance_name]

end Parent

/-- The parent of a key is where `..` leads from it, a key itself, and the part behind the last separator leads from
there to the key. -/
theorem parent_lexical {key : String} (absolute : Path.isAbsolute key = true) (normal : IsNormal key) :
    parent key = join key ".." ∧ (Path.isAbsolute (parent key) = true ∧ IsNormal (parent key)) ∧
      join (parent key) (name key) = key := by
  have rooted := isRooted_of_isNormal absolute normal
  exact ⟨rooted.parent_eq_join, ⟨rooted.parent.isAbsolute, rooted.parent.isNormal⟩, rooted.join_parent_name⟩

/-- A lone segment with dots and a colon, and the top itself. -/
theorem parent_lexical_loneSegment :
    parent "/..C:." = join "/..C:." ".." ∧ IsNormal (parent "/..C:.") ∧
      join (parent "/..C:.") "..C:." = "/..C:." ∧ parent "/" = join "/" ".." := by
  obtain ⟨climbs, ⟨-, isKey⟩, back⟩ := parent_lexical (by decide : Path.isAbsolute "/..C:." = true) (by decide)
  obtain ⟨topClimbs, -, -⟩ := parent_lexical (by decide : Path.isAbsolute "/" = true) (by decide)
  exact ⟨climbs, isKey, back, topClimbs⟩

end Orphans.Key
