import Orphans.Proofs.Key.Advance
import Orphans.Proofs.Roots
import Orphans.Resolution

/-! Resolution below a root.

The keys that a specifier may mean are bases with suffixes, and a base is joined from a directory and a path. As
long as no path climbs above the root, what lies above has no say in where it leads, so whether a key below the
root is among them can be read off the places below the root.
-/

set_option autoImplicit false

namespace Orphans

namespace Key

theorem IsTrail.join_below {above names : List (List Char)} {base : String}
    (written : IsTrail (above ++ names) base) (inhabited : above ≠ []) {path : String} {depth : Nat}
    (stays : depthBelow? names.length path.toList = some depth) :
    IsTrail (above ++ advance names path.toList) (Key.join base path) := by
  have named : ∀ name ∈ names, IsSegment name := fun name member =>
    written.named name (List.mem_append_right _ member)
  obtain ⟨-, alone⟩ := advance_below named stays
  have occupied : above ++ advance names path.toList ≠ [] := List.append_ne_nil_of_left_ne_nil inhabited _
  refine ⟨occupied, ?_, ?_⟩
  · intro name member
    rw [← alone above] at member
    exact isSegment_of_mem_advance written.named member
  · rw [toList_join_of_absolute written.isAbsolute, written.segments_eq, alone above, slash_joinSegments occupied]

end Key

/-! ### Keys that a specifier may mean -/

namespace Resolver

open Key (IsTrail trail)

/-- What may stand behind a base: nothing if the specifier carries an accepted extension, each other
extension, and the name of an index file with each extension. -/
def suffixes (extensions : List String) (specifier : String) : List String :=
  let carried := extensions.find? (Extension.carriedBy specifier)
  (if carried.isSome then [""] else []) ++
    (extensions.filter fun extension => some extension ≠ carried).map ("." ++ ·) ++
    extensions.map ("/" ++ indexStem ++ "." ++ ·)

theorem shapes_eq (resolver : Resolver) (specifier base : String) :
    resolver.shapes specifier base = (suffixes resolver.extensions specifier).map (base ++ ·) := by
  cases carried : resolver.extensions.find? (Extension.carriedBy specifier) <;>
    simp [shapes, suffixes, carried, String.append_assoc, Function.comp_def]

theorem mem_foldl_pushNew {candidates kept : List String} {key : String} :
    key ∈ candidates.foldl pushNew kept ↔ key ∈ kept ∨ key ∈ candidates := by
  induction candidates generalizing kept with
  | nil => simp
  | cons first rest ih =>
    have pushed : key ∈ pushNew kept first ↔ key ∈ kept ∨ key = first := by
      unfold pushNew
      split
      · next known =>
        constructor
        · exact .inl
        · rintro (inside | rfl)
          · exact inside
          · exact known
      · simp
    rw [List.foldl_cons, ih, pushed, or_assoc, List.mem_cons]

theorem mem_resolve (resolver : Resolver) {specifier origin key : String} :
    key ∈ resolver.resolve specifier origin ↔
      ∃ base ∈ resolver.bases specifier origin, ∃ suffix ∈ suffixes resolver.extensions specifier,
        base ++ suffix = key := by
  simp [resolve, mem_foldl_pushNew, shapes_eq]

theorem bases_of_only {resolver : Resolver} {entry : Alias} (alone : resolver.aliases = [entry])
    {specifier rest : String} (aliased : specifier.toList.head? ≠ some '.')
    (left : entry.remainder? specifier = some rest) (origin : String) :
    resolver.bases specifier origin = entry.bases.map fun base => Key.join (Key.join resolver.root base) rest := by
  have addressed : resolver.aliases.addressing specifier = [(entry, rest)] := by
    simp [alone, AliasTable.addressing, left]
  simp [bases, aliased, addressed]

theorem mem_bases_of_aliased (resolver : Resolver) {specifier : String} (aliased : specifier.toList.head? ≠ some '.')
    {origin key : String} :
    key ∈ resolver.bases specifier origin ↔
      ∃ entry ∈ resolver.aliases, ∃ rest, entry.remainder? specifier = some rest ∧
        ∃ base ∈ entry.bases, key = Key.join (Key.join resolver.root base) rest := by
  rw [bases, if_neg aliased]
  constructor
  · intro inside
    obtain ⟨⟨entry, rest⟩, addressed, listed⟩ := List.mem_flatMap.mp inside
    obtain ⟨entry, member, same⟩ := List.mem_filterMap.mp addressed
    obtain ⟨rest, left, same⟩ := Option.map_eq_some_iff.mp same
    cases same
    obtain ⟨base, among, rfl⟩ := List.mem_map.mp listed
    exact ⟨entry, member, rest, left, base, among, rfl⟩
  · rintro ⟨entry, member, rest, left, base, among, rfl⟩
    apply List.mem_flatMap.mpr
    exact ⟨(entry, rest), List.mem_filterMap.mpr ⟨entry, member, by rw [left]; rfl⟩, List.mem_map_of_mem among⟩

/-- The paths that a specifier stands for in a directory below the root, each with the directory below the
root from which it is read. -/
def routes (aliases : AliasTable) (specifier : String) (directory : List (List Char)) :
    List (List (List Char) × List Char) :=
  if specifier.toList.head? = some '.' then [(directory, specifier.toList)]
  else (aliases.addressing specifier).flatMap fun (entry, rest) =>
    entry.bases.map fun base => ([], base.toList ++ '/' :: rest.toList)

def StaysBelow (aliases : AliasTable) (specifier : String) (directory : List (List Char)) : Prop :=
  ∀ route ∈ routes aliases specifier directory, (Key.depthBelow? route.1.length route.2).isSome

instance (aliases : AliasTable) (specifier : String) (directory : List (List Char)) :
    Decidable (StaysBelow aliases specifier directory) :=
  inferInstanceAs (Decidable (∀ route ∈ routes aliases specifier directory, _))

theorem bases_eq {resolver : Resolver} {names : List (List Char)} (written : IsTrail names resolver.root)
    {directory : List (List Char)} {name : List Char} {origin : String}
    (originWritten : IsTrail (names ++ directory ++ [name]) origin) {specifier : String}
    (stays : StaysBelow resolver.aliases specifier directory) :
    resolver.bases specifier origin = (routes resolver.aliases specifier directory).map fun route =>
      .ofList (trail (names ++ Key.advance route.1 route.2)) := by
  unfold StaysBelow at stays
  unfold bases
  unfold routes at stays ⊢
  split
  · next relative =>
    rw [if_pos relative] at stays
    obtain ⟨depth, stays⟩ := Option.isSome_iff_exists.mp (stays _ (List.mem_singleton_self _))
    have parent := originWritten.parent (List.append_ne_nil_of_left_ne_nil written.inhabited _)
    rw [List.map_singleton, (parent.join_below written.inhabited stays).eq_ofList]
  · next aliased =>
    rw [if_neg aliased] at stays
    rw [List.map_flatMap]
    refine List.flatMap_congr fun ⟨entry, rest⟩ member => ?_
    rw [List.map_map]
    refine List.map_congr_left fun base inside => ?_
    -- The base is read from the root, and the rest from where the base leads.
    have here := stays _ (List.mem_flatMap.mpr ⟨_, member, List.mem_map_of_mem inside⟩)
    obtain ⟨depth, whole⟩ := Option.isSome_iff_exists.mp here
    rw [Key.depthBelow?_append] at whole
    obtain ⟨middle, first, second⟩ := Option.bind_eq_some_iff.mp whole
    have start : IsTrail (names ++ []) resolver.root := by rwa [List.append_nil]
    obtain ⟨rfl, -⟩ := Key.advance_below (List.forall_mem_nil _) first
    have target := (start.join_below written.inhabited first).join_below written.inhabited second
    rw [target.eq_ofList, ← Key.advance_append]
    rfl

/-- Whether a key below the root may be meant does not depend on the root. -/
theorem mem_resolve_below {resolver : Resolver} {names : List (List Char)} (written : IsTrail names resolver.root)
    {directory : List (List Char)} {name : List Char} {origin : String}
    (originWritten : IsTrail (names ++ directory ++ [name]) origin) {specifier : String}
    (stays : StaysBelow resolver.aliases specifier directory) {below : List (List Char)} {key : String}
    (keyWritten : IsTrail (names ++ below) key) :
    key ∈ resolver.resolve specifier origin ↔
      ∃ route ∈ routes resolver.aliases specifier directory, ∃ suffix ∈ suffixes resolver.extensions specifier,
        trail (Key.advance route.1 route.2) ++ suffix.toList = trail below := by
  rw [mem_resolve, bases_eq written originWritten stays]
  simp only [List.mem_map, exists_exists_and_eq_and]
  refine exists_congr fun route => and_congr_right fun _ => exists_congr fun suffix => and_congr_right fun _ => ?_
  -- The trail of the root stands in front of both sides.
  rw [← String.toList_inj, keyWritten.spelled]
  simp

end Resolver

end Orphans
