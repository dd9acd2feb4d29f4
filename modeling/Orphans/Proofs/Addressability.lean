import Orphans.Proofs.DirectoryAlias
import Orphans.Proofs.ExactAlias
import Orphans.Proofs.NormalCandidates

/-! Specifiers that lead from any file to any other.

A relative specifier may climb from the directory of a file to `/` and go down from there. The climb takes away just the
segments of the directory, so the specifier has one base, the key that it was written for. If that key ends in an
accepted extension, the specifier carries one and its base comes first. The extension may also be left out, and of an
index file the whole name.
-/

set_option autoImplicit false

namespace Orphans

namespace Key

/-! ### Climbing to the top -/

def climb : Nat → String
  | 0 => "./"
  | levels + 1 => climb levels ++ "../"

/-- The specifier that climbs from the directory of a file to `/` and leads down to an absolute key. -/
def address (origin key : String) : String :=
  climb (segments (parent origin).toList).length ++ .ofList key.toList.tail

theorem exists_ascent (levels : Nat) :
    ∃ ascent, climb levels = ascent ++ "/" ∧ ascent.toList.head? = some '.' ∧
      ∀ names, (∀ name ∈ names, IsSegment name) → advance names ascent.toList = names.take (names.length - levels) := by
  induction levels with
  | zero => exact ⟨".", rfl, rfl, fun names _ => by simpa using advance_current names⟩
  | succ levels ih =>
    obtain ⟨ascent, written, begins, goesUp⟩ := ih
    refine ⟨ascent ++ "/..", ?_, ?_, ?_⟩
    · rw [climb, written, String.append_assoc, String.append_assoc]
      rfl
    · rw [String.toList_append, List.head?_append, begins]
      rfl
    · intro names named
      have chars : (ascent ++ "/..").toList = ascent.toList ++ '/' :: ['.', '.'] := by simp
      have keptNamed : ∀ name ∈ names.take (names.length - levels), IsSegment name := fun name inside =>
        named name (List.mem_of_mem_take inside)
      rw [chars, advance_append, goesUp names named, advance_parent keptNamed, List.dropLast_eq_take, List.take_take,
        List.length_take]
      congr 1
      omega

/-- Up to `/`, a specifier that climbs from a file is the same for all keys. -/
theorem exists_address {origin : String} (originRooted : IsRooted origin) :
    ∃ ascent, ascent.toList.head? = some '.' ∧
      (∀ key, Path.isAbsolute key = true → address origin key = ascent ++ key) ∧
      ∀ key, IsRooted key → join (parent origin) (ascent ++ key) = key := by
  obtain ⟨ascent, written, begins, goesUp⟩ := exists_ascent (segments (parent origin).toList).length
  refine ⟨ascent, begins, ?_, ?_⟩
  · intro key absolute
    obtain ⟨rest, chars⟩ := Path.isAbsolute_iff.mp absolute
    rw [address, written]
    apply String.toList_injective
    simp [chars]
  · rintro key ⟨names, named, chars⟩
    have spelled : (ascent ++ key).toList = ascent.toList ++ '/' :: joinSegments names := by simp [chars]
    have top := goesUp (segments (parent origin).toList) fun _ => isSegment_of_mem_segments
    rw [Nat.sub_self, List.take_zero] at top
    apply String.toList_injective
    rw [toList_join_of_absolute originRooted.parent.isAbsolute, spelled, advance_append, top,
      advance_joinSegments named (List.forall_mem_nil _), List.nil_append, chars]

theorem IsSegment.of_append {front back : List Char} (named : IsSegment (front ++ back)) (notEmpty : front ≠ [])
    (notCurrent : front ≠ ['.']) (notParent : front ≠ ['.', '.']) : IsSegment front where
  ne_nil := notEmpty
  ne_current := notCurrent
  ne_parent := notParent
  no_slash := fun inside => named.no_slash (List.mem_append_left _ inside)
  no_backslash := fun inside => named.no_backslash (List.mem_append_left _ inside)

theorem IsRooted.exists_directory {key : String} (rooted : IsRooted key) (named : name key ≠ "") :
    ∃ directory, key = directory ++ "/" ++ name key ∧ IsSegment (name key).toList ∧
      ∀ other : String, IsSegment other.toList → IsRooted (directory ++ "/" ++ other) := by
  obtain ⟨names, allNamed, chars⟩ := rooted
  rcases List.eq_nil_or_concat names with rfl | ⟨front, last, rfl⟩
  · obtain rfl : key = "/" := String.toList_injective chars
    exact absurd (by decide) named
  · rw [List.concat_eq_append] at allNamed chars
    have lastNamed : IsSegment last := allNamed last (by simp)
    have spelled : ∀ other, '/' :: joinSegments (front ++ [other]) = trail front ++ '/' :: other := by
      intro other
      rw [slash_joinSegments (by simp)]
      simp
    have nameEq : (name key).toList = last := by
      rw [toList_name, chars, nameChars_rooted front lastNamed.no_slash]
    refine ⟨.ofList (trail front), ?_, nameEq ▸ lastNamed, ?_⟩
    · apply String.toList_injective
      simp [nameEq, chars, spelled]
    · intro other otherNamed
      refine ⟨front ++ [other.toList], ?_, by simp [spelled]⟩
      intro segment member
      rcases List.mem_append.mp member with inside | last
      · exact allNamed segment (by simp [inside])
      · rw [List.mem_singleton.mp last]
        exact otherNamed

theorem parent_of_ne_top {directory name : String} (plain : '/' ∉ name.toList)
    (below : parent (directory ++ "/" ++ name) ≠ "/") : parent (directory ++ "/" ++ name) = directory := by
  refine parent_append ?_ name plain
  rintro rfl
  refine below (String.toList_injective ?_)
  simpa using parentChars_slash plain

end Key

/-! ### Candidates of an address -/

namespace Resolver

open Key (IsRooted)

theorem isPrefix_foldl_pushNew (candidates kept : List String) : kept <+: candidates.foldl pushNew kept := by
  induction candidates generalizing kept with
  | nil => exact List.prefix_refl kept
  | cons first rest ih =>
    refine List.IsPrefix.trans ?_ (ih (pushNew kept first))
    unfold pushNew
    split
    · exact List.prefix_refl kept
    · exact List.prefix_append kept _

theorem head?_resolve_of_carries {resolver : Resolver} {specifier origin base : String}
    (only : resolver.bases specifier origin = [base]) (carries : Carries resolver.extensions specifier) :
    (resolver.resolve specifier origin).head? = some base := by
  have found : (resolver.extensions.find? (Extension.carriedBy specifier)).isSome = true :=
    List.find?_isSome.mpr carries
  obtain ⟨others, shaped⟩ : ∃ others, resolver.shapes specifier base = base :: others := by simp [shapes, found]
  obtain ⟨rest, kept⟩ := isPrefix_foldl_pushNew others [base]
  simp [resolve, only, shaped, pushNew, ← kept]

section Address
variable {resolver : Resolver} {origin : String} (originRooted : IsRooted origin)
include originRooted

theorem bases_address {key : String} (rooted : IsRooted key) :
    resolver.bases (Key.address origin key) origin = [key] := by
  obtain ⟨ascent, begins, written, leads⟩ := Key.exists_address originRooted
  have relative : (ascent ++ key).toList.head? = some '.' := by
    rw [String.toList_append, List.head?_append, begins]
    rfl
  rw [written key rooted.isAbsolute, bases, if_pos relative, leads key rooted]

theorem carriedBy_address {directory name extension : String} (rooted : IsRooted (directory ++ "/" ++ name))
    (noSlash : '/' ∉ extension.toList) :
    Extension.carriedBy (Key.address origin (directory ++ "/" ++ name)) extension = true ↔
      '.' :: extension.toList <:+ name.toList := by
  obtain ⟨ascent, -, written, -⟩ := Key.exists_address originRooted
  rw [written _ rooted.isAbsolute, ← String.append_assoc, ← String.append_assoc]
  exact Extension.carriedBy_behind_slash noSlash (ascent ++ directory) name

theorem address_append {key : String} (rooted : IsRooted key) (suffix : String) :
    Key.address origin (key ++ suffix) = Key.address origin key ++ suffix := by
  obtain ⟨ascent, -, written, -⟩ := Key.exists_address originRooted
  rw [written _ rooted.isAbsolute, written _ (Path.isAbsolute_append rooted.isAbsolute suffix), String.append_assoc]

theorem append_mem_resolve_address {key suffix : String} (rooted : IsRooted key)
    (shaped : suffix ∈ suffixes resolver.extensions (Key.address origin key)) :
    key ++ suffix ∈ resolver.resolve (Key.address origin key) origin := by
  rw [mem_resolve, bases_address originRooted rooted]
  exact ⟨key, List.mem_singleton_self key, suffix, shaped, rfl⟩

theorem extended_mem_resolve_address {directory stem extension : String} (rooted : IsRooted (directory ++ "/" ++ stem))
    (plain : ∀ other ∈ resolver.extensions, '/' ∉ other.toList)
    (bare : ∀ other ∈ resolver.extensions, ¬ '.' :: other.toList <:+ stem.toList)
    (accepted : extension ∈ resolver.extensions) :
    directory ++ "/" ++ stem ++ ("." ++ extension) ∈
      resolver.resolve (Key.address origin (directory ++ "/" ++ stem)) origin := by
  have nothing : ¬ Carries resolver.extensions (Key.address origin (directory ++ "/" ++ stem)) := by
    rintro ⟨other, otherAccepted, carried⟩
    exact bare other otherAccepted ((carriedBy_address originRooted rooted (plain other otherAccepted)).mp carried)
  refine append_mem_resolve_address originRooted rooted ?_
  rw [suffixes_of_not_carries nothing]
  exact List.mem_append_left _ (List.mem_map_of_mem accepted)

end Address

/-- Every file with an accepted extension can be imported from every file. The specifier with its whole name has it as
the first candidate. Without the extension it stays a candidate, if what is left names a segment and carries no
extension itself, and an index file is a candidate of its directory. -/
theorem resolve_address {resolver : Resolver} (plain : ∀ extension ∈ resolver.extensions, '/' ∉ extension.toList)
    {origin key : String} (originAbsolute : Path.isAbsolute origin = true) (originNormal : Key.IsNormal origin)
    (absolute : Path.isAbsolute key = true) (normal : Key.IsNormal key) {stem extension : String}
    (accepted : extension ∈ resolver.extensions) (named : Key.name key = stem ++ "." ++ extension) :
    (resolver.resolve (Key.address origin key) origin).head? = some key ∧
    (stem ≠ "" → stem ≠ "." → stem ≠ ".." → (∀ other ∈ resolver.extensions, ¬ '.' :: other.toList <:+ stem.toList) →
      ∃ bare, Key.address origin key = bare ++ "." ++ extension ∧ key ∈ resolver.resolve bare origin) ∧
    (stem = "index" → Key.parent key ≠ "/" → key ∈ resolver.resolve (Key.address origin (Key.parent key)) origin) := by
  have originRooted := Key.isRooted_of_isNormal originAbsolute originNormal
  have rooted := Key.isRooted_of_isNormal absolute normal
  have nameChars : (Key.name key).toList = stem.toList ++ '.' :: extension.toList := by simp [named]
  have inhabited : Key.name key ≠ "" := by
    intro empty
    simp [empty] at nameChars
  obtain ⟨directory, cut, nameSegment, below⟩ := rooted.exists_directory inhabited
  refine ⟨?_, ?_, ?_⟩
  · refine head?_resolve_of_carries (bases_address originRooted rooted) ⟨extension, accepted, ?_⟩
    rw [cut] at rooted ⊢
    exact (carriedBy_address originRooted rooted (plain extension accepted)).mpr ⟨stem.toList, nameChars.symm⟩
  · intro notEmpty notCurrent notParent noExtension
    rw [nameChars] at nameSegment
    -- Without the extension the name is still a segment, and the key with that name has an address of its own.
    have stemSegment := nameSegment.of_append (mt String.toList_eq_nil_iff.mp notEmpty)
      (fun same => notCurrent (String.toList_injective same)) (fun same => notParent (String.toList_injective same))
    have stemRooted := below stem stemSegment
    have whole : key = directory ++ "/" ++ stem ++ ("." ++ extension) := by
      rw [cut, named]
      simp only [String.append_assoc]
    refine ⟨Key.address origin (directory ++ "/" ++ stem), ?_, ?_⟩
    · rw [whole, address_append originRooted stemRooted]
      exact String.append_assoc.symm
    · rw [whole]
      exact extended_mem_resolve_address originRooted stemRooted plain noExtension accepted
  · rintro rfl notTop
    have directoryEq : Key.parent key = directory := by
      rw [cut] at notTop ⊢
      exact Key.parent_of_ne_top nameSegment.no_slash notTop
    have whole : key = Key.parent key ++ indexSuffix extension := by
      rw [directoryEq, indexSuffix, cut, named]
      simp only [String.append_assoc, indexStem]
    have member := append_mem_resolve_address originRooted rooted.parent
      (indexSuffix_mem_suffixes accepted (Key.address origin (Key.parent key)))
    rwa [← whole] at member

theorem resolve_address_declarationIndex :
    ((configure "/p" ["ts", ".d.ts"] []).resolve "./../../../lib/index.d.ts" "/p/src/deep/a.ts").head? =
        some "/lib/index.d.ts" ∧
      (∃ bare, "./../../../lib/index.d.ts" = bare ++ "." ++ "d.ts" ∧
        "/lib/index.d.ts" ∈ (configure "/p" ["ts", ".d.ts"] []).resolve bare "/p/src/deep/a.ts") ∧
      "/lib/index.d.ts" ∈ (configure "/p" ["ts", ".d.ts"] []).resolve "./../../../lib" "/p/src/deep/a.ts" := by
  have named : Key.name "/lib/index.d.ts" = "index" ++ "." ++ "d.ts" := by decide
  have accepted : "d.ts" ∈ (configure "/p" ["ts", ".d.ts"] []).extensions := by decide
  have originNormal : Key.IsNormal "/p/src/deep/a.ts" := by decide
  obtain ⟨first, bare, index⟩ :=
    resolve_address (by decide) (by decide) originNormal (by decide) (by decide) accepted named
  have address : Key.address "/p/src/deep/a.ts" "/lib/index.d.ts" = "./../../../lib/index.d.ts" := by decide
  have above : Key.address "/p/src/deep/a.ts" (Key.parent "/lib/index.d.ts") = "./../../../lib" := by decide
  rw [address] at first bare
  rw [above] at index
  exact ⟨first, bare (by decide) (by decide) (by decide) (by decide), index rfl (by decide)⟩

end Resolver

end Orphans
