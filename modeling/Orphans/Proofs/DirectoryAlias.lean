import Orphans.Proofs.Extension
import Orphans.Proofs.Resolution

/-! Aliases of directories.

An alias for everything below a head reads the rest of a specifier from its base, and the base from the root. That is
the relative path through the base, seen from the root: the two are normalized in a different number of steps and
their specifiers differ in front of the rest, but neither shows in the candidates. Several aliases and bases
contribute their candidates side by side.
-/

set_option autoImplicit false

namespace Orphans

namespace Alias

theorem splitWildcard_directory (text : List Char) : splitWildcard (text ++ ['/', '*']) = (text, .directory) := by
  have found : ['/', '*'].isSuffixOf? (text ++ ['/', '*']) = some text :=
    List.isSuffixOf?_eq_some_iff_append_eq.mpr rfl
  simp [splitWildcard, found]

theorem remainder?_directory (head rest : String) (targets : List String) :
    (ofEntry (head ++ "/*") targets).remainder? (head ++ "/" ++ rest) = some rest := by
  have behind : head.toList.isPrefixOf? (head.toList ++ '/' :: rest.toList) = some ('/' :: rest.toList) :=
    List.isPrefixOf?_eq_some_iff_append_eq.mpr rfl
  simp [remainder?, ofEntry, withoutWildcard, splitWildcard_directory, behind]

end Alias

namespace Resolver

theorem suffixes_congr {extensions : List String} {specifier other : String}
    (same : ∀ extension ∈ extensions, Extension.carriedBy specifier extension = Extension.carriedBy other extension) :
    suffixes extensions specifier = suffixes extensions other := by
  have carried : extensions.find? (Extension.carriedBy specifier) = extensions.find? (Extension.carriedBy other) := by
    rw [← List.head?_filter, ← List.head?_filter, List.filter_congr same]
  simp only [suffixes, carried]

theorem suffixes_behind_slash {extensions : List String} (plain : ∀ extension ∈ extensions, '/' ∉ extension.toList)
    (front other rest : String) :
    suffixes extensions (front ++ "/" ++ rest) = suffixes extensions (other ++ "/" ++ rest) := by
  apply suffixes_congr
  intro extension accepted
  rw [Bool.eq_iff_iff, Extension.carriedBy_behind_slash (plain extension accepted),
    Extension.carriedBy_behind_slash (plain extension accepted)]

theorem resolve_congr {resolver other : Resolver} {specifier otherSpecifier origin otherOrigin : String}
    (bases : resolver.bases specifier origin = other.bases otherSpecifier otherOrigin)
    (suffixes : suffixes resolver.extensions specifier = suffixes other.extensions otherSpecifier) :
    resolver.resolve specifier origin = other.resolve otherSpecifier otherOrigin := by
  have shapes : resolver.shapes specifier = other.shapes otherSpecifier := by
    funext base
    rw [shapes_eq, shapes_eq, suffixes]
  rw [resolve, resolve, bases, shapes]

def only (resolver : Resolver) (entry : Alias) (base : String) : Resolver :=
  { resolver with aliases := [{ entry with bases := [base] }] }

/-- Every alias that addresses the specifier contributes its candidates, and so does every base of it. -/
theorem mem_resolve_iff_only (resolver : Resolver) {specifier : String}
    (aliased : specifier.toList.head? ≠ some '.') (origin key : String) :
    key ∈ resolver.resolve specifier origin ↔
      ∃ entry ∈ resolver.aliases, (entry.remainder? specifier).isSome ∧
        ∃ base ∈ entry.bases, key ∈ (resolver.only entry base).resolve specifier origin := by
  -- The alias that is left addresses what it addressed among the others.
  have lone : ∀ {entry : Alias} {rest : String}, entry.remainder? specifier = some rest → ∀ base,
      (resolver.only entry base).bases specifier origin = [Key.join (Key.join resolver.root base) rest] := by
    intro entry rest left base
    have same : ({ entry with bases := [base] } : Alias).remainder? specifier = some rest := left
    exact bases_of_only rfl aliased same origin
  rw [mem_resolve]
  constructor
  · rintro ⟨found, isBase, suffix, shaped, rfl⟩
    obtain ⟨entry, member, rest, left, base, among, rfl⟩ := (mem_bases_of_aliased resolver aliased).mp isBase
    refine ⟨entry, member, by rw [left]; rfl, base, among, ?_⟩
    rw [mem_resolve]
    exact ⟨_, by rw [lone left]; exact List.mem_singleton_self _, suffix, shaped, rfl⟩
  · rintro ⟨entry, member, addressed, base, among, reached⟩
    obtain ⟨rest, left⟩ := Option.isSome_iff_exists.mp addressed
    obtain ⟨found, isBase, suffix, shaped, rfl⟩ := (mem_resolve _).mp reached
    rw [lone left, List.mem_singleton] at isBase
    subst isBase
    exact ⟨_, (mem_bases_of_aliased resolver aliased).mpr ⟨entry, member, rest, left, base, among, rfl⟩, suffix,
      shaped, rfl⟩

/-- A specifier below a directory alias has the candidates of the relative path through the base, taken from the root,
in the same order; and whatever the table, a specifier has the candidates of its aliases and bases one at a time. -/
theorem directoryAlias_agrees :
    (∀ root extensions, Path.isAbsolute root = true → Key.IsNormal root → (∀ text ∈ extensions, '/' ∉ text.toList) →
      ∀ head target rest, (head ++ "/" ++ rest).toList.head? ≠ some '.' → ∀ aliases origin,
        (configure root extensions [Alias.ofEntry (head ++ "/*") [target]]).resolve (head ++ "/" ++ rest) origin =
          (configure root extensions aliases).resolve ("./" ++ Alias.withoutWildcard target ++ "/" ++ rest)
            (root ++ "/x")) ∧
    ∀ root extensions aliases specifier, specifier.toList.head? ≠ some '.' → ∀ origin key,
      (key ∈ (configure root extensions aliases).resolve specifier origin ↔
        ∃ entry ∈ aliases, (entry.remainder? specifier).isSome ∧
          ∃ base ∈ entry.bases,
            key ∈ ((configure root extensions aliases).only entry base).resolve specifier origin) := by
  constructor
  · intro root extensions absolute normal plain head target rest notDot aliases origin
    apply resolve_congr
    -- The bases agree: both ways are joined to the root in two steps or in one.
    · have directory : Key.parent (root ++ "/x") = root := by
        have cut := Key.parent_append (Path.ne_empty_of_isAbsolute absolute) "x" (by decide)
        rwa [String.append_assoc] at cut
      have whole : "./" ++ Alias.withoutWildcard target ++ "/" ++ rest =
          "./" ++ (Alias.withoutWildcard target ++ "/" ++ rest) := by simp only [String.append_assoc]
      have relative : ("./" ++ Alias.withoutWildcard target ++ "/" ++ rest).toList.head? = some '.' := by simp
      rw [bases_of_only rfl notDot (Alias.remainder?_directory head rest [target]), bases, if_pos relative, directory]
      change [Key.join (Key.join (Key.normalize root) (Alias.withoutWildcard target)) rest] = _
      rw [normal, Key.join_join absolute, whole, Key.join_current absolute]
    · exact suffixes_behind_slash (fun extension accepted => Extension.not_mem_of_mem accepted plain) _ _ _
  · intro root extensions aliases specifier aliased
    exact mem_resolve_iff_only _ aliased

/-- A base that climbs above the root and is written with both separators, and a specifier of two aliases. -/
theorem directoryAlias_agrees_windingBase :
    (configure "/p" [".ts", "tsx"] [Alias.ofEntry ("@ui" ++ "/*") ["..\\lib//x/../*"]]).resolve
          ("@ui" ++ "/" ++ "b.ts") "/p/src/a.ts" =
        (configure "/p" [".ts", "tsx"] []).resolve
          ("./" ++ Alias.withoutWildcard "..\\lib//x/../*" ++ "/" ++ "b.ts") ("/p" ++ "/x") ∧
      "/lib/b.ts" ∈ (configure "/p" [".ts", "tsx"] []).resolve
        ("./" ++ Alias.withoutWildcard "..\\lib//x/../*" ++ "/" ++ "b.ts") ("/p" ++ "/x") ∧
      "/p/design/card.ts" ∈ (configure "/p" ["ts"] (.ofEntries [("@/*", ["src/*", "shared/*"]),
        ("@/ui/*", ["design/*"])])).resolve "@/ui/card" "/p/src/a.ts" := by
  refine ⟨?_, by decide, ?_⟩
  · refine directoryAlias_agrees.1 "/p" [".ts", "tsx"] ?_ ?_ ?_ "@ui" _ "b.ts" ?_ [] _ <;> decide
  · refine (directoryAlias_agrees.2 _ _ _ "@/ui/card" (by decide) _ _).mpr
      ⟨Alias.ofEntry "@/ui/*" ["design/*"], ?_, ?_, "design", ?_, ?_⟩ <;> decide

end Resolver

end Orphans
