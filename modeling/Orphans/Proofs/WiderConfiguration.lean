import Orphans.Proofs.NormalCandidates

/-! Resolution under more extensions and aliases.

An extension that is added in front of others may become the one that a specifier carries, and a carried extension is
not put behind the base. Nothing is lost by it: the carried extension of the longer list is a new one, or it was the
carried one before. This takes that no extension is listed twice.
-/

set_option autoImplicit false

namespace Orphans

namespace Extension

theorem sublist_normalizeAll {extensions more : List String} (part : extensions.Sublist more) :
    (normalizeAll extensions).Sublist (normalizeAll more) :=
  (part.map normalize).filter _

theorem find?_of_sublist {part whole : List String} (sublist : part.Sublist whole) (distinct : whole.Nodup)
    {holds : String → Bool} {first : String} (found : whole.find? holds = some first) (inside : first ∈ part) :
    part.find? holds = some first := by
  induction sublist with
  | slnil => cases inside
  | cons left rest ih =>
    obtain ⟨once, distinct⟩ := List.nodup_cons.mp distinct
    rw [List.find?_cons] at found
    split at found
    · -- The entry that the part leaves out would be the first, and it does not come again.
      obtain rfl := Option.some.inj found
      exact absurd (rest.subset inside) once
    · exact ih distinct found inside
  | cons_cons both rest ih =>
    obtain ⟨-, distinct⟩ := List.nodup_cons.mp distinct
    rw [List.find?_cons] at found ⊢
    split at found
    · next holdsHere => simpa [holdsHere] using found
    · next failsHere =>
      have different : first ≠ both := by
        rintro rfl
        rw [List.find?_some found] at failsHere
        cases failsHere
      exact ih distinct found ((List.mem_cons.mp inside).resolve_left different)

end Extension

namespace Resolver

theorem Carries.mono {extensions more : List String} {specifier : String} (carries : Carries extensions specifier)
    (part : extensions ⊆ more) : Carries more specifier := by
  obtain ⟨extension, inside, carried⟩ := carries
  exact ⟨extension, part inside, carried⟩

theorem suffixes_mono {extensions more : List String} (part : extensions.Sublist more) (distinct : more.Nodup)
    (specifier : String) : suffixes extensions specifier ⊆ suffixes more specifier := by
  intro suffix shaped
  rw [mem_suffixes] at shaped ⊢
  rcases shaped with ⟨rfl, carries⟩ | ⟨extension, inside, notCarried, rfl⟩ | ⟨extension, inside, rfl⟩
  · exact .inl ⟨rfl, carries.mono part.subset⟩
  · refine .inr (.inl ⟨extension, part.subset inside, ?_, rfl⟩)
    -- If the longer list has the extension carried first, so has the shorter one.
    exact fun carried => notCarried (Extension.find?_of_sublist part distinct carried.symm inside).symm
  · exact .inr (.inr ⟨extension, part.subset inside, rfl⟩)

theorem bases_mono (root specifier origin : String) (extensions moreExtensions : List String)
    {aliases moreAliases : AliasTable} (part : aliases ⊆ moreAliases) :
    (configure root extensions aliases).bases specifier origin ⊆
      (configure root moreExtensions moreAliases).bases specifier origin := by
  intro base isBase
  by_cases relative : specifier.toList.head? = some '.'
  · rw [bases, if_pos relative] at isBase ⊢
    exact isBase
  · rw [mem_bases_of_aliased _ relative] at isBase ⊢
    obtain ⟨entry, member, rest⟩ := isBase
    exact ⟨entry, part member, rest⟩

/-- A candidate stays one when extensions and aliases are added anywhere in their lists, as long as no two entries of
the longer list stand for the same extension. Entries of which nothing is left may repeat. -/
theorem resolve_monotone (root specifier origin : String) {extensions moreExtensions : List String}
    (extensionsKept : extensions.Sublist moreExtensions)
    (distinct : (Extension.normalizeAll moreExtensions).Nodup) {aliases moreAliases : AliasTable}
    (aliasesKept : aliases.Sublist moreAliases) :
    (configure root extensions aliases).resolve specifier origin ⊆
      (configure root moreExtensions moreAliases).resolve specifier origin := by
  intro key reached
  obtain ⟨base, isBase, suffix, shaped, rfl⟩ := (mem_resolve _).mp reached
  have wider : suffixes (Extension.normalizeAll extensions) specifier ⊆
      suffixes (Extension.normalizeAll moreExtensions) specifier :=
    suffixes_mono (Extension.sublist_normalizeAll extensionsKept) distinct specifier
  refine (mem_resolve _).mpr ⟨base, ?_, suffix, wider shaped, rfl⟩
  exact bases_mono root specifier origin extensions moreExtensions aliasesKept.subset isBase

def sourcesOnly : Resolver := configure "/p" ["ts"] (.ofEntries [("@/*", ["src/*"])])

/-- An extension that ends in the other one comes in front of it, and an alias in front of the other. -/
def withDeclarations : Resolver :=
  configure "/p" [".d.ts", "ts"] (.ofEntries [("*", ["types/*"]), ("@/*", ["src/*"])])

theorem resolve_monotone_withDeclarations :
    sourcesOnly.resolve "@/lib.d.ts" "/p/a.ts" ⊆ withDeclarations.resolve "@/lib.d.ts" "/p/a.ts" ∧
      "/p/src/lib.d.ts" ∈ sourcesOnly.resolve "@/lib.d.ts" "/p/a.ts" ∧
      "/p/src/lib.d.ts.ts" ∉ sourcesOnly.resolve "@/lib.d.ts" "/p/a.ts" ∧
      "/p/src/lib.d.ts.ts" ∈ withDeclarations.resolve "@/lib.d.ts" "/p/a.ts" := by
  refine ⟨resolve_monotone "/p" _ _ (by decide) (by decide) (by decide), ?_, ?_, ?_⟩ <;> decide

-- With an extension listed twice the carried one may change from the longer to the shorter of two that end alike.
example :
    ["d.ts", "ts"].Sublist ["ts", "d.ts", "ts"] ∧
      "/p/a.d.ts.ts" ∈ (configure "/p" ["d.ts", "ts"] []).resolve "./a.d.ts" "/p/b.ts" ∧
      "/p/a.d.ts.ts" ∉ (configure "/p" ["ts", "d.ts", "ts"] []).resolve "./a.d.ts" "/p/b.ts" := by
  decide

end Resolver

end Orphans
