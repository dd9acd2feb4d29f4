import Orphans.Proofs.Analysis

/-! Specifiers that are dropped before resolution.

A specifier without a dot in front resolves through the alias table alone, and a scheme that knows the table keeps
whatever the table addresses. So a dropped specifier would have reached nothing, unless it were empty, and no literal
spells an empty one. Sigils decide how many specifiers are kept, and never which files are reached.
-/

set_option autoImplicit false

namespace Orphans

namespace Specifier.Scheme

@[simp] theorem aliases_addSigil (scheme : Scheme) (sigil : Char) :
    (scheme.addSigil sigil).aliases = scheme.aliases := by
  unfold addSigil
  split <;> rfl

@[simp] theorem aliases_withSigils (scheme : Scheme) (sigils : List Char) :
    (scheme.withSigils sigils).aliases = scheme.aliases := by
  induction sigils generalizing scheme with
  | nil => rfl
  | cons sigil others ih => rw [withSigils, List.foldl_cons, ← withSigils, ih, aliases_addSigil]

def around (before : List Char) (table : AliasTable) (after : List Char) : Scheme :=
  ((initial.withSigils before).withAliases table).withSigils after

@[simp] theorem aliases_around (before : List Char) (table : AliasTable) (after : List Char) :
    (around before table after).aliases = table := by
  rw [around, aliases_withSigils]
  rfl

/-- What a scheme knows nothing about begins with no dot, and the table does not address it. -/
theorem of_kind_eq_bare {scheme : Scheme} {specifier : String} (inhabited : specifier ≠ "")
    (bare : scheme.kind specifier = .bare) :
    specifier.toList.head? ≠ some '.' ∧ scheme.aliases.addressing specifier = [] := by
  unfold kind at bare
  split at bare
  · next empty => exact absurd (String.toList_eq_nil_iff.mp (List.head?_eq_none_iff.mp empty)) inhabited
  · next first begins =>
    split at bare
    · contradiction
    · next notDot =>
      split at bare
      · contradiction
      · split at bare
        · contradiction
        · next silent => exact ⟨by simpa [begins] using notDot, not_not.mp silent⟩

end Specifier.Scheme

open Specifier (Scheme)

theorem Resolver.resolve_of_bare {scheme : Scheme} {resolver : Resolver} (table : scheme.aliases = resolver.aliases)
    {specifier : String} (inhabited : specifier ≠ "") (bare : scheme.kind specifier = .bare) (origin : String) :
    resolver.resolve specifier origin = [] := by
  obtain ⟨notDot, silent⟩ := Scheme.of_kind_eq_bare inhabited bare
  rw [table] at silent
  simp [resolve, bases, notDot, silent]

namespace Import

theorem specifier_ne_empty {text : String} {occurrence : Occurrence} (found : occurrence ∈ occurrences text) :
    occurrence.specifier ≠ "" := by
  obtain ⟨form, -, inForm⟩ := List.mem_flatMap.mp found
  obtain ⟨body, -, spelled⟩ := List.mem_filterMap.mp inForm
  obtain ⟨specifier, read, rfl⟩ := Option.map_eq_some_iff.mp spelled
  unfold specifierOf? at read
  dsimp only at read
  split at read
  · contradiction
  · next fixed =>
    obtain rfl := Option.some.inj read
    intro empty
    exact fixed (.inl (by simpa using empty))

theorem mem_specifiers {scheme : Scheme} {text specifier : String} :
    specifier ∈ specifiers scheme text ↔
      (∃ occurrence ∈ occurrences text, occurrence.specifier = specifier) ∧ scheme.kind specifier ≠ .bare := by
  simp [specifiers]

theorem exists_mem_resolve_iff {scheme : Scheme} {resolver : Resolver} (table : scheme.aliases = resolver.aliases)
    {text origin key : String} :
    (∃ specifier ∈ specifiers scheme text, key ∈ resolver.resolve specifier origin) ↔
      ∃ occurrence ∈ occurrences text, key ∈ resolver.resolve occurrence.specifier origin := by
  constructor
  · rintro ⟨specifier, kept, reached⟩
    obtain ⟨⟨occurrence, found, rfl⟩, -⟩ := mem_specifiers.mp kept
    exact ⟨occurrence, found, reached⟩
  · rintro ⟨occurrence, found, reached⟩
    refine ⟨occurrence.specifier, mem_specifiers.mpr ⟨⟨occurrence, found, rfl⟩, fun bare => ?_⟩, reached⟩
    rw [Resolver.resolve_of_bare table (specifier_ne_empty found) bare] at reached
    cases reached

end Import

namespace Linker

theorem ascends_targets_outcome (linker : Linker) (fileSystem : FileSystem) (file : Candidate) :
    Ascending.Ascends (linker.outcome fileSystem file).targets := by
  unfold outcome
  split
  · exact Ascending.ascends_ofList _
  · exact .nil

/-- Sigils are only more reasons to keep a specifier. -/
theorem sigils_change_no_target (root : String) (extensions : List String) (table : AliasTable)
    (before after : List Char) :
    (∀ text origin key,
      (∃ specifier ∈ Import.specifiers (.around before table after) text,
        key ∈ (Resolver.configure root extensions table).resolve specifier origin) ↔
      ∃ occurrence ∈ Import.occurrences text,
        key ∈ (Resolver.configure root extensions table).resolve occurrence.specifier origin) ∧
    ∀ otherBefore otherAfter known fileSystem file,
      (outcome ⟨.around before table after, .configure root extensions table, known⟩ fileSystem file).targets =
        (outcome ⟨.around otherBefore table otherAfter, .configure root extensions table, known⟩
          fileSystem file).targets := by
  have knows : ∀ before after, (Scheme.around before table after).aliases =
      (Resolver.configure root extensions table).aliases := fun _ _ => Scheme.aliases_around _ _ _
  refine ⟨fun text origin key => Import.exists_mem_resolve_iff (knows before after), ?_⟩
  intro otherBefore otherAfter known fileSystem file
  refine (ascends_targets_outcome _ fileSystem file).ext (ascends_targets_outcome _ fileSystem file) fun key => ?_
  rw [mem_targets_outcome, mem_targets_outcome]
  unfold Candidate.Reaches
  simp only [Import.exists_mem_resolve_iff (knows _ _)]

end Linker

end Orphans
