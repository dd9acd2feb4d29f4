import Orphans.Proofs.Resolution

/-! Aliases without a wildcard.

An exact alias addresses its own key and leaves nothing behind the head, so the paths of its targets are bases of the
key. Whether such a path is itself a candidate is not read off the path: the ending of the key decides.
-/

set_option autoImplicit false

namespace Orphans

namespace Alias

/-- A key or target that ends neither in a wildcard nor in a separator. -/
def IsExact (text : String) : Prop :=
  text.toList.getLast? ≠ some '*' ∧ text.toList.getLast? ≠ some '/'

instance (text : String) : Decidable (IsExact text) :=
  inferInstanceAs (Decidable (_ ∧ _))

theorem splitWildcard_of_isExact {text : String} (exact : IsExact text) :
    splitWildcard text.toList = (text.toList, .exact) := by
  obtain ⟨noWildcard, noSlash⟩ := exact
  unfold splitWildcard
  split
  · next front found =>
    have chars := List.isSuffixOf?_eq_some_iff_append_eq.mp found
    exact absurd (by simp [← chars]) noWildcard
  · split
    · next front found =>
      have chars := List.isSuffixOf?_eq_some_iff_append_eq.mp found
      exact absurd (by simp [← chars]) noWildcard
    · rcases List.eq_nil_or_concat text.toList with empty | ⟨front, last, chars⟩
      · rw [empty]
        rfl
      · have different : last ≠ '/' := by simpa [chars] using noSlash
        simp [chars, Text.dropEndWhile, different]

theorem withoutWildcard_of_isExact {text : String} (exact : IsExact text) : withoutWildcard text = text := by
  rw [withoutWildcard, splitWildcard_of_isExact exact, String.ofList_toList]

theorem remainder?_ofEntry {key : String} (exact : IsExact key) (targets : List String) :
    (ofEntry key targets).remainder? key = some "" := by
  have whole : key.toList.isPrefixOf? key.toList = some [] :=
    List.isPrefixOf?_eq_some_iff_append_eq.mpr (List.append_nil _)
  simp [remainder?, ofEntry, withoutWildcard_of_isExact exact, splitWildcard_of_isExact exact, whole]

end Alias

namespace Resolver

def Carries (extensions : List String) (specifier : String) : Prop :=
  ∃ extension ∈ extensions, Extension.carriedBy specifier extension = true

theorem empty_mem_suffixes {extensions : List String} {specifier : String} (carries : Carries extensions specifier) :
    "" ∈ suffixes extensions specifier := by
  have found : (extensions.find? (Extension.carriedBy specifier)).isSome = true := List.find?_isSome.mpr carries
  simp [suffixes, found]

theorem suffixes_of_not_carries {extensions : List String} {specifier : String}
    (plain : ¬Carries extensions specifier) :
    suffixes extensions specifier =
      extensions.map ("." ++ ·) ++ extensions.map ("/" ++ indexStem ++ "." ++ ·) := by
  have none : extensions.find? (Extension.carriedBy specifier) = none := by
    rw [List.find?_eq_none]
    exact fun extension inside carried => plain ⟨extension, inside, carried⟩
  simp [suffixes, none]

theorem mem_resolve_of_mem_bases {resolver : Resolver} {specifier origin key : String}
    (isBase : key ∈ resolver.bases specifier origin) :
    key ∈ resolver.resolve specifier origin ↔ Carries resolver.extensions specifier ∨
      ∃ base ∈ resolver.bases specifier origin, ∃ extension ∈ resolver.extensions,
        base ++ "." ++ extension = key ∨ base ++ "/" ++ indexStem ++ "." ++ extension = key := by
  rw [mem_resolve]
  by_cases carries : Carries resolver.extensions specifier
  · have literal : ∃ base ∈ resolver.bases specifier origin,
        ∃ suffix ∈ suffixes resolver.extensions specifier, base ++ suffix = key :=
      ⟨key, isBase, "", empty_mem_suffixes carries, String.append_empty⟩
    exact iff_of_true literal (.inl carries)
  · rw [suffixes_of_not_carries carries, or_iff_right carries]
    refine exists_congr fun base => and_congr_right fun _ => ?_
    simp only [List.mem_append, List.mem_map, String.append_assoc]
    constructor
    · rintro ⟨suffix, ⟨extension, accepted, rfl⟩ | ⟨extension, accepted, rfl⟩, shaped⟩
      · exact ⟨extension, accepted, .inl shaped⟩
      · exact ⟨extension, accepted, .inr shaped⟩
    · rintro ⟨extension, accepted, shaped | shaped⟩
      · exact ⟨_, .inl ⟨extension, accepted, rfl⟩, shaped⟩
      · exact ⟨_, .inr ⟨extension, accepted, rfl⟩, shaped⟩

section

variable {root : String} (absolute : Path.isAbsolute root = true) (normal : Key.IsNormal root)
  (extensions : List String) {key target : String}

include absolute normal in
theorem join_root_join (target : String) :
    Key.join (Key.join (Key.normalize root) target) "" = Key.join root target := by
  rw [normal, Key.join_empty]
  exact (Key.isRooted_join absolute target).isNormal

variable (keyExact : Alias.IsExact key)
  (notDot : key.toList.head? ≠ some '.') (targetExact : Alias.IsExact target)
include absolute normal keyExact notDot targetExact

theorem mem_bases_of_exact {table : AliasTable} {targets : List String} (inside : target ∈ targets)
    (entry : Alias.ofEntry key targets ∈ table) (origin : String) :
    Key.join root target ∈ (configure root extensions table).bases key origin := by
  have addressed : (Alias.ofEntry key targets, "") ∈ table.addressing key :=
    List.mem_filterMap.mpr ⟨_, entry, by simp [Alias.remainder?_ofEntry keyExact]⟩
  have base : target ∈ (Alias.ofEntry key targets).bases :=
    List.mem_map.mpr ⟨target, inside, Alias.withoutWildcard_of_isExact targetExact⟩
  rw [bases, if_neg notDot]
  exact List.mem_flatMap.mpr ⟨_, addressed, List.mem_map.mpr ⟨target, base, join_root_join absolute normal target⟩⟩

theorem bases_of_only_exact (origin : String) :
    (configure root extensions [Alias.ofEntry key [target]]).bases key origin = [Key.join root target] := by
  rw [bases_of_only rfl notDot (Alias.remainder?_ofEntry keyExact [target])]
  simp [configure, Alias.ofEntry, Alias.withoutWildcard_of_isExact targetExact, join_root_join absolute normal]

/-- The file that an exact alias names is a candidate of the key if the key carries an extension. Without one, the
alias alone never proposes it; another base has to lead there. -/
theorem exactAlias_reaches_iff :
    (∀ table targets origin, target ∈ targets → Alias.ofEntry key targets ∈ table →
      (Key.join root target ∈ (configure root extensions table).resolve key origin ↔
        Carries (Extension.normalizeAll extensions) key ∨
          ∃ base ∈ (configure root extensions table).bases key origin, ∃ extension ∈ Extension.normalizeAll extensions,
            base ++ "." ++ extension = Key.join root target ∨
              base ++ "/" ++ indexStem ++ "." ++ extension = Key.join root target)) ∧
    ∀ origin, (Key.join root target ∈ (configure root extensions [Alias.ofEntry key [target]]).resolve key origin ↔
      Carries (Extension.normalizeAll extensions) key) := by
  constructor
  · intro table targets origin inside entry
    exact mem_resolve_of_mem_bases
      (mem_bases_of_exact absolute normal extensions keyExact notDot targetExact inside entry origin)
  · intro origin
    have only := bases_of_only_exact absolute normal extensions keyExact notDot targetExact origin
    rw [mem_resolve_of_mem_bases (by rw [only]; exact List.mem_singleton_self _), only]
    -- No candidate that is longer than the only base is that base again.
    refine or_iff_left ?_
    simp only [List.mem_singleton, exists_eq_left, String.append_assoc]
    rintro ⟨extension, -, same | same⟩
    all_goals
      have lengths := congrArg String.length same
      simp [String.length_append] at lengths

end

/-- A key with an extension reaches its file, and one without an extension by way of a second target. -/
theorem exactAlias_reaches_configFile :
    Key.join "/p" "config/index.ts" ∈
        (configure "/p" ["ts"] [Alias.ofEntry "@config.ts" ["config/index.ts"]]).resolve "@config.ts" "/p/src/a.ts" ∧
      Key.join "/p" "config/index.ts" ∈
        (configure "/p" ["ts"] [Alias.ofEntry "@config" ["config/index.ts", "config"]]).resolve "@config"
          "/p/src/a.ts" := by
  constructor
  · refine ((exactAlias_reaches_iff ?_ ?_ ["ts"] ?_ ?_ ?_).2 _).mpr ⟨"ts", ?_, ?_⟩ <;> decide
  · refine ((exactAlias_reaches_iff ?_ ?_ ["ts"] ?_ ?_ ?_).1 _ _ _ ?_ (List.mem_singleton_self _)).mpr
      (.inr ⟨"/p/config", ?_, "ts", ?_, .inr ?_⟩) <;> decide

/-- The target has an accepted extension, and the key has none. -/
theorem exactAlias_misses_configFile :
    Extension.carriedBy "config/index.ts" "ts" = true ∧
      Key.join "/p" "config/index.ts" ∉
        (configure "/p" ["ts"] [Alias.ofEntry "@config" ["config/index.ts"]]).resolve "@config" "/p/src/a.ts" := by
  decide

end Resolver

end Orphans
