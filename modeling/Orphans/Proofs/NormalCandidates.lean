import Orphans.Proofs.ExactAlias
import Orphans.Proofs.Extension

/-! Candidates in normal form.

Candidates are compared with the keys of files, so they should be keys themselves. A base is one, and stays one with an
extension behind it or with an index file below it, as long as it is not `/`: there the index file is written with two
separators, and no file has such a key.
-/

set_option autoImplicit false

namespace Orphans

namespace Key

/-! ### Growing a key -/

section Growing
variable {key : String} (rooted : IsRooted key)
include rooted

theorem IsRooted.append_segment (below : key ≠ "/") {name : String} (named : IsSegment name.toList) :
    IsRooted (key ++ "/" ++ name) := by
  obtain ⟨names, allNamed, chars⟩ := rooted
  have inhabited : names ≠ [] := by
    rintro rfl
    exact below (String.toList_injective chars)
  refine ⟨names ++ [name.toList], ?_, ?_⟩
  · intro segment member
    rcases List.mem_append.mp member with inside | last
    · exact allNamed segment inside
    · rw [List.mem_singleton.mp last]
      exact named
  · rw [slash_joinSegments (by simp), trail_append, ← slash_joinSegments inhabited]
    simp [chars]

theorem IsRooted.append_extension {extension : String} (inhabited : extension.toList ≠ [])
    (noDot : extension.toList.head? ≠ some '.') (noSlash : '/' ∉ extension.toList)
    (noBackslash : '\\' ∉ extension.toList) : IsRooted (key ++ "." ++ extension) := by
  obtain ⟨names, named, chars⟩ := rooted
  obtain ⟨first, more, spelled⟩ := List.exists_cons_of_ne_nil inhabited
  rcases List.eq_nil_or_concat names with rfl | ⟨front, last, rfl⟩
  · have different : first ≠ '.' := by simpa [spelled] using noDot
    have grown : IsSegment ('.' :: extension.toList) := by
      refine ⟨by simp, by simp [spelled], by simp [spelled, different], by simpa using noSlash,
        by simpa using noBackslash⟩
    exact ⟨['.' :: extension.toList], by simpa using grown, by simp [chars, joinSegments]⟩
  · have lastNamed := named last (by simp)
    have grown : IsSegment (last ++ '.' :: extension.toList) := by
      -- What is that long is neither empty nor one of the dots.
      have long : 3 ≤ (last ++ '.' :: extension.toList).length := by
        have inside := List.length_pos_iff.mpr lastNamed.ne_nil
        rw [spelled, List.length_append, List.length_cons, List.length_cons]
        omega
      refine ⟨?_, ?_, ?_, by simp [lastNamed.no_slash, noSlash], by simp [lastNamed.no_backslash, noBackslash]⟩
      all_goals
        intro same
        rw [same] at long
        simp at long
    refine ⟨front ++ [last ++ '.' :: extension.toList], ?_, ?_⟩
    · intro segment member
      rcases List.mem_append.mp member with inside | last
      · exact named segment (by simp [inside])
      · rw [List.mem_singleton.mp last]
        exact grown
    · rw [slash_joinSegments (by simp)] at chars ⊢
      simp [chars]

end Growing

theorem not_isNormal_of_two_slashes {path : String} {rest : List Char} (chars : path.toList = '/' :: '/' :: rest) :
    ¬ IsNormal path := by
  intro normal
  have absolute : Path.isAbsolute path = true := Path.isAbsolute_iff.mpr ⟨_, chars⟩
  obtain ⟨names, named, key⟩ := isRooted_normalize absolute
  rw [normal, chars] at key
  have cut : '/' :: joinSegments names = [] ++ '/' :: '/' :: rest := key.symm
  exact (after_slash named cut).1 rfl

end Key

/-! ### Every candidate -/

namespace Resolver

open Key (IsRooted IsNormal)

theorem isRooted_of_mem_bases {resolver : Resolver} {specifier origin base : String}
    (rooted : IsRooted resolver.root) (originRooted : IsRooted origin)
    (isBase : base ∈ resolver.bases specifier origin) : IsRooted base := by
  by_cases relative : specifier.toList.head? = some '.'
  · rw [bases, if_pos relative, List.mem_singleton] at isBase
    rw [isBase]
    exact Key.isRooted_join originRooted.parent.isAbsolute specifier
  · obtain ⟨entry, -, rest, -, directory, -, rfl⟩ := (mem_bases_of_aliased resolver relative).mp isBase
    exact Key.isRooted_join (Key.isRooted_join rooted.isAbsolute directory).isAbsolute rest

def indexSuffix (extension : String) : String := "/" ++ indexStem ++ "." ++ extension

/-- What may stand behind a base: nothing behind a carried extension, every extension but the carried one, and every
index file. -/
theorem mem_suffixes {extensions : List String} {specifier suffix : String} :
    suffix ∈ suffixes extensions specifier ↔
      (suffix = "" ∧ Carries extensions specifier) ∨
      (∃ extension ∈ extensions, some extension ≠ extensions.find? (Extension.carriedBy specifier) ∧
        "." ++ extension = suffix) ∨
      ∃ extension ∈ extensions, indexSuffix extension = suffix := by
  have literal : (suffix ∈ if (extensions.find? (Extension.carriedBy specifier)).isSome then [""] else []) ↔
      suffix = "" ∧ Carries extensions specifier := by
    rw [Carries, ← List.find?_isSome]
    split
    · next found => simp [found]
    · next missing => simp [missing]
  rw [suffixes, List.mem_append, List.mem_append, literal, or_assoc]
  simp only [List.mem_map, List.mem_filter, and_assoc, decide_eq_true_eq, indexSuffix]

theorem cases_of_mem_suffixes {extensions : List String} {specifier suffix : String}
    (shaped : suffix ∈ suffixes extensions specifier) :
    suffix = "" ∨ (∃ extension ∈ extensions, suffix = "." ++ extension) ∨
      ∃ extension ∈ extensions, suffix = indexSuffix extension := by
  rcases mem_suffixes.mp shaped with ⟨literal, -⟩ | ⟨extension, inside, -, rfl⟩ | ⟨extension, inside, rfl⟩
  · exact .inl literal
  · exact .inr (.inl ⟨extension, inside, rfl⟩)
  · exact .inr (.inr ⟨extension, inside, rfl⟩)

theorem indexSuffix_mem_suffixes {extensions : List String} {extension : String} (inside : extension ∈ extensions)
    (specifier : String) : indexSuffix extension ∈ suffixes extensions specifier :=
  List.mem_append_right _ (List.mem_map_of_mem inside)

theorem not_isNormal_index_of_slash (extension : String) : ¬ IsNormal ("/" ++ indexSuffix extension) := by
  have chars : ("/" ++ indexSuffix extension).toList = '/' :: '/' :: (indexStem ++ "." ++ extension).toList := by
    simp [indexSuffix]
  exact Key.not_isNormal_of_two_slashes chars

section Shapes
variable {extensions : List String} (plain : ∀ text ∈ extensions, '/' ∉ text.toList ∧ '\\' ∉ text.toList)
include plain

/-- Of the shapes of a base, only the index file below `/` is no key. -/
theorem isRooted_append_suffix {base specifier suffix : String} (rooted : IsRooted base)
    (shaped : suffix ∈ suffixes (Extension.normalizeAll extensions) specifier) :
    IsRooted (base ++ suffix) ∨
      base = "/" ∧ ∃ extension ∈ Extension.normalizeAll extensions, suffix = indexSuffix extension := by
  have noSlash : ∀ extension ∈ Extension.normalizeAll extensions, '/' ∉ extension.toList := fun _ accepted =>
    Extension.not_mem_of_mem accepted fun text member => (plain text member).1
  have noBackslash : ∀ extension ∈ Extension.normalizeAll extensions, '\\' ∉ extension.toList := fun _ accepted =>
    Extension.not_mem_of_mem accepted fun text member => (plain text member).2
  rcases cases_of_mem_suffixes shaped with rfl | ⟨extension, accepted, rfl⟩ | ⟨extension, accepted, rfl⟩
  · rw [String.append_empty]
    exact .inl rooted
  · rw [← String.append_assoc]
    exact .inl (rooted.append_extension (Extension.toList_ne_nil_of_mem accepted)
      (Extension.head?_ne_dot_of_mem accepted) (noSlash extension accepted) (noBackslash extension accepted))
  · by_cases top : base = "/"
    · exact .inr ⟨top, extension, accepted, rfl⟩
    -- Behind any other base the name of the index file is one more segment.
    · have named : Key.IsSegment (indexStem ++ "." ++ extension).toList := by
        have chars : (indexStem ++ "." ++ extension).toList =
            'i' :: 'n' :: 'd' :: 'e' :: 'x' :: '.' :: extension.toList := by simp [indexStem]
        rw [chars]
        refine ⟨by simp, by simp, by simp, ?_, ?_⟩
        · simpa using noSlash extension accepted
        · simpa using noBackslash extension accepted
      have grown := rooted.append_segment top named
      simp only [String.append_assoc] at grown
      refine .inl ?_
      simpa only [indexSuffix, String.append_assoc] using grown

/-- Candidates begin with a separator, and are in normal form but for the index files of `/`. All of them are exactly if
the specifier does not lead to `/`, or there is no extension to put behind `index`. -/
theorem resolve_isNormal_iff {root : String} (rootAbsolute : Path.isAbsolute root = true) {origin : String}
    (originAbsolute : Path.isAbsolute origin = true) (originNormal : IsNormal origin) (aliases : AliasTable)
    (specifier : String) :
    (∀ key ∈ (configure root extensions aliases).resolve specifier origin,
      Path.isAbsolute key = true ∧
        (IsNormal key ↔ ¬ ∃ extension ∈ Extension.normalizeAll extensions, key = "/" ++ indexSuffix extension)) ∧
    ((∀ key ∈ (configure root extensions aliases).resolve specifier origin, IsNormal key) ↔
      "/" ∉ (configure root extensions aliases).bases specifier origin ∨ Extension.normalizeAll extensions = []) := by
  have rooted : IsRooted (configure root extensions aliases).root := Key.isRooted_normalize rootAbsolute
  have originRooted := Key.isRooted_of_isNormal originAbsolute originNormal
  -- A candidate is a key, or one of the index files of `/`.
  have shapes : ∀ key ∈ (configure root extensions aliases).resolve specifier origin, IsRooted key ∨
      "/" ∈ (configure root extensions aliases).bases specifier origin ∧
        ∃ extension ∈ Extension.normalizeAll extensions, key = "/" ++ indexSuffix extension := by
    intro key reached
    obtain ⟨base, isBase, suffix, shaped, rfl⟩ := (mem_resolve _).mp reached
    rcases isRooted_append_suffix plain (isRooted_of_mem_bases rooted originRooted isBase) shaped with
      grown | ⟨rfl, extension, accepted, rfl⟩
    · exact .inl grown
    · exact .inr ⟨isBase, extension, accepted, rfl⟩
  constructor
  · intro key reached
    rcases shapes key reached with grown | ⟨-, extension, accepted, rfl⟩
    · refine ⟨grown.isAbsolute, iff_of_true grown.isNormal ?_⟩
      rintro ⟨extension, -, rfl⟩
      exact not_isNormal_index_of_slash extension grown.isNormal
    · refine ⟨Path.isAbsolute_append (by decide) _, iff_of_false (not_isNormal_index_of_slash extension) ?_⟩
      exact fun none => none ⟨extension, accepted, rfl⟩
  · constructor
    · intro allNormal
      by_contra both
      obtain ⟨top, someExtension⟩ := not_or.mp both
      obtain ⟨extension, accepted⟩ := List.exists_mem_of_ne_nil _ someExtension
      apply not_isNormal_index_of_slash extension
      apply allNormal
      exact (mem_resolve _).mpr ⟨"/", not_not.mp top, _, indexSuffix_mem_suffixes accepted specifier, rfl⟩
    · intro either key reached
      rcases shapes key reached with grown | ⟨top, extension, accepted, -⟩
      · exact grown.isNormal
      · rcases either with below | none
        · exact absurd top below
        · rw [none] at accepted
          cases accepted

end Shapes

/-- Climbing to a place below `/` gives keys, from a file in `/` too. -/
theorem resolve_isNormal_besideRoot :
    (∀ key ∈ (configure "/p" ["ts", ".tsx"] (.ofEntries [("@/*", ["../*"])])).resolve "@/lib/../x" "/a.ts",
      IsNormal key) ∧
      (∀ key ∈ (configure "/" ["ts", ".tsx"] []).resolve "./b.ts" "/a.ts", IsNormal key) := by
  constructor
  · refine (resolve_isNormal_iff ?_ ?_ ?_ ?_ _ _).2.mpr (.inl ?_) <;> decide
  · refine (resolve_isNormal_iff ?_ ?_ ?_ ?_ _ _).2.mpr (.inl ?_) <;> decide

/-- A file in `/` that imports its directory is led to a text that no key is, and not to the key of the index file. -/
theorem resolve_misses_rootIndex :
    Path.isAbsolute "/a.ts" = true ∧ IsNormal "/" ∧ IsNormal "/a.ts" ∧
      (configure "/" ["ts"] []).resolve "./" "/a.ts" = ["/.ts", "//index.ts"] ∧ ¬ IsNormal "//index.ts" := by
  decide

end Resolver

end Orphans
