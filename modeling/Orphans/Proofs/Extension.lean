import Mathlib.Data.List.Basic
import Orphans.Extension

/-! Extensions behind names.

A normalized extension is not empty and begins with no dot, so a name with a dot and the extension behind it is neither
`.` nor `..`. A specifier carries an extension without separators in its last stretch, whatever stands before that.
-/

set_option autoImplicit false

namespace Orphans.Extension

theorem isInfix_normalize (text : String) : (normalize text).toList <:+: text.toList := by
  rw [normalize, String.toList_ofList]
  exact (List.dropWhile_suffix _).isInfix.trans (Text.isInfix_trim _)

theorem head?_normalize (text : String) : (normalize text).toList.head? ≠ some '.' := by
  rw [normalize, String.toList_ofList]
  intro dot
  have kept := List.head?_dropWhile_not (· == '.') (Text.trim text.toList)
  rw [dot] at kept
  simp at kept

section Configured
variable {extensions : List String} {extension : String} (accepted : extension ∈ normalizeAll extensions)
include accepted

theorem toList_ne_nil_of_mem : extension.toList ≠ [] := by
  obtain ⟨-, kept⟩ := List.mem_filter.mp accepted
  simpa using kept

theorem head?_ne_dot_of_mem : extension.toList.head? ≠ some '.' := by
  obtain ⟨inside, -⟩ := List.mem_filter.mp accepted
  obtain ⟨text, -, rfl⟩ := List.mem_map.mp inside
  exact head?_normalize text

theorem not_mem_of_mem {c : Char} (absent : ∀ text ∈ extensions, c ∉ text.toList) : c ∉ extension.toList := by
  obtain ⟨inside, -⟩ := List.mem_filter.mp accepted
  obtain ⟨text, member, rfl⟩ := List.mem_map.mp inside
  exact fun held => absent text member ((isInfix_normalize text).subset held)

end Configured

theorem carriedBy_iff {specifier extension : String} :
    carriedBy specifier extension = true ↔
      ∃ stem, stem ≠ [] ∧ specifier.toList = stem ++ '.' :: extension.toList := by
  unfold carriedBy
  constructor
  · intro carried
    split at carried
    · next front found =>
      obtain ⟨ends, long⟩ := Bool.and_eq_true_iff.mp carried
      obtain ⟨stem, rfl⟩ := List.getLast?_eq_some_iff.mp (by simpa using ends)
      refine ⟨stem, ?_, ?_⟩
      · rintro rfl
        simp at long
      · rw [← List.isSuffixOf?_eq_some_iff_append_eq.mp found, List.append_assoc, List.singleton_append]
    · cases carried
  · rintro ⟨stem, inhabited, chars⟩
    have found : extension.toList.isSuffixOf? specifier.toList = some (stem ++ ['.']) :=
      List.isSuffixOf?_eq_some_iff_append_eq.mpr (by simp [chars])
    have long : 0 < stem.length := List.length_pos_iff.mpr inhabited
    simp [found, long]

/-- An extension without separators is carried by what stands behind a separator, or not at all. -/
theorem carriedBy_behind_slash {extension : String} (plain : '/' ∉ extension.toList) (front rest : String) :
    carriedBy (front ++ "/" ++ rest) extension = true ↔ '.' :: extension.toList <:+ rest.toList := by
  have chars : (front ++ "/" ++ rest).toList = front.toList ++ '/' :: rest.toList := by simp
  rw [carriedBy_iff, chars]
  constructor
  · rintro ⟨stem, -, same⟩
    have behind : '/' :: rest.toList <:+ stem ++ '.' :: extension.toList := ⟨front.toList, same⟩
    -- Both are endings of the specifier. The longer one cannot be the extension, which holds no separator.
    rcases List.suffix_or_suffix_of_suffix behind (List.suffix_append stem _) with longer | shorter
    · rcases List.mem_cons.mp (longer.subset List.mem_cons_self) with dot | inside
      · cases dot
      · exact absurd inside plain
    · rcases List.suffix_cons_iff.mp shorter with whole | ends
      · cases whole
      · exact ends
  · rintro ⟨stem, ends⟩
    exact ⟨front.toList ++ '/' :: stem, by simp, by simp [← ends]⟩

end Orphans.Extension
