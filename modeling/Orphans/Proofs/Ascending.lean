import Mathlib.Data.List.Basic
import Mathlib.Data.String.Basic
import Mathlib.Order.RelClasses
import Orphans.Ascending
import Orphans.Edge
import Orphans.Sorting

/-! Ascending lists as sets, and sorting into them.

An ascending list is determined by its members. Laws of union are therefore proved by comparing members,
never by following insertions, and a sorted list without repetitions is the set of its values.
-/

set_option autoImplicit false

namespace Orphans

namespace Edge

instance : IsStrictTotalOrder Edge (· < ·) where
  irrefl edge := by
    rw [lt_iff]
    rintro (below | ⟨-, below⟩)
    · exact String.lt_irrefl _ below
    · exact String.lt_irrefl _ below
  trans first second third := by
    simp only [lt_iff]
    rintro (left | ⟨sameLeft, left⟩) (right | ⟨sameRight, right⟩)
    · exact .inl (left.trans right)
    · exact .inl (sameRight ▸ left)
    · exact .inl (sameLeft ▸ right)
    · exact .inr ⟨sameLeft.trans sameRight, left.trans right⟩
  trichotomous first second := by
    intro notBelow notAbove
    -- Equal importers come first: only then are the imported keys compared.
    simp only [lt_iff, not_or, not_and] at notBelow notAbove
    have importers := le_antisymm (not_lt.mp notAbove.1) (not_lt.mp notBelow.1)
    have imported := le_antisymm (not_lt.mp (notAbove.2 importers.symm))
      (not_lt.mp (notBelow.2 importers))
    cases first
    cases second
    simp_all

end Edge

namespace Ascending

variable {α : Type} [LT α]

/-- The list of a set: every value is before all that follow it. -/
def Ascends (values : List α) : Prop := values.Pairwise (· < ·)

section
variable [IsStrictTotalOrder α (· < ·)]

theorem Ascends.nodup {values : List α} (ascends : Ascends values) : values.Nodup :=
  List.Pairwise.imp (fun below => ne_of_irrefl below) ascends

theorem Ascends.ext {left right : List α} (leftAscends : Ascends left) (rightAscends : Ascends right)
    (same : ∀ value, value ∈ left ↔ value ∈ right) : left = right := by
  have shuffled : left.Perm right :=
    (List.perm_ext_iff_of_nodup leftAscends.nodup rightAscends.nodup).mpr same
  refine shuffled.eq_of_pairwise ?_ leftAscends rightAscends
  intro first second _ _ below above
  exact absurd (IsTrans.trans _ _ _ below above) (irrefl first)

variable [DecidableLT α] [DecidableEq α]

theorem Ascends.insert {set : List α} (ascends : Ascends set) (value : α) :
    Ascends (Ascending.insert value set) := by
  induction set with
  | nil => exact List.pairwise_singleton _ _
  | cons first rest ih =>
    obtain ⟨least, restAscends⟩ := List.pairwise_cons.mp ascends
    unfold Ascending.insert
    split
    · next below =>
      refine List.pairwise_cons.mpr ⟨?_, ascends⟩
      intro member inside
      rcases List.mem_cons.mp inside with rfl | inRest
      · exact below
      · exact IsTrans.trans _ _ _ below (least member inRest)
    · next notBelow =>
      split
      · exact ascends
      · next different =>
        -- The value is neither below the first one nor equal to it.
        have above : first < value :=
          ((trichotomous_of (· < ·) value first).resolve_left notBelow).resolve_left different
        refine List.pairwise_cons.mpr ⟨?_, ih restAscends⟩
        intro member inside
        rcases mem_insert.mp inside with rfl | inRest
        · exact above
        · exact least member inRest

theorem Ascends.union {right : List α} (ascends : Ascends right) (left : List α) :
    Ascends (Ascending.union left right) := by
  induction left with
  | nil => exact ascends
  | cons first rest ih => exact ih.insert first

theorem ascends_ofList (values : List α) : Ascends (ofList values) := by
  have ascends : Ascends ([] : List α) := .nil
  exact ascends.union values

theorem ofList_congr {left right : List α} (same : ∀ value, value ∈ left ↔ value ∈ right) :
    ofList left = ofList right :=
  (ascends_ofList left).ext (ascends_ofList right) fun value => by
    simpa only [mem_ofList] using same value

omit [IsStrictTotalOrder α (· < ·)] in
theorem union_ofList (left right : List α) : union left (ofList right) = ofList (left ++ right) := by
  unfold union ofList
  rw [List.foldr_append]

theorem union_ofList_ofList (left right : List α) :
    union (ofList left) (ofList right) = ofList (left ++ right) := by
  rw [union_ofList]
  exact ofList_congr fun value => by simp

theorem union_flatMap {β : Type} (brings : β → List α) (items : List β) (item : β) :
    union (brings item) (ofList (items.flatMap brings)) =
      ofList ((items ++ [item]).flatMap brings) := by
  rw [union_ofList]
  exact ofList_congr fun value => by simp [or_comm]

end

end Ascending

namespace Sorting

variable {α : Type} {before : α → α → Bool}

theorem mem_sort {value : α} {values : List α} : value ∈ sort before values ↔ value ∈ values :=
  (sort_perm before values).mem_iff

variable [LT α] [IsStrictTotalOrder α (· < ·)]

theorem ascends_insert (order : ∀ first second, before first second = true ↔ first < second)
    {value : α} {values : List α} (ascends : Ascending.Ascends values) (fresh : value ∉ values) :
    Ascending.Ascends (insert before value values) := by
  induction values with
  | nil => exact List.pairwise_singleton _ _
  | cons first rest ih =>
    obtain ⟨least, restAscends⟩ := List.pairwise_cons.mp ascends
    have different : value ≠ first := List.ne_of_not_mem_cons fresh
    have freshInRest : value ∉ rest := List.not_mem_of_not_mem_cons fresh
    unfold insert
    split
    · next earlier =>
      refine List.pairwise_cons.mpr ⟨?_, ih restAscends freshInRest⟩
      intro member inside
      rcases List.mem_cons.mp ((insert_perm before value rest).mem_iff.mp inside) with rfl | inRest
      · exact (order first member).mp earlier
      · exact least member inRest
    · -- A new value is equal to none that is there, so it comes before the first that is not earlier.
      next notEarlier =>
      have notBelow : ¬ first < value := fun below => notEarlier ((order first value).mpr below)
      have below : value < first :=
        (trichotomous_of (· < ·) value first).resolve_right fun cases => cases.elim different notBelow
      refine List.pairwise_cons.mpr ⟨?_, ascends⟩
      intro member inside
      rcases List.mem_cons.mp inside with rfl | inRest
      · exact below
      · exact IsTrans.trans _ _ _ below (least member inRest)

theorem ascends_sort (order : ∀ first second, before first second = true ↔ first < second)
    {values : List α} (distinct : values.Nodup) : Ascending.Ascends (sort before values) := by
  induction values with
  | nil => exact List.Pairwise.nil
  | cons first rest ih =>
    obtain ⟨fresh, restDistinct⟩ := List.nodup_cons.mp distinct
    exact ascends_insert order (ih restDistinct) fun inside => fresh (mem_sort.mp inside)

theorem textBefore_iff (first second : String) : textBefore first second = true ↔ first < second :=
  decide_eq_true_iff

end Sorting

theorem Edge.before_iff (first second : Edge) : Edge.before first second = true ↔ first < second :=
  decide_eq_true_iff

end Orphans
