import Orphans.Proofs.FileSystem.Linkless

/-! Ways that climb.

A way that is read from a directory may climb out of it by `..`, and then it is no longer known to end below
the directory. If it does so all the same, it has come back, and the only way in leads through the directory.
Keys and the file system agree on this as far as no step holds a back slash, which keys take for a separator.
-/

set_option autoImplicit false

namespace Orphans

/-! ### Steps that stay inside -/

namespace Key

/-- How deep below a place steps lead that are read so deep below it, unless one of them climbs above the place. -/
def depthAlong? (depth : Nat) (steps : List String) : Option Nat :=
  steps.foldlM (fun depth step => depthBelow? depth step.toList) depth

theorem depthAlong?_cons (depth : Nat) (step : String) (rest : List String) :
    depthAlong? depth (step :: rest) = (depthBelow? depth step.toList).bind (depthAlong? · rest) :=
  List.foldlM_cons

def StaysInside (steps : List String) : Prop := (depthAlong? 0 steps).isSome = true

instance (steps : List String) : Decidable (StaysInside steps) :=
  inferInstanceAs (Decidable (_ = _))

theorem advanceAll_below {names : List (List Char)} (named : ∀ name ∈ names, IsSegment name) {steps : List String}
    {depth : Nat} (stays : depthAlong? names.length steps = some depth) (above : List (List Char)) :
    advanceAll (above ++ names) steps = above ++ advanceAll names steps := by
  induction steps generalizing names with
  | nil => rfl
  | cons step rest ih =>
    rw [depthAlong?_cons] at stays
    obtain ⟨next, first, onwards⟩ := Option.bind_eq_some_iff.mp stays
    obtain ⟨rfl, alone⟩ := advance_below named first
    rw [advanceAll_cons, alone above]
    exact ih (fun _ => isSegment_of_mem_advance named) onwards

theorem isPrefix_advanceAll {steps : List String} (stays : StaysInside steps) (names : List (List Char)) :
    names <+: advanceAll names steps := by
  obtain ⟨depth, along⟩ := Option.isSome_iff_exists.mp stays
  have nothing : ∀ name ∈ ([] : List (List Char)), IsSegment name := by simp
  have below := advanceAll_below nothing along names
  rw [List.append_nil] at below
  exact ⟨_, below.symm⟩

end Key

/-! ### Ways that come back -/

namespace Path

/-- Only a name leads into a directory from outside, and it leads to the directory itself. -/
theorem eq_of_enters {place here : List String} {step : String} (outside : ¬ place <+: here)
    (inside : place <+: move here step) : move here step = place := by
  cases kind : isIdle step with
  | true =>
    rw [move_idle kind] at inside
    exact absurd inside outside
  | false =>
    by_cases parent : step = ".."
    · rw [parent, move_parent] at inside
      exact absurd (inside.trans (List.dropLast_prefix here)) outside
    · rw [move_down kind parent] at inside ⊢
      rcases List.prefix_concat_iff.mp inside with same | before
      · exact same.symm
      · exact absurd before outside

theorem exists_return {place here steps : List String} (outside : ¬ place <+: here)
    (inside : place <+: steps.foldl move here) :
    ∃ front, front <+: steps ∧ front ≠ [] ∧ front.foldl move here = place := by
  induction steps generalizing here with
  | nil => exact absurd inside outside
  | cons step rest ih =>
    by_cases enters : place <+: move here step
    · refine ⟨[step], ?_, List.cons_ne_nil _ _, eq_of_enters outside enters⟩
      exact (List.prefix_cons_inj step).mpr List.nil_prefix
    · obtain ⟨front, before, -, back⟩ := ih enters inside
      exact ⟨step :: front, (List.prefix_cons_inj step).mpr before, List.cons_ne_nil _ _, back⟩

/-- A step that both readings of separators take for one. -/
structure IsPlain (step : String) : Prop where
  busy : isIdle step = false
  no_slash : '/' ∉ step.toList
  no_backslash : '\\' ∉ step.toList

theorem isPlain_of_mem_steps {path step : String} (plain : '\\' ∉ path.toList) (member : step ∈ steps path) :
    IsPlain step := by
  obtain ⟨noSlash, busy⟩ := plain_of_mem_steps member
  refine ⟨busy, noSlash, fun inside => plain ?_⟩
  obtain ⟨chars, cut, rfl⟩ := List.mem_map.mp (List.mem_filter.mp member).1
  rw [String.toList_ofList] at inside
  exact (Key.mem_of_mem_splitOn cut _ inside).1

namespace IsPlain
variable {step : String} (plain : IsPlain step)
include plain

theorem splitOn_unify : (Key.unify step.toList).splitOn '/' = [step.toList] := by
  rw [Key.unify_of_not_mem plain.no_backslash, List.splitOn_eq_singleton plain.no_slash]

theorem isSegment (down : step ≠ "..") : Key.IsSegment step.toList := by
  have busy := plain.busy
  simp only [isIdle, Bool.or_eq_false_iff, beq_eq_false_iff_ne] at busy
  refine ⟨fun empty => ?_, fun dot => ?_, fun parent => ?_, plain.no_slash, plain.no_backslash⟩
  · exact busy.1 (String.toList_injective empty)
  · exact busy.2 (String.toList_injective dot)
  · exact down (String.toList_injective parent)

theorem depthBelow?_eq (depth : Nat) :
    Key.depthBelow? depth step.toList =
      if step = ".." then if depth = 0 then none else some (depth - 1) else some (depth + 1) := by
  rw [Key.depthBelow?, plain.splitOn_unify]
  by_cases parent : step = ".."
  · subst parent
    simp [Key.depthAfter?]
  · have named := plain.isSegment parent
    simp [Key.depthAfter?, named.ne_nil, named.ne_current, named.ne_parent, parent]

theorem advance_eq {here : List String} (named : ∀ name ∈ here, Key.IsSegment name.toList) :
    Key.advance (here.map String.toList) step.toList = (move here step).map String.toList ∧
      ∀ name ∈ move here step, Key.IsSegment name.toList := by
  rw [Key.advance, plain.splitOn_unify, List.foldl_cons, List.foldl_nil]
  by_cases parent : step = ".."
  · subst parent
    rw [move_parent]
    refine ⟨?_, fun name member => named name (List.dropLast_subset here member)⟩
    rcases List.eq_nil_or_concat here with rfl | ⟨front, last, rfl⟩
    · decide
    · rw [List.concat_eq_append] at named ⊢
      have lastNamed := (named last (by simp)).ne_parent
      simp [Key.pushSegment, lastNamed]
  · have segment := plain.isSegment parent
    rw [move_down plain.busy parent, Key.pushSegment_of_isSegment true _ segment]
    refine ⟨by simp, ?_⟩
    simpa [or_imp, forall_and, segment] using named

end IsPlain

theorem advanceAll_eq_foldl_move {here steps : List String} (plain : ∀ step ∈ steps, IsPlain step)
    (named : ∀ name ∈ here, Key.IsSegment name.toList) :
    Key.advanceAll (here.map String.toList) steps = (steps.foldl move here).map String.toList := by
  induction steps generalizing here with
  | nil => rfl
  | cons step rest ih =>
    obtain ⟨first, nextNamed⟩ := (plain step List.mem_cons_self).advance_eq named
    rw [Key.advanceAll_cons, first]
    exact ih (fun other member => plain other (List.mem_cons_of_mem _ member)) nextNamed

theorem segments_eq_place {path : String} (plain : '\\' ∉ path.toList) :
    Key.segments path.toList = (place path).map String.toList := by
  have nothing : ∀ name ∈ ([] : List String), Key.IsSegment name.toList := by simp
  rw [Key.segments_eq_advanceAll]
  exact advanceAll_eq_foldl_move (fun _ => isPlain_of_mem_steps plain) nothing

/-- A way that leaves a directory and ends in it has come back to the directory. -/
theorem exists_return_of_climbs {place below steps : List String} (inhabited : place ≠ [])
    (plain : ∀ step ∈ steps, IsPlain step) (climbs : Key.depthAlong? below.length steps = none)
    (inside : place <+: steps.foldl move (place ++ below)) :
    ∃ front, front <+: steps ∧ front ≠ [] ∧ front.foldl move (place ++ below) = place := by
  induction steps generalizing below with
  | nil => cases climbs
  | cons step rest ih =>
    have stepPlain := plain step List.mem_cons_self
    have restPlain := fun other member => plain other (List.mem_cons_of_mem step member)
    rw [Key.depthAlong?_cons, stepPlain.depthBelow?_eq] at climbs
    -- Further down the way stays below the place, and the first steps are the same.
    have onwards : ∀ next, move (place ++ below) step = place ++ next →
        Key.depthAlong? next.length rest = none →
        ∃ front, front <+: step :: rest ∧ front ≠ [] ∧ front.foldl move (place ++ below) = place := by
      intro next moves climbsOn
      rw [List.foldl_cons, moves] at inside
      obtain ⟨front, before, -, back⟩ := ih restPlain climbsOn inside
      refine ⟨step :: front, (List.prefix_cons_inj step).mpr before, List.cons_ne_nil _ _, ?_⟩
      rw [List.foldl_cons, moves]
      exact back
    by_cases parent : step = ".."
    · subst parent
      rcases List.eq_nil_or_concat below with rfl | ⟨others, last, rfl⟩
      · -- Here the way leaves the place; from now on it is outside until it returns.
        have leaves : ¬ place <+: place.dropLast := by
          intro longer
          have lengths := longer.length_le
          have positive := List.length_pos_iff.mpr inhabited
          rw [List.length_dropLast] at lengths
          omega
        rw [List.append_nil] at inside ⊢
        obtain ⟨front, before, -, back⟩ := exists_return leaves inside
        exact ⟨".." :: front, (List.prefix_cons_inj _).mpr before, List.cons_ne_nil _ _, back⟩
      · rw [List.concat_eq_append] at climbs onwards ⊢
        refine onwards others ?_ ?_
        · rw [move_parent, ← List.append_assoc, List.dropLast_concat]
        · simpa using climbs
    · refine onwards (below ++ [step]) ?_ ?_
      · rw [move_down stepPlain.busy parent, List.append_assoc]
      · simpa [parent] using climbs

end Path

end Orphans
