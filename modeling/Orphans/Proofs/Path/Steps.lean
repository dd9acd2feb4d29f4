import Mathlib.Data.List.Induction
import Orphans.Proofs.Resolution

/-! The steps of a path.

Repeated separators and dots lead nowhere, so a path is read through the pieces that are left. Joining adds
steps, a path that is made absolute has the steps of the working directory in front, and the parent of an
absolute path lacks the last step, also if that is `..`.
-/

set_option autoImplicit false

namespace Orphans

namespace Path

def steps (path : String) : List String := (pieces path).filter fun piece => !isIdle piece

theorem slash_not_mem_of_mem_pieces {path piece : String} (member : piece ∈ pieces path) : '/' ∉ piece.toList := by
  obtain ⟨chars, inside, rfl⟩ := List.mem_map.mp member
  rw [String.toList_ofList]
  exact fun slash => (Key.mem_of_mem_splitOn inside '/' slash).2 rfl

theorem plain_of_mem_steps {path step : String} (member : step ∈ steps path) :
    '/' ∉ step.toList ∧ isIdle step = false := by
  obtain ⟨inside, busy⟩ := List.mem_filter.mp member
  exact ⟨slash_not_mem_of_mem_pieces inside, by simpa using busy⟩

theorem steps_of_plain {step : String} (plain : '/' ∉ step.toList) (busy : isIdle step = false) :
    steps step = [step] := by
  simp [steps, pieces, List.splitOn_eq_singleton plain, busy]

theorem joinPieces_pieces (path : String) : joinPieces (pieces path) = path := by
  apply String.toList_injective
  simp [joinPieces, pieces, Function.comp_def]

theorem mem_joinPieces {parts : List String} {c : Char} (member : c ∈ (joinPieces parts).toList) (other : c ≠ '/') :
    ∃ part ∈ parts, c ∈ part.toList := by
  induction parts with
  | nil => simp [joinPieces] at member
  | cons first rest ih =>
    cases rest with
    | nil => exact ⟨first, List.mem_cons_self, by simpa [joinPieces] using member⟩
    | cons next more =>
      have split : c ∈ first.toList ∨ c ∈ (joinPieces (next :: more)).toList := by
        simpa [joinPieces, String.intercalate_cons_cons, other] using member
      rcases split with inFirst | inRest
      · exact ⟨first, List.mem_cons_self, inFirst⟩
      · obtain ⟨part, inside, found⟩ := ih inRest
        exact ⟨part, List.mem_cons_of_mem _ inside, found⟩

theorem pieces_rooted {parts : List String} (inhabited : parts ≠ []) (plain : ∀ part ∈ parts, '/' ∉ part.toList) :
    pieces ("/" ++ joinPieces parts) = "" :: parts := by
  have cut : (['/'].intercalate (parts.map String.toList)).splitOn '/' = parts.map String.toList := by
    refine List.splitOn_intercalate '/' ?_ (by simpa using inhabited)
    intro chars member
    obtain ⟨part, inside, rfl⟩ := List.mem_map.mp member
    exact plain part inside
  have chars : ("/" ++ joinPieces parts).toList = '/' :: ['/'].intercalate (parts.map String.toList) := by
    simp [joinPieces, String.toList_intercalate]
  rw [pieces, chars, List.splitOn_cons_eq_if_modifyHead, if_pos (beq_self_eq_true '/'), cut]
  simp [Function.comp_def]

theorem steps_rooted {parts : List String} (plain : ∀ part ∈ parts, '/' ∉ part.toList) :
    steps ("/" ++ joinPieces parts) = parts.filter fun piece => !isIdle piece := by
  by_cases empty : parts = []
  · subst empty
    decide
  · rw [steps, pieces_rooted empty plain]
    rfl

/-! ### Joining -/

theorem steps_join {base tail : String} (inhabited : base ≠ "") (relative : isAbsolute tail = false) :
    steps (join base tail) = steps base ++ steps tail := by
  obtain ⟨stem, ends, joined⟩ := exists_stem inhabited
  have whole : pieces (join base tail) = (stem.splitOn '/').map String.ofList ++ pieces tail := by
    simp [pieces, joined tail relative, List.splitOn_append_cons_self]
  rw [steps, whole, List.filter_append, ← steps]
  congr 1
  rcases ends with same | same
  · rw [steps, pieces, same]
  · -- The separator at the end of the base leaves an idle piece behind.
    have idle : isIdle (String.ofList []) = true := by decide
    simp [steps, pieces, same, List.splitOn_append_cons_self, idle]

theorem steps_foldl_join {base : String} (absolute : isAbsolute base = true) {more : List String}
    (plain : ∀ step ∈ more, '/' ∉ step.toList ∧ isIdle step = false) :
    steps (more.foldl join base) = steps base ++ more := by
  induction more generalizing base with
  | nil => simp
  | cons step rest ih =>
    obtain ⟨noSlash, busy⟩ := plain step List.mem_cons_self
    have relative : isAbsolute step = false := by
      rw [← Bool.not_eq_true, isAbsolute_iff]
      rintro ⟨chars, same⟩
      exact noSlash (same ▸ List.mem_cons_self)
    have restPlain := fun other member => plain other (List.mem_cons_of_mem step member)
    rw [List.foldl_cons, ih (isAbsolute_join absolute step) restPlain,
      steps_join (ne_empty_of_isAbsolute absolute) relative, steps_of_plain noSlash busy, List.append_assoc]
    rfl

theorem text_bodyComponents (parts : List String) :
    (bodyComponents parts).map Component.text = parts.filter fun piece => !isIdle piece := by
  rw [bodyComponents, List.map_map]
  conv_rhs => rw [← List.map_id (parts.filter _)]
  refine List.map_congr_left fun piece _ => ?_
  by_cases parent : piece = ".."
  · simp [parent, Component.text]
  · simp [parent, Component.text]

theorem text_components_of_isAbsolute {path : String} (absolute : isAbsolute path = true) :
    ∃ body, components path = .root :: body ∧ body.map Component.text = steps path := by
  obtain ⟨first, rest, parts⟩ := pieces_of_isAbsolute absolute
  refine ⟨bodyComponents (first :: rest), by rw [components, parts, componentsOf], ?_⟩
  rw [text_bodyComponents, steps, parts]
  rfl

theorem text_components_of_relative {path : String} (relative : isAbsolute path = false) :
    (dropLeadingCurrent (components path)).map Component.text = steps path := by
  rw [components, steps]
  unfold componentsOf
  split
  · next first rest parts =>
    -- Two pieces, the first of them empty, are those of an absolute path.
    have slash : path = "/" ++ joinPieces (first :: rest) := by
      rw [← joinPieces_pieces path, parts, joinPieces, String.intercalate_cons_cons]
      rfl
    rw [slash, isAbsolute_append (by decide)] at relative
    cases relative
  · next rest parts =>
    rw [dropLeadingCurrent, text_bodyComponents, parts]
    rfl
  · -- No step is read as `.`, so nothing is taken away in front.
    have named : ∀ part ∈ bodyComponents (pieces path), part ≠ .current := by
      intro part member
      obtain ⟨piece, -, rfl⟩ := List.mem_map.mp member
      split <;> simp
    have kept : dropLeadingCurrent (bodyComponents (pieces path)) = bodyComponents (pieces path) := by
      unfold dropLeadingCurrent
      split
      · next rest shape => exact absurd rfl (named .current (by rw [shape]; exact List.mem_cons_self))
      · rfl
    rw [kept, text_bodyComponents]

theorem appendComponents_eq (start : String) (parts : List Component) :
    appendComponents start parts = (parts.map Component.text).foldl join start := by
  rw [appendComponents, List.foldl_map]

theorem steps_absolute? {workingDirectory path whole : String} (placed : isAbsolute workingDirectory = true)
    (made : absolute? workingDirectory path = some whole) :
    steps whole = if isAbsolute path then steps path else steps workingDirectory ++ steps path := by
  have plain : ∀ step ∈ steps path, '/' ∉ step.toList ∧ isIdle step = false := fun _ => plain_of_mem_steps
  have body : steps (absoluteBody workingDirectory path) =
      if isAbsolute path then steps path else steps workingDirectory ++ steps path := by
    unfold absoluteBody
    cases absolute : isAbsolute path with
    | false =>
      simp only [Bool.false_eq_true, if_false, appendComponents_eq, text_components_of_relative absolute]
      exact steps_foldl_join placed plain
    | true =>
      obtain ⟨parts, read, texts⟩ := text_components_of_isAbsolute absolute
      simp only [if_true, read, List.tail_cons, appendComponents_eq, List.map_cons, texts, List.foldl_cons]
      -- Two separators in front are kept, and lead no further than one.
      split
      · exact steps_foldl_join (by decide) plain
      · have start : join "" Component.root.text = "/" := by decide
        rw [start]
        exact steps_foldl_join (by decide) plain
  rw [absolute?_eq] at made
  by_cases empty : path.toList = []
  · rw [if_pos empty] at made
    cases made
  · rw [if_neg empty] at made
    obtain rfl := Option.some.inj made
    rw [← body]
    split
    · rw [steps_join (ne_empty_of_isAbsolute (isAbsolute_absoluteBody placed path)) (by decide)]
      exact List.append_nil _
    · rfl

/-! ### Parents -/

theorem dropIdleEnd_cases (parts : List String) :
    (dropIdleEnd parts = [] ∧ parts.filter (fun piece => !isIdle piece) = []) ∨
    ∃ front last, dropIdleEnd parts = front ++ [last] ∧ isIdle last = false ∧ front ++ [last] <+: parts ∧
      parts.filter (fun piece => !isIdle piece) = front.filter (fun piece => !isIdle piece) ++ [last] := by
  induction parts using List.reverseRecOn with
  | nil => exact .inl ⟨rfl, rfl⟩
  | append_singleton parts last ih =>
    cases idle : isIdle last with
    | true =>
      have dropped : dropIdleEnd (parts ++ [last]) = dropIdleEnd parts := by simp [dropIdleEnd, idle]
      rw [dropped]
      rcases ih with ⟨empty, lone⟩ | ⟨front, step, kept, busy, before, filtered⟩
      · exact .inl ⟨empty, by simp [lone, idle]⟩
      · exact .inr ⟨front, step, kept, busy, before.trans (List.prefix_append _ _), by simp [filtered, idle]⟩
    | false => exact .inr ⟨parts, last, by simp [dropIdleEnd, idle], idle, List.prefix_rfl, by simp [idle]⟩

theorem isPrefix_joinPieces {front parts : List String} (before : front <+: parts) :
    (joinPieces front).toList <+: (joinPieces parts).toList := by
  obtain ⟨back, rfl⟩ := before
  by_cases none : front = []
  · subst none
    exact List.nil_prefix
  · by_cases all : back = []
    · simp [all]
    · rw [joinPieces, joinPieces, String.intercalate_append_of_ne_nil none all, String.toList_append,
        String.toList_append, List.append_assoc]
      exact List.prefix_append _ _

/-- The parent of an absolute path is a stretch of its text, and lacks its last step. -/
theorem parent?_of_isAbsolute {path : String} (absolute : isAbsolute path = true) :
    (parent? path = none ∧ steps path = []) ∨
    ∃ above last, parent? path = some above ∧ isAbsolute above = true ∧ above.toList <+: path.toList ∧
      steps path = steps above ++ [last] := by
  obtain ⟨first, rest, parts⟩ := pieces_of_isAbsolute absolute
  have read : steps path = (first :: rest).filter fun piece => !isIdle piece := by
    rw [steps, parts]
    rfl
  have plain : ∀ part ∈ first :: rest, '/' ∉ part.toList := fun part member =>
    slash_not_mem_of_mem_pieces (parts ▸ List.mem_cons_of_mem _ member)
  have text : path = "/" ++ joinPieces (first :: rest) := by
    conv_lhs => rw [← joinPieces_pieces path, parts, joinPieces, String.intercalate_cons_cons]
    rfl
  -- Whichever pieces are kept in front, they make an absolute path with the steps among them.
  have above : ∀ kept, kept <+: first :: rest →
      isAbsolute ("/" ++ joinPieces kept) = true ∧ ("/" ++ joinPieces kept).toList <+: path.toList ∧
        steps ("/" ++ joinPieces kept) = kept.filter fun piece => !isIdle piece := by
    intro kept before
    refine ⟨isAbsolute_append (by decide) _, ?_, steps_rooted fun part member => plain part (before.subset member)⟩
    rw [text, String.toList_append, String.toList_append]
    exact (List.prefix_append_right_inj _).mpr (isPrefix_joinPieces before)
  rw [parent?, parts]
  simp only [parentAfter]
  rcases dropIdleEnd_cases (first :: rest) with ⟨none, lone⟩ | ⟨front, last, kept, -, before, filtered⟩
  · exact .inl ⟨by rw [none], read.trans lone⟩
  · have frontBefore : front <+: first :: rest := (List.prefix_append front [last]).trans before
    rcases dropIdleEnd_cases front with ⟨none, lone⟩ | ⟨others, next, keptFront, busy, beforeFront, filteredFront⟩
    · refine .inr ⟨"/", last, ?_, by decide, (above [] List.nil_prefix).2.1, ?_⟩
      · simp [kept, none]
      · rw [read, filtered, lone]
        rfl
    · obtain ⟨rooted, shorter, stepsAbove⟩ := above (others ++ [next]) (beforeFront.trans frontBefore)
      refine .inr ⟨_, last, ?_, rooted, shorter, ?_⟩
      · simp [kept, keptFront]
      · rw [read, filtered, filteredFront, stepsAbove]
        simp [busy]

end Path

/-! ### Keys -/

namespace Key

open Orphans.Path (steps isIdle)

def advanceAll (names : List (List Char)) (steps : List String) : List (List Char) :=
  steps.foldl (fun names step => advance names step.toList) names

theorem advanceAll_cons (names : List (List Char)) (step : String) (rest : List String) :
    advanceAll names (step :: rest) = advanceAll (advance names step.toList) rest := rfl

theorem advanceAll_append (names : List (List Char)) (front back : List String) :
    advanceAll names (front ++ back) = advanceAll (advanceAll names front) back :=
  List.foldl_append

theorem advance_joinPieces {parts : List String} (inhabited : parts ≠ []) (names : List (List Char)) :
    advance names (Path.joinPieces parts).toList = advanceAll names parts := by
  induction parts generalizing names with
  | nil => exact absurd rfl inhabited
  | cons first rest ih =>
    cases rest with
    | nil => simp [Path.joinPieces, advanceAll]
    | cons next more =>
      have chars : (Path.joinPieces (first :: next :: more)).toList =
          first.toList ++ '/' :: (Path.joinPieces (next :: more)).toList := by
        simp [Path.joinPieces, String.intercalate_cons_cons]
      rw [chars, advance_append, ih (List.cons_ne_nil _ _)]
      rfl

theorem advance_idle {piece : String} (idle : isIdle piece = true) (names : List (List Char)) :
    advance names piece.toList = names := by
  rcases (Bool.or_eq_true _ _).mp idle with empty | dot
  · rw [eq_of_beq empty]
    exact advance_nil names
  · rw [eq_of_beq dot]
    exact advance_current names

theorem advanceAll_filter (names : List (List Char)) (pieces : List String) :
    advanceAll names (pieces.filter fun piece => !isIdle piece) = advanceAll names pieces := by
  induction pieces generalizing names with
  | nil => rfl
  | cons piece rest ih =>
    cases idle : isIdle piece with
    | true => simp [idle, advanceAll_cons, advance_idle idle, ih]
    | false => simp [idle, advanceAll_cons, ih]

/-- A path is read step by step, whatever else separates its steps. -/
theorem segments_eq_advanceAll (path : String) : segments path.toList = advanceAll [] (steps path) := by
  have read := advance_joinPieces (Path.pieces_ne_nil path) []
  rw [Path.joinPieces_pieces] at read
  rw [steps, advanceAll_filter]
  exact read

end Key

end Orphans
