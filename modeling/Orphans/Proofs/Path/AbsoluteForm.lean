import Mathlib.Data.List.TakeWhile
import Orphans.Proofs.Path.Steps

/-! Absolute forms of paths.

A path that is made absolute is written in one way: one or two separators, the steps with a separator between them,
and at most one separator at the end. Making such a path absolute changes nothing, and its parents are written so too.
-/

set_option autoImplicit false

namespace Orphans.Path

def IsStep (piece : String) : Prop := '/' ∉ piece.toList ∧ isIdle piece = false

theorem IsStep.ne_nil {step : String} (plain : IsStep step) : step.toList ≠ [] := by
  intro empty
  obtain rfl : step = "" := String.toList_injective empty
  exact absurd plain.2 (by decide)

theorem IsStep.relative {step : String} (plain : IsStep step) : isAbsolute step = false := by
  rw [← Bool.not_eq_true, isAbsolute_iff]
  rintro ⟨chars, same⟩
  exact plain.1 (same ▸ List.mem_cons_self)

theorem isStep_of_isName {name : String} (named : Node.isName name = true) : IsStep name :=
  ⟨Node.slash_not_mem_of_isName named, Node.isIdle_of_isName named⟩

/-! ### Writing steps -/

theorem joinPieces_concat {front : List String} (inhabited : front ≠ []) (last : String) :
    joinPieces (front ++ [last]) = joinPieces front ++ "/" ++ last := by
  simp [joinPieces, String.intercalate_append_of_ne_nil inhabited]

theorem joinPieces_doubled {names : List String} (inhabited : names ≠ []) :
    joinPieces ("" :: names) = "/" ++ joinPieces names := by
  obtain ⟨first, rest, rfl⟩ := List.exists_cons_of_ne_nil inhabited
  rw [joinPieces, String.intercalate_cons_cons]
  rfl

theorem getLast?_joinPieces {names : List String} (inhabited : names ≠ []) (plain : ∀ name ∈ names, IsStep name)
    (front : List Char) : (front ++ (joinPieces names).toList).getLast? ≠ some '/' := by
  rcases List.eq_nil_or_concat names with rfl | ⟨others, last, rfl⟩
  · contradiction
  · rw [List.concat_eq_append] at plain ⊢
    have lastPlain := plain last (by simp)
    obtain ⟨lead, ends⟩ : ∃ lead, (joinPieces (others ++ [last])).toList = lead ++ last.toList := by
      by_cases lone : others = []
      · exact ⟨[], by simp [lone, joinPieces]⟩
      · exact ⟨(joinPieces others).toList ++ ['/'], by simp [joinPieces_concat lone]⟩
    rw [ends, ← List.append_assoc, List.getLast?_append_of_ne_nil _ lastPlain.ne_nil]
    exact fun slash => lastPlain.1 (List.mem_of_getLast? slash)

theorem join_of_ends {base : String} (ends : base.toList.getLast? = some '/') {tail : String}
    (relative : isAbsolute tail = false) : join base tail = base ++ tail := by
  simp [join, relative, ends]

theorem join_of_open {base : String} (inhabited : base.toList ≠ []) (opens : base.toList.getLast? ≠ some '/')
    {tail : String} (relative : isAbsolute tail = false) : join base tail = base ++ "/" ++ tail := by
  rw [join, relative, if_neg Bool.false_ne_true, if_neg (not_or.mpr ⟨inhabited, opens⟩)]

section Behind
variable {base : String} (ends : base.toList.getLast? = some '/') {names : List String}
  (plain : ∀ name ∈ names, IsStep name)
include ends plain

theorem join_behind (inhabited : names ≠ []) {tail : String} (relative : isAbsolute tail = false) :
    join (base ++ joinPieces names) tail = base ++ joinPieces names ++ "/" ++ tail := by
  refine join_of_open ?_ ?_ relative
  · rw [String.toList_append]
    exact List.append_ne_nil_of_left_ne_nil (List.ne_nil_of_mem (List.mem_of_getLast? ends)) _
  · rw [String.toList_append]
    exact getLast?_joinPieces inhabited plain _

theorem foldl_join : names.foldl join base = base ++ joinPieces names := by
  induction names using List.reverseRecOn with
  | nil => simp [joinPieces]
  | append_singleton front last ih =>
    have lastPlain := plain last (by simp)
    have frontPlain : ∀ name ∈ front, IsStep name := fun name member => plain name (by simp [member])
    rw [List.foldl_append, List.foldl_cons, List.foldl_nil, ih frontPlain]
    by_cases lone : front = []
    · -- The first step follows the separator of the base.
      simp [lone, joinPieces, join_of_ends ends lastPlain.relative]
    · rw [join_behind ends frontPlain lone lastPlain.relative, joinPieces_concat lone]
      simp only [String.append_assoc]

end Behind

/-! ### The shape of absolute forms -/

inductive IsSettled : String → Prop where
  | top {lead : String} (leads : lead = "/" ∨ lead = "//") : IsSettled lead
  | below {lead tail : String} {names : List String} (leads : lead = "/" ∨ lead = "//") (inhabited : names ≠ [])
    (plain : ∀ name ∈ names, IsStep name) (ends : tail = "" ∨ tail = "/") : IsSettled (lead ++ joinPieces names ++ tail)

section Below
variable {lead tail : String} {names : List String} (leads : lead = "/" ∨ lead = "//") (inhabited : names ≠ [])
  (plain : ∀ name ∈ names, IsStep name) (ends : tail = "" ∨ tail = "/")

include leads in
theorem getLast?_lead : lead.toList.getLast? = some '/' := by
  rcases leads with rfl | rfl <;> decide

include leads in
theorem isAbsolute_lead : isAbsolute lead = true := by
  rcases leads with rfl | rfl <;> decide

include leads in
theorem exists_front : ∃ front : List String, (∀ piece ∈ front, piece = "") ∧
    ∀ others, others ≠ [] → lead ++ joinPieces others = "/" ++ joinPieces (front ++ others) := by
  rcases leads with rfl | rfl
  · exact ⟨[], by simp, fun _ _ => rfl⟩
  · refine ⟨[""], by simp, fun others some => ?_⟩
    rw [List.singleton_append, joinPieces_doubled some, ← String.append_assoc]
    rfl

include inhabited ends in
theorem exists_ending : ∃ ending : List String, (∀ piece ∈ ending, piece = "") ∧
    joinPieces names ++ tail = joinPieces (names ++ ending) := by
  rcases ends with rfl | rfl
  · exact ⟨[], by simp, by simp⟩
  · exact ⟨[""], by simp, by rw [joinPieces_concat inhabited, String.append_empty]⟩

include leads inhabited plain ends in
theorem exists_parts : ∃ front ending : List String, (∀ piece ∈ front, isIdle piece = true) ∧
    (∀ piece ∈ ending, isIdle piece = true) ∧
    pieces (lead ++ joinPieces names ++ tail) = "" :: (front ++ (names ++ ending)) ∧
    ∀ others, others ≠ [] → lead ++ joinPieces others = "/" ++ joinPieces (front ++ others) := by
  obtain ⟨front, frontEmpty, written⟩ := exists_front leads
  obtain ⟨ending, endingEmpty, trailing⟩ := exists_ending inhabited ends
  have idle : isIdle "" = true := by decide
  refine ⟨front, ending, fun piece member => frontEmpty piece member ▸ idle,
    fun piece member => endingEmpty piece member ▸ idle, ?_, written⟩
  rw [String.append_assoc, trailing, written _ (by simp [inhabited])]
  apply pieces_rooted (by simp [inhabited])
  intro part member
  rcases List.mem_append.mp member with inFront | member
  · simp [frontEmpty part inFront]
  · rcases List.mem_append.mp member with inNames | inEnding
    · exact (plain part inNames).1
    · simp [endingEmpty part inEnding]

include leads inhabited plain ends in
theorem steps_settled : steps (lead ++ joinPieces names ++ tail) = names := by
  obtain ⟨front, ending, frontIdle, endingIdle, parts, -⟩ := exists_parts leads inhabited plain ends
  have idle : isIdle "" = true := by decide
  have noFront : front.filter (fun piece => !isIdle piece) = [] :=
    List.filter_eq_nil_iff.mpr fun piece member => by simp [frontIdle piece member]
  have noEnding : ending.filter (fun piece => !isIdle piece) = [] :=
    List.filter_eq_nil_iff.mpr fun piece member => by simp [endingIdle piece member]
  have all : names.filter (fun piece => !isIdle piece) = names :=
    List.filter_eq_self.mpr fun piece member => by simp [(plain piece member).2]
  simp [steps, parts, idle, noFront, noEnding, all]

include leads inhabited plain in
theorem takeWhile_settled :
    (lead ++ joinPieces names ++ tail).toList.takeWhile (· == '/') = lead.toList := by
  obtain ⟨first, rest, rfl⟩ := List.exists_cons_of_ne_nil inhabited
  have firstPlain := plain first List.mem_cons_self
  obtain ⟨c, more, chars⟩ := List.exists_cons_of_ne_nil firstPlain.ne_nil
  have different : c ≠ '/' := by
    rintro rfl
    exact firstPlain.1 (chars ▸ List.mem_cons_self)
  obtain ⟨others, begins⟩ : ∃ others, (joinPieces (first :: rest)).toList = c :: others := by
    cases rest with
    | nil => exact ⟨more, by simp [joinPieces, chars]⟩
    | cons next later => exact ⟨_, by simp [joinPieces, String.intercalate_cons_cons, chars]; rfl⟩
  have slashes : ∀ d ∈ lead.toList, (d == '/') = true := by rcases leads with rfl | rfl <;> simp
  rw [String.toList_append, String.toList_append, begins, List.append_assoc, List.takeWhile_append_of_pos slashes]
  simp [different]

end Below

theorem IsSettled.isAbsolute {path : String} (settled : IsSettled path) : Path.isAbsolute path = true := by
  cases settled with
  | top leads => exact isAbsolute_lead leads
  | below leads _ _ _ => exact isAbsolute_append (isAbsolute_append (isAbsolute_lead leads) _) _

/-! ### Making absolute -/

theorem isSettled_of_leads {lead : String} (leads : lead = "/" ∨ lead = "//") {names : List String}
    (plain : ∀ name ∈ names, IsStep name) :
    IsSettled (lead ++ joinPieces names) ∧ IsSettled (join (lead ++ joinPieces names) "") := by
  have relative : isAbsolute "" = false := by decide
  by_cases lone : names = []
  · have text : lead ++ joinPieces names = lead := by simp [lone, joinPieces]
    rw [text, join_of_ends (getLast?_lead leads) relative, String.append_empty]
    exact ⟨.top leads, .top leads⟩
  · constructor
    · have written : IsSettled (lead ++ joinPieces names ++ "") := .below leads lone plain (.inl rfl)
      rwa [String.append_empty] at written
    · rw [join_behind (getLast?_lead leads) plain lone relative, String.append_empty]
      exact .below leads lone plain (.inr rfl)

/-- Whatever a path is, its absolute form is settled, if the names of the working directory are names. -/
theorem isSettled_absolute? {directory : List String} (named : ∀ name ∈ directory, Node.isName name = true)
    {path whole : String} (made : absolute? ("/" ++ joinPieces directory) path = some whole) : IsSettled whole := by
  have body : ∃ lead names, (lead = "/" ∨ lead = "//") ∧ (∀ name ∈ names, IsStep name) ∧
      absoluteBody ("/" ++ joinPieces directory) path = lead ++ joinPieces names := by
    have stepsPlain : ∀ step ∈ steps path, IsStep step := fun _ => plain_of_mem_steps
    unfold absoluteBody
    cases absolute : isAbsolute path with
    | false =>
      have directoryPlain : ∀ name ∈ directory, IsStep name := fun name member => isStep_of_isName (named name member)
      have allPlain : ∀ step ∈ directory ++ steps path, IsStep step := by
        intro step member
        rcases List.mem_append.mp member with inside | inside
        · exact directoryPlain step inside
        · exact stepsPlain step inside
      refine ⟨"/", directory ++ steps path, .inl rfl, allPlain, ?_⟩
      simp only [Bool.false_eq_true, if_false, appendComponents_eq, text_components_of_relative absolute]
      -- The working directory is itself written by joining its names.
      rw [← foldl_join (by decide) directoryPlain, ← foldl_join (by decide) allPlain, List.foldl_append]
    | true =>
      obtain ⟨parts, read, texts⟩ := text_components_of_isAbsolute absolute
      have start : join "" Component.root.text = "/" := by decide
      simp only [if_true, read, List.tail_cons, appendComponents_eq, List.map_cons, texts, List.foldl_cons, start]
      split
      · exact ⟨"//", steps path, .inr rfl, stepsPlain, foldl_join (by decide) stepsPlain⟩
      · exact ⟨"/", steps path, .inl rfl, stepsPlain, foldl_join (by decide) stepsPlain⟩
  obtain ⟨lead, names, leads, plain, written⟩ := body
  obtain ⟨opened, closed⟩ := isSettled_of_leads leads plain
  rw [absolute?_eq] at made
  split at made
  · cases made
  · obtain rfl := Option.some.inj made
    rw [written]
    split
    · exact closed
    · exact opened

/-- A settled path is its own absolute form, wherever it is read. -/
theorem IsSettled.absolute? {path : String} (settled : IsSettled path) (workingDirectory : String) :
    Path.absolute? workingDirectory path = some path := by
  have absolute := settled.isAbsolute
  cases settled with
  | top leads =>
    -- What the path holds besides its separators is nothing, and no working directory is asked for.
    have shapes : ∀ lead, lead = "/" ∨ lead = "//" → lead.toList ≠ [] ∧
        lead.toList.getLast? = some '/' ∧ absoluteBody "" lead = lead ∧ join lead "" = lead := by
      rintro lead (rfl | rfl) <;> decide
    obtain ⟨some, ends, body, joined⟩ := shapes path leads
    have anywhere : absoluteBody workingDirectory path = absoluteBody "" path := by
      rw [absoluteBody, absoluteBody, if_pos absolute, if_pos absolute]
    simp only [absolute?_eq, if_neg some, anywhere, body, if_pos ends, joined]
  | @below lead tail names leads inhabited plain ends =>
    have some : (lead ++ joinPieces names ++ tail).toList ≠ [] := fun empty =>
      ne_empty_of_isAbsolute absolute (String.toList_injective empty)
    have body : absoluteBody workingDirectory (lead ++ joinPieces names ++ tail) = lead ++ joinPieces names := by
      obtain ⟨parts, read, texts⟩ := text_components_of_isAbsolute absolute
      rw [steps_settled leads inhabited plain ends] at texts
      have start : join "" Component.root.text = "/" := by decide
      rw [absoluteBody, if_pos absolute, takeWhile_settled leads inhabited plain, read]
      simp only [List.tail_cons, appendComponents_eq, List.map_cons, texts, List.foldl_cons, start]
      rw [foldl_join (by decide) plain, foldl_join (by decide) plain]
      rcases leads with rfl | rfl <;> rfl
    rw [absolute?_eq, if_neg some]
    simp only [body]
    rcases ends with rfl | rfl
    · have opens := getLast?_joinPieces inhabited plain lead.toList
      rw [← String.toList_append] at opens
      rw [String.append_empty, if_neg opens]
    · rw [if_pos (by simp), join_behind (getLast?_lead leads) plain inhabited (by decide), String.append_empty]

/-! ### Parents -/

theorem dropIdleEnd_append (kept : List String) {ending : List String} {last : String} (busy : isIdle last = false)
    (idle : ∀ piece ∈ ending, isIdle piece = true) : dropIdleEnd (kept ++ [last] ++ ending) = kept ++ [last] := by
  have turned : ∀ piece ∈ ending.reverse, isIdle piece = true := fun piece member =>
    idle piece (List.mem_reverse.mp member)
  rw [dropIdleEnd, List.reverse_append, List.dropWhile_append_of_pos turned]
  simp [busy]

theorem dropIdleEnd_of_idle {pieces : List String} (idle : ∀ piece ∈ pieces, isIdle piece = true) :
    dropIdleEnd pieces = [] := by
  rw [dropIdleEnd, List.reverse_eq_nil_iff, List.dropWhile_eq_nil_iff]
  exact fun piece member => idle piece (List.mem_reverse.mp member)

theorem parentAfter_eq {body kept : List String} {last : String} (ends : dropIdleEnd body = kept ++ [last])
    (lead separator : String) (lone : Option String) :
    parentAfter lead separator lone body =
      if dropIdleEnd kept = [] then some lead else some (lead ++ separator ++ joinPieces (dropIdleEnd kept)) := by
  unfold parentAfter
  cases rest : dropIdleEnd kept <;> simp [ends, rest]

theorem IsSettled.parent {path above : String} (settled : IsSettled path) (parent : parent? path = some above) :
    IsSettled above := by
  cases settled with
  | top leads =>
    have none : ∀ lead, lead = "/" ∨ lead = "//" → parent? lead = none := by
      rintro lead (rfl | rfl) <;> decide
    rw [none path leads] at parent
    cases parent
  | @below lead tail names leads inhabited plain ends =>
    obtain ⟨front, ending, frontIdle, endingIdle, parts, written⟩ := exists_parts leads inhabited plain ends
    obtain ⟨first, rest, shape⟩ := List.exists_cons_of_ne_nil (show front ++ (names ++ ending) ≠ [] by simp [inhabited])
    simp only [parent?, parts, shape] at parent
    obtain ⟨others, last, rfl⟩ := (List.eq_nil_or_concat' names).resolve_left inhabited
    have lastPlain := plain last (by simp)
    have othersPlain : ∀ name ∈ others, IsStep name := fun name member => plain name (by simp [member])
    have kept : dropIdleEnd (first :: rest) = front ++ others ++ [last] := by
      rw [← shape, ← List.append_assoc, ← List.append_assoc]
      exact dropIdleEnd_append _ lastPlain.2 endingIdle
    rw [parentAfter_eq kept] at parent
    by_cases lone : others = []
    · -- Above the only step there are separators, and one of them is left.
      rw [lone, List.append_nil, if_pos (dropIdleEnd_of_idle frontIdle)] at parent
      obtain rfl := Option.some.inj parent
      exact .top (.inl rfl)
    · obtain ⟨more, next, rfl⟩ := (List.eq_nil_or_concat' others).resolve_left lone
      have all : dropIdleEnd (front ++ (more ++ [next])) = front ++ (more ++ [next]) := by
        have whole := dropIdleEnd_append (front ++ more) (othersPlain next (by simp)).2 (List.forall_mem_nil _)
        simpa only [List.append_assoc, List.append_nil] using whole
      rw [all, if_neg (by simp), String.append_empty, ← written _ lone] at parent
      obtain rfl := Option.some.inj parent
      exact (isSettled_of_leads leads othersPlain).1

end Orphans.Path
