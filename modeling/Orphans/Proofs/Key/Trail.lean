import Orphans.Proofs.DistinctKeys

/-! Trails of names.

A trail is what names add to the text of a directory: a separator in front of each. The path of a location
is the root with a trail behind it, a separator at the end of the root being part of the trail, and a key
other than `/` is the trail of its segments. On both, cutting at separators gives the names back.
-/

set_option autoImplicit false

namespace Orphans

namespace Key

def trail (names : List (List Char)) : List Char := names.flatMap ('/' :: ·)

@[simp] theorem trail_nil : trail [] = [] := rfl

@[simp] theorem trail_cons (name : List Char) (names : List (List Char)) :
    trail (name :: names) = '/' :: name ++ trail names := rfl

@[simp] theorem trail_append (front back : List (List Char)) : trail (front ++ back) = trail front ++ trail back :=
  List.flatMap_append

theorem mem_trail {names : List (List Char)} {c : Char} (member : c ∈ trail names) :
    c = '/' ∨ ∃ name ∈ names, c ∈ name := by
  obtain ⟨name, inNames, inside⟩ := List.mem_flatMap.mp member
  rcases List.mem_cons.mp inside with slash | inName
  · exact .inl slash
  · exact .inr ⟨name, inNames, inName⟩

theorem splitOn_append_trail {names : List (List Char)} (plain : ∀ name ∈ names, '/' ∉ name) (stem : List Char) :
    (stem ++ trail names).splitOn '/' = stem.splitOn '/' ++ names := by
  induction names generalizing stem with
  | nil => simp
  | cons name rest ih =>
    have restPlain := fun other member => plain other (List.mem_cons_of_mem name member)
    have first := List.splitOn_eq_singleton (plain name List.mem_cons_self)
    -- The separator of the first name cuts; what follows is the same with that name as the stem.
    rw [trail_cons, List.cons_append, List.splitOn_append_cons_self, ih restPlain name, first,
      List.singleton_append]

theorem slash_joinSegments {names : List (List Char)} (inhabited : names ≠ []) :
    '/' :: joinSegments names = trail names := by
  induction names with
  | nil => exact absurd rfl inhabited
  | cons name rest ih =>
    cases rest with
    | nil => simp [joinSegments]
    | cons next more =>
      have joined : joinSegments (name :: next :: more) = name ++ '/' :: joinSegments (next :: more) := by
        simp [joinSegments, List.intercalate_cons_cons]
      rw [joined, ih (List.cons_ne_nil _ _), trail_cons name, List.cons_append]

theorem slash_joinSegments_append {front back : List (List Char)} (inhabited : front ≠ []) (more : back ≠ []) :
    '/' :: joinSegments (front ++ back) = '/' :: joinSegments front ++ '/' :: joinSegments back := by
  rw [slash_joinSegments inhabited, slash_joinSegments more, ← trail_append,
    slash_joinSegments (List.append_ne_nil_of_left_ne_nil inhabited back)]

theorem joinSegments_singleton (name : List Char) : joinSegments [name] = name := by
  simp [joinSegments]

theorem joinSegments_cons (first : List Char) (rest : List (List Char)) :
    joinSegments (first :: rest) = first ++ trail rest := by
  simpa using slash_joinSegments (List.cons_ne_nil first rest)

theorem mem_joinSegments {segments : List (List Char)} {c : Char} (member : c ∈ joinSegments segments) :
    c = '/' ∨ ∃ segment ∈ segments, c ∈ segment := by
  cases segments with
  | nil => cases member
  | cons first rest =>
    apply mem_trail
    rw [← slash_joinSegments (List.cons_ne_nil first rest)]
    exact List.mem_cons_of_mem _ member

theorem not_mem_joinSegments {segments : List (List Char)} {c : Char} (different : c ≠ '/')
    (absent : ∀ segment ∈ segments, c ∉ segment) : c ∉ joinSegments segments := by
  intro member
  rcases mem_joinSegments member with slash | ⟨segment, inside, found⟩
  · exact different slash
  · exact absent segment inside found

section Cut
variable (stem : List Char) {name : List Char} (plain : '/' ∉ name)
include plain

theorem reverse_cut : (stem ++ '/' :: name).reverse = name.reverse ++ '/' :: stem.reverse ∧
    ∀ c ∈ name.reverse, decide (c ≠ '/') = true := by
  refine ⟨by simp, fun c member => decide_eq_true ?_⟩
  rintro rfl
  exact plain (List.mem_reverse.mp member)

theorem parentChars_append (inhabited : stem ≠ []) : parentChars (stem ++ '/' :: name) = stem := by
  obtain ⟨turned, different⟩ := reverse_cut stem plain
  have cut : (stem ++ '/' :: name).reverse.dropWhile (· ≠ '/') = '/' :: stem.reverse := by
    rw [turned, List.dropWhile_append_of_pos different]
    simp
  obtain ⟨c, more, shape⟩ := List.exists_cons_of_ne_nil (List.reverse_ne_nil_iff.mpr inhabited)
  rw [shape] at cut
  rw [parentChars, cut]
  simp [← shape]

theorem nameChars_append : nameChars (stem ++ '/' :: name) = name := by
  obtain ⟨turned, different⟩ := reverse_cut stem plain
  rw [nameChars, turned, List.takeWhile_append_of_pos different]
  simp

end Cut

theorem parentChars_slash {name : List Char} (plain : '/' ∉ name) : parentChars ('/' :: name) = ['/'] := by
  obtain ⟨turned, different⟩ := reverse_cut [] plain
  rw [List.nil_append, List.reverse_nil] at turned
  rw [parentChars, turned, List.dropWhile_append_of_pos different]
  simp

theorem parentChars_rooted {names : List (List Char)} (plain : ∀ name ∈ names, '/' ∉ name) :
    parentChars ('/' :: joinSegments names) = '/' :: joinSegments names.dropLast := by
  rcases List.eq_nil_or_concat names with rfl | ⟨front, last, rfl⟩
  · decide
  · rw [List.concat_eq_append] at plain ⊢
    have lastPlain : '/' ∉ last := plain last (by simp)
    rw [List.dropLast_concat]
    by_cases empty : front = []
    · rw [empty, List.nil_append, joinSegments_singleton]
      exact parentChars_slash lastPlain
    · rw [slash_joinSegments_append empty (List.cons_ne_nil last []), joinSegments_singleton]
      exact parentChars_append _ lastPlain (List.cons_ne_nil _ _)

theorem nameChars_rooted (front : List (List Char)) {name : List Char} (plain : '/' ∉ name) :
    nameChars ('/' :: joinSegments (front ++ [name])) = name := by
  have whole : '/' :: joinSegments (front ++ [name]) = trail front ++ '/' :: name := by
    rw [slash_joinSegments (by simp)]
    simp
  rw [whole, nameChars_append _ plain]

theorem parent_append {directory : String} (inhabited : directory ≠ "") (name : String) (plain : '/' ∉ name.toList) :
    parent (directory ++ "/" ++ name) = directory := by
  apply String.toList_injective
  have stem : directory.toList ≠ [] := mt String.toList_eq_nil_iff.mp inhabited
  simpa using parentChars_append directory.toList plain stem

theorem dropEndWhile_of_open {root : List Char} (ending : root.getLast? ≠ some '/') :
    Text.dropEndWhile (· == '/') root = root := by
  rcases List.eq_nil_or_concat root with rfl | ⟨front, last, rfl⟩
  · rfl
  · have different : last ≠ '/' := by simpa using ending
    simp [Text.dropEndWhile, different]

theorem relativeChars_append {root : List Char} (ending : root.getLast? ≠ some '/') (rest : List Char) :
    relativeChars root (root ++ '/' :: rest) = rest := by
  have behind : root.isPrefixOf? (root ++ '/' :: rest) = some ('/' :: rest) :=
    List.isPrefixOf?_eq_some_iff_append_eq.mpr rfl
  rw [relativeChars, dropEndWhile_of_open ending, behind]
  rfl

theorem relativeChars_self {root : List Char} (ending : root.getLast? ≠ some '/') :
    relativeChars root root = ['.'] := by
  have whole : root.isPrefixOf? root = some [] := List.isPrefixOf?_eq_some_iff_append_eq.mpr (List.append_nil root)
  rw [relativeChars, dropEndWhile_of_open ending, whole]

theorem getLast?_append_slash (stem : List Char) {name : List Char} (inhabited : name ≠ []) (plain : '/' ∉ name) :
    (stem ++ '/' :: name).getLast? ≠ some '/' := by
  rw [List.append_cons, List.getLast?_append_of_ne_nil _ inhabited]
  exact fun slash => plain (List.mem_of_getLast? slash)

theorem getLast?_trail {names : List (List Char)} (named : ∀ name ∈ names, IsSegment name) :
    (trail names).getLast? ≠ some '/' := by
  rcases List.eq_nil_or_concat names with rfl | ⟨front, last, rfl⟩
  · simp
  · have lastNamed := named last (by simp)
    simpa using getLast?_append_slash (trail front) lastNamed.ne_nil lastNamed.no_slash

end Key

namespace Path

theorem ne_empty_of_isAbsolute {path : String} (absolute : isAbsolute path = true) : path ≠ "" := by
  rintro rfl
  cases absolute

/-- The text to which names are joined: the path without the separator at its end. -/
theorem exists_stem {base : String} (inhabited : base ≠ "") :
    ∃ stem, (base.toList = stem ∨ base.toList = stem ++ ['/']) ∧
      ∀ name, isAbsolute name = false → (join base name).toList = stem ++ '/' :: name.toList := by
  by_cases slash : base.toList.getLast? = some '/'
  · obtain ⟨front, ended⟩ := List.getLast?_eq_some_iff.mp slash
    refine ⟨front, .inr ended, fun name relative => ?_⟩
    simp [join, relative, ended]
  · refine ⟨base.toList, .inl rfl, fun name relative => ?_⟩
    simp [join, relative, slash, inhabited]

theorem getLast?_append_name (stem : List Char) {name : String} (named : Node.isName name = true) :
    (stem ++ '/' :: name.toList).getLast? ≠ some '/' := by
  exact Key.getLast?_append_slash stem (Node.splitOn_of_isName named).2 (Node.slash_not_mem_of_isName named)

end Path

namespace Discovery

open Key (trail)

theorem exists_stem_pathAt {root : String} (inhabited : root ≠ "") :
    ∃ stem, (root.toList = stem ∨ root.toList = stem ++ ['/']) ∧
      ∀ location, location ≠ [] → (∀ name ∈ location, Node.isName name = true) →
        (pathAt root location).toList = stem ++ trail (location.map String.toList) := by
  obtain ⟨stem, ends, joined⟩ := Path.exists_stem inhabited
  refine ⟨stem, ends, fun location => ?_⟩
  -- Once a name has been joined, the stem is the whole path so far.
  induction location generalizing root stem with
  | nil => exact fun some => absurd rfl some
  | cons name rest ih =>
    intro _ named
    have nameOk := named name List.mem_cons_self
    have restNamed := fun other member => named other (List.mem_cons_of_mem name member)
    have first := joined name (Path.isAbsolute_of_isName nameOk)
    by_cases last : rest = []
    · simpa [last, pathAt] using first
    · have onwards : Path.join root name ≠ "" := by
        intro empty
        rw [empty] at first
        simp at first
      obtain ⟨next, nextEnds, nextJoined⟩ := Path.exists_stem onwards
      have whole : (Path.join root name).toList = next := by
        refine nextEnds.resolve_right fun slash => Path.getLast?_append_name stem nameOk ?_
        rw [← first, slash, List.getLast?_concat]
      have step := ih onwards next nextEnds nextJoined last restNamed
      rw [← whole, first] at step
      simpa [pathAt] using step

theorem splitOn_append_names {location : List String} (named : ∀ name ∈ location, Node.isName name = true)
    (stem : List Char) :
    (stem ++ trail (location.map String.toList)).splitOn '/' = stem.splitOn '/' ++ location.map String.toList := by
  refine Key.splitOn_append_trail ?_ stem
  intro chars member
  obtain ⟨name, inside, rfl⟩ := List.mem_map.mp member
  exact Node.slash_not_mem_of_isName (named name inside)

end Discovery

end Orphans
