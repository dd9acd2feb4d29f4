import Orphans.AliasConfig
import Orphans.Proofs.FileSystem.Lookup
import Orphans.Proofs.Key.Trail

/-! Roots in normal form.

A path in normal form below `/` is the trail of its segments. Such a root is its own absolute form, and what
lies below it has paths that are trails again, so a path and its key are the same text: the root and the
trail of the location behind it. How long a path is can be counted off its names.
-/

set_option autoImplicit false

namespace Orphans

namespace Key

/-- A path below `/` that is written as the trail of its segments. -/
structure IsTrail (names : List (List Char)) (path : String) : Prop where
  inhabited : names ≠ []
  named : ∀ name ∈ names, IsSegment name
  spelled : path.toList = trail names

namespace IsTrail

variable {names : List (List Char)} {path : String} (written : IsTrail names path)
include written

theorem isAbsolute : Path.isAbsolute path = true := by
  obtain ⟨first, rest, rfl⟩ := List.exists_cons_of_ne_nil written.inhabited
  exact Path.isAbsolute_iff.mpr ⟨_, written.spelled⟩

theorem toList_ne_nil : path.toList ≠ [] := by
  obtain ⟨rest, chars⟩ := Path.isAbsolute_iff.mp written.isAbsolute
  simp [chars]

theorem splitOn_eq : path.toList.splitOn '/' = [] :: names := by
  rw [written.spelled]
  exact splitOn_append_trail (fun name member => (written.named name member).no_slash) []

theorem segments_eq : segments path.toList = names := by
  have plain : '\\' ∉ path.toList := by
    rw [written.spelled]
    intro member
    rcases mem_trail member with slash | ⟨name, inside, inName⟩
    · cases slash
    · exact (written.named name inside).no_backslash inName
  rw [segments, unify_of_not_mem plain, written.splitOn_eq]
  exact foldSegments_append true [[]] written.named

theorem eq_ofList : path = .ofList (trail names) := by
  rw [← written.spelled, String.ofList_toList]

theorem isNormal : IsNormal path := by
  apply String.toList_injective
  rw [toList_normalize_of_absolute written.isAbsolute, written.segments_eq, slash_joinSegments written.inhabited,
    written.spelled]

end IsTrail

theorem IsTrail.parent {front : List (List Char)} {name : List Char} {key : String}
    (written : IsTrail (front ++ [name]) key) (inhabited : front ≠ []) : IsTrail front (Key.parent key) := by
  have plain := (written.named name (by simp)).no_slash
  have stem : trail front ≠ [] := by
    obtain ⟨first, rest, rfl⟩ := List.exists_cons_of_ne_nil inhabited
    simp
  refine ⟨inhabited, fun other member => written.named other (List.mem_append_left _ member), ?_⟩
  rw [toList_parent, written.spelled, trail_append]
  simpa using parentChars_append (trail front) plain stem

theorem IsTrail.name {front : List (List Char)} {name : List Char} {key : String}
    (written : IsTrail (front ++ [name]) key) : (Key.name key).toList = name := by
  have plain := (written.named name (by simp)).no_slash
  rw [toList_name, written.spelled, trail_append]
  simpa using nameChars_append (trail front) plain

theorem isTrail_of_isNormal {path : String} (absolute : Path.isAbsolute path = true) (normal : IsNormal path)
    (below : path ≠ "/") : IsTrail (segments path.toList) path := by
  have chars : path.toList = '/' :: joinSegments (segments path.toList) := by
    rw [← toList_normalize_of_absolute absolute, normal]
  have inhabited : segments path.toList ≠ [] := by
    intro empty
    rw [empty] at chars
    exact below (String.toList_injective chars)
  exact ⟨inhabited, fun _ => isSegment_of_mem_segments, chars.trans (slash_joinSegments inhabited)⟩

end Key

open Key (IsTrail trail)

/-! ### Below a root -/

namespace Discovery

variable {root : String} {names : List (List Char)} (written : IsTrail names root) {location : List String}
  (named : ∀ name ∈ location, Node.isName name = true)
include written named

theorem toList_pathAt : (pathAt root location).toList = trail (names ++ location.map String.toList) := by
  obtain ⟨stem, ends, paths⟩ := exists_stem_pathAt (Path.ne_empty_of_isAbsolute written.isAbsolute)
  have whole : root.toList = stem := by
    refine ends.resolve_right fun slash => Key.getLast?_trail written.named ?_
    rw [← written.spelled, slash, List.getLast?_concat]
  by_cases here : location = []
  · simp [here, pathAt, written.spelled]
  · rw [paths location here named, ← whole, written.spelled, Key.trail_append]

theorem isTrail_pathAt (plain : ∀ name ∈ location, '\\' ∉ name.toList) :
    IsTrail (names ++ location.map String.toList) (pathAt root location) where
  inhabited := List.append_ne_nil_of_left_ne_nil written.inhabited _
  named := by
    intro name member
    rcases List.mem_append.mp member with above | below
    · exact written.named name above
    · obtain ⟨part, inside, rfl⟩ := List.mem_map.mp below
      exact Node.isSegment_of_isName (named part inside) (plain part inside)
  spelled := toList_pathAt written named

end Discovery

/-! ### Absolute forms -/

theorem Node.isName_ofList {name : List Char} (segment : Key.IsSegment name) (clean : '\x00' ∉ name) :
    isName (.ofList name) = true := by
  have notEmpty : String.ofList name ≠ "" := fun same => segment.ne_nil (by simpa using congrArg String.toList same)
  have notCurrent : String.ofList name ≠ "." := fun same =>
    segment.ne_current (by simpa using congrArg String.toList same)
  have notParent : String.ofList name ≠ ".." := fun same =>
    segment.ne_parent (by simpa using congrArg String.toList same)
  have chars : ∀ c ∈ name, c ≠ '/' ∧ c ≠ '\x00' := fun c member =>
    ⟨fun slash => segment.no_slash (slash ▸ member), fun nul => clean (nul ▸ member)⟩
  simpa [isName, notEmpty, notCurrent, notParent] using chars

namespace Path

theorem bodyComponents_of_isName {names : List String} (named : ∀ name ∈ names, Node.isName name = true) :
    bodyComponents names = names.map .name := by
  induction names with
  | nil => rfl
  | cons name rest ih =>
    have nameOk := named name List.mem_cons_self
    have onwards := ih fun other member => named other (List.mem_cons_of_mem name member)
    unfold bodyComponents at onwards ⊢
    simp [Node.isIdle_of_isName nameOk, Node.ne_parent_of_isName nameOk, onwards]

theorem appendComponents_names (start : String) (names : List String) :
    appendComponents start (names.map .name) = Discovery.pathAt start names := by
  rw [appendComponents, List.foldl_map]
  rfl

end Path

namespace Key.IsTrail

variable {names : List (List Char)} {path : String} (written : IsTrail names path)
include written

theorem getLast?_ne : path.toList.getLast? ≠ some '/' :=
  written.spelled ▸ getLast?_trail written.named

theorem join {name : String} (named : Node.isName name = true) : Path.join path name = path ++ "/" ++ name := by
  rw [Path.join, Path.isAbsolute_of_isName named, if_neg Bool.false_ne_true,
    if_neg (not_or.mpr ⟨written.toList_ne_nil, written.getLast?_ne⟩)]

theorem takeWhile_slash : path.toList.takeWhile (· == '/') = ['/'] := by
  obtain ⟨first, rest, rfl⟩ := List.exists_cons_of_ne_nil written.inhabited
  have firstNamed := written.named first List.mem_cons_self
  obtain ⟨c, more, rfl⟩ := List.exists_cons_of_ne_nil firstNamed.ne_nil
  have different : c ≠ '/' := fun slash => firstNamed.no_slash (slash ▸ List.mem_cons_self)
  simp [written.spelled, different]

variable (clean : '\x00' ∉ path.toList)
include clean

theorem isName_of_mem : ∀ name ∈ names.map String.ofList, Node.isName name = true := by
  intro name member
  obtain ⟨chars, inside, rfl⟩ := List.mem_map.mp member
  refine Node.isName_ofList (written.named chars inside) fun nul => clean ?_
  rw [written.spelled]
  exact List.mem_flatMap.mpr ⟨chars, inside, List.mem_cons_of_mem _ nul⟩

theorem components_eq : Path.components path = .root :: (names.map String.ofList).map .name := by
  have texts := written.isName_of_mem clean
  rw [← Path.bodyComponents_of_isName texts, Path.components, Path.pieces, written.splitOn_eq]
  obtain ⟨first, rest, rfl⟩ := List.exists_cons_of_ne_nil written.inhabited
  rfl

theorem absoluteBody (workingDirectory : String) : Path.absoluteBody workingDirectory path = path := by
  have texts := written.isName_of_mem clean
  have components := written.components_eq clean
  have oneSlash : ¬ (path.toList.takeWhile (· == '/')).length = 2 := by simp [written.takeWhile_slash]
  have fromRoot : Path.join "" "/" = "/" := by decide
  have joined : Path.absoluteBody workingDirectory path = Discovery.pathAt "/" (names.map String.ofList) := by
    rw [Path.absoluteBody, if_pos written.isAbsolute, if_neg oneSlash, components, Path.appendComponents,
      List.foldl_cons, Path.Component.text, fromRoot]
    exact Path.appendComponents_names "/" _
  obtain ⟨first, rest, rfl⟩ := List.exists_cons_of_ne_nil written.inhabited
  have firstNamed := written.named first List.mem_cons_self
  -- The first name joins the lone separator; from there on the path so far is a trail.
  have start : IsTrail [first] (Path.join "/" (.ofList first)) := by
    refine ⟨List.cons_ne_nil _ _, by simpa using firstNamed, ?_⟩
    simp [Path.join, Path.isAbsolute_of_isName (texts _ List.mem_cons_self)]
  have onwards := Discovery.toList_pathAt start fun name member => texts name (List.mem_cons_of_mem _ member)
  apply String.toList_injective
  rw [joined, written.spelled, List.map_cons]
  simpa [Discovery.pathAt, Function.comp_def] using onwards

theorem absolute? (workingDirectory : String) : Path.absolute? workingDirectory path = some path := by
  simp only [Path.absolute?_eq, if_neg written.toList_ne_nil, written.absoluteBody clean, if_neg written.getLast?_ne]

end Key.IsTrail

/-! ### Roots as long as a path may be -/

def workshop (entries : List (String × Node)) : FileSystem where
  root := .directory [("ws", .directory entries)]
  workingDirectory := []

theorem wellFormed_workshop {entries : List (String × Node)} (formed : Node.WellFormedEntries entries) :
    (workshop entries).root.WellFormed :=
  ⟨by decide, by simp, formed, trivial⟩

theorem AliasConfig.load_of_missing {fileSystem : FileSystem} {root : String}
    (missing : ∀ source ∈ sources root none, ¬ fileSystem.isFile source = true) :
    load fileSystem root none = ⟨[], none, none⟩ := by
  rw [load, source?, List.find?_eq_none.mpr missing]

theorem load_workshop {entries : List (String × Node)}
    (missing : ∀ name ∈ AliasConfig.defaultSources, entries.lookup name = none) :
    AliasConfig.load (workshop entries) "/ws" none = ⟨[], none, none⟩ := by
  refine AliasConfig.load_of_missing fun source member => ?_
  obtain ⟨name, inside, rfl⟩ := List.mem_map.mp member
  have shapes : ∀ name ∈ AliasConfig.defaultSources, Path.pieces (Path.join "/ws" name) = ["", "ws", name] ∧
      Path.isAbsolute (Path.join "/ws" name) = true ∧ Node.isName name = true := by decide
  obtain ⟨pieces, absolute, named⟩ := shapes name inside
  rw [FileSystem.isFile_iff]
  rintro ⟨text, found⟩
  obtain ⟨-, -, -, location, leads, -⟩ := (FileSystem.find_eq_ok_iff (by decide)).mp found
  rw [pieces, FileSystem.start, if_pos absolute] at leads
  have walked := leads.walk_eq (by decide)
  -- The walk comes to the workshop and does not find the name there.
  have idle : Path.isIdle "" = true := by decide
  have busy : Path.isIdle "ws" = false := by decide
  rw [FileSystem.walk_eq_walkWith] at walked
  simp [FileSystem.walkWith, workshop, Node.get?, Node.entries?, idle, busy, Node.isIdle_of_isName named,
    Node.ne_parent_of_isName named, missing name inside] at walked

/-- The path of the workshop that passes so often through the entry `loop`. -/
def winding (loop : String) (count : Nat) : String := Discovery.pathAt "/ws" (List.replicate count loop)

section Loops
variable {loop : String} (named : Node.isName loop = true) (plain : '\\' ∉ loop.toList)
include named plain

theorem isTrail_winding (count : Nat) :
    IsTrail (['w', 's'] :: List.replicate count loop.toList) (winding loop count) := by
  have start : IsTrail [['w', 's']] "/ws" := by
    refine ⟨by decide, ?_, by decide⟩
    intro name member
    obtain rfl := List.mem_singleton.mp member
    exact ⟨by decide, by decide, by decide, by decide, by decide⟩
  have written := @Discovery.isTrail_pathAt _ _ start (List.replicate count loop)
  rw [List.map_replicate] at written
  refine written ?_ ?_ <;> intro name member <;> rwa [List.eq_of_mem_replicate member]

theorem nul_not_mem_winding (count : Nat) : '\x00' ∉ (winding loop count).toList := by
  rw [(isTrail_winding named plain count).spelled]
  intro member
  rcases Key.mem_trail member with slash | ⟨name, inside, inName⟩
  · cases slash
  · rcases List.mem_cons.mp inside with rfl | looped
    · exact absurd inName (by decide)
    · rw [List.eq_of_mem_replicate looped] at inName
      exact Node.nul_not_mem_of_isName named inName

theorem utf8ByteSize_winding (count : Nat) :
    (winding loop count).utf8ByteSize = 3 + count * (loop.utf8ByteSize + 1) := by
  induction count with
  | zero =>
    rw [Nat.zero_mul]
    rfl
  | succ count ih =>
    have separator : "/".utf8ByteSize = 1 := rfl
    have step : winding loop (count + 1) = Path.join (winding loop count) loop := by
      simp [winding, Discovery.pathAt, List.replicate_succ']
    rw [step, (isTrail_winding named plain count).join named, String.utf8ByteSize_append, String.utf8ByteSize_append,
      separator, ih, Nat.succ_mul]
    omega

/-- A link to the workshop itself may be passed as often as links are followed. -/
theorem find_winding {entries : List (String × Node)} (loops : entries.lookup loop = some (.link ".")) {count : Nat}
    (few : count ≤ FileSystem.maxLinks) (short : FileSystem.isTooLong (winding loop count) = false) :
    (workshop entries).find .follow (winding loop count) = .ok (.directory entries) := by
  have written := isTrail_winding named plain count
  have found : (workshop entries).root.get? (["ws"] ++ [loop]) = some (.link ".") := by
    simp [workshop, Node.get?, loops]
  have pieces : Path.pieces (winding loop count) = "" :: "ws" :: List.replicate count loop := by
    simp [Path.pieces, written.splitOn_eq]
  have around := FileSystem.Leads.loop named found (FileSystem.maxLinks - count) count
  rw [Nat.sub_add_cancel few] at around
  refine (FileSystem.find_eq_ok_iff (by decide)).mpr ⟨?_, nul_not_mem_winding named plain count, short, ["ws"], ?_, ?_⟩
  · intro empty
    exact written.toList_ne_nil (by simp [empty])
  · rw [pieces, FileSystem.start, if_pos written.isAbsolute]
    refine .stay rfl (by decide) (.enter (by decide) (by decide) rfl ?_ around)
    rintro ⟨target, same⟩
    cases same
  · simp [workshop, Node.get?]

end Loops

def besideLoop (loop : String) (node : Node) : List (String × Node) := [("lib", node), (loop, .link ".")]

/-- The root leads to the workshop if `loop` is a link to it, and no longer path leads anywhere. -/
structure IsFull (loop root : String) : Prop where
  named : Node.isName loop = true
  later : "lib" < loop
  uncommon : ∀ name ∈ AliasConfig.defaultSources, name ≠ loop
  normal : ∃ names, IsTrail names root
  absolute : ∀ fileSystem : FileSystem, fileSystem.absolute? root = some root
  size : root.utf8ByteSize = FileSystem.maxPathLength
  find : ∀ entries : List (String × Node), entries.lookup loop = some (.link ".") →
    (workshop entries).find .follow root = .ok (.directory entries)

namespace IsFull

variable {loop root : String} (full : IsFull loop root)
include full

theorem isNormal_root : Path.isAbsolute root = true ∧ Key.IsNormal root ∧ root ≠ "/" := by
  obtain ⟨names, written⟩ := full.normal
  refine ⟨written.isAbsolute, written.isNormal, ?_⟩
  rintro rfl
  exact written.getLast?_ne (by decide)

theorem wellFormed_besideLoop {node : Node} (formed : node.WellFormed) :
    Node.WellFormedEntries (besideLoop loop node) :=
  ⟨by decide, by simpa using full.later, formed, full.named, by simp, trivial, trivial⟩

theorem find_besideLoop (node : Node) :
    (workshop (besideLoop loop node)).find .follow root = .ok (.directory (besideLoop loop node)) := by
  have different : (loop == "lib") = false := beq_false_of_ne (ne_of_gt full.later)
  exact full.find _ (by simp [besideLoop, List.lookup_cons, different])

theorem isTooLong_root : FileSystem.isTooLong root = false := by
  simp [FileSystem.isTooLong, full.size]

theorem isTooLong_join {name : String} (named : Node.isName name = true) :
    FileSystem.isTooLong (Path.join root name) = true := by
  obtain ⟨names, written⟩ := full.normal
  have separator : "/".utf8ByteSize = 1 := rfl
  rw [written.join named, FileSystem.isTooLong, String.utf8ByteSize_append, String.utf8ByteSize_append, full.size,
    decide_eq_true_eq]
  omega

theorem load (fileSystem : FileSystem) : AliasConfig.load fileSystem root none = ⟨[], none, none⟩ := by
  refine AliasConfig.load_of_missing fun source member => ?_
  obtain ⟨name, inside, rfl⟩ := List.mem_map.mp member
  have named : ∀ name ∈ AliasConfig.defaultSources, Node.isName name = true := by decide
  exact FileSystem.not_isFile_of_isTooLong (full.isTooLong_join (named name inside))

end IsFull

theorem exists_name (length : Nat) :
    ∃ name : String, Node.isName name = true ∧ '\\' ∉ name.toList ∧ "lib" < name ∧ name.utf8ByteSize = length + 1 := by
  have segment : Key.IsSegment (List.replicate (length + 1) 'n') := by
    refine ⟨?_, ?_, ?_, ?_, ?_⟩ <;> simp [List.replicate_succ]
  have chars : (String.ofList (List.replicate (length + 1) 'n')).toList = 'n' :: List.replicate length 'n' := by
    rw [String.toList_ofList, List.replicate_succ]
  have later : "lib" < String.ofList (List.replicate (length + 1) 'n') := by
    have earlier : 'l' < 'n' := by decide
    rw [String.lt_iff_toList_lt, chars]
    exact List.cons_lt_cons_iff.mpr (.inl earlier)
  have bytes : (String.ofList (List.replicate (length + 1) 'n')).utf8ByteSize = length + 1 := by
    induction length + 1 with
    | zero => rfl
    | succ length ih =>
      rw [String.utf8ByteSize_ofList] at ih ⊢
      rw [List.replicate_succ, String.utf8Len_cons, ih]
      rfl
  exact ⟨_, Node.isName_ofList segment (by simp), by simp, later, bytes⟩

theorem exists_isFull : ∃ loop root, IsFull loop root := by
  -- Twenty-two names of this length, their separators and the workshop make up the longest path.
  obtain ⟨loop, named, plain, later, bytes⟩ := exists_name 184
  have size : (winding loop 22).utf8ByteSize = FileSystem.maxPathLength := by
    rw [utf8ByteSize_winding named plain, bytes]
    rfl
  have short : FileSystem.isTooLong (winding loop 22) = false := by simp [FileSystem.isTooLong, size]
  have uncommon : ∀ name ∈ AliasConfig.defaultSources, name ≠ loop := by
    rintro name inside rfl
    have common : ∀ name ∈ AliasConfig.defaultSources, name.utf8ByteSize = 13 := by decide
    rw [common name inside] at bytes
    cases bytes
  exact ⟨loop, winding loop 22,
    { named := named
      later := later
      uncommon := uncommon
      normal := ⟨_, isTrail_winding named plain 22⟩
      absolute := fun _ => (isTrail_winding named plain 22).absolute? (nul_not_mem_winding named plain 22) _
      size := size
      find := fun _ loops => find_winding named plain loops (by decide) short }⟩

end Orphans
