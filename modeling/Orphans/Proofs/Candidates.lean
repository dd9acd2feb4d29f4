import Orphans.Proofs.FileSystem.Lookup
import Orphans.Proofs.Key.Trail

/-! The candidates of a directory.

Walking a directory and passing over what is excluded finds the same files as looking at every location
and asking whether a file there is ignored. A root that leads to a directory is walked like the directory
itself, and the files found are read from the tree as they lie in it, as far as their paths are not too
long.
-/

set_option autoImplicit false

namespace Orphans

/-! ### Files by location -/

theorem Node.WellFormedEntries.lookup_eq_some_iff {entries : List (String × Node)}
    (formed : WellFormedEntries entries) {name : String} {child : Node} :
    entries.lookup name = some child ↔ (name, child) ∈ entries := by
  induction entries with
  | nil => simp
  | cons entry rest ih =>
    obtain ⟨-, later, -, restFormed⟩ := formed
    rw [List.lookup_cons, List.mem_cons]
    split
    · next same =>
      have same : name = entry.1 := by simpa using same
      -- The names behind an entry are greater, so none of them is the same.
      have notLater : (entry.1, child) ∉ rest := fun member =>
        String.lt_irrefl entry.1 (later (entry.1, child) member)
      simp only [same, notLater, or_false, Option.some.injEq, Prod.ext_iff, true_and]
      exact eq_comm
    · next different =>
      have different : name ≠ entry.1 := by simpa using different
      rw [ih restFormed]
      simp [Prod.ext_iff, different]

namespace Rules

variable (rules : Rules)

/-- A file at this location takes no part: a directory on the way is excluded, it is a test artifact, or
its extension is not accepted. -/
def ignoresFile (location : List String) : Bool :=
  location.dropLast.any rules.excludes || TestArtifact.includes (location.map Path.Component.name) ||
    !location.getLast?.any rules.acceptsName

theorem mem_locationsIn {entries : List (String × Node)} {location : List String} :
    location ∈ rules.locationsIn entries ↔ ∃ entry ∈ entries, location ∈ rules.locationsAt entry.1 entry.2 := by
  induction entries with
  | nil => simp [locationsIn]
  | cons entry rest ih => simp [locationsIn, ih]

theorem mem_locationsIn_cons {entries : List (String × Node)} (formed : Node.WellFormedEntries entries)
    {name : String} {below : List String} :
    name :: below ∈ rules.locationsIn entries ↔
      ∃ child, entries.lookup name = some child ∧ name :: below ∈ rules.locationsAt name child := by
  rw [mem_locationsIn]
  constructor
  · rintro ⟨⟨other, child⟩, member, located⟩
    obtain ⟨_, same⟩ := rules.head_of_mem_locationsAt located
    obtain ⟨rfl, -⟩ := List.cons.inj same
    exact ⟨child, formed.lookup_eq_some_iff.mpr member, located⟩
  · rintro ⟨child, found, located⟩
    exact ⟨(name, child), formed.lookup_eq_some_iff.mp found, located⟩

theorem nil_not_mem_locationsIn (entries : List (String × Node)) : [] ∉ rules.locationsIn entries := by
  intro member
  obtain ⟨_, _, _, empty⟩ := rules.head_of_mem_locationsIn member
  cases empty

/-- Passing over an excluded directory is leaving out the files with that directory on the way. -/
theorem mem_locationsIn_iff {entries : List (String × Node)} (formed : Node.WellFormedEntries entries)
    {location : List String} :
    location ∈ rules.locationsIn entries ↔
      location.dropLast.any rules.excludes = false ∧ location.getLast?.any rules.acceptsName = true ∧
        ∃ text, (Node.directory entries).get? location = some (.file text) := by
  induction location generalizing entries with
  | nil => simp [rules.nil_not_mem_locationsIn]
  | cons name below ih =>
    rw [rules.mem_locationsIn_cons formed]
    simp only [Node.get?]
    cases found : entries.lookup name with
    | none => simp
    | some child =>
      cases child with
      | file text => cases below <;> simp [locationsAt, Node.get?]
      | link target => cases below <;> simp [locationsAt, Node.get?]
      -- One name less, in a directory that the walk enters unless it is excluded.
      | directory inner =>
        have innerFormed : Node.WellFormedEntries inner := formed.of_lookup found
        cases below with
        | nil => simp [locationsAt, Node.get?, rules.nil_not_mem_locationsIn]
        | cons next more =>
          simp [locationsAt, ih innerFormed, and_assoc]

theorem mem_candidatesIn_iff {entries : List (String × Node)} (formed : Node.WellFormedEntries entries)
    {location : List String} :
    location ∈ rules.candidatesIn entries ↔ rules.ignoresFile location = false ∧
      ∃ text, (Node.directory entries).get? location = some (.file text) := by
  simp only [candidatesIn, List.mem_filter, rules.mem_locationsIn_iff formed, ignoresFile, Bool.or_eq_false_iff,
    Bool.not_eq_true', Bool.not_eq_false']
  tauto

theorem named_of_mem_candidatesIn {entries : List (String × Node)} (formed : Node.WellFormedEntries entries)
    {location : List String} (member : location ∈ rules.candidatesIn entries) :
    location ≠ [] ∧ ∀ name ∈ location, Node.isName name = true := by
  have inside := (List.mem_filter.mp member).1
  refine ⟨?_, rules.isName_of_mem_locationsIn formed location inside⟩
  rintro rfl
  exact rules.nil_not_mem_locationsIn entries inside

end Rules

/-! ### A root that leads to a directory -/

section Placed
variable {fileSystem : FileSystem} {root : String} {entries : List (String × Node)}
  (placed : fileSystem.find .follow root = .ok (.directory entries))
include placed

theorem discover_of_directory (rules : Rules) :
    discover fileSystem root rules = .ofDirectory rules root entries := by
  unfold discover
  rcases FileSystem.find_keep_of_follow placed with found | ⟨target, found⟩
  · rw [found]
  · simp only [found, placed]

variable (absolute : Path.isAbsolute root = true) {location : List String} (inhabited : location ≠ [])
  (named : ∀ name ∈ location, Node.isName name = true)
include absolute inhabited named

namespace FileSystem

theorem nul_not_mem_pathAt : '\x00' ∉ (Discovery.pathAt root location).toList := by
  obtain ⟨stem, ends, paths⟩ := Discovery.exists_stem_pathAt (Path.ne_empty_of_isAbsolute absolute)
  obtain ⟨-, rootClean, -⟩ := (find_eq_ok_iff (by decide)).mp placed
  have stemClean : '\x00' ∉ stem := fun member => rootClean <| by
    rcases ends with same | same
    · exact same ▸ member
    · exact same ▸ List.mem_append_left _ member
  rw [paths location inhabited named]
  intro member
  rcases List.mem_append.mp member with inStem | inTrail
  · exact stemClean inStem
  · rcases Key.mem_trail inTrail with slash | ⟨chars, inNames, inside⟩
    · cases slash
    · obtain ⟨name, inLocation, rfl⟩ := List.mem_map.mp inNames
      exact Node.nul_not_mem_of_isName (named name inLocation) inside

theorem find_pathAt {node : Node} (found : (Node.directory entries).get? location = some node)
    (solid : ¬ node.IsLink) (short : isTooLong (Discovery.pathAt root location) = false) :
    fileSystem.find .follow (Discovery.pathAt root location) = .ok node := by
  have noNul := nul_not_mem_pathAt placed absolute inhabited named
  have pathAbsolute := Discovery.isAbsolute_pathAt absolute location
  obtain ⟨stem, ends, paths⟩ := Discovery.exists_stem_pathAt (Path.ne_empty_of_isAbsolute absolute)
  obtain ⟨-, -, -, middle, leads, atMiddle⟩ := (find_eq_ok_iff (by decide)).mp placed
  let front := (stem.splitOn '/').map String.ofList
  -- The path leads to the directory as the root does, and from there down the names.
  have pieces : Path.pieces (Discovery.pathAt root location) = front ++ location := by
    simp only [Path.pieces, paths location inhabited named, Discovery.splitOn_append_names named, List.map_append,
      List.map_map]
    simp [front, Function.comp_def]
  have toMiddle : Leads fileSystem.root .follow maxLinks [] front middle := by
    have starts : start fileSystem.workingDirectory root = [] := by rw [start, if_pos absolute]
    rw [starts] at leads
    rcases ends with same | same
    · rw [Path.pieces, same] at leads
      exact leads
    · refine leads.without_separator ?_
      simp [Path.pieces, same, front, List.splitOn_append_cons_self]
  refine (find_eq_ok_iff (by decide)).mpr ⟨?_, noNul, short, middle ++ location, ?_, ?_⟩
  · intro empty
    rw [empty] at pathAbsolute
    cases pathAbsolute
  · rw [pieces, start, if_pos pathAbsolute]
    exact toMiddle.append fun fewer => .descend atMiddle named found solid
  · rw [Node.get?_append, atMiddle]
    exact found

theorem readText_pathAt {text : Option String}
    (found : (Node.directory entries).get? location = some (.file text)) :
    fileSystem.readText (Discovery.pathAt root location) =
      if isTooLong (Discovery.pathAt root location) then .error .nameTooLong
      else text.elim (.error .notText) .ok := by
  cases long : isTooLong (Discovery.pathAt root location) with
  | true =>
    have noNul := nul_not_mem_pathAt placed absolute inhabited named
    have notEmpty : Discovery.pathAt root location ≠ "" := by
      intro empty
      rw [empty] at long
      cases long
    simp [readText, find, locate, notEmpty, noNul, long]
  | false =>
    have solid : ¬ (Node.file text).IsLink := by
      rintro ⟨target, same⟩
      cases same
    rw [readText, find_pathAt placed absolute inhabited named found solid long]
    cases text <;> rfl

end FileSystem

end Placed

end Orphans
