import Mathlib.Data.List.Nodup
import Mathlib.Data.String.Basic
import Mathlib.Order.RelClasses
import Orphans.Discovery
import Orphans.Proofs.Key.Rooted

/-! What a walk finds.

An analysis works on absolute paths: the root is made absolute and everything found lies at a location
below it. In a well-formed tree the locations ascend and consist of names.
-/

set_option autoImplicit false

namespace Orphans

/-! ### Absolute paths -/

namespace Path

theorem isAbsolute_iff {path : String} : isAbsolute path = true ↔ ∃ rest, path.toList = '/' :: rest := by
  simp [isAbsolute, List.head?_eq_some_iff]

theorem isAbsolute_append {front : String} (absolute : isAbsolute front = true) (back : String) :
    isAbsolute (front ++ back) = true := by
  obtain ⟨rest, chars⟩ := isAbsolute_iff.mp absolute
  exact isAbsolute_iff.mpr ⟨rest ++ back.toList, by rw [String.toList_append, chars, List.cons_append]⟩

theorem isAbsolute_join {base : String} (absolute : isAbsolute base = true) (tail : String) :
    isAbsolute (join base tail) = true := by
  unfold join
  split
  · assumption
  · split
    · exact isAbsolute_append absolute tail
    · exact isAbsolute_append (isAbsolute_append absolute "/") tail

theorem isAbsolute_appendComponents {start : String} (absolute : isAbsolute start = true)
    (parts : List Component) : isAbsolute (appendComponents start parts) = true := by
  induction parts generalizing start with
  | nil => exact absolute
  | cons first rest ih => exact ih (isAbsolute_join absolute first.text)

theorem pieces_ne_nil (path : String) : pieces path ≠ [] := by
  simp [pieces, List.splitOn_ne_nil]

theorem pieces_of_isAbsolute {path : String} (absolute : isAbsolute path = true) :
    ∃ first rest, pieces path = "" :: first :: rest := by
  obtain ⟨chars, slash⟩ := isAbsolute_iff.mp absolute
  obtain ⟨first, rest, parts⟩ := List.exists_cons_of_ne_nil (List.splitOn_ne_nil '/' chars)
  refine ⟨.ofList first, rest.map .ofList, ?_⟩
  rw [pieces, slash, List.splitOn_cons_eq_if_modifyHead, if_pos (beq_self_eq_true '/'), parts]
  rfl

theorem components_of_isAbsolute {path : String} (absolute : isAbsolute path = true) :
    ∃ body, components path = .root :: body := by
  obtain ⟨first, rest, parts⟩ := pieces_of_isAbsolute absolute
  exact ⟨bodyComponents (first :: rest), by rw [components, parts, componentsOf]⟩

def absoluteBody (workingDirectory path : String) : String :=
  if isAbsolute path then
    if (path.toList.takeWhile (· == '/')).length = 2 then appendComponents "//" (components path).tail
    else appendComponents "" (components path)
  else appendComponents workingDirectory (dropLeadingCurrent (components path))

theorem absolute?_eq (workingDirectory path : String) :
    absolute? workingDirectory path =
      if path.toList = [] then none
      else
        let body := absoluteBody workingDirectory path
        some (if path.toList.getLast? = some '/' then join body "" else body) :=
  rfl

theorem isAbsolute_absoluteBody {workingDirectory : String} (placed : isAbsolute workingDirectory = true)
    (path : String) : isAbsolute (absoluteBody workingDirectory path) = true := by
  unfold absoluteBody
  split
  · next absolute =>
    obtain ⟨rest, read⟩ := components_of_isAbsolute absolute
    split
    · exact isAbsolute_appendComponents (by decide) _
    · have start : isAbsolute (join "" "/") = true := by decide
      rw [read]
      exact isAbsolute_appendComponents start rest
  · exact isAbsolute_appendComponents placed _

theorem isAbsolute_absolute? {workingDirectory path whole : String}
    (placed : isAbsolute workingDirectory = true) (made : absolute? workingDirectory path = some whole) :
    isAbsolute whole = true := by
  have body := isAbsolute_absoluteBody placed path
  rw [absolute?_eq] at made
  by_cases empty : path.toList = []
  · rw [if_pos empty] at made
    cases made
  · rw [if_neg empty] at made
    obtain rfl := Option.some.inj made
    split
    · exact isAbsolute_join body ""
    · exact body

theorem absolute?_eq_none_iff {workingDirectory path : String} :
    absolute? workingDirectory path = none ↔ path = "" := by
  rw [absolute?_eq]
  split
  · next empty => simpa using String.toList_eq_nil_iff.mp empty
  · next inhabited => simpa using fun empty => inhabited (String.toList_eq_nil_iff.mpr empty)

end Path

namespace FileSystem

theorem isAbsolute_absolute? {fileSystem : FileSystem} {path root : String}
    (made : fileSystem.absolute? path = some root) : Path.isAbsolute root = true :=
  Path.isAbsolute_absolute? (Path.isAbsolute_append (by decide) _) made

end FileSystem

/-! ### Files and locations -/

namespace Discovery

theorem isAbsolute_pathAt {root : String} (absolute : Path.isAbsolute root = true) (location : List String) :
    Path.isAbsolute (pathAt root location) = true := by
  induction location generalizing root with
  | nil => exact absolute
  | cons name rest ih => exact ih (Path.isAbsolute_join absolute name)

end Discovery

theorem discover_files (fileSystem : FileSystem) (root : String) (rules : Rules) :
    (discover fileSystem root rules).files = [] ∨
    (discover fileSystem root rules).files = [⟨root⟩] ∨
    ∃ ending entries, fileSystem.find ending root = .ok (.directory entries) ∧
      (discover fileSystem root rules).files = (Discovery.ofDirectory rules root entries).files := by
  unfold discover
  split
  · exact .inl rfl
  · unfold Discovery.ofFile
    split
    · exact .inr (.inl rfl)
    · exact .inl rfl
  · next entries found => exact .inr (.inr ⟨.keep, entries, found, rfl⟩)
  · split
    · exact .inl rfl
    · next entries found => exact .inr (.inr ⟨.follow, entries, found, rfl⟩)
    · exact .inl rfl

theorem isAbsolute_of_mem_discover {fileSystem : FileSystem} {root : String} {rules : Rules}
    (absolute : Path.isAbsolute root = true) {file : Candidate}
    (found : file ∈ (discover fileSystem root rules).files) : Path.isAbsolute file.path = true := by
  rcases discover_files fileSystem root rules with files | files | ⟨-, entries, -, files⟩ <;>
    rw [files] at found
  · cases found
  · rw [List.mem_singleton.mp found]
    exact absolute
  · obtain ⟨location, -, rfl⟩ := List.mem_map.mp found
    exact Discovery.isAbsolute_pathAt absolute location

/-! ### Well-formed trees -/

namespace Node

mutual

instance decidableWellFormed : (node : Node) → Decidable node.WellFormed
  | .file _ => isTrue trivial
  | .link _ => isTrue trivial
  | .directory entries => decidableWellFormedEntries entries

instance decidableWellFormedEntries : (entries : List (String × Node)) → Decidable (WellFormedEntries entries)
  | [] => isTrue trivial
  | (name, node) :: rest =>
    have := decidableWellFormed node
    have := decidableWellFormedEntries rest
    inferInstanceAs (Decidable (isName name = true ∧ (∀ later ∈ rest, name < later.1) ∧
      WellFormed node ∧ WellFormedEntries rest))

end

theorem WellFormedEntries.of_lookup {entries : List (String × Node)} (formed : WellFormedEntries entries)
    {name : String} {child : Node} (found : entries.lookup name = some child) : child.WellFormed := by
  induction entries with
  | nil => cases found
  | cons entry rest ih =>
    obtain ⟨-, -, entryFormed, restFormed⟩ := formed
    rw [List.lookup_cons] at found
    split at found
    · obtain rfl := Option.some.inj found
      exact entryFormed
    · exact ih restFormed found

theorem inherited_get? {Holds : Node → Prop}
    (handedOn : ∀ {entries : List (String × Node)} {name : String} {child : Node},
      Holds (.directory entries) → entries.lookup name = some child → Holds child)
    {node below : Node} (holds : Holds node) {location : List String} (found : node.get? location = some below) :
    Holds below := by
  induction location generalizing node with
  | nil =>
    obtain rfl := Option.some.inj (by simpa [get?] using found)
    exact holds
  | cons name rest ih =>
    cases node with
    | file text => cases found
    | link target => cases found
    | directory entries =>
      rw [get?] at found
      split at found
      · next child inside => exact ih (handedOn holds inside) found
      · cases found

theorem WellFormed.get? {node : Node} (formed : node.WellFormed) {location : List String} {below : Node}
    (found : node.get? location = some below) : below.WellFormed :=
  inherited_get? (fun holds inside => WellFormedEntries.of_lookup holds inside) formed found

end Node

theorem FileSystem.wellFormed_of_find {fileSystem : FileSystem} (formed : fileSystem.root.WellFormed)
    {ending : Ending} {path : String} {node : Node} (found : fileSystem.find ending path = .ok node) :
    node.WellFormed := by
  unfold find at found
  split at found
  · cases found
  · split at found
    · next inside =>
      obtain rfl := Except.ok.inj found
      exact formed.get? inside
    · cases found

namespace Rules

variable (rules : Rules)

theorem head_of_mem_locationsAt {name : String} {node : Node} {location : List String}
    (member : location ∈ rules.locationsAt name node) : ∃ below, location = name :: below := by
  cases node with
  | file text =>
    simp only [locationsAt] at member
    split at member
    · exact ⟨[], List.mem_singleton.mp member⟩
    · cases member
  | link target => cases member
  | directory entries =>
    simp only [locationsAt] at member
    split at member
    · cases member
    · obtain ⟨below, -, rfl⟩ := List.mem_map.mp member
      exact ⟨below, rfl⟩

theorem head_of_mem_locationsIn {entries : List (String × Node)} {location : List String}
    (member : location ∈ rules.locationsIn entries) : ∃ entry ∈ entries, ∃ below, location = entry.1 :: below := by
  induction entries with
  | nil => cases member
  | cons entry rest ih =>
    rcases List.mem_append.mp member with here | later
    · exact ⟨entry, List.mem_cons_self, rules.head_of_mem_locationsAt here⟩
    · obtain ⟨other, inside, below, same⟩ := ih later
      exact ⟨other, List.mem_cons_of_mem _ inside, below, same⟩

mutual

/-- A walk meets the locations in ascending order, so it meets none of them twice. -/
theorem ascends_locationsIn : ∀ {entries : List (String × Node)}, Node.WellFormedEntries entries →
    (rules.locationsIn entries).Pairwise (· < ·)
  | [], _ => .nil
  | (name, node) :: rest, ⟨_, later, nodeFormed, restFormed⟩ => by
    refine List.pairwise_append.mpr ⟨ascends_locationsAt nodeFormed, ascends_locationsIn restFormed, ?_⟩
    -- Every location of an entry begins with its name, and the names of the entries ascend.
    intro first here second there
    obtain ⟨below, rfl⟩ := rules.head_of_mem_locationsAt here
    obtain ⟨entry, inside, otherBelow, rfl⟩ := rules.head_of_mem_locationsIn there
    exact List.cons_lt_cons_iff.mpr (.inl (later entry inside))

theorem ascends_locationsAt {name : String} : ∀ {node : Node}, node.WellFormed →
    (rules.locationsAt name node).Pairwise (· < ·)
  | .file _, _ => by
    simp only [locationsAt]
    split
    · exact List.pairwise_singleton _ _
    · exact .nil
  | .link _, _ => .nil
  | .directory entries, formed => by
    simp only [locationsAt]
    split
    · exact .nil
    · refine List.pairwise_map.mpr ((ascends_locationsIn formed).imp fun below => ?_)
      exact List.cons_lt_cons_iff.mpr (.inr ⟨rfl, below⟩)

end

mutual

theorem isName_of_mem_locationsIn : ∀ {entries : List (String × Node)}, Node.WellFormedEntries entries →
    ∀ location ∈ rules.locationsIn entries, ∀ name ∈ location, Node.isName name = true
  | (name, node) :: rest, ⟨named, _, nodeFormed, restFormed⟩, location, member => by
    rcases List.mem_append.mp member with here | later
    · exact isName_of_mem_locationsAt named nodeFormed location here
    · exact isName_of_mem_locationsIn restFormed location later

theorem isName_of_mem_locationsAt {name : String} (named : Node.isName name = true) :
    ∀ {node : Node}, node.WellFormed →
    ∀ location ∈ rules.locationsAt name node, ∀ part ∈ location, Node.isName part = true
  | .file _, _, location, member => by
    simp only [locationsAt] at member
    split at member
    · obtain rfl := List.mem_singleton.mp member
      simpa using named
    · cases member
  | .directory entries, formed, location, member => by
    simp only [locationsAt] at member
    split at member
    · cases member
    · obtain ⟨below, inside, rfl⟩ := List.mem_map.mp member
      intro part partMember
      rcases List.mem_cons.mp partMember with rfl | inBelow
      · exact named
      · exact isName_of_mem_locationsIn formed below inside part inBelow

end

end Rules

end Orphans
