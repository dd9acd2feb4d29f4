import Orphans.Proofs.Path.AbsoluteForm
import Orphans.Proofs.ProjectRoot

/-! The nearest project.

The search for a project root takes parents until a marked one is found, and the bound on their number is never
reached before they end. What it returns is an absolute form, and no file, so that a search from there begins at the
same place and stops at once.
-/

set_option autoImplicit false

namespace Orphans

namespace FileSystem

theorem Leads.stands_before_last {root : Node} {links : Nat} {here pieces location front : List String} {last : String}
    (leads : Leads root .follow links here pieces location) (cut : pieces = front ++ [last]) :
    ∃ middle entries, Leads root .follow links here front middle ∧ root.get? middle = some (.directory entries) := by
  induction leads generalizing front with
  | done links here => simp at cut
  | @stay links here _ _ _ entries directory idle _ ih =>
    cases front with
    | nil => exact ⟨here, entries, .done links here, directory⟩
    | cons first more =>
      obtain ⟨rfl, rfl⟩ := List.cons.inj cut
      obtain ⟨middle, inner, way, found⟩ := ih rfl
      exact ⟨middle, inner, .stay directory idle way, found⟩
  | @up links here _ _ entries directory _ ih =>
    cases front with
    | nil => exact ⟨here, entries, .done links here, directory⟩
    | cons first more =>
      obtain ⟨rfl, rfl⟩ := List.cons.inj cut
      obtain ⟨middle, inner, way, found⟩ := ih rfl
      exact ⟨middle, inner, .up directory way, found⟩
  | @enter links here _ _ _ _ busy down inside solid _ ih =>
    cases front with
    | nil =>
      obtain ⟨entries, directory, -⟩ := Node.directory_of_get?_concat inside
      exact ⟨here, entries, .done links here, directory⟩
    | cons first more =>
      obtain ⟨rfl, rfl⟩ := List.cons.inj cut
      obtain ⟨middle, inner, way, found⟩ := ih rfl
      exact ⟨middle, inner, .enter busy down inside solid way, found⟩
  | keep _ _ keeps _ => cases keeps
  | @follow links here _ _ _ _ busy down _ inside _ ih =>
    cases front with
    | nil =>
      obtain ⟨entries, directory, -⟩ := Node.directory_of_get?_concat inside
      exact ⟨here, entries, .done _ here, directory⟩
    | cons first more =>
      -- The target of the link stands in front of the pieces that are left.
      obtain ⟨rfl, rfl⟩ := List.cons.inj cut
      obtain ⟨middle, inner, way, found⟩ := ih (List.append_assoc _ _ _).symm
      exact ⟨middle, inner, .follow busy down (by simp) inside way, found⟩

theorem not_isFile_of_isFile_join {fileSystem : FileSystem} {directory name : String}
    (absolute : Path.isAbsolute directory = true) (named : Node.isName name = true)
    (inside : fileSystem.isFile (Path.join directory name) = true) : ¬ fileSystem.isFile directory = true := by
  intro isFile
  obtain ⟨text, found⟩ := isFile_iff.mp isFile
  obtain ⟨-, -, -, location, leads, atFile⟩ := (find_eq_ok_iff (by decide)).mp found
  obtain ⟨_, foundInside⟩ := isFile_iff.mp inside
  obtain ⟨-, -, -, _, leadsInside, -⟩ := (find_eq_ok_iff (by decide)).mp foundInside
  rw [start, if_pos absolute] at leads
  rw [start, if_pos (Path.isAbsolute_join absolute name)] at leadsInside
  obtain ⟨stem, ends, chars⟩ := Path.exists_stem (Path.ne_empty_of_isAbsolute absolute)
  have pieces : Path.pieces (Path.join directory name) = (stem.splitOn '/').map String.ofList ++ [name] := by
    simp [Path.pieces, chars name (Path.isAbsolute_of_isName named), List.splitOn_append_cons_self,
      List.splitOn_eq_singleton (Node.slash_not_mem_of_isName named)]
  obtain ⟨middle, entries, way, directory⟩ := leadsInside.stands_before_last pieces
  -- The directory is read in the same way, up to a separator at its end.
  have wayToFile : Leads fileSystem.root .follow maxLinks [] ((stem.splitOn '/').map String.ofList) location := by
    rcases ends with same | same
    · rwa [Path.pieces, same] at leads
    · refine leads.without_separator ?_
      simp [Path.pieces, same, List.splitOn_append_cons_self]
  have together := (way.walk_eq (by decide)).symm.trans (wayToFile.walk_eq (by decide))
  obtain rfl := Except.ok.inj together
  cases atFile.symm.trans directory

theorem Leads.of_idle {root : Node} {links : Nat} {here pieces location : List String}
    (leads : Leads root .follow links here pieces location) (idle : ∀ piece ∈ pieces, Path.isIdle piece = true)
    (inhabited : pieces ≠ []) : ∃ entries, root.get? location = some (.directory entries) := by
  induction leads with
  | done links here => contradiction
  | @stay links here rest _ _ entries directory _ onwards ih =>
    by_cases last : rest = []
    · subst last
      cases onwards
      exact ⟨entries, directory⟩
    · exact ih (fun piece member => idle piece (List.mem_cons_of_mem _ member)) last
  | up _ _ _ => exact absurd (idle ".." List.mem_cons_self) (by decide)
  | enter busy _ _ _ _ _ => exact absurd (idle _ List.mem_cons_self) (by simp [busy])
  | keep _ _ keeps _ => cases keeps
  | follow busy _ _ _ _ _ => exact absurd (idle _ List.mem_cons_self) (by simp [busy])

theorem exists_parent_of_isFile {fileSystem : FileSystem} {path : String} (absolute : Path.isAbsolute path = true)
    (isFile : fileSystem.isFile path = true) : ∃ parent, Path.parent? path = some parent := by
  rcases Path.parent?_of_isAbsolute absolute with ⟨-, nowhere⟩ | ⟨parent, last, found, -⟩
  · exfalso
    obtain ⟨text, found⟩ := isFile_iff.mp isFile
    obtain ⟨-, -, -, location, leads, atFile⟩ := (find_eq_ok_iff (by decide)).mp found
    have idle : ∀ piece ∈ Path.pieces path, Path.isIdle piece = true := by
      simpa [Path.steps, List.filter_eq_nil_iff] using nowhere
    obtain ⟨entries, directory⟩ := leads.of_idle idle (Path.pieces_ne_nil path)
    cases atFile.symm.trans directory
  · exact ⟨parent, found⟩

end FileSystem

namespace ProjectRoot

open Orphans.Path (IsSettled)

/-! ### Parents of parents -/

def above? : Nat → String → Option String
  | 0, path => some path
  | count + 1, path => (Path.parent? path).bind (above? count)

theorem length_lt_of_parent? {path above : String} (absolute : Path.isAbsolute path = true)
    (parent : Path.parent? path = some above) : above.length < path.length := by
  obtain ⟨last, front⟩ := IsFront.of_parent? absolute parent
  rw [← String.length_toList, ← String.length_toList]
  refine lt_of_le_of_ne front.text.length_le fun same => ?_
  -- A parent of the same length would be the path itself, which has one step more.
  obtain rfl : above = path := String.toList_injective (front.text.eq_of_length same)
  simpa using front.steps_eq

theorem getElem?_chain {path : String} (absolute : Path.isAbsolute path = true) {bound : Nat}
    (enough : path.length ≤ bound) (count : Nat) : (chain bound path)[count]? = above? count path := by
  induction bound generalizing path count with
  | zero =>
    have shorter : 0 < path.toList.length := List.length_pos_iff.mpr fun empty =>
      Path.ne_empty_of_isAbsolute absolute (String.toList_injective empty)
    rw [String.length_toList] at shorter
    omega
  | succ bound ih =>
    cases count with
    | zero => rfl
    | succ count =>
      rw [chain, List.getElem?_cons_succ, above?]
      cases parent : Path.parent? path with
      | none => rfl
      | some above =>
        have shorter := length_lt_of_parent? absolute parent
        obtain ⟨last, front⟩ := IsFront.of_parent? absolute parent
        exact ih front.absolute (by omega) count

/-- The bound on the number of parents cuts none of them off. -/
theorem getElem?_ancestors {path : String} (placed : Path.isAbsolute path = true ∨ path = "") (count : Nat) :
    (ancestors path)[count]? = above? count path := by
  rcases placed with absolute | rfl
  · exact getElem?_chain absolute le_rfl count
  · cases count with
    | zero => rfl
    | succ count =>
      have top : Path.parent? "" = none := by decide
      rw [above?, top]
      rfl

def IsNearest (test : String → Prop) (path directory : String) : Prop :=
  ∃ count, above? count path = some directory ∧ test directory ∧
    ∀ fewer < count, ∀ passed, above? fewer path = some passed → ¬ test passed

theorem find?_ancestors_eq_some {test : String → Bool} {path directory : String}
    (placed : Path.isAbsolute path = true ∨ path = "") (found : (ancestors path).find? test = some directory) :
    IsNearest (test · = true) path directory := by
  obtain ⟨passes, count, bound, here, before⟩ := List.find?_eq_some_iff_getElem.mp found
  refine ⟨count, ?_, passes, ?_⟩
  · rw [← getElem?_ancestors placed, List.getElem?_eq_getElem bound, here]
  · intro fewer less passed reached
    rw [← getElem?_ancestors placed] at reached
    obtain ⟨bound, rfl⟩ := List.getElem?_eq_some_iff.mp reached
    simpa using before fewer less

theorem find?_ancestors_eq_none {test : String → Bool} {path : String}
    (placed : Path.isAbsolute path = true ∨ path = "") (none : (ancestors path).find? test = none) (count : Nat)
    {passed : String} (reached : above? count path = some passed) : ¬ test passed = true := by
  rw [← getElem?_ancestors placed] at reached
  exact List.find?_eq_none.mp none passed (List.mem_of_getElem? reached)

theorem isSettled_of_mem_chain {path directory : String} (settled : IsSettled path) {bound : Nat}
    (member : directory ∈ chain bound path) : IsSettled directory := by
  induction bound generalizing path with
  | zero =>
    obtain rfl : directory = path := by simpa [chain] using member
    exact settled
  | succ bound ih =>
    rw [chain] at member
    rcases List.mem_cons.mp member with rfl | onwards
    · exact settled
    · cases parent : Path.parent? path with
      | none => simp [parent] at onwards
      | some above =>
        rw [parent] at onwards
        exact ih (settled.parent parent) onwards

/-! ### The search -/

section Search
variable (fileSystem : FileSystem)

theorem not_isFile_of_isMarked {directory : String} (absolute : Path.isAbsolute directory = true)
    (marked : isMarked fileSystem directory = true) : ¬ fileSystem.isFile directory = true := by
  obtain ⟨marker, member, inside⟩ := List.any_eq_true.mp marked
  exact FileSystem.not_isFile_of_isFile_join absolute (isName_of_mem_markers member) inside

/-- The path made absolute. The empty path has no absolute form and stands for itself. -/
def origin (path : String) : String := (fileSystem.absolute? path).getD path

theorem find_eq (path : String) :
    find fileSystem path =
      ((ancestors (first fileSystem (origin fileSystem path))).find? (isMarked fileSystem)).getD
        (origin fileSystem path) :=
  rfl

theorem isAbsolute_origin (path : String) :
    Path.isAbsolute (origin fileSystem path) = true ∨ origin fileSystem path = "" := by
  unfold origin
  cases made : fileSystem.absolute? path with
  | none => exact .inr (Path.absolute?_eq_none_iff.mp made)
  | some start => exact .inl (FileSystem.isAbsolute_absolute? made)

theorem first_of_not_isFile {start : String} (noFile : ¬ fileSystem.isFile start = true) :
    first fileSystem start = start :=
  if_neg noFile

theorem first_of_isFile {start above : String} (isFile : fileSystem.isFile start = true)
    (parent : Path.parent? start = some above) : first fileSystem start = above := by
  rw [first, if_pos isFile, parent, Option.getD_some]

theorem find_of_isMarked {directory : String} (settled : IsSettled directory)
    (marked : isMarked fileSystem directory = true) : find fileSystem directory = directory := by
  have made : origin fileSystem directory = directory := by
    rw [origin, FileSystem.absolute?, settled.absolute?, Option.getD_some]
  have begins := first_of_not_isFile fileSystem (not_isFile_of_isMarked fileSystem settled.isAbsolute marked)
  obtain ⟨rest, chained⟩ : ∃ rest, ancestors directory = directory :: rest := by
    unfold ancestors
    cases directory.length <;> exact ⟨_, rfl⟩
  rw [find_eq, made, begins, chained, List.find?_cons_of_pos marked, Option.getD_some]

theorem first_spec {whole : String} (placed : Path.isAbsolute whole = true ∨ whole = "") :
    (if fileSystem.isFile whole then Path.parent? whole = some (first fileSystem whole)
      else first fileSystem whole = whole) ∧
    (Path.isAbsolute (first fileSystem whole) = true ∨ first fileSystem whole = "") := by
  split
  · next isFile =>
    have absolute : Path.isAbsolute whole = true := placed.resolve_right fun empty => by
      rw [empty] at isFile
      cases isFile
    obtain ⟨above, parent⟩ := FileSystem.exists_parent_of_isFile absolute isFile
    obtain ⟨last, front⟩ := IsFront.of_parent? absolute parent
    rw [first_of_isFile fileSystem isFile parent]
    exact ⟨parent, .inl front.absolute⟩
  · next noFile =>
    rw [first_of_not_isFile fileSystem noFile]
    exact ⟨rfl, placed⟩

theorem find_of_empty : find fileSystem "" = "" := by
  have lone : ancestors (first fileSystem (origin fileSystem "")) = [""] := rfl
  rw [find_eq, lone, List.find?_singleton]
  split <;> rfl

theorem isSettled_first {start : String} (settled : IsSettled start) : IsSettled (first fileSystem start) := by
  unfold first
  split
  · cases parent : Path.parent? start with
    | none => exact settled
    | some above => exact settled.parent parent
  · exact settled

theorem find_find (named : ∀ name ∈ fileSystem.workingDirectory, Node.isName name = true) (path : String) :
    find fileSystem (find fileSystem path) = find fileSystem path := by
  cases made : fileSystem.absolute? path with
  | none =>
    obtain rfl := Path.absolute?_eq_none_iff.mp made
    rw [find_of_empty, find_of_empty]
  | some whole =>
    have settled : IsSettled whole := Path.isSettled_absolute? named made
    have begins : origin fileSystem path = whole := by rw [origin, made, Option.getD_some]
    have again : origin fileSystem whole = whole := by
      rw [origin, FileSystem.absolute?, settled.absolute?, Option.getD_some]
    rw [find_eq fileSystem path, begins]
    cases search : (ancestors (first fileSystem whole)).find? (isMarked fileSystem) with
    | none => rw [Option.getD_none, find_eq, again, search, Option.getD_none]
    | some directory =>
      have member : directory ∈ chain _ (first fileSystem whole) := List.mem_of_find?_eq_some search
      rw [Option.getD_some]
      exact find_of_isMarked fileSystem (isSettled_of_mem_chain (isSettled_first fileSystem settled) member)
        (List.find?_some search)

/-- The root of a path is the nearest marked directory, from the path or the parent of a file upwards, or else the path
made absolute. It is its own root, wherever the working directory is given by names. -/
theorem find_nearest_fixed (path : String) :
    (∃ start, (if fileSystem.isFile (origin fileSystem path) then Path.parent? (origin fileSystem path) = some start
        else start = origin fileSystem path) ∧
      (IsNearest (isMarked fileSystem · = true) start (find fileSystem path) ∨
        (∀ count directory, above? count start = some directory → ¬ isMarked fileSystem directory = true) ∧
          find fileSystem path = origin fileSystem path)) ∧
    ((∀ name ∈ fileSystem.workingDirectory, Node.isName name = true) →
      find fileSystem (find fileSystem path) = find fileSystem path) := by
  obtain ⟨begins, placed⟩ := first_spec fileSystem (isAbsolute_origin fileSystem path)
  refine ⟨⟨_, begins, ?_⟩, fun named => find_find fileSystem named path⟩
  rw [find_eq]
  cases search : (ancestors (first fileSystem (origin fileSystem path))).find? (isMarked fileSystem) with
  | some directory => exact .inl (find?_ancestors_eq_some placed search)
  | none => exact .inr ⟨fun count _ => find?_ancestors_eq_none placed search count, rfl⟩

end Search

/-- A search from a file of the inner project, and one from a missing path behind a separator. -/
theorem find_nearest_fixed_nestedRoots :
    find nestedRoots "a/b/package.json" = "/w/a/b" ∧
      find nestedRoots (find nestedRoots "a/c/missing/..//") = find nestedRoots "a/c/missing/..//" ∧
      find nestedRoots "a/c/missing/..//" = "/w" := by
  refine ⟨by decide +kernel, ?_, by decide +kernel⟩
  exact (find_nearest_fixed nestedRoots "a/c/missing/..//").2 (by decide)

end ProjectRoot

end Orphans
