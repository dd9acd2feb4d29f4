import Orphans.Proofs.FileSystem.Lookup
import Orphans.Proofs.Path.Steps

/-! Trees without links.

Where no link hands over, a path leads where its text says: each step is known before the tree is asked, and
the tree only says whether it can be taken. So a way can be cut anywhere, idle pieces may be left out, and
they may be put back in front of a step.
-/

set_option autoImplicit false

namespace Orphans

/-! ### Nodes -/

namespace Node

mutual

def isLinkless : Node → Bool
  | .file _ => true
  | .link _ => false
  | .directory entries => areLinkless entries

def areLinkless : List (String × Node) → Bool
  | [] => true
  | (_, node) :: rest => isLinkless node && areLinkless rest

end

theorem isLinkless_of_lookup {entries : List (String × Node)} (linkless : areLinkless entries = true) {name : String}
    {child : Node} (found : entries.lookup name = some child) : child.isLinkless = true := by
  induction entries with
  | nil => cases found
  | cons entry rest ih =>
    obtain ⟨first, others⟩ := (Bool.and_eq_true _ _).mp linkless
    rw [List.lookup_cons] at found
    split at found
    · obtain rfl := Option.some.inj found
      exact first
    · exact ih others found

theorem isLinkless_of_get? {node below : Node} (linkless : node.isLinkless = true) {location : List String}
    (found : node.get? location = some below) : below.isLinkless = true :=
  inherited_get? (fun holds inside => isLinkless_of_lookup holds inside) linkless found

theorem WellFormedEntries.isName_of_lookup {entries : List (String × Node)} (formed : WellFormedEntries entries)
    {name : String} {child : Node} (found : entries.lookup name = some child) : isName name = true := by
  induction entries with
  | nil => cases found
  | cons entry rest ih =>
    obtain ⟨named, -, -, restFormed⟩ := formed
    rw [List.lookup_cons] at found
    split at found
    · next same =>
      have same : name = entry.1 := by simpa using same
      exact same ▸ named
    · exact ih restFormed found

theorem WellFormed.isName_of_get? {node below : Node} (formed : node.WellFormed) {location : List String}
    (found : node.get? location = some below) : ∀ name ∈ location, isName name = true := by
  intro name member
  obtain ⟨front, back, rfl⟩ := List.append_of_mem member
  rw [List.append_cons, get?_append] at found
  obtain ⟨child, atChild, -⟩ := Option.bind_eq_some_iff.mp found
  obtain ⟨entries, directory, inside⟩ := directory_of_get?_concat atChild
  exact WellFormedEntries.isName_of_lookup (formed.get? directory) inside

theorem exists_entries_of_get? {node : Node} {location : List String} {inner : List (String × Node)}
    (found : node.get? location = some (.directory inner)) : ∃ entries, node = .directory entries := by
  cases node with
  | directory entries => exact ⟨entries, rfl⟩
  | file text => cases location <;> cases found
  | link target => cases location <;> cases found

end Node

/-! ### Where the text of a path leads -/

namespace Path

def move (here : List String) (piece : String) : List String :=
  if isIdle piece then here else if piece = ".." then here.dropLast else here ++ [piece]

def place (path : String) : List String := (steps path).foldl move []

theorem move_idle {piece : String} (idle : isIdle piece = true) (here : List String) : move here piece = here := by
  simp [move, idle]

theorem move_parent (here : List String) : move here ".." = here.dropLast := rfl

theorem move_down {piece : String} (busy : isIdle piece = false) (down : piece ≠ "..") (here : List String) :
    move here piece = here ++ [piece] := by
  simp [move, busy, down]

theorem foldl_move_filter (here pieces : List String) :
    (pieces.filter fun piece => !isIdle piece).foldl move here = pieces.foldl move here := by
  induction pieces generalizing here with
  | nil => rfl
  | cons piece rest ih =>
    cases idle : isIdle piece with
    | true => simp [idle, ih, move_idle]
    | false => simp [idle, ih]

section Named
variable {directory name : String} (absolute : isAbsolute directory = true) (named : Node.isName name = true)
include absolute named

theorem steps_join_name : steps (join directory name) = steps directory ++ [name] := by
  rw [steps_join (ne_empty_of_isAbsolute absolute) (isAbsolute_of_isName named),
    steps_of_plain (Node.slash_not_mem_of_isName named) (Node.isIdle_of_isName named)]

theorem place_join_name : place (join directory name) = place directory ++ [name] := by
  rw [place, steps_join_name absolute named, List.foldl_append]
  exact move_down (Node.isIdle_of_isName named) (Node.ne_parent_of_isName named) _

end Named

end Path

namespace FileSystem

open Orphans.Path (move move_idle move_parent move_down place steps steps_join_name)

section Linkless
variable {root : Node} (linkless : root.isLinkless = true) {links : Nat} {here location : List String}
include linkless

theorem leads_cons_iff {piece : String} {rest : List String} :
    Leads root .follow links here (piece :: rest) location ↔
      (∃ entries, root.get? here = some (.directory entries)) ∧ (∃ node, root.get? (move here piece) = some node) ∧
        Leads root .follow links (move here piece) rest location := by
  constructor
  · intro leads
    cases leads with
    | stay directory idle onwards =>
      rw [move_idle idle]
      exact ⟨⟨_, directory⟩, ⟨_, directory⟩, onwards⟩
    | up directory onwards =>
      rw [move_parent]
      refine ⟨⟨_, directory⟩, ?_, onwards⟩
      rcases List.eq_nil_or_concat here with rfl | ⟨front, last, rfl⟩
      · exact ⟨_, directory⟩
      · rw [List.concat_eq_append] at directory ⊢
        obtain ⟨entries, above, -⟩ := Node.directory_of_get?_concat directory
        rw [List.dropLast_concat]
        exact ⟨_, above⟩
    | enter busy down found solid onwards =>
      obtain ⟨entries, directory, -⟩ := Node.directory_of_get?_concat found
      rw [move_down busy down]
      exact ⟨⟨entries, directory⟩, ⟨_, found⟩, onwards⟩
    | keep busy down keeps found => cases keeps
    | follow busy down follows found onwards => cases Node.isLinkless_of_get? linkless found
  · rintro ⟨⟨entries, directory⟩, ⟨node, found⟩, onwards⟩
    -- Without links there is one rule for each case of `move`.
    unfold move at found onwards
    split at onwards
    · next idle => exact .stay directory idle onwards
    · next busy =>
      split at onwards
      · next parent =>
        subst parent
        exact .up directory onwards
      · next down =>
        rw [if_neg busy, if_neg down] at found
        refine .enter (by simpa using busy) down found ?_ onwards
        rintro ⟨target, rfl⟩
        cases Node.isLinkless_of_get? linkless found

theorem Leads.stands {pieces : List String} (inhabited : pieces ≠ [])
    (leads : Leads root .follow links here pieces location) :
    ∃ entries, root.get? here = some (.directory entries) := by
  obtain ⟨first, rest, rfl⟩ := List.exists_cons_of_ne_nil inhabited
  exact ((leads_cons_iff linkless).mp leads).1

theorem Leads.location_eq {pieces : List String} (leads : Leads root .follow links here pieces location) :
    location = pieces.foldl move here := by
  induction pieces generalizing here with
  | nil =>
    cases leads
    rfl
  | cons piece rest ih => exact ih ((leads_cons_iff linkless).mp leads).2.2

theorem Leads.cut {front back : List String} (leads : Leads root .follow links here (front ++ back) location) :
    Leads root .follow links here front (front.foldl move here) := by
  induction front generalizing here with
  | nil => exact .done links here
  | cons piece rest ih =>
    obtain ⟨stands, found, onwards⟩ := (leads_cons_iff linkless).mp leads
    exact (leads_cons_iff linkless).mpr ⟨stands, found, ih onwards⟩

theorem Leads.trans {front back middle : List String} (leads : Leads root .follow links here front middle)
    (onwards : Leads root .follow links middle back location) :
    Leads root .follow links here (front ++ back) location := by
  induction front generalizing here with
  | nil =>
    cases leads
    exact onwards
  | cons piece rest ih =>
    obtain ⟨stands, found, further⟩ := (leads_cons_iff linkless).mp leads
    exact (leads_cons_iff linkless).mpr ⟨stands, found, ih further⟩

theorem Leads.without_idle {pieces : List String} (leads : Leads root .follow links here pieces location) :
    Leads root .follow links here (pieces.filter fun piece => !Path.isIdle piece) location := by
  induction pieces generalizing here with
  | nil => exact leads
  | cons piece rest ih =>
    obtain ⟨stands, found, onwards⟩ := (leads_cons_iff linkless).mp leads
    cases idle : Path.isIdle piece with
    | true =>
      rw [move_idle idle] at onwards
      simpa [idle] using ih onwards
    | false => simpa [idle] using (leads_cons_iff linkless).mpr ⟨stands, found, ih onwards⟩

theorem Leads.with_idle {pieces : List String} {last : String} (busy : Path.isIdle last = false)
    (leads : Leads root .follow links here ((pieces ++ [last]).filter fun piece => !Path.isIdle piece) location) :
    Leads root .follow links here (pieces ++ [last]) location := by
  induction pieces generalizing here with
  | nil => simpa [busy] using leads
  | cons piece rest ih =>
    cases idle : Path.isIdle piece with
    | true =>
      have onwards : Leads root .follow links here (rest ++ [last]) location := ih (by simpa [idle] using leads)
      obtain ⟨entries, directory⟩ := onwards.stands linkless (by simp)
      exact .stay directory idle onwards
    | false =>
      have filtered : Leads root .follow links here
          (piece :: (rest ++ [last]).filter fun piece => !Path.isIdle piece) location := by
        simpa [idle] using leads
      obtain ⟨stands, found, onwards⟩ := (leads_cons_iff linkless).mp filtered
      exact (leads_cons_iff linkless).mpr ⟨stands, found, ih onwards⟩

theorem Leads.isName_of_mem (formed : root.WellFormed) {pieces : List String}
    (leads : Leads root .follow links here pieces location) {piece : String} (member : piece ∈ pieces)
    (busy : Path.isIdle piece = false) (down : piece ≠ "..") : Node.isName piece = true := by
  induction pieces generalizing here with
  | nil => cases member
  | cons first rest ih =>
    obtain ⟨-, ⟨node, found⟩, onwards⟩ := (leads_cons_iff linkless).mp leads
    rcases List.mem_cons.mp member with rfl | inRest
    · rw [move_down busy down] at found
      exact formed.isName_of_get? found piece (by simp)
    · exact ih onwards inRest

theorem nul_not_mem_of_leads (formed : root.WellFormed) {path : String}
    (leads : Leads root .follow links here (steps path) location) : '\x00' ∉ path.toList := by
  intro nul
  rw [← Path.joinPieces_pieces path] at nul
  obtain ⟨piece, member, inside⟩ := Path.mem_joinPieces nul (by decide)
  cases idle : Path.isIdle piece with
  | true =>
    rcases (Bool.or_eq_true _ _).mp idle with empty | dot
    · simp [eq_of_beq empty] at inside
    · simp [eq_of_beq dot] at inside
  | false =>
    have step : piece ∈ steps path := List.mem_filter.mpr ⟨member, by simp [idle]⟩
    by_cases parent : piece = ".."
    · simp [parent] at inside
    · exact Node.nul_not_mem_of_isName (leads.isName_of_mem linkless formed step idle parent) inside

end Linkless

/-! ### Looking up in a tree without links -/

theorem leads_workingPath {fileSystem : FileSystem} (formed : fileSystem.root.WellFormed)
    {entries : List (String × Node)}
    (directory : fileSystem.root.get? fileSystem.workingDirectory = some (.directory entries)) :
    Leads fileSystem.root .follow maxLinks [] (steps fileSystem.workingPath) fileSystem.workingDirectory := by
  have named := formed.isName_of_get? directory
  have names : steps fileSystem.workingPath = fileSystem.workingDirectory := by
    rw [workingPath, Path.steps_rooted fun name member => Node.slash_not_mem_of_isName (named name member)]
    exact List.filter_eq_self.mpr fun name member => by simp [Node.isIdle_of_isName (named name member)]
  obtain ⟨top, atTop⟩ := Node.exists_entries_of_get? directory
  rw [atTop] at directory
  rw [names, atTop]
  refine .descend rfl named directory ?_
  rintro ⟨target, same⟩
  cases same

section Absolute
variable {fileSystem : FileSystem} (linkless : fileSystem.root.isLinkless = true)
include linkless

theorem get?_place_of_find {path : String} (absolute : Path.isAbsolute path = true) {node : Node}
    (found : fileSystem.find .follow path = .ok node) : fileSystem.root.get? (place path) = some node := by
  obtain ⟨-, -, -, location, leads, inside⟩ := (find_eq_ok_iff (by decide)).mp found
  rw [start, if_pos absolute] at leads
  rw [place, steps, Path.foldl_move_filter, ← leads.location_eq linkless]
  exact inside

variable (formed : fileSystem.root.WellFormed)
include formed

theorem find_join_name {directory name : String} (absolute : Path.isAbsolute directory = true)
    (named : Node.isName name = true)
    (walks : Leads fileSystem.root .follow maxLinks [] (steps directory) (place directory))
    (short : isTooLong (Path.join directory name) = false) {node : Node}
    (inside : fileSystem.root.get? (place directory ++ [name]) = some node) :
    fileSystem.find .follow (Path.join directory name) = .ok node := by
  have joined := Path.isAbsolute_join absolute name
  have busy := Node.isIdle_of_isName named
  have leads : Leads fileSystem.root .follow maxLinks [] (steps (Path.join directory name))
      (place directory ++ [name]) := by
    rw [steps_join_name absolute named]
    refine walks.trans linkless (.enter busy (Node.ne_parent_of_isName named) inside ?_ (.done _ _))
    rintro ⟨target, rfl⟩
    cases Node.isLinkless_of_get? linkless inside
  have noNul := nul_not_mem_of_leads linkless formed leads
  -- The idle pieces of the text are put back between the steps.
  obtain ⟨stem, -, chars⟩ := Path.exists_stem (Path.ne_empty_of_isAbsolute absolute)
  have pieces : Path.pieces (Path.join directory name) = (stem.splitOn '/').map String.ofList ++ [name] := by
    simp [Path.pieces, chars name (Path.isAbsolute_of_isName named), List.splitOn_append_cons_self,
      List.splitOn_eq_singleton (Node.slash_not_mem_of_isName named)]
  refine (find_eq_ok_iff (by decide)).mpr
    ⟨Path.ne_empty_of_isAbsolute joined, noNul, short, place directory ++ [name], ?_, inside⟩
  rw [start, if_pos joined, pieces]
  rw [steps, pieces] at leads
  exact leads.with_idle linkless busy

/-- The text of an existing path leads there from the root, by way of the working directory if it is relative. -/
theorem leads_steps_of_contains {path full : String} (known : fileSystem.contains path = true)
    (made : fileSystem.absolute? path = some full) :
    Leads fileSystem.root .follow maxLinks [] (steps full) (place full) := by
  obtain ⟨node, found⟩ : ∃ node, fileSystem.find .follow path = .ok node := by
    unfold contains at known
    split at known
    · exact ⟨_, ‹_›⟩
    · cases known
  obtain ⟨-, -, -, location, leads, -⟩ := (find_eq_ok_iff (by decide)).mp found
  -- Where the steps lead is settled by the text, so it is enough that they lead somewhere.
  suffices reached : ∃ goal, Leads fileSystem.root .follow maxLinks [] (steps full) goal by
    obtain ⟨goal, way⟩ := reached
    rw [way.location_eq linkless] at way
    exact way
  have placed : Path.isAbsolute fileSystem.workingPath = true := Path.isAbsolute_append (by decide) _
  rw [Path.steps_absolute? placed made]
  cases absolute : Path.isAbsolute path with
  | true =>
    rw [start, if_pos absolute] at leads
    exact ⟨location, leads.without_idle linkless⟩
  | false =>
    rw [start, if_neg (by simp [absolute])] at leads
    obtain ⟨entries, directory⟩ := leads.stands linkless (Path.pieces_ne_nil path)
    have enters := leads_workingPath formed directory
    exact ⟨location, enters.trans linkless (leads.without_idle linkless)⟩

end Absolute

end FileSystem

end Orphans
