import Orphans.Proofs.Discovery

/-! Where paths lead.

A path that leads somewhere does so step by step: a piece stays where it is, goes up, enters a node, or
hands over to the target of a link. The relation of these steps says the same as the look-up that is run,
and every law of look-ups is an induction over it: a way goes on below the directory that it leads to, and
a link at its end may be left alone.
-/

set_option autoImplicit false

namespace Orphans

namespace Node

theorem get?_concat {node : Node} {here : List String} {entries : List (String × Node)}
    (directory : node.get? here = some (.directory entries)) (name : String) :
    node.get? (here ++ [name]) = entries.lookup name := by
  rw [get?_append, directory, Option.bind_some, get?]
  cases entries.lookup name <;> rfl

theorem directory_of_get?_concat {node child : Node} {here : List String} {name : String}
    (found : node.get? (here ++ [name]) = some child) :
    ∃ entries, node.get? here = some (.directory entries) ∧ entries.lookup name = some child := by
  rw [get?_append] at found
  obtain ⟨parent, atParent, below⟩ := Option.bind_eq_some_iff.mp found
  cases parent with
  | file text => cases below
  | link target => cases below
  | directory entries =>
    refine ⟨entries, atParent, ?_⟩
    rw [← get?_concat atParent name, get?_append, atParent]
    exact below

theorem isIdle_of_isName {name : String} (named : isName name = true) : Path.isIdle name = false := by
  simp only [isName, Bool.and_eq_true, decide_eq_true_eq] at named
  simp [Path.isIdle, named.1.1.1, named.1.1.2]

theorem ne_parent_of_isName {name : String} (named : isName name = true) : name ≠ ".." := by
  simp only [isName, Bool.and_eq_true, decide_eq_true_eq] at named
  exact named.1.2

theorem nul_not_mem_of_isName {name : String} (named : isName name = true) : '\x00' ∉ name.toList := by
  simp only [isName, Bool.and_eq_true, List.all_eq_true, decide_eq_true_eq] at named
  exact fun inside => (named.2 _ inside).2 rfl

def IsLink (node : Node) : Prop := ∃ target, node = .link target

end Node

namespace FileSystem

/-! ### Ways -/

/-- From the directory at `here`, the pieces lead to a location, with so many links left to follow. -/
inductive Leads (root : Node) (ending : Ending) : Nat → List String → List String → List String → Prop where
  | done (links : Nat) (here : List String) : Leads root ending links here [] here
  | stay {links : Nat} {here rest location : List String} {piece : String} {entries : List (String × Node)}
    (directory : root.get? here = some (.directory entries)) (idle : Path.isIdle piece = true)
    (onwards : Leads root ending links here rest location) :
    Leads root ending links here (piece :: rest) location
  | up {links : Nat} {here rest location : List String} {entries : List (String × Node)}
    (directory : root.get? here = some (.directory entries))
    (onwards : Leads root ending links here.dropLast rest location) :
    Leads root ending links here (".." :: rest) location
  | enter {links : Nat} {here rest location : List String} {piece : String} {node : Node}
    (busy : Path.isIdle piece = false) (down : piece ≠ "..")
    (found : root.get? (here ++ [piece]) = some node) (solid : ¬ node.IsLink)
    (onwards : Leads root ending links (here ++ [piece]) rest location) :
    Leads root ending links here (piece :: rest) location
  | keep {links : Nat} {here : List String} {piece target : String}
    (busy : Path.isIdle piece = false) (down : piece ≠ "..") (keeps : ending = .keep)
    (found : root.get? (here ++ [piece]) = some (.link target)) :
    Leads root ending links here [piece] (here ++ [piece])
  | follow {links : Nat} {here rest location : List String} {piece target : String}
    (busy : Path.isIdle piece = false) (down : piece ≠ "..") (follows : ¬ (ending = .keep ∧ rest = []))
    (found : root.get? (here ++ [piece]) = some (.link target))
    (onwards : Leads root ending links (start here target) (Path.pieces target ++ rest) location) :
    Leads root ending (links + 1) here (piece :: rest) location

def handOver (root : Node) (ending : Ending) :
    Nat → List String → String → List String → Except Refusal (List String)
  | 0, _, _, _ => .error .tooManyLinks
  | links + 1, here, target, rest => walk root ending links (start here target) (Path.pieces target ++ rest)

theorem walk_eq_walkWith (root : Node) (ending : Ending) (links : Nat) :
    walk root ending links = walkWith root ending (handOver root ending links) := by
  cases links <;> rfl

section Walks
variable {root : Node} {ending : Ending} {links : Nat} {here pieces location : List String}

theorem Leads.of_walkWith (looks : ending ≠ .create)
    {follow : List String → String → List String → Except Refusal (List String)}
    (hands : ∀ {here : List String} {target : String} {rest : List String},
      follow here target rest = .ok location →
        ∃ fewer, links = fewer + 1 ∧
          Leads root ending fewer (start here target) (Path.pieces target ++ rest) location)
    (reached : walkWith root ending follow here pieces = .ok location) :
    Leads root ending links here pieces location := by
  -- Each way that the walk has with a piece is one rule of the relation.
  induction pieces generalizing here with
  | nil =>
    obtain rfl := Except.ok.inj reached
    exact .done links here
  | cons piece rest ih =>
    rw [walkWith] at reached
    cases atHere : root.get? here with
    | none => simp [atHere] at reached
    | some node =>
      cases node with
      | file text => simp [atHere, Node.entries?] at reached
      | link target => simp [atHere, Node.entries?] at reached
      | directory entries =>
        have inside := Node.get?_concat atHere piece
        simp only [atHere, Option.bind_some, Node.entries?, looks, false_and, if_false] at reached
        split at reached
        · next idle => exact .stay atHere idle (ih reached)
        · next busy =>
          have busy : Path.isIdle piece = false := by simpa using busy
          split at reached
          · next parent =>
            subst parent
            exact .up atHere (ih reached)
          · next down =>
            split at reached
            · cases reached
            · next target found =>
              rw [found] at inside
              split at reached
              · next keeps =>
                obtain ⟨keeps, rfl⟩ := keeps
                obtain rfl := Except.ok.inj reached
                exact .keep busy down keeps inside
              · next follows =>
                obtain ⟨fewer, rfl, onwards⟩ := hands reached
                exact .follow busy down follows inside onwards
            · next child solid found =>
              rw [found] at inside
              exact .enter busy down inside (fun ⟨target, same⟩ => solid target same) (ih reached)

theorem Leads.of_walk (looks : ending ≠ .create) (reached : walk root ending links here pieces = .ok location) :
    Leads root ending links here pieces location := by
  induction links generalizing here pieces with
  | zero =>
    rw [walk_eq_walkWith] at reached
    refine .of_walkWith looks ?_ reached
    intro here target rest handed
    cases handed
  | succ links ih =>
    rw [walk_eq_walkWith] at reached
    exact .of_walkWith looks (fun handed => ⟨links, rfl, ih handed⟩) reached

theorem Leads.walk_eq (looks : ending ≠ .create) (leads : Leads root ending links here pieces location) :
    walk root ending links here pieces = .ok location := by
  induction leads with
  | done links here => rw [walk_eq_walkWith, walkWith]
  | stay directory idle onwards ih =>
    rw [walk_eq_walkWith] at ih ⊢
    simp [walkWith, directory, Node.entries?, idle, ih]
  | up directory onwards ih =>
    rw [walk_eq_walkWith] at ih ⊢
    have busy : Path.isIdle ".." = false := by decide
    simp [walkWith, directory, Node.entries?, busy, ih]
  | enter busy down found solid onwards ih =>
    obtain ⟨entries, directory, inside⟩ := Node.directory_of_get?_concat found
    rw [walk_eq_walkWith] at ih ⊢
    simp only [walkWith, directory, Option.bind_some, Node.entries?, busy, Bool.false_eq_true, if_false, down,
      looks, false_and, inside]
    split
    · next none => cases none
    · next target same => exact absurd ⟨target, Option.some.inj same⟩ solid
    · exact ih
  | keep busy down keeps found =>
    obtain ⟨entries, directory, inside⟩ := Node.directory_of_get?_concat found
    rw [walk_eq_walkWith]
    simp [walkWith, directory, Node.entries?, busy, down, keeps, inside]
  | follow busy down follows found onwards ih =>
    obtain ⟨entries, directory, inside⟩ := Node.directory_of_get?_concat found
    rw [walk_eq_walkWith]
    simp only [walkWith, directory, Option.bind_some, Node.entries?, busy, Bool.false_eq_true, if_false, down,
      looks, false_and, inside, follows]
    exact ih

end Walks

theorem find_eq_ok_iff {fileSystem : FileSystem} {ending : Ending} (looks : ending ≠ .create) {path : String}
    {node : Node} :
    fileSystem.find ending path = .ok node ↔
      path ≠ "" ∧ '\x00' ∉ path.toList ∧ isTooLong path = false ∧
        ∃ location, Leads fileSystem.root ending maxLinks (start fileSystem.workingDirectory path)
          (Path.pieces path) location ∧ fileSystem.root.get? location = some node := by
  constructor
  · intro found
    unfold find locate at found
    by_cases empty : path = ""
    · simp [empty] at found
    · by_cases nul : '\x00' ∈ path.toList
      · simp [empty, nul] at found
      · cases long : isTooLong path with
        | true => simp [empty, nul, long] at found
        | false =>
          simp only [empty, nul, long, if_false, Bool.false_eq_true] at found
          split at found
          · cases found
          · next location reached =>
            split at found
            · next node inside =>
              obtain rfl := Except.ok.inj found
              exact ⟨empty, nul, rfl, location, .of_walk looks reached, inside⟩
            · cases found
  · rintro ⟨empty, nul, long, location, leads, inside⟩
    simp only [find, locate, empty, nul, long, if_false, Bool.false_eq_true, leads.walk_eq looks, inside]

/-! ### Going on, and stopping at a link -/

section Ways
variable {root : Node} {links : Nat} {here front back middle location : List String}

theorem Leads.append (leads : Leads root .follow links here front middle)
    (onwards : ∀ fewer, Leads root .follow fewer middle back location) :
    Leads root .follow links here (front ++ back) location := by
  induction leads with
  | done links here => exact onwards links
  | stay directory idle _ ih => exact .stay directory idle (ih onwards)
  | up directory _ ih => exact .up directory (ih onwards)
  | enter busy down found solid _ ih => exact .enter busy down found solid (ih onwards)
  | keep _ _ keeps _ => cases keeps
  | follow busy down _ found _ ih =>
    have further := ih onwards
    rw [List.append_assoc] at further
    exact .follow busy down (by simp) found further

/-- A separator at the end asks for a directory and changes nothing else. -/
theorem Leads.without_separator {pieces : List String} (leads : Leads root .follow links here pieces location)
    (ended : pieces = front ++ [""]) : Leads root .follow links here front location := by
  -- Only an idle piece can be the empty one at the end. Every other rule has it further on.
  induction leads generalizing front with
  | done links here => simp at ended
  | stay directory idle onwards ih =>
    cases front with
    | nil =>
      obtain ⟨-, rfl⟩ := List.cons.inj ended
      exact onwards
    | cons first more =>
      obtain ⟨rfl, rfl⟩ := List.cons.inj ended
      exact .stay directory idle (ih rfl)
  | up directory onwards ih =>
    cases front with
    | nil => simp at ended
    | cons first more =>
      obtain ⟨rfl, rfl⟩ := List.cons.inj ended
      exact .up directory (ih rfl)
  | enter busy down found solid onwards ih =>
    cases front with
    | nil =>
      obtain ⟨rfl, -⟩ := List.cons.inj ended
      simp [Path.isIdle] at busy
    | cons first more =>
      obtain ⟨rfl, rfl⟩ := List.cons.inj ended
      exact .enter busy down found solid (ih rfl)
  | keep _ _ keeps _ => cases keeps
  | follow busy down _ found onwards ih =>
    cases front with
    | nil =>
      obtain ⟨rfl, -⟩ := List.cons.inj ended
      simp [Path.isIdle] at busy
    | cons first more =>
      obtain ⟨rfl, rfl⟩ := List.cons.inj ended
      exact .follow busy down (by simp) found (ih (List.append_assoc _ _ _).symm)

theorem Leads.descend {entries : List (String × Node)} {node : Node}
    (directory : root.get? here = some (.directory entries))
    (named : ∀ name ∈ location, Node.isName name = true)
    (found : (Node.directory entries).get? location = some node) (solid : ¬ node.IsLink) :
    Leads root .follow links here location (here ++ location) := by
  induction location generalizing here entries with
  | nil =>
    rw [List.append_nil]
    exact .done links here
  | cons name rest ih =>
    have nameOk := named name List.mem_cons_self
    have restNamed := fun other member => named other (List.mem_cons_of_mem name member)
    cases inside : entries.lookup name with
    | none => simp [Node.get?, inside] at found
    | some child =>
      have here_child : root.get? (here ++ [name]) = some child := by
        rw [Node.get?_concat directory, inside]
      simp only [Node.get?, inside] at found
      rw [← List.singleton_append, ← List.append_assoc]
      refine .enter (Node.isIdle_of_isName nameOk) (Node.ne_parent_of_isName nameOk) here_child ?_ ?_
      · -- Nothing lies below a link, and the last node is none.
        rintro ⟨target, rfl⟩
        cases rest with
        | nil => exact solid ⟨target, by simpa [Node.get?] using found.symm⟩
        | cons next more => cases found
      · cases rest with
        | nil =>
          rw [List.append_nil]
          exact .done links _
        | cons next more =>
          cases child with
          | file text => cases found
          | link target => cases found
          | directory inner => exact ih here_child restNamed found

/-- Names of links to the directory in which they stand lead nowhere else. -/
theorem Leads.loop {name : String} (named : Node.isName name = true)
    (found : root.get? (here ++ [name]) = some (.link ".")) (links count : Nat) :
    Leads root .follow (links + count) here (List.replicate count name) here := by
  obtain ⟨entries, directory, -⟩ := Node.directory_of_get?_concat found
  induction count with
  | zero => exact .done links here
  | succ count ih =>
    exact .follow (Node.isIdle_of_isName named) (Node.ne_parent_of_isName named) (by simp) found
      (.stay directory (by decide) ih)

/-- A way that follows the link at its end has another way beside it that stops there. -/
theorem Leads.stop (leads : Leads root .follow links here front location) :
    ∃ other, Leads root .keep links here front other ∧
      (other = location ∨ ∃ target, root.get? other = some (.link target)) := by
  induction leads with
  | done links here => exact ⟨here, .done links here, .inl rfl⟩
  | stay directory idle _ ih =>
    obtain ⟨other, leads, ends⟩ := ih
    exact ⟨other, .stay directory idle leads, ends⟩
  | up directory _ ih =>
    obtain ⟨other, leads, ends⟩ := ih
    exact ⟨other, .up directory leads, ends⟩
  | enter busy down found solid _ ih =>
    obtain ⟨other, leads, ends⟩ := ih
    exact ⟨other, .enter busy down found solid leads, ends⟩
  | keep _ _ keeps _ => cases keeps
  | @follow _ here rest _ piece target busy down _ found _ ih =>
    by_cases last : rest = []
    · subst last
      exact ⟨here ++ [piece], .keep busy down rfl found, .inr ⟨target, found⟩⟩
    · obtain ⟨other, leads, ends⟩ := ih
      exact ⟨other, .follow busy down (fun both => last both.2) found leads, ends⟩

end Ways

theorem isFile_iff {fileSystem : FileSystem} {path : String} :
    fileSystem.isFile path = true ↔ ∃ text, fileSystem.find .follow path = .ok (.file text) := by
  cases found : fileSystem.find .follow path with
  | error refusal => simp [isFile, found]
  | ok node => cases node <;> simp [isFile, found, Node.isFile]

theorem not_isFile_of_isTooLong {fileSystem : FileSystem} {path : String} (long : isTooLong path = true) :
    ¬ fileSystem.isFile path = true := by
  rw [isFile_iff]
  rintro ⟨text, found⟩
  obtain ⟨-, -, short, -⟩ := (find_eq_ok_iff (by decide)).mp found
  exact absurd long (by simp [short])

theorem find_keep_of_follow {fileSystem : FileSystem} {path : String} {node : Node}
    (found : fileSystem.find .follow path = .ok node) :
    fileSystem.find .keep path = .ok node ∨ ∃ target, fileSystem.find .keep path = .ok (.link target) := by
  obtain ⟨notEmpty, noNul, short, location, leads, inside⟩ := (find_eq_ok_iff (by decide)).mp found
  obtain ⟨other, stopped, rfl | ⟨target, atOther⟩⟩ := leads.stop
  · exact .inl ((find_eq_ok_iff (by decide)).mpr ⟨notEmpty, noNul, short, other, stopped, inside⟩)
  · exact .inr ⟨target, (find_eq_ok_iff (by decide)).mpr ⟨notEmpty, noNul, short, other, stopped, atOther⟩⟩

end FileSystem

end Orphans
