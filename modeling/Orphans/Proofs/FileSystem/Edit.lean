import Orphans.FileSystem.Edit
import Orphans.Proofs.FileSystem.Lookup

/-! What a write changes.

A file is written at the location that its path leads to. That location holds the new text afterwards, and
what lies at every other location is as it was: the same file, the same link, or a directory, whose entries
differ only on the way to the file.
-/

set_option autoImplicit false

namespace Orphans

namespace Node

inductive Surface where
  | file (text : Option String)
  | link (target : String)
  | directory
  deriving DecidableEq, Repr

def surface : Node → Surface
  | .file text => .file text
  | .link target => .link target
  | .directory _ => .directory

def surfaceAt (root : Node) (location : List String) : Option Surface :=
  (root.get? location).map surface

theorem lookup_setEntry_of_ne {name other : String} (different : other ≠ name) (node : Node)
    (entries : List (String × Node)) : (setEntry name node entries).lookup other = entries.lookup other := by
  have apart : (other == name) = false := by simp [different]
  induction entries with
  | nil => simp [setEntry, List.lookup_cons, apart]
  | cons entry rest ih =>
    simp only [setEntry]
    split
    · rw [List.lookup_cons, apart]
    · split
      · next same => rw [List.lookup_cons, apart, List.lookup_cons, ← same, apart]
      · rw [List.lookup_cons, List.lookup_cons, ih]

theorem get?_directory (entries : List (String × Node)) (name : String) (rest : List String) :
    (Node.directory entries).get? (name :: rest) = (entries.lookup name).bind (·.get? rest) := by
  rw [get?]
  cases entries.lookup name <;> rfl

theorem get?_cons_of_solid {node : Node} (solid : ∀ entries, node ≠ .directory entries) (name : String)
    (rest : List String) : node.get? (name :: rest) = none := by
  cases node with
  | file text => rfl
  | link target => rfl
  | directory entries => exact absurd rfl (solid entries)

theorem surfaceAt_setEntry {name : String} {node : Node} {entries : List (String × Node)}
    {below : List String} (kept : ∀ rest ≠ below,
      node.surfaceAt rest = ((entries.lookup name).bind (·.get? rest)).map surface)
    {other : List String} (different : other ≠ name :: below) :
    (Node.directory (setEntry name node entries)).surfaceAt other = (Node.directory entries).surfaceAt other := by
  cases other with
  | nil => rfl
  | cons first rest =>
    simp only [surfaceAt, get?_directory]
    by_cases same : first = name
    · subst same
      rw [lookup_setEntry_self, Option.bind_some]
      exact kept rest fun ended => different (ended ▸ rfl)
    · rw [lookup_setEntry_of_ne same]

/-- A new file shows at its own location only, unless it takes the place of a directory. -/
theorem surfaceAt_set_file {root : Node} {location : List String} (text : Option String)
    (solid : ∀ entries, root.get? location ≠ some (.directory entries)) {other : List String}
    (different : other ≠ location) :
    (root.set (some (.file text)) location).surfaceAt other = root.surfaceAt other := by
  induction location generalizing root other with
  | nil =>
    have leaf : ∀ entries, root ≠ .directory entries := fun entries same => solid entries (by rw [get?, same])
    obtain ⟨first, rest, rfl⟩ := List.exists_cons_of_ne_nil different
    simp [surfaceAt, set, get?, get?_cons_of_solid leaf]
  | cons name below ih =>
    cases root with
    | file content => cases below <;> rfl
    | link target => cases below <;> rfl
    | directory entries =>
      simp only [get?_directory] at solid
      cases below with
      | nil =>
        -- The file replaces an entry that is no directory, so nothing lies below it before or after.
        refine surfaceAt_setEntry (fun rest inside => ?_) different
        obtain ⟨first, more, rfl⟩ := List.exists_cons_of_ne_nil inside
        cases found : entries.lookup name with
        | none => rfl
        | some child =>
          have leaf : ∀ entries, child ≠ .directory entries := by
            intro inner same
            exact solid inner (by rw [found, same]; rfl)
          simp [surfaceAt, get?, get?_cons_of_solid leaf]
      | cons next rest =>
        simp only [set]
        cases found : entries.lookup name with
        | none => rfl
        | some child =>
          refine surfaceAt_setEntry (fun more inside => ?_) different
          rw [found, Option.bind_some] at solid ⊢
          exact ih solid inside

/-- There is something at the location, or a directory in which it can be made. -/
def Offers (root : Node) (location : List String) : Prop :=
  (root.get? location).isSome ∨
    ∃ front name entries, location = front ++ [name] ∧ root.get? front = some (.directory entries)

theorem get?_set_concat {root : Node} {front : List String} {entries : List (String × Node)}
    (directory : root.get? front = some (.directory entries)) (name : String) (node : Node) :
    (root.set (some node) (front ++ [name])).get? (front ++ [name]) = some node := by
  induction front generalizing root with
  | nil =>
    obtain rfl := Option.some.inj (by simpa [get?] using directory)
    simp [set, get?, lookup_setEntry_self]
  | cons first rest ih =>
    cases root with
    | file text => cases directory
    | link target => cases directory
    | directory outer =>
      rw [get?_directory] at directory
      obtain ⟨child, found, below⟩ := Option.bind_eq_some_iff.mp directory
      obtain ⟨next, more, shape⟩ : ∃ next more, rest ++ [name] = next :: more :=
        List.exists_cons_of_ne_nil (by simp)
      have inner := ih below
      rw [shape] at inner
      rw [List.cons_append, shape]
      simp only [set, found, get?_directory, lookup_setEntry_self, Option.bind_some]
      exact inner

theorem get?_set_self {root : Node} {location : List String} (offers : root.Offers location) (node : Node) :
    (root.set (some node) location).get? location = some node := by
  rcases location.eq_nil_or_concat' with rfl | ⟨front, name, rfl⟩
  · simp [set, get?]
  · rcases offers with found | ⟨parent, last, entries, same, directory⟩
    · obtain ⟨child, found⟩ := Option.isSome_iff_exists.mp found
      obtain ⟨entries, directory, -⟩ := directory_of_get?_concat found
      exact get?_set_concat directory name node
    · obtain ⟨rfl, -⟩ := List.append_inj' same rfl
      exact get?_set_concat directory name node

theorem isSome_get?_dropLast {root node : Node} {here : List String} (found : root.get? here = some node) :
    (root.get? here.dropLast).isSome := by
  rcases here.eq_nil_or_concat' with rfl | ⟨front, name, rfl⟩
  · simp [get?]
  · obtain ⟨entries, directory, -⟩ := directory_of_get?_concat found
    simp [directory]

end Node

namespace FileSystem

theorem offers_of_walkWith {root : Node} {ending : Ending} {here pieces location : List String}
    {follow : List String → String → List String → Except Refusal (List String)}
    (hands : ∀ {here : List String} {target : String} {rest : List String},
      follow here target rest = .ok location → root.Offers location)
    (placed : pieces = [] → (root.get? here).isSome)
    (reached : walkWith root ending follow here pieces = .ok location) : root.Offers location := by
  induction pieces generalizing here with
  | nil =>
    obtain rfl := Except.ok.inj reached
    exact .inl (placed rfl)
  | cons piece rest ih =>
    rw [walkWith] at reached
    split at reached
    · cases reached
    · next entries listed =>
      obtain ⟨node, atHere, inner⟩ := Option.bind_eq_some_iff.mp listed
      obtain rfl : node = .directory entries := by
        cases node <;> simp_all [Node.entries?]
      have inside := Node.get?_concat atHere piece
      split at reached
      · exact ih (fun _ => by simp [atHere]) reached
      · split at reached
        · exact ih (fun _ => Node.isSome_get?_dropLast atHere) reached
        · split at reached
          · cases reached
          · split at reached
            · -- Nothing has this name yet, so the walk ends here or not at all.
              split at reached
              · obtain rfl := Except.ok.inj reached
                exact .inr ⟨here, piece, entries, rfl, atHere⟩
              · cases reached
            · next target found =>
              split at reached
              · obtain rfl := Except.ok.inj reached
                exact .inl (by rw [inside, found]; rfl)
              · exact hands reached
            · next child _ found => exact ih (fun _ => by rw [inside, found]; rfl) reached

theorem offers_of_walk {root : Node} {ending : Ending} {links : Nat} {here pieces location : List String}
    (notEmpty : pieces ≠ []) (reached : walk root ending links here pieces = .ok location) :
    root.Offers location := by
  induction links generalizing here pieces with
  | zero =>
    rw [walk_eq_walkWith] at reached
    refine offers_of_walkWith ?_ (fun empty => absurd empty notEmpty) reached
    intro here target rest handed
    cases handed
  | succ links ih =>
    rw [walk_eq_walkWith] at reached
    exact offers_of_walkWith (fun handed => ih (by simp [Path.pieces_ne_nil]) handed)
      (fun empty => absurd empty notEmpty) reached

theorem offers_of_locate {fileSystem : FileSystem} {ending : Ending} {path : String} {location : List String}
    (located : fileSystem.locate ending path = .ok location) : fileSystem.root.Offers location := by
  unfold locate at located
  split at located
  · cases located
  · split at located
    · cases located
    · split at located
      · cases located
      · exact offers_of_walk (Path.pieces_ne_nil path) located

theorem destination_spec {fileSystem : FileSystem} {path : String} {location : List String}
    (found : fileSystem.destination path = .ok location) :
    fileSystem.root.Offers location ∧ ∀ entries, fileSystem.root.get? location ≠ some (.directory entries) := by
  unfold destination at found
  split at found
  · cases found
  · next located =>
    split at found
    · cases found
    · next solid =>
      obtain rfl := Except.ok.inj found
      exact ⟨offers_of_locate located, solid⟩

/-- The file systems have the same working directory, and at most one location looks different. -/
structure AgreeExcept (location : List String) (before after : FileSystem) : Prop where
  workingDirectory : after.workingDirectory = before.workingDirectory
  surfaceAt : ∀ other, other ≠ location → after.root.surfaceAt other = before.root.surfaceAt other

theorem get?_of_write {fileSystem : FileSystem} {path : String} {location : List String}
    (found : fileSystem.destination path = .ok location) (text : Option String) :
    (fileSystem.set location (some (.file text))).root.get? location = some (.file text) :=
  Node.get?_set_self (destination_spec found).1 _

theorem agreeExcept_of_write {fileSystem : FileSystem} {path : String} {location : List String}
    (found : fileSystem.destination path = .ok location) (text : Option String) :
    AgreeExcept location fileSystem (fileSystem.set location (some (.file text))) where
  workingDirectory := rfl
  surfaceAt _ different := Node.surfaceAt_set_file text (destination_spec found).2 different

end FileSystem

end Orphans
