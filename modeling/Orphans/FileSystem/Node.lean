/-! Trees of files.

A location is the list of names that lead from a node to one below it. The entries of a directory are
kept in ascending order of their names, so that a tree is determined by what lies at its locations.
-/

set_option autoImplicit false

namespace Orphans

inductive Node where
  /-- A regular file, with its text. A file whose bytes are no text has none. -/
  | file (text : Option String)
  /-- A symbolic link, with the path it stands for. -/
  | link (target : String)
  | directory (entries : List (String × Node))

namespace Node

def isName (name : String) : Bool :=
  name ≠ "" && name ≠ "." && name ≠ ".." && name.toList.all fun c => c ≠ '/' && c ≠ '\x00'

mutual

/-- Every name is allowed, and the names in a directory ascend. -/
def WellFormed : Node → Prop
  | .file _ => True
  | .link _ => True
  | .directory entries => WellFormedEntries entries

def WellFormedEntries : List (String × Node) → Prop
  | [] => True
  | (name, node) :: rest =>
    isName name = true ∧ (∀ later ∈ rest, name < later.1) ∧ WellFormed node ∧ WellFormedEntries rest

end

def entries? : Node → Option (List (String × Node))
  | .directory entries => some entries
  | _ => none

def isFile : Node → Bool
  | .file _ => true
  | _ => false

def get? : Node → List String → Option Node
  | node, [] => some node
  | .directory entries, name :: rest =>
    match entries.lookup name with
    | some child => get? child rest
    | none => none
  | _, _ :: _ => none

theorem get?_append (node : Node) (front back : List String) :
    node.get? (front ++ back) = (node.get? front).bind (·.get? back) := by
  induction front generalizing node with
  | nil => simp [get?]
  | cons name rest ih =>
    cases node with
    | file => simp [get?]
    | link => simp [get?]
    | directory entries =>
      simp only [List.cons_append, get?]
      split
      · exact ih _
      · rfl

def setEntry (name : String) (node : Node) : List (String × Node) → List (String × Node)
  | [] => [(name, node)]
  | entry :: rest =>
    if name < entry.1 then (name, node) :: entry :: rest
    else if name = entry.1 then (name, node) :: rest
    else entry :: setEntry name node rest

theorem lookup_setEntry_self (name : String) (node : Node) (entries : List (String × Node)) :
    (setEntry name node entries).lookup name = some node := by
  induction entries with
  | nil => simp [setEntry]
  | cons entry rest ih =>
    simp only [setEntry]
    split
    · simp
    · split
      · simp
      · next different =>
        have apart : (name == entry.1) = false := by simp [different]
        rw [List.lookup_cons, apart]
        exact ih

def removeEntry (name : String) (entries : List (String × Node)) : List (String × Node) :=
  entries.filter fun entry => entry.1 ≠ name

/-- The tree with `node` at a location whose parent is a directory, or with nothing there. Elsewhere
nothing changes. -/
def set (replacement : Option Node) : List String → Node → Node
  | [], node => replacement.getD node
  | [name], .directory entries =>
    match replacement with
    | some node => .directory (setEntry name node entries)
    | none => .directory (removeEntry name entries)
  | name :: next :: rest, .directory entries =>
    match entries.lookup name with
    | some child => .directory (setEntry name (set replacement (next :: rest) child) entries)
    | none => .directory entries
  | _, node => node

end Node

end Orphans
