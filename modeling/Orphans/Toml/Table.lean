import Orphans.Toml.Value

/-! Tables under construction.

A table is opened by a header, made on the way to another header, or made by a dotted key. How it came
about decides what may still be added to it: no table is defined twice, and a dotted key never reaches
into a table that a header opened.
-/

set_option autoImplicit false

namespace Orphans.Toml

inductive Origin where
  /-- Opened by its own header, or the document itself. -/
  | header
  /-- Made on the way to a header further in. -/
  | passage
  /-- Made by a dotted key. -/
  | dotted
  deriving DecidableEq, Repr

inductive Item where
  | value (value : Value)
  | table (origin : Origin) (entries : List (String × Item))
  /-- Tables with one name, of which the last is open. Each is a `table`. -/
  | tables (elements : List Item)

abbrev Entries := List (String × Item)

def setEntry (key : String) (item : Item) : Entries → Entries
  | [] => [(key, item)]
  | entry :: rest => if entry.1 = key then (key, item) :: rest else entry :: setEntry key item rest

/-- Edit the table at `path`, making the missing tables on the way. Through a dotted key no table is
entered that a header opened. -/
def editAt (made : Origin) (edit : Origin → Entries → Option Entries) :
    List String → Origin → Entries → Option Entries
  | [], origin, entries => edit origin entries
  | key :: rest, _, entries =>
    match entries.lookup key with
    | none => (editAt made edit rest made []).map fun inner => setEntry key (.table made inner) entries
    | some (.value _) => none
    | some (.table origin inner) =>
      if made = .dotted ∧ origin = .header then none
      else (editAt made edit rest origin inner).map fun inner =>
        setEntry key (.table origin inner) entries
    | some (.tables elements) =>
      match elements.getLast? with
      | some (.table origin inner) =>
        (editAt made edit rest origin inner).map fun inner =>
          setEntry key (.tables (elements.dropLast ++ [.table origin inner])) entries
      | _ => none

/-- Put a value under a new key of a table; the table at the end of a dotted key was made by one. -/
def addValue (key : String) (value : Value) (viaDots : Bool) (origin : Origin) (entries : Entries) :
    Option Entries :=
  if viaDots ∧ origin ≠ .dotted then none
  else if (entries.lookup key).isSome then none
  else some (setEntry key (.value value) entries)

def assign (key : List String) (value : Value) (origin : Origin) (entries : Entries) :
    Option Entries :=
  match key.getLast? with
  | none => none
  | some name => editAt .dotted (addValue name value (1 < key.length)) key.dropLast origin entries

/-- Open the table under a key, unless it was defined before. -/
def openTable (key : String) (_ : Origin) (entries : Entries) : Option Entries :=
  match entries.lookup key with
  | none => some (setEntry key (.table .header []) entries)
  | some (.table .passage inner) => some (setEntry key (.table .header inner) entries)
  | some _ => none

def openElement (key : String) (_ : Origin) (entries : Entries) : Option Entries :=
  match entries.lookup key with
  | none => some (setEntry key (.tables [.table .header []]) entries)
  | some (.tables elements) => some (setEntry key (.tables (elements ++ [.table .header []])) entries)
  | some _ => none

def header (element : Bool) (path : List String) (entries : Entries) : Option Entries :=
  match path.getLast? with
  | none => none
  | some name =>
    editAt .passage (if element then openElement name else openTable name) path.dropLast .header entries

mutual

def Item.toValue : Item → Value
  | .value value => value
  | .table _ entries => .table (entryValues entries)
  | .tables elements => .array (itemValues elements)

def itemValues : List Item → List Value
  | [] => []
  | item :: rest => item.toValue :: itemValues rest

def entryValues : List (String × Item) → List (String × Value)
  | [] => []
  | (key, item) :: rest => (key, item.toValue) :: entryValues rest

end

end Orphans.Toml
