import Orphans.Ascending
import Orphans.Text.Blank

/-! Path aliases.

An alias maps specifiers that begin in a certain way to base directories of the project. A table keeps
its aliases in the order of the configuration, and several of them may address one specifier.
-/

set_option autoImplicit false

namespace Orphans

inductive Matching where
  /-- Written `head/*`: the head alone, or the head and a separator in front of the rest. -/
  | directory
  /-- Written `head*`: everything that begins with the head. -/
  | leading
  /-- Written without a wildcard: the head and nothing else. -/
  | exact
  deriving DecidableEq, Repr

structure Alias where
  head : String
  matching : Matching
  /-- Directories relative to the project root. -/
  bases : List String
  deriving DecidableEq, Repr

namespace Alias

/-- A key or target without its wildcard, and the kind of matching that the wildcard asks for. -/
def splitWildcard (text : List Char) : List Char × Matching :=
  match ['/', '*'].isSuffixOf? text with
  | some front => (front, .directory)
  | none =>
    match ['*'].isSuffixOf? text with
    | some front => (front, .leading)
    | none => (Text.dropEndWhile (· == '/') text, .exact)

def withoutWildcard (text : String) : String := .ofList (splitWildcard text.toList).1

def ofEntry (key : String) (targets : List String) : Alias where
  head := withoutWildcard key
  matching := (splitWildcard key.toList).2
  bases := targets.map withoutWildcard

def remainder? (entry : Alias) (specifier : String) : Option String :=
  match entry.head.toList.isPrefixOf? specifier.toList with
  | none => none
  | some rest =>
    match entry.matching, rest with
    | .exact, [] => some ""
    | .exact, _ :: _ => none
    | .leading, rest => some (.ofList (rest.dropWhile (· == '/')))
    | .directory, [] => some ""
    | .directory, '/' :: rest => some (.ofList rest)
    | .directory, _ :: _ => none

end Alias

abbrev AliasTable := List Alias

namespace AliasTable

def ofEntries (entries : List (String × List String)) : AliasTable :=
  entries.map fun entry => Alias.ofEntry entry.1 entry.2

def addressing (table : AliasTable) (specifier : String) : List (Alias × String) :=
  table.filterMap fun entry => (entry.remainder? specifier).map fun rest => (entry, rest)

def sigils (table : AliasTable) : List Char :=
  Ascending.ofList ((table.filterMap fun entry => entry.head.toList.head?).filter (· ≠ '.'))

end AliasTable

end Orphans
