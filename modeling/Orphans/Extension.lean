import Orphans.Text.Blank

/-! File extensions as they are configured.

An extension may be written with blanks around it and dots in front; what counts is the rest. Entries
of which nothing is left are ignored.
-/

set_option autoImplicit false

namespace Orphans.Extension

def normalize (text : String) : String :=
  .ofList ((Text.trim text.toList).dropWhile (· == '.'))

def normalizeAll (extensions : List String) : List String :=
  (extensions.map normalize).filter (· ≠ "")

/-- A specifier carries an extension if it ends in a dot and the extension, with something in front. -/
def carriedBy (specifier extension : String) : Bool :=
  match extension.toList.isSuffixOf? specifier.toList with
  | some front => front.getLast? == some '.' && 1 < front.length
  | none => false

end Orphans.Extension
