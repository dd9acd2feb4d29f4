/-! Values of TOML documents.

Fractional numbers and moments in time are checked and kept as they are spelled.
-/

set_option autoImplicit false

namespace Orphans.Toml

inductive Value where
  | string (text : String)
  | integer (value : Int)
  | float (spelled : String)
  | boolean (value : Bool)
  | moment (spelled : String)
  | array (items : List Value)
  | table (entries : List (String × Value))

abbrev Read (α : Type) := Option (α × List Char)

def isSpace (c : Char) : Bool := c == ' ' || c == '\t'

def skipSpace (text : List Char) : List Char := text.dropWhile isSpace

/-- The text behind a line end, which is a line feed with or without a carriage return before it. -/
def lineEnd? : List Char → Option (List Char)
  | '\n' :: rest => some rest
  | '\r' :: '\n' :: rest => some rest
  | _ => none

/-- No control characters but the tab. -/
def isPrintable (c : Char) : Bool := c == '\t' || (' ' ≤ c && c ≠ '\x7f')

def skipComment : List Char → List Char
  | '#' :: rest => rest.dropWhile isPrintable
  | text => text

def lineRest? (text : List Char) : Option (List Char) :=
  match skipComment (skipSpace text) with
  | [] => some []
  | rest => lineEnd? rest

end Orphans.Toml
