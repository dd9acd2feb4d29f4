import Orphans.Text.Blank

/-! The pieces of an import statement: keywords, blanks and quoted literals.

A recogniser looks at the front of a text and returns what is left behind the piece it recognised.
-/

set_option autoImplicit false

namespace Orphans.Import

abbrev Recognised := List Char × List Char

def keyword? (word text : List Char) : Option (List Char) := word.isPrefixOf? text

def skipBlanks (text : List Char) : List Char := text.dropWhile Text.isBlank

def someBlanks? : List Char → Option (List Char)
  | [] => none
  | c :: rest => if Text.isBlank c then some (skipBlanks rest) else none

def character? (expected : Char) : List Char → Option (List Char)
  | [] => none
  | c :: rest => if c = expected then some rest else none

def isBodyChar (quote c : Char) : Bool := c ≠ quote && c ≠ '\n'

/-- A literal in one of the given quotes, with a body of one line that is not empty. -/
def quoted? (quotes : List Char) : List Char → Option Recognised
  | [] => none
  | quote :: rest =>
    if quote ∈ quotes then
      match rest.takeWhile (isBodyChar quote), rest.dropWhile (isBodyChar quote) with
      | first :: body, close :: after => if close = quote then some (first :: body, after) else none
      | _, _ => none
    else none

def stringQuotes : List Char := ['\'', '"']

def callQuotes : List Char := ['\'', '"', '\x60']

/-- A body holds an interpolation if a dollar sign stands before an opening brace. -/
def hasInterpolation : List Char → Bool
  | [] => false
  | c :: rest => (c == '$' && rest.head? == some '{') || hasInterpolation rest

/-- The specifier that a literal spells: its trimmed body, if that is fixed and not empty. -/
def specifierOf? (body : List Char) : Option String :=
  let trimmed := Text.trim body
  if trimmed = [] ∨ hasInterpolation trimmed then none else some (.ofList trimmed)

end Orphans.Import
