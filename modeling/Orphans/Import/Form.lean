import Orphans.Import.Literal
import Orphans.Text.Word

/-! The five import forms and their recognisers.

No grammar of the source language is involved: a form is a keyword, a shape between the keyword and a
quoted literal, and for calls a closing bracket. Each recogniser stands at the keyword.
-/

set_option autoImplicit false

namespace Orphans.Import

inductive Form where
  /-- `import a from 'x'` -/
  | staticFrom
  /-- `import 'x'` -/
  | sideEffect
  /-- `import('x')` -/
  | dynamicCall
  /-- `require('x')` -/
  | requireCall
  /-- `export * from 'x'` and `export { a } from 'x'` -/
  | reExport
  deriving DecidableEq, Repr

namespace Form

def all : List Form := [.staticFrom, .sideEffect, .dynamicCall, .requireCall, .reExport]

def importWord : List Char := ['i', 'm', 'p', 'o', 'r', 't']

def requireWord : List Char := ['r', 'e', 'q', 'u', 'i', 'r', 'e']

def exportWord : List Char := ['e', 'x', 'p', 'o', 'r', 't']

def fromWord : List Char := ['f', 'r', 'o', 'm']

def typeWord : List Char := ['t', 'y', 'p', 'e']

def asWord : List Char := ['a', 's']

def word : Form → List Char
  | .staticFrom | .sideEffect | .dynamicCall => importWord
  | .requireCall => requireWord
  | .reExport => exportWord

def fromLiteral? (text : List Char) : Option Recognised :=
  (keyword? fromWord text).bind fun rest => quoted? stringQuotes (skipBlanks rest)

def clauseStops : List Char := ['\'', '"', ';', '\x60']

/-- The rest of an import clause up to the first `from` that starts a word and stands before a literal.
`previous` is the character in front of the text. -/
def clause? (previous : Char) : List Char → Option Recognised
  | [] => none
  | c :: rest =>
    match if Text.isWord previous then none else fromLiteral? (c :: rest) with
    | some found => some found
    | none => if c ∈ clauseStops then none else clause? c rest

def call? (text : List Char) : Option Recognised :=
  (character? '(' (skipBlanks text)).bind fun rest =>
    (quoted? callQuotes (skipBlanks rest)).bind fun (body, after) =>
      (character? ')' (skipBlanks after)).map fun behind => (body, behind)

/-- What closes a re-export: `from` and a string literal. No blank is needed before `from`. -/
def exportSource? (text : List Char) : Option Recognised := fromLiteral? (skipBlanks text)

def isNameChar (c : Char) : Bool := Text.isWord c || c == '$'

/-- The source of `* as name`. A name that runs into `from` gives it back if something is left of it. -/
def namespaceSource? (text : List Char) : Option Recognised :=
  ((someBlanks? text).bind (keyword? asWord)).bind someBlanks? |>.bind fun named =>
    let name := named.takeWhile isNameChar
    let after := named.dropWhile isNameChar
    if name = [] then none
    else
      match exportSource? after with
      | some found => some found
      | none =>
        match fromWord.isSuffixOf? name with
        | some (_ :: _) => quoted? stringQuotes (skipBlanks after)
        | _ => none

def exportClause? : List Char → Option Recognised
  | '*' :: rest =>
    match namespaceSource? rest with
    | some found => some found
    | none => exportSource? rest
  | '{' :: rest => (character? '}' (rest.dropWhile (· ≠ '}'))).bind exportSource?
  | _ => none

def skipType (text : List Char) : List Char :=
  ((keyword? typeWord text).bind someBlanks?).getD text

def shape? : Form → List Char → Option Recognised
  | .staticFrom, text => (someBlanks? text).bind (clause? ' ')
  | .sideEffect, text => quoted? stringQuotes (skipBlanks text)
  | .dynamicCall, text => call? text
  | .requireCall, text => call? text
  | .reExport, text => (someBlanks? text).bind fun rest => exportClause? (skipType rest)

def statement? (form : Form) (text : List Char) : Option Recognised :=
  (keyword? form.word text).bind form.shape?

/-- The literal bodies of the statements in a text, from left to right. A statement begins where a word
may begin, and the search goes on behind it. It ends in a quote or a bracket, so a word may begin there.
Every step takes a character, so the length of the text is enough fuel. -/
def bodies (form : Form) : Nat → Option Char → List Char → List (List Char)
  | 0, _, _ => []
  | _, _, [] => []
  | fuel + 1, previous, c :: rest =>
    match if Text.wordMayStart previous then form.statement? (c :: rest) else none with
    | some (body, after) => body :: form.bodies fuel none after
    | none => form.bodies fuel (some c) rest

end Form

end Orphans.Import
