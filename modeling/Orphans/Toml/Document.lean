import Orphans.Toml.Quoted
import Orphans.Toml.Scalar
import Orphans.Toml.Table

/-! The reader of TOML documents. -/

set_option autoImplicit false

namespace Orphans.Toml

def maxDepth : Nat := 79

def maxKeyParts : Nat := 79

def isBareKeyChar (c : Char) : Bool := c.isAlphanum || c == '_' || c == '-'

def simpleKey (text : List Char) : Read String :=
  match text with
  | '"' :: _ | '\'' :: _ => lineString text
  | _ =>
    let bare := text.takeWhile isBareKeyChar
    if bare = [] then none else some (.ofList bare, text.dropWhile isBareKeyChar)

/-- A key of at most so many parts, with blanks around them allowed; `done` holds the parts so far, last
one first. -/
def keyParts : Nat → List String → List Char → Read (List String)
  | 0, _, _ => none
  | parts + 1, done, text =>
    match simpleKey (skipSpace text) with
    | none => none
    | some (part, rest) =>
      match skipSpace rest with
      | '.' :: rest => keyParts parts (part :: done) rest
      | rest => some ((part :: done).reverse, rest)

def key (text : List Char) : Read (List String) := keyParts maxKeyParts [] text

/-- The text behind blanks, line ends and comments; the flag tells whether the text begins inside a
comment. -/
def skipFiller : Bool → List Char → List Char
  | _, '\n' :: rest => skipFiller false rest
  | _, '\r' :: '\n' :: rest => skipFiller false rest
  | true, c :: rest => if isPrintable c then skipFiller true rest else c :: rest
  | false, '#' :: rest => skipFiller true rest
  | false, c :: rest => if isSpace c then skipFiller false rest else c :: rest
  | _, [] => []

mutual

/-- A value, with `depth` more containers allowed. Every call spends fuel. -/
def value : Nat → Nat → List Char → Read Value
  | 0, _, _ => none
  | fuel + 1, depth, text =>
    match text with
    | '"' :: _ | '\'' :: _ => (string text).map fun (found, rest) => (.string found, rest)
    | '[' :: rest => if depth = 0 then none else elements fuel (depth - 1) [] rest
    | '{' :: rest =>
      if depth = 0 then none
      else
        match skipSpace rest with
        | '}' :: rest => some (.table [], rest)
        | rest => pairs fuel (depth - 1) [] rest
    | text => scalar text

def elements : Nat → Nat → List Value → List Char → Read Value
  | 0, _, _, _ => none
  | fuel + 1, depth, done, text =>
    match skipFiller false text with
    | ']' :: rest => some (.array done.reverse, rest)
    | text =>
      match value fuel depth text with
      | none => none
      | some (item, rest) =>
        match skipFiller false rest with
        | ',' :: rest => elements fuel depth (item :: done) rest
        | ']' :: rest => some (.array (item :: done).reverse, rest)
        | _ => none

def pairs : Nat → Nat → Entries → List Char → Read Value
  | 0, _, _, _ => none
  | fuel + 1, depth, done, text =>
    match key text with
    | some (path, '=' :: rest) =>
      match value fuel depth (skipSpace rest) with
      | none => none
      | some (item, rest) =>
        match assign path item .header done with
        | none => none
        | some done =>
          match skipSpace rest with
          | ',' :: rest => pairs fuel depth done rest
          | '}' :: rest => some (.table (entryValues done), rest)
          | _ => none
    | _ => none

end

/-- A document while it is read: all entries, and the table to which assignments go. -/
structure Draft where
  entries : Entries
  current : List String

def Draft.assign (draft : Draft) (path : List String) (item : Value) : Option Draft :=
  (editAt .passage (Toml.assign path item) draft.current .header draft.entries).map fun entries =>
    { draft with entries := entries }

def Draft.header (draft : Draft) (element : Bool) (path : List String) : Option Draft :=
  (Toml.header element path draft.entries).map fun entries => ⟨entries, path⟩

def headerLine (draft : Draft) (element : Bool) (text : List Char) : Option (Draft × List Char) := do
  let (path, rest) ← key text
  let rest ← (if element then [']', ']'] else [']']).isPrefixOf? rest
  return (← draft.header element path, ← lineRest? rest)

def assignmentLine (draft : Draft) (text : List Char) : Option (Draft × List Char) := do
  let (path, rest) ← key text
  let rest ← character? '=' rest
  let (item, rest) ← value (rest.length + 2) maxDepth (skipSpace rest)
  return (← draft.assign path item, ← lineRest? rest)

def documentLines : Nat → Draft → List Char → Option Draft
  | 0, _, _ => none
  | fuel + 1, draft, text =>
    let next (read : Option (Draft × List Char)) : Option Draft :=
      match read with
      | some (draft, rest) => documentLines fuel draft rest
      | none => none
    match skipSpace text with
    | [] => some draft
    | '[' :: '[' :: rest => next (headerLine draft true rest)
    | '[' :: rest => next (headerLine draft false rest)
    | '#' :: rest => next ((lineRest? ('#' :: rest)).map fun rest => (draft, rest))
    | text =>
      match lineEnd? text with
      | some rest => documentLines fuel draft rest
      | none => next (assignmentLine draft text)

def dropByteOrderMark : List Char → List Char
  | '\ufeff' :: rest => rest
  | text => text

def parse? (text : String) : Option (List (String × Value)) :=
  let lines := dropByteOrderMark text.toList
  (documentLines (lines.length + 1) ⟨[], []⟩ lines).map fun draft => entryValues draft.entries

end Orphans.Toml
