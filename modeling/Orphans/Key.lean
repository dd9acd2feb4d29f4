import Orphans.Text.Blank

/-! Path keys.

A key is the lexical normal form of a path: one kind of separator, no empty or `.` segment, no `..`
segment that can be folded away, an optional drive in front. Discovered files and resolved imports are
compared as keys, so every path that takes part in a comparison passes through `Key.normalize`.
The work is done on lists of characters; the functions on `String` wrap it.
-/

set_option autoImplicit false

namespace Orphans.Key

def unify (path : List Char) : List Char :=
  path.map fun c => if c = '\\' then '/' else c

/-- A drive such as `C:` and the rest of the path. The drive is empty if there is none. -/
def splitDrive : List Char → List Char × List Char
  | letter :: ':' :: rest => if letter.isAlpha then ([letter, ':'], rest) else ([], letter :: ':' :: rest)
  | path => ([], path)

/-- Put a segment on the kept ones, the innermost of which comes first. A `..` takes away the segment
before it; with nothing to take away it is dropped below a root and kept elsewhere. -/
def pushSegment (rooted : Bool) (kept : List (List Char)) (segment : List Char) : List (List Char) :=
  if segment = [] ∨ segment = ['.'] then kept
  else if segment = ['.', '.'] then
    match kept with
    | [] => if rooted then [] else [segment]
    | last :: rest => if last ≠ ['.', '.'] then rest else if rooted then kept else segment :: kept
  else segment :: kept

def foldSegments (rooted : Bool) (segments : List (List Char)) : List (List Char) :=
  (segments.foldl (pushSegment rooted) []).reverse

def joinSegments (segments : List (List Char)) : List Char :=
  ['/'].intercalate segments

/-- A key from its parts. The relative key without segments is written `.`. -/
def render (drive : List Char) (rooted : Bool) (segments : List (List Char)) : List Char :=
  if rooted then drive ++ '/' :: joinSegments segments
  else if drive = [] ∧ segments = [] then ['.']
  else drive ++ joinSegments segments

def normalizeChars (path : List Char) : List Char :=
  let parts := splitDrive (unify path)
  let rooted := parts.2.head? == some '/'
  render parts.1 rooted (foldSegments rooted (parts.2.splitOn '/'))

def joinChars (base tail : List Char) : List Char :=
  if tail = [] then normalizeChars base else normalizeChars (base ++ '/' :: tail)

def parentChars (key : List Char) : List Char :=
  match key.reverse.dropWhile (· ≠ '/') with
  | [] => ['.']
  | [_] => ['/']
  | _ :: before => before.reverse

def relativeChars (root key : List Char) : List Char :=
  match (Text.dropEndWhile (· == '/') root).isPrefixOf? key with
  | some ('/' :: rest) => rest
  | some [] => ['.']
  | _ => key

def nameChars (key : List Char) : List Char :=
  (key.reverse.takeWhile (· ≠ '/')).reverse

def normalize (path : String) : String := .ofList (normalizeChars path.toList)

def join (base tail : String) : String := .ofList (joinChars base.toList tail.toList)

/-- The directory part of a key: `/` for a segment below the root, `.` if there is no separator. -/
def parent (key : String) : String := .ofList (parentChars key.toList)

/-- A key as seen from `root`. The root itself is `.`; a key outside the root stays as it is. -/
def relativeTo (root key : String) : String := .ofList (relativeChars root.toList key.toList)

def name (key : String) : String := .ofList (nameChars key.toList)

def IsNormal (key : String) : Prop := normalize key = key

instance (key : String) : Decidable (IsNormal key) :=
  inferInstanceAs (Decidable (normalize key = key))

@[simp] theorem toList_normalize (path : String) :
    (normalize path).toList = normalizeChars path.toList := by
  simp [normalize]

@[simp] theorem toList_join (base tail : String) :
    (join base tail).toList = joinChars base.toList tail.toList := by
  simp [join]

@[simp] theorem toList_parent (key : String) : (parent key).toList = parentChars key.toList := by
  simp [parent]

@[simp] theorem toList_relativeTo (root key : String) :
    (relativeTo root key).toList = relativeChars root.toList key.toList := by
  simp [relativeTo]

@[simp] theorem toList_name (key : String) : (name key).toList = nameChars key.toList := by
  simp [name]

end Orphans.Key
