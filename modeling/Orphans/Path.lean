import Orphans.Text.Blank

/-! Paths as text, the way the file system reads them.

Only `/` separates. A path keeps the spelling it was given: joining and taking the parent edit the text
and do not fold `..`. Components are the reading of that text in which repeated separators and `.`
vanish, a leading `.` apart; paths are ordered by their components.
-/

set_option autoImplicit false

namespace Orphans.Path

inductive Component where
  | root
  | current
  | parent
  | name (text : String)
  deriving DecidableEq, Repr

def Component.text : Component → String
  | .root => "/"
  | .current => "."
  | .parent => ".."
  | .name text => text

def pieces (path : String) : List String :=
  (path.toList.splitOn '/').map String.ofList

def isIdle (piece : String) : Bool := piece == "" || piece == "."

def bodyComponents (parts : List String) : List Component :=
  (parts.filter fun piece => !isIdle piece).map fun piece =>
    if piece = ".." then .parent else .name piece

def componentsOf : List String → List Component
  | "" :: next :: rest => .root :: bodyComponents (next :: rest)
  | "." :: rest => .current :: bodyComponents rest
  | parts => bodyComponents parts

def components (path : String) : List Component := componentsOf (pieces path)

def isAbsolute (path : String) : Bool := path.toList.head? == some '/'

/-- The path reached by `tail` from `base`; an absolute tail stands alone. -/
def join (base tail : String) : String :=
  if isAbsolute tail then tail
  else if base.toList = [] ∨ base.toList.getLast? = some '/' then base ++ tail
  else base ++ "/" ++ tail

def dropIdleEnd (parts : List String) : List String :=
  (parts.reverse.dropWhile isIdle).reverse

def joinPieces (parts : List String) : String := "/".intercalate parts

/-- The text in front of the last named piece of `body`, which follows `lead` in the path; `lone` is
the answer if no piece is named. -/
def parentAfter (lead : String) (separator : String) (lone : Option String) (body : List String) :
    Option String :=
  match dropIdleEnd body with
  | [] => lone
  | kept =>
    match dropIdleEnd kept.dropLast with
    | [] => some lead
    | rest => some (lead ++ separator ++ joinPieces rest)

def parent? (path : String) : Option String :=
  match pieces path with
  | "" :: next :: rest => parentAfter "/" "" none (next :: rest)
  | "." :: rest => parentAfter "." "/" (some "") rest
  | parts => parentAfter "" "" none parts

def fileName? (path : String) : Option String :=
  match (components path).getLast? with
  | some (.name text) => some text
  | _ => none

/-- A file name cut at its last dot. A dot in front does not count. -/
def splitNameChars (name : List Char) : List Char × Option (List Char) :=
  match name.reverse.dropWhile (· ≠ '.') with
  | [] => (name, none)
  | [_] => (name, none)
  | _ :: before => (before.reverse, some (name.reverse.takeWhile (· ≠ '.')).reverse)

def stem (name : String) : String := .ofList (splitNameChars name.toList).1

def nameExtension? (name : String) : Option String := (splitNameChars name.toList).2.map .ofList

def extension? (path : String) : Option String := (fileName? path).bind nameExtension?

def appendComponents (start : String) (parts : List Component) : String :=
  parts.foldl (fun path component => join path component.text) start

def dropLeadingCurrent : List Component → List Component
  | .current :: rest => rest
  | parts => parts

/-- The path made absolute without a look at the disk: `.` and repeated separators vanish, `..` and a
separator at the end stay. Exactly two separators in front are kept. The empty path has no such form. -/
def absolute? (workingDirectory path : String) : Option String :=
  let text := path.toList
  if text = [] then none
  else
    let body :=
      if isAbsolute path then
        if (text.takeWhile (· == '/')).length = 2 then
          appendComponents "//" (components path).tail
        else appendComponents "" (components path)
      else appendComponents workingDirectory (dropLeadingCurrent (components path))
    some (if text.getLast? = some '/' then join body "" else body)

def Component.rank : Component → Nat
  | .root => 0
  | .current => 1
  | .parent => 2
  | .name _ => 3

/-- The root comes first, then `.`, then `..`, then names in the order of their characters. -/
def Component.before : Component → Component → Bool
  | .name first, .name second => first < second
  | first, second => first.rank < second.rank

def componentsBefore : List Component → List Component → Bool
  | _, [] => false
  | [], _ :: _ => true
  | first :: rest, second :: others =>
    if first.before second then true
    else if first = second then componentsBefore rest others
    else false

def before (first second : String) : Bool := componentsBefore (components first) (components second)

end Orphans.Path
