import Orphans.Ascending
import Orphans.Import.Form
import Orphans.Specifier

/-! The imports of a source text.

Each form is searched for on its own over the whole text, so a file may yield one specifier under
several forms. Bare specifiers are dropped before resolution.
-/

set_option autoImplicit false

namespace Orphans.Import

structure Occurrence where
  form : Form
  specifier : String
  deriving DecidableEq, Repr

def occurrencesOf (form : Form) (text : List Char) : List Occurrence :=
  (form.bodies text.length none text).filterMap fun body =>
    (specifierOf? body).map fun specifier => ⟨form, specifier⟩

/-- Every import of a text, bare ones included, ordered by form and then by place. -/
def occurrences (text : String) : List Occurrence :=
  Form.all.flatMap fun form => occurrencesOf form text.toList

def specifiers (scheme : Specifier.Scheme) (text : String) : List String :=
  Ascending.ofList <|
    ((occurrences text).map (·.specifier)).filter fun specifier => scheme.kind specifier ≠ .bare

end Orphans.Import
