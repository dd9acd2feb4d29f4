import Orphans.Alias

/-! Kinds of specifiers.

Only relative and aliased specifiers can name a file of the project. A specifier is aliased if it begins
with a sigil or if the alias table addresses it; all others are bare, package names for the most part.
-/

set_option autoImplicit false

namespace Orphans.Specifier

inductive Kind where
  | relative
  | aliased
  | bare
  deriving DecidableEq, Repr

structure Scheme where
  sigils : List Char
  aliases : AliasTable
  deriving Repr

namespace Scheme

def defaultSigils : List Char := ['@', '~', '#', '$']

def initial : Scheme := ⟨defaultSigils, []⟩

def addSigil (scheme : Scheme) (sigil : Char) : Scheme :=
  if sigil ∈ scheme.sigils then scheme else { scheme with sigils := scheme.sigils ++ [sigil] }

def withSigils (scheme : Scheme) (sigils : List Char) : Scheme :=
  sigils.foldl addSigil scheme

/-- The scheme that also knows the heads of a table and the specifiers that the table addresses. -/
def withAliases (scheme : Scheme) (table : AliasTable) : Scheme :=
  { scheme.withSigils table.sigils with aliases := table }

def kind (scheme : Scheme) (specifier : String) : Kind :=
  match specifier.toList.head? with
  | none => .bare
  | some first =>
    if first = '.' then .relative
    else if first ∈ scheme.sigils then .aliased
    else if scheme.aliases.addressing specifier ≠ [] then .aliased
    else .bare

end Scheme

end Orphans.Specifier
