import Orphans.Alias
import Orphans.Extension
import Orphans.Key

/-! From a specifier to the keys it may mean.

Resolution looks at no file. It lists, in order of preference, every key that an import could stand for;
the discovered files decide which of them exist.
-/

set_option autoImplicit false

namespace Orphans

structure Resolver where
  /-- The key of the project root. -/
  root : String
  /-- The accepted extensions, without dots. -/
  extensions : List String
  aliases : AliasTable
  deriving Repr

namespace Resolver

def configure (root : String) (extensions : List String) (aliases : AliasTable) : Resolver where
  root := Key.normalize root
  extensions := Extension.normalizeAll extensions
  aliases := aliases

def pushNew (candidates : List String) (candidate : String) : List String :=
  if candidate ∈ candidates then candidates else candidates ++ [candidate]

def indexStem : String := "index"

/-- The keys that `base` may stand for: the base itself if the specifier carries an accepted extension,
the base with each other extension, and the index file of the base with each extension. -/
def shapes (resolver : Resolver) (specifier base : String) : List String :=
  let carried := resolver.extensions.find? (Extension.carriedBy specifier)
  (if carried.isSome then [base] else []) ++
    (resolver.extensions.filter fun extension => some extension ≠ carried).map
      (fun extension => base ++ "." ++ extension) ++
    resolver.extensions.map fun extension => base ++ "/" ++ indexStem ++ "." ++ extension

def bases (resolver : Resolver) (specifier origin : String) : List String :=
  if specifier.toList.head? = some '.' then [Key.join (Key.parent origin) specifier]
  else (resolver.aliases.addressing specifier).flatMap fun (entry, rest) =>
    entry.bases.map fun directory => Key.join (Key.join resolver.root directory) rest

/-- Every candidate key for `specifier` in the file with key `origin`, the preferred ones first. -/
def resolve (resolver : Resolver) (specifier origin : String) : List String :=
  ((resolver.bases specifier origin).flatMap (resolver.shapes specifier)).foldl pushNew []

end Resolver

end Orphans
