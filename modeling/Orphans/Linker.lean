import Orphans.FileSystem.Lookup
import Orphans.Import.Extraction
import Orphans.References
import Orphans.Resolution

/-! From a candidate file to the files that it imports. -/

set_option autoImplicit false

namespace Orphans

structure Linker where
  scheme : Specifier.Scheme
  resolver : Resolver
  /-- The keys of the candidate files. -/
  known : List String
  deriving Repr

namespace Linker

def configure (root : String) (extensions : List String) (aliases : AliasTable)
    (files : List Candidate) : Linker where
  scheme := Specifier.Scheme.initial.withAliases aliases
  resolver := .configure root extensions aliases
  known := Ascending.ofList (files.map Candidate.key)

def targets (linker : Linker) (specifiers : List String) (file : Candidate) : List String :=
  Ascending.ofList <| (specifiers.flatMap fun specifier =>
    linker.resolver.resolve specifier file.key).filter fun key => key ∈ linker.known

def outcomeOfText (linker : Linker) (file : Candidate) (text : String) : Outcome :=
  let specifiers := Import.specifiers linker.scheme text
  ⟨file.key, specifiers.length, linker.targets specifiers file, none⟩

def outcomeOfRefusal (file : Candidate) (refusal : Refusal) : Outcome :=
  ⟨file.key, 0, [], some (Failure.unreadable file.path refusal.message).toDiagnostic⟩

def outcome (linker : Linker) (fileSystem : FileSystem) (file : Candidate) : Outcome :=
  match fileSystem.readText file.path with
  | .ok text => linker.outcomeOfText file text
  | .error refusal => outcomeOfRefusal file refusal

def collect (linker : Linker) (fileSystem : FileSystem) (pool : Pool) (cancelled : Bool)
    (files : List Candidate) : Except Failure References :=
  pool.run cancelled (files.map fun file => .finished file (linker.outcome fileSystem file))

end Linker

end Orphans
