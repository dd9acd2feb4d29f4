import Orphans.Options
import Orphans.Proofs.ExactAlias
import Orphans.Proofs.Extension
import Orphans.Proofs.FileSystem.Linkless
import Orphans.Proofs.FilteredWalk

/-! Extensions in names and in specifiers.

The resolver asks whether a specifier ends in an extension, the walk cuts a name at its last dot and compares what
follows. On extensions without dots both ask the same. An extension with a dot inside is never what follows the last
dot, so the walk takes a file for it only if the file has a shorter extension that is accepted too.
-/

set_option autoImplicit false

namespace Orphans

namespace Extension

def dotless (extensions : List String) : List String := extensions.filter fun extension => '.' ∉ extension.toList

theorem dotless_eq_self {extensions : List String} (plain : ∀ extension ∈ extensions, '.' ∉ extension.toList) :
    dotless extensions = extensions :=
  List.filter_eq_self.mpr fun extension member => decide_eq_true (plain extension member)

/-- What follows the last dot is a carried extension without dots. -/
theorem nameExtension?_eq_some_iff {name extension : String} :
    Path.nameExtension? name = some extension ↔ '.' ∉ extension.toList ∧ carriedBy name extension = true := by
  rw [carriedBy_iff]
  constructor
  · intro found
    obtain ⟨stem, inhabited, dotless, rfl⟩ := Path.exists_cut_of_nameExtension? found
    exact ⟨dotless, stem.toList, mt String.toList_eq_nil_iff.mp inhabited, by simp⟩
  · rintro ⟨dotless, stem, inhabited, chars⟩
    have whole : name = .ofList stem ++ "." ++ extension := by
      apply String.toList_injective
      simp [chars]
    rw [whole]
    exact Path.nameExtension?_append (by simpa using inhabited) dotless

end Extension

theorem Rules.acceptsName_iff_carries {rules : Rules} {name : String} :
    rules.acceptsName name = true ↔ Resolver.Carries (Extension.dotless rules.extensions) name := by
  rw [acceptsName_iff, Resolver.Carries]
  refine exists_congr fun extension => ?_
  rw [Extension.nameExtension?_eq_some_iff, Extension.dotless, List.mem_filter, decide_eq_true_eq, and_assoc]

section Walk
variable {fileSystem : FileSystem} (formed : fileSystem.root.WellFormed) {root : String}
  {entries : List (String × Node)} (placed : fileSystem.find .follow root = .ok (.directory entries))
include formed placed

theorem mem_discover_iff (rules : Rules) {location : List String} (inhabited : location ≠ [])
    {text : Option String} (isFile : (Node.directory entries).get? location = some (.file text)) :
    ⟨Discovery.pathAt root location⟩ ∈ (discover fileSystem root rules).files ↔
      rules.ignoresFile location = false ∧ Discovery.isReached root location = true := by
  have entriesFormed : (Node.directory entries).WellFormed := FileSystem.wellFormed_of_find formed placed
  have named := entriesFormed.isName_of_get? isFile
  obtain ⟨rooted, -⟩ := (FileSystem.find_eq_ok_iff (by decide)).mp placed
  rw [discover_of_directory placed, Discovery.ofDirectory, List.mem_map]
  constructor
  · rintro ⟨other, member, same⟩
    obtain ⟨candidate, reached⟩ := List.mem_filter.mp member
    obtain ⟨otherInhabited, otherNamed⟩ := rules.named_of_mem_candidatesIn entriesFormed candidate
    obtain rfl := Discovery.pathAt_injective rooted otherInhabited inhabited otherNamed named
      ((Candidate.mk.injEq _ _).mp same)
    exact ⟨((rules.mem_candidatesIn_iff entriesFormed).mp candidate).1, reached⟩
  · rintro ⟨counts, reached⟩
    have candidate := (rules.mem_candidatesIn_iff entriesFormed).mpr ⟨counts, text, isFile⟩
    exact ⟨location, List.mem_filter.mpr ⟨candidate, reached⟩, rfl⟩

/-- Outside of excluded folders and test artifacts, the walk takes the files that carry an accepted extension without
dots, as far as the folders around them have paths of an admitted length. If no accepted extension has a dot, these are
the files with an extension that a specifier could carry. -/
theorem discover_iff_carries (extensions excludedDirectories : List String) {folders : List String} {name : String}
    {text : Option String} (isFile : (Node.directory entries).get? (folders ++ [name]) = some (.file text))
    (included : ∀ folder ∈ folders, folder ∉ excludedDirectories)
    (untested : TestArtifact.includes ((folders ++ [name]).map Path.Component.name) = false) :
    (⟨Discovery.pathAt root (folders ++ [name])⟩ ∈
        (discover fileSystem root (.configure extensions excludedDirectories)).files ↔
      Resolver.Carries (Extension.dotless (Extension.normalizeAll extensions)) name ∧
        (Discovery.pathAt root folders).utf8ByteSize ≤ FileSystem.maxPathLength) ∧
    ((∀ extension ∈ Extension.normalizeAll extensions, '.' ∉ extension.toList) →
      (⟨Discovery.pathAt root (folders ++ [name])⟩ ∈
          (discover fileSystem root (.configure extensions excludedDirectories)).files ↔
        Resolver.Carries (Extension.normalizeAll extensions) name ∧
          (Discovery.pathAt root folders).utf8ByteSize ≤ FileSystem.maxPathLength)) := by
  have found : ⟨Discovery.pathAt root (folders ++ [name])⟩ ∈
        (discover fileSystem root (.configure extensions excludedDirectories)).files ↔
      Resolver.Carries (Extension.dotless (Extension.normalizeAll extensions)) name ∧
        (Discovery.pathAt root folders).utf8ByteSize ≤ FileSystem.maxPathLength := by
    -- Outside of excluded folders and tests, a file counts if its name is accepted.
    have counts : (Rules.configure extensions excludedDirectories).ignoresFile (folders ++ [name]) = false ↔
        (Rules.configure extensions excludedDirectories).acceptsName name = true := by
      have passed : folders.any (Rules.configure extensions excludedDirectories).excludes = false := by
        simpa [Rules.excludes, Rules.configure] using included
      rw [Rules.ignoresFile, List.dropLast_concat, List.getLast?_concat, passed, untested]
      simp
    have reached : Discovery.isReached root (folders ++ [name]) = true ↔
        (Discovery.pathAt root folders).utf8ByteSize ≤ FileSystem.maxPathLength := by
      simp [Discovery.isReached, FileSystem.isTooLong]
    rw [mem_discover_iff formed placed _ (by simp) isFile, counts, reached, Rules.acceptsName_iff_carries]
    rfl
  refine ⟨found, fun plain => ?_⟩
  rw [found, Extension.dotless_eq_self plain]

end Walk

/-- One file carries two extensions. It is found by the one without a dot, and not by the other alone. -/
theorem discover_iff_carries_linkedProject :
    ⟨"ws/a/z.d.ts"⟩ ∈ (discover linkedProject "ws" (.configure [".d.ts", "ts"] ["dist.ts"])).files ∧
      ⟨"ws/a/z.d.ts"⟩ ∉ (discover linkedProject "ws" (.configure [".d.ts"] ["dist.ts"])).files := by
  have formed : linkedProject.root.WellFormed := by decide
  have placed : linkedProject.find .follow "ws" = .ok (.directory mixedFiles) := rfl
  have isFile : (Node.directory mixedFiles).get? (["a"] ++ ["z.d.ts"]) = some (.file (some "")) := rfl
  have path : Discovery.pathAt "ws" (["a"] ++ ["z.d.ts"]) = "ws/a/z.d.ts" := by decide
  obtain ⟨both, -⟩ := discover_iff_carries formed placed [".d.ts", "ts"] ["dist.ts"] isFile (by decide) (by decide)
  obtain ⟨longer, -⟩ := discover_iff_carries formed placed [".d.ts"] ["dist.ts"] isFile (by decide) (by decide)
  rw [path] at both longer
  refine ⟨both.mpr ⟨⟨"ts", by decide, by decide⟩, by decide⟩, fun found => ?_⟩
  have nothing : Extension.dotless (Extension.normalizeAll [".d.ts"]) = [] := by decide
  obtain ⟨⟨extension, accepted, -⟩, -⟩ := longer.mp found
  rw [nothing] at accepted
  cases accepted

def declarationFiles : List (String × Node) := [("a.d.ts", .file (some ""))]

def declarationProject : FileSystem where
  root := .directory [("p", .directory declarationFiles)]
  workingDirectory := []

def declarationsOnly : Options := { Options.initial "/p" 1 with extensions := ["d.ts"] }

/-- A file with the only accepted extension is not found. -/
theorem discover_misses_declaration :
    declarationsOnly.validate = .ok () ∧ declarationProject.root.WellFormed ∧
      declarationProject.find .follow declarationsOnly.root = .ok (.directory declarationFiles) ∧
      (Node.directory declarationFiles).get? ["a" ++ "." ++ "d.ts"] = some (.file (some "")) ∧
      "d.ts" ∈ declarationsOnly.extensions.map Extension.normalize ∧
      TestArtifact.includes [.name ("a" ++ "." ++ "d.ts")] = false ∧
      (discover declarationProject declarationsOnly.root
        (.configure declarationsOnly.extensions declarationsOnly.excludedDirectories)).files = [] := by
  have isFile : (Node.directory declarationFiles).get? ["a" ++ "." ++ "d.ts"] = some (.file (some "")) := by
    simp [declarationFiles, Node.get?]
  refine ⟨rfl, by decide, rfl, isFile, by decide, by decide, by decide⟩

end Orphans
