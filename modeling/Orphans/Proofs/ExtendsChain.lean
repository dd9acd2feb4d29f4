import Mathlib.Data.List.Basic
import Orphans.Proofs.AliasDocument

/-! Configurations that extend each other.

Every configuration extends at most one file, so those that are reached from the chosen one form a chain, which may run
in circles. Reading follows the chain up to a number of hops. It stops at the first file that defines aliases, at the
first one that cannot be read, or where it would have to go on after the last hop, and looks into no other file.
-/

set_option autoImplicit false

namespace Orphans.AliasConfig

section Chain
variable (fileSystem : FileSystem)

def Follows (path next : String) : Prop :=
  ∃ target, Extends fileSystem path target ∧ Means fileSystem path target next

inductive Reaches : String → Nat → String → Prop where
  | here (source : String) : Reaches source 0 source
  | hop {source next path : String} {count : Nat} (follows : Follows fileSystem source next)
      (reaches : Reaches next count path) : Reaches source (count + 1) path

def SilentBefore (source : String) (count : Nat) : Prop :=
  ∀ earlier < count, ∀ path, Reaches fileSystem source earlier path → ∀ table, ¬ Defines fileSystem path table

/-- The first aliases on the chain are those of the file at this place, and the hops are enough to get there. -/
structure Meets (hops : Nat) (source : String) (place : Nat) (table : AliasTable) : Prop where
  near : place ≤ hops
  silent : SilentBefore fileSystem source place
  defined : ∃ path, Reaches fileSystem source place path ∧ Defines fileSystem path table

/-- Before any aliases are met, the chain leads to a broken file, or on from the last file that the hops allow. -/
structure Fails (hops : Nat) (source : String) (place : Nat) : Prop where
  near : place ≤ hops
  silent : SilentBefore fileSystem source place
  stuck : ∃ path, Reaches fileSystem source place path ∧
    (IsBroken fileSystem path ∨
      place = hops ∧ (∀ table, ¬ Defines fileSystem path table) ∧ ∃ target, Extends fileSystem path target)

end Chain

section Places
variable {fileSystem : FileSystem} {path next : String} {table : AliasTable}

theorem follows_iff : Follows fileSystem path next ↔
    ((readDocument fileSystem path).toOption.bind extended?).bind (follow? fileSystem path) = some next := by
  simp only [Follows, extends_iff, Option.bind_eq_some_iff, follow?_eq_some_iff]

theorem Holds.not_isBroken {document : Json.Value} (holds : Holds fileSystem path document) :
    ¬ IsBroken fileSystem path := by
  rw [isBroken_iff]
  rintro ⟨failure, broken⟩
  cases broken.symm.trans (readDocument_eq_ok_iff.mpr holds)

theorem Defines.unique {other : AliasTable} (defines : Defines fileSystem path table)
    (otherwise : Defines fileSystem path other) : table = other :=
  Option.some.inj ((defines_iff.mp defines).symm.trans (defines_iff.mp otherwise))

theorem Follows.unique {other : String} (follows : Follows fileSystem path next)
    (otherwise : Follows fileSystem path other) : next = other :=
  Option.some.inj ((follows_iff.mp follows).symm.trans (follows_iff.mp otherwise))

theorem Follows.not_isBroken (follows : Follows fileSystem path next) : ¬ IsBroken fileSystem path := by
  obtain ⟨_, ⟨document, holds, -⟩, -⟩ := follows
  exact holds.not_isBroken

variable {hops place other : Nat} {source : String} {otherTable : AliasTable}

theorem Reaches.unique {otherPath : String} (reaches : Reaches fileSystem source place path)
    (otherwise : Reaches fileSystem source place otherPath) : path = otherPath := by
  induction reaches with
  | here =>
    cases otherwise
    rfl
  | hop follows _ ih =>
    cases otherwise with
    | hop otherFollows otherReaches =>
      obtain rfl := follows.unique otherFollows
      exact ih otherReaches

theorem Reaches.exists_follows (reaches : Reaches fileSystem source place path) (before : other < place) :
    ∃ earlier next, Reaches fileSystem source other earlier ∧ Follows fileSystem earlier next := by
  induction reaches generalizing other with
  | here => exact absurd before (Nat.not_lt_zero other)
  | @hop source next _ _ follows _ ih =>
    cases other with
    | zero => exact ⟨source, next, .here source, follows⟩
    | succ other =>
      obtain ⟨earlier, behind, there, leads⟩ := ih (Nat.lt_of_succ_lt_succ before)
      exact ⟨earlier, behind, .hop follows there, leads⟩

theorem Meets.unique (meets : Meets fileSystem hops source place table)
    (again : Meets fileSystem hops source other otherTable) : table = otherTable := by
  obtain ⟨path, here, defines⟩ := meets.defined
  obtain ⟨otherPath, there, otherDefines⟩ := again.defined
  rcases Nat.lt_trichotomy place other with before | rfl | behind
  · exact absurd defines (again.silent place before path here table)
  · obtain rfl := here.unique there
    exact defines.unique otherDefines
  · exact absurd otherDefines (meets.silent other behind otherPath there otherTable)

theorem Meets.not_fails (meets : Meets fileSystem hops source place table) : ¬ Fails fileSystem hops source other := by
  intro fails
  obtain ⟨path, here, defines⟩ := meets.defined
  obtain ⟨otherPath, there, stuck⟩ := fails.stuck
  rcases Nat.lt_trichotomy place other with before | rfl | behind
  · exact fails.silent place before path here table defines
  · obtain rfl := here.unique there
    rcases stuck with broken | ⟨-, silent, -⟩
    · obtain ⟨document, holds, -⟩ := defines
      exact holds.not_isBroken broken
    · exact silent table defines
  · rcases stuck with broken | ⟨rfl, -, -⟩
    · -- Nothing follows a broken file.
      obtain ⟨earlier, next, reached, follows⟩ := here.exists_follows behind
      obtain rfl := there.unique reached
      exact follows.not_isBroken broken
    · have near := meets.near
      omega

/-! ### One hop -/

theorem reaches_zero : Reaches fileSystem source 0 path ↔ source = path := by
  constructor
  · rintro ⟨⟩
    rfl
  · rintro rfl
    exact .here source

theorem reaches_hop (follows : Follows fileSystem source next) :
    Reaches fileSystem source (place + 1) path ↔ Reaches fileSystem next place path := by
  constructor
  · intro reaches
    cases reaches with
    | hop otherFollows reaches =>
      obtain rfl := follows.unique otherFollows
      exact reaches
  · exact .hop follows

section Hop
variable (silent : ∀ table, ¬ Defines fileSystem source table) (follows : Follows fileSystem source next)
include silent follows

theorem silentBefore_hop : SilentBefore fileSystem source (place + 1) ↔ SilentBefore fileSystem next place := by
  constructor
  · intro before earlier less path reaches
    exact before (earlier + 1) (by omega) path (.hop follows reaches)
  · intro before earlier less path reaches
    cases earlier with
    | zero =>
      obtain rfl := reaches_zero.mp reaches
      exact silent
    | succ earlier => exact before earlier (by omega) path ((reaches_hop follows).mp reaches)

theorem meets_hop : Meets fileSystem (hops + 1) source (place + 1) table ↔ Meets fileSystem hops next place table := by
  constructor
  · rintro ⟨near, before, defined⟩
    simp only [reaches_hop follows] at defined
    exact ⟨by omega, (silentBefore_hop silent follows).mp before, defined⟩
  · rintro ⟨near, before, defined⟩
    simp only [← reaches_hop follows] at defined
    exact ⟨by omega, (silentBefore_hop silent follows).mpr before, defined⟩

theorem fails_hop : Fails fileSystem (hops + 1) source (place + 1) ↔ Fails fileSystem hops next place := by
  constructor
  · rintro ⟨near, before, stuck⟩
    simp only [reaches_hop follows, Nat.add_right_cancel_iff] at stuck
    exact ⟨by omega, (silentBefore_hop silent follows).mp before, stuck⟩
  · rintro ⟨near, before, path, reaches, stuck⟩
    rw [← Nat.add_right_cancel_iff] at stuck
    exact ⟨by omega, (silentBefore_hop silent follows).mpr before, path, .hop follows reaches, stuck⟩

end Hop

/-- Whatever holds further on, nothing happens at a file that is read, defines no aliases and may be left. -/
theorem nothing_here (hops : Nat) (silent : ∀ table, ¬ Defines fileSystem source table)
    (readable : ¬ IsBroken fileSystem source) (free : ¬ (0 = hops ∧ ∃ target, Extends fileSystem source target))
    (onwards : ∀ place, (∀ table, ¬ Meets fileSystem hops source (place + 1) table) ∧
      ¬ Fails fileSystem hops source (place + 1)) :
    (∀ place table, ¬ Meets fileSystem hops source place table) ∧ ∀ place, ¬ Fails fileSystem hops source place := by
  constructor
  · rintro (_ | place) table meets
    · obtain ⟨path, here, defines⟩ := meets.defined
      obtain rfl := reaches_zero.mp here
      exact silent table defines
    · exact (onwards place).1 table meets
  · rintro (_ | place) fails
    · obtain ⟨path, here, stuck⟩ := fails.stuck
      obtain rfl := reaches_zero.mp here
      rcases stuck with broken | ⟨last, -, asks⟩
      · exact readable broken
      · exact free ⟨last, asks⟩
    · exact (onwards place).2 fails

theorem nothing_behind (hops : Nat) (ends : ∀ next, ¬ Follows fileSystem source next) (place : Nat) :
    (∀ table, ¬ Meets fileSystem hops source (place + 1) table) ∧ ¬ Fails fileSystem hops source (place + 1) := by
  have unreached (path : String) : ¬ Reaches fileSystem source (place + 1) path := by
    rintro (_ | ⟨follows, -⟩)
    exact ends _ follows
  constructor
  · intro table meets
    obtain ⟨path, here, -⟩ := meets.defined
    exact unreached path here
  · intro fails
    obtain ⟨path, here, -⟩ := fails.stuck
    exact unreached path here

end Places

/-! ### Reading -/

section Reading
variable (fileSystem : FileSystem)

/-- Reading gives the first aliases of the chain, or fails where the chain does, or finds nothing. -/
def FollowsChain (hops : Nat) (source : String) : Prop :=
  (∃ place table, Meets fileSystem hops source place table ∧ read fileSystem hops source = .ok table) ∨
  (∃ place failure, Fails fileSystem hops source place ∧ read fileSystem hops source = .error failure) ∨
  ((∀ place table, ¬ Meets fileSystem hops source place table) ∧ (∀ place, ¬ Fails fileSystem hops source place) ∧
    read fileSystem hops source = .ok [])

theorem FollowsChain.hop {fileSystem : FileSystem} {hops : Nat} {source next : String}
    (silent : ∀ table, ¬ Defines fileSystem source table) (readable : ¬ IsBroken fileSystem source)
    (leads : Follows fileSystem source next)
    (same : read fileSystem (hops + 1) source = read fileSystem hops next)
    (follows : FollowsChain fileSystem hops next) : FollowsChain fileSystem (hops + 1) source := by
  rw [FollowsChain, same]
  rcases follows with ⟨place, table, meets, result⟩ | ⟨place, failure, fails, result⟩ | ⟨noTable, noFailure, result⟩
  · exact .inl ⟨place + 1, table, (meets_hop silent leads).mpr meets, result⟩
  · exact .inr (.inl ⟨place + 1, failure, (fails_hop silent leads).mpr fails, result⟩)
  · have nothing := nothing_here (hops + 1) silent readable (by simp) fun place =>
      ⟨fun table meets => noTable place table ((meets_hop silent leads).mp meets),
        fun fails => noFailure place ((fails_hop silent leads).mp fails)⟩
    exact .inr (.inr ⟨nothing.1, nothing.2, result⟩)

theorem followsChain_step (hops : Nat) (source : String)
    (onwards : ∀ fewer, hops = fewer + 1 → ∀ next, FollowsChain fileSystem fewer next) :
    FollowsChain fileSystem hops source := by
  have start : SilentBefore fileSystem source 0 := fun earlier less => absurd less (Nat.not_lt_zero earlier)
  -- The cases come in the order in which they end the search: the file is broken, it has a table, it extends nothing,
  -- no hop is left, or what it extends is not there.
  cases content : readDocument fileSystem source with
  | error failure =>
    have broken := isBroken_iff.mpr ⟨failure, content⟩
    refine .inr (.inl ⟨0, failure, ⟨Nat.zero_le _, start, source, .here source, .inl broken⟩, ?_⟩)
    rw [read, content]
  | ok document =>
    have readable := (readDocument_eq_ok_iff.mp content).not_isBroken
    cases defined : table? document with
    | some table =>
      have defines : Defines fileSystem source table := by simp [defines_iff, content, Except.toOption, defined]
      refine .inl ⟨0, table, ⟨Nat.zero_le _, start, source, .here source, defines⟩, ?_⟩
      simp [read, content, defined]
    | none =>
      have silent : ∀ table, ¬ Defines fileSystem source table := by
        simp [defines_iff, content, Except.toOption, defined]
      cases asked : extended? document with
      | none =>
        have alone : ∀ target, ¬ Extends fileSystem source target := by
          simp [extends_iff, content, Except.toOption, asked]
        have ends : ∀ next, ¬ Follows fileSystem source next := by
          simp [follows_iff, content, Except.toOption, asked]
        have nothing := nothing_here hops silent readable (by simp [alone]) (nothing_behind hops ends)
        exact .inr (.inr ⟨nothing.1, nothing.2, by simp [read, content, defined, asked]⟩)
      | some target =>
        have asks : Extends fileSystem source target := by simp [extends_iff, content, Except.toOption, asked]
        cases hops with
        | zero =>
          have stuck : Fails fileSystem 0 source 0 :=
            ⟨Nat.le_refl 0, start, source, .here source, .inr ⟨rfl, silent, target, asks⟩⟩
          refine .inr (.inl ⟨0, .aliasConfig source "extends chain too deep", stuck, ?_⟩)
          simp [read, content, defined, asked]
        | succ hops =>
          cases followed : follow? fileSystem source target with
          | none =>
            have ends : ∀ next, ¬ Follows fileSystem source next := by
              simp [follows_iff, content, Except.toOption, asked, followed]
            have nothing := nothing_here (hops + 1) silent readable (by simp) (nothing_behind (hops + 1) ends)
            refine .inr (.inr ⟨nothing.1, nothing.2, ?_⟩)
            simp [read, content, defined, asked, followed]
          | some next =>
            have leads : Follows fileSystem source next := ⟨target, asks, follow?_eq_some_iff.mp followed⟩
            refine .hop silent readable leads ?_ (onwards hops rfl next)
            rw [read]
            simp [content, defined, asked, followed]

theorem followsChain (hops : Nat) (source : String) : FollowsChain fileSystem hops source := by
  induction hops generalizing source with
  | zero => exact followsChain_step fileSystem 0 source fun fewer same => by omega
  | succ hops ih =>
    refine followsChain_step fileSystem (hops + 1) source fun fewer same next => ?_
    obtain rfl := Nat.succ.inj same
    exact ih next

/-! ### The files that are read -/

def readFiles (hops : Nat) (source : String) : List String := (filesRead fileSystem hops source).map (·.1)

theorem readFiles_of_follow? {hops : Nat} {source target next : String} {document : Json.Value}
    (content : readDocument fileSystem source = .ok document) (silent : table? document = none)
    (asked : extended? document = some target) (followed : follow? fileSystem source target = some next) :
    readFiles fileSystem (hops + 1) source = source :: readFiles fileSystem hops next := by
  rw [readFiles, filesRead]
  simp [content, silent, asked, followed, readFiles]

theorem readFiles_cases (hops : Nat) (source : String) :
    readFiles fileSystem hops source = [source] ∨
    ∃ fewer next, hops = fewer + 1 ∧ Follows fileSystem source next ∧
      readFiles fileSystem hops source = source :: readFiles fileSystem fewer next := by
  cases content : readDocument fileSystem source with
  | error failure =>
    left
    simp [readFiles, filesRead, content]
  | ok document =>
    cases silent : table? document with
    | some table =>
      left
      simp [readFiles, filesRead, content, silent]
    | none =>
      cases asked : extended? document with
      | none =>
        left
        simp [readFiles, filesRead, content, silent, asked]
      | some target =>
        cases hops with
        | zero =>
          left
          simp [readFiles, filesRead, content, silent, asked]
        | succ hops =>
          cases followed : follow? fileSystem source target with
          | none =>
            left
            simp [readFiles, filesRead, content, silent, asked, followed]
          | some next =>
            right
            exact ⟨hops, next, rfl, follows_iff.mpr (by simp [content, Except.toOption, asked, followed]),
              readFiles_of_follow? fileSystem content silent asked followed⟩

theorem source_mem_readFiles (hops : Nat) (source : String) : source ∈ readFiles fileSystem hops source := by
  rcases readFiles_cases fileSystem hops source with alone | ⟨fewer, next, -, -, more⟩
  · simp [alone]
  · simp [more]

/-- Reading looks into the chain from its beginning, and leaves out none of its files. -/
theorem reaches_of_readFiles {hops : Nat} {source : String} {place : Nat} {path : String}
    (looked : (readFiles fileSystem hops source)[place]? = some path) : Reaches fileSystem source place path := by
  induction place generalizing hops source with
  | zero =>
    rw [reaches_zero]
    rcases readFiles_cases fileSystem hops source with alone | ⟨fewer, next, -, -, more⟩
    · simpa [alone] using looked
    · simpa [more] using looked
  | succ place ih =>
    rcases readFiles_cases fileSystem hops source with alone | ⟨fewer, next, -, leads, more⟩
    · simp [alone] at looked
    · rw [more, List.getElem?_cons_succ] at looked
      exact .hop leads (ih looked)

theorem readDocument_congr {fileSystem other : FileSystem} {path : String}
    (same : other.readText path = fileSystem.readText path) :
    readDocument other path = readDocument fileSystem path := by
  rw [readDocument, readDocument, same]

section Agreement
variable {fileSystem} {other : FileSystem} (sameFiles : ∀ path, other.isFile path = fileSystem.isFile path)
include sameFiles

theorem follow?_congr (source target : String) : follow? other source target = follow? fileSystem source target := by
  rw [follow?, follow?, funext sameFiles]

theorem source?_congr (root : String) (explicit : Option String) :
    source? other root explicit = source? fileSystem root explicit := by
  unfold source?
  rw [funext sameFiles]

theorem read_congr {hops : Nat} {source : String}
    (sameTexts : ∀ path ∈ readFiles fileSystem hops source, other.readText path = fileSystem.readText path) :
    read other hops source = read fileSystem hops source := by
  induction hops generalizing source with
  | zero =>
    have same := readDocument_congr (sameTexts source (source_mem_readFiles fileSystem 0 source))
    rw [read, read, same]
  | succ hops ih =>
    have same := readDocument_congr (sameTexts source (source_mem_readFiles fileSystem (hops + 1) source))
    rw [read, read, same]
    cases content : readDocument fileSystem source with
    | error failure => rfl
    | ok document =>
      cases silent : table? document with
      | some table => simp [silent]
      | none =>
        cases asked : extended? document with
        | none => simp [silent, asked]
        | some target =>
          simp only [silent, asked, follow?_congr sameFiles]
          cases followed : follow? fileSystem source target with
          | none => rfl
          | some next =>
            refine ih fun path member => sameTexts path ?_
            rw [readFiles_of_follow? fileSystem content silent asked followed]
            exact List.mem_cons_of_mem _ member

end Agreement

theorem exists_files_read {root source : String} {explicit : Option String}
    (chosen : source? fileSystem root explicit = some source) :
    ∃ files : List String, files.length ≤ maxHops + 1 ∧
      (∀ place path, files[place]? = some path → Reaches fileSystem source place path) ∧
      ∀ other : FileSystem, (∀ path, other.isFile path = fileSystem.isFile path) →
        (∀ path ∈ files, other.readText path = fileSystem.readText path) →
        load other root explicit = load fileSystem root explicit := by
  refine ⟨readFiles fileSystem maxHops source, ?_, fun _ _ => reaches_of_readFiles fileSystem, ?_⟩
  · simpa [readFiles] using length_filesRead_le fileSystem maxHops source
  · intro other sameFiles sameTexts
    have otherChosen := (source?_congr sameFiles root explicit).trans chosen
    simp only [load, otherChosen, chosen, read_congr sameFiles sameTexts]

theorem kind_blame (source : String) (failure : Failure) :
    (blame source failure).toDiagnostic.kind = .aliasConfig := by
  cases failure <;> rfl

/-- Loading follows the chain of configurations from the chosen one. It takes the first aliases among four files. It
reports a failure exactly if it meets, before any aliases, a file that cannot be read, or a fourth file that extends yet
another one. Otherwise it finds nothing, and in no case it looks into more than the first four files. -/
theorem load_follows_extends (root : String) (explicit : Option String) :
    ((∀ source, ¬ Chosen fileSystem root explicit source) → load fileSystem root explicit = ⟨[], none, none⟩) ∧
    ∀ source, Chosen fileSystem root explicit source →
      (∀ place table, Meets fileSystem 3 source place table →
        load fileSystem root explicit = ⟨table, some source, none⟩) ∧
      ((∃ diagnostic, (load fileSystem root explicit).diagnostic = some diagnostic) ↔
        ∃ place, Fails fileSystem 3 source place) ∧
      (∀ diagnostic, (load fileSystem root explicit).diagnostic = some diagnostic →
        diagnostic.kind = .aliasConfig ∧ load fileSystem root explicit = ⟨[], some source, some diagnostic⟩) ∧
      ((∀ place table, ¬ Meets fileSystem 3 source place table) → (∀ place, ¬ Fails fileSystem 3 source place) →
        load fileSystem root explicit = ⟨[], some source, none⟩) ∧
      ∃ files : List String, files.length ≤ 4 ∧
        (∀ place path, files[place]? = some path → Reaches fileSystem source place path) ∧
        ∀ other : FileSystem, (∀ path, other.isFile path = fileSystem.isFile path) →
          (∀ path ∈ files, other.readText path = fileSystem.readText path) →
          load other root explicit = load fileSystem root explicit := by
  -- The three ends of a chain exclude each other, so each of them decides all that is said about the result.
  simp only [← source?_eq_some_iff]
  constructor
  · intro missing
    rw [load, Option.eq_none_iff_forall_ne_some.mpr missing]
  · intro source chosen
    have reads := exists_files_read fileSystem chosen
    rcases followsChain fileSystem maxHops source with
      ⟨place, table, meets, result⟩ | ⟨place, failure, fails, result⟩ | ⟨noTable, noFailure, result⟩
    · have loaded : load fileSystem root explicit = ⟨table, some source, none⟩ := by
        simp only [load, chosen, result]
      rw [loaded] at reads ⊢
      refine ⟨fun other otherTable again => by rw [meets.unique again], ?_, by simp, ?_, reads⟩
      · refine iff_of_false (by simp) ?_
        rintro ⟨other, fails⟩
        exact meets.not_fails fails
      · exact fun none => absurd meets (none place table)
    · have loaded : load fileSystem root explicit = ⟨[], some source, some (blame source failure).toDiagnostic⟩ := by
        simp only [load, chosen, result]
      rw [loaded] at reads ⊢
      refine ⟨fun _ _ meets => absurd fails meets.not_fails, iff_of_true ⟨_, rfl⟩ ⟨place, fails⟩, ?_, ?_, reads⟩
      · rintro diagnostic same
        obtain rfl := Option.some.inj same
        exact ⟨kind_blame source failure, rfl⟩
      · exact fun _ none => absurd fails (none place)
    · have loaded : load fileSystem root explicit = ⟨[], some source, none⟩ := by
        simp only [load, chosen, result]
      rw [loaded] at reads ⊢
      refine ⟨fun other table meets => absurd meets (noTable other table), ?_, by simp, fun _ _ => rfl, reads⟩
      refine iff_of_false (by simp) ?_
      rintro ⟨other, fails⟩
      exact noFailure other fails

end Reading

/-- A project whose configuration extends a file with aliases, one whose configurations extend each other, and one that
extends a package. -/
def extendingConfigs : FileSystem where
  root := .directory [
    ("layers", .directory [
      ("base.json", .file (some
        "\x7b\"compilerOptions\": \x7b\"paths\": \x7b\"@/*\": [\"src/*\", 7], \"kit\": \"lib/kit\"\x7d\x7d\x7d")),
      ("tsconfig.json", .file (some "\x7b\"extends\": \"./base\", // a file\n\x7d"))]),
    ("package", .directory [("jsconfig.json", .file (some "\x7b\"extends\": \"@tsconfig/next\"\x7d"))]),
    ("ring", .directory [
      ("base.json", .file (some "\x7b\"extends\": \"./tsconfig.json\"\x7d")),
      ("tsconfig.json", .file (some "\x7b\"extends\": \"./base\"\x7d"))])]
  workingDirectory := []

def layeredTable : AliasTable := [⟨"@", .directory, ["src"]⟩, ⟨"kit", .exact, ["lib/kit"]⟩]

theorem load_follows_extends_extendingConfigs :
    (Chosen extendingConfigs "/layers" none "/layers/tsconfig.json" ∧
      Meets extendingConfigs 3 "/layers/tsconfig.json" 1 layeredTable ∧
      load extendingConfigs "/layers" none = ⟨layeredTable, some "/layers/tsconfig.json", none⟩) ∧
    (Chosen extendingConfigs "/package" none "/package/jsconfig.json" ∧
      load extendingConfigs "/package" none = ⟨[], some "/package/jsconfig.json", none⟩) ∧
    Chosen extendingConfigs "/ring" none "/ring/tsconfig.json" ∧
      (∃ place, Fails extendingConfigs 3 "/ring/tsconfig.json" place) ∧
      (load extendingConfigs "/ring" none).diagnostic.isSome = true := by
  have layers : Chosen extendingConfigs "/layers" none "/layers/tsconfig.json" := by decide +kernel
  have package : Chosen extendingConfigs "/package" none "/package/jsconfig.json" := by decide +kernel
  have ring : Chosen extendingConfigs "/ring" none "/ring/tsconfig.json" := by decide +kernel
  refine ⟨⟨layers, ?_⟩, ⟨package, ?_⟩, ring, ?_⟩
  · have leads : Follows extendingConfigs "/layers/tsconfig.json" "/layers/./base.json" :=
      ⟨"./base", by decide +kernel, by decide +kernel⟩
    have silent : ∀ table, ¬ Defines extendingConfigs "/layers/tsconfig.json" table := by
      have nothing : (readDocument extendingConfigs "/layers/tsconfig.json").toOption.bind table? = none := by
        decide +kernel
      simp [defines_iff, nothing]
    have meets : Meets extendingConfigs 3 "/layers/tsconfig.json" 1 layeredTable := by
      refine (meets_hop silent leads).mpr ⟨Nat.zero_le 2, fun earlier less => absurd less (Nat.not_lt_zero earlier), ?_⟩
      exact ⟨"/layers/./base.json", .here _, by decide +kernel⟩
    exact ⟨meets, ((load_follows_extends extendingConfigs "/layers" none).2 _ layers).1 1 layeredTable meets⟩
  · have nothing : (readDocument extendingConfigs "/package/jsconfig.json").toOption.bind table? = none := by
      decide +kernel
    have silent : ∀ table, ¬ Defines extendingConfigs "/package/jsconfig.json" table := by simp [defines_iff, nothing]
    have asks : (readDocument extendingConfigs "/package/jsconfig.json").toOption.bind extended? =
        some "@tsconfig/next" := by decide +kernel
    have remote : follow? extendingConfigs "/package/jsconfig.json" "@tsconfig/next" = none := by decide +kernel
    have ends : ∀ next, ¬ Follows extendingConfigs "/package/jsconfig.json" next := by
      simp [follows_iff, asks, remote]
    obtain ⟨document, holds, -⟩ := extends_iff.mpr asks
    obtain ⟨noTable, noFailure⟩ := nothing_here 3 silent holds.not_isBroken (by simp) (nothing_behind 3 ends)
    obtain ⟨-, -, -, otherwise, -⟩ := (load_follows_extends extendingConfigs "/package" none).2 _ package
    exact otherwise noTable noFailure
  · have reported : (load extendingConfigs "/ring" none).diagnostic.isSome = true := by decide +kernel
    obtain ⟨-, exactly, -⟩ := (load_follows_extends extendingConfigs "/ring" none).2 _ ring
    exact ⟨exactly.mp (Option.isSome_iff_exists.mp reported), reported⟩

end Orphans.AliasConfig
