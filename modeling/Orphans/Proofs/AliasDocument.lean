import Mathlib.Data.List.Forall2
import Orphans.AliasConfig

/-! What the configuration files of a project say.

All of it is told by the fields of the documents and by the paths where files stand. The functions that loading is
made of answer exactly that.
-/

set_option autoImplicit false

namespace Orphans

namespace Json.Value

variable {document value : Value}

def HasField (document : Value) (key : String) (value : Value) : Prop :=
  ∃ fields, document = .object fields ∧ fields.lookup key = some value

theorem field?_eq_some_iff {key : String} : document.field? key = some value ↔ document.HasField key value := by
  cases document <;> simp [field?, HasField]

theorem string?_eq_some_iff {text : String} : value.string? = some text ↔ value = .string text := by
  cases value <;> simp [string?]

theorem fields?_eq_some_iff {fields : List (String × Value)} :
    value.fields? = some fields ↔ value = .object fields := by
  cases value <;> simp [fields?]

end Json.Value

namespace AliasConfig

/-! ### Documents -/

/-- The second list holds the texts of the first one, in their order. -/
inductive Texts : List Json.Value → List String → Prop where
  | nil : Texts [] []
  | text {items : List Json.Value} {texts : List String} (text : String) (rest : Texts items texts) :
      Texts (.string text :: items) (text :: texts)
  | other {items : List Json.Value} {texts : List String} {value : Json.Value}
      (noText : ∀ text, value ≠ .string text) (rest : Texts items texts) : Texts (value :: items) texts

theorem texts_filterMap (items : List Json.Value) : Texts items (items.filterMap Json.Value.string?) := by
  induction items with
  | nil => exact .nil
  | cons value items ih =>
    cases spelt : value.string? with
    | some text =>
      rw [List.filterMap_cons_some spelt, Json.Value.string?_eq_some_iff.mp spelt]
      exact .text text ih
    | none =>
      rw [List.filterMap_cons_none spelt]
      refine .other (fun text same => ?_) ih
      rw [Json.Value.string?_eq_some_iff.mpr same] at spelt
      cases spelt

theorem Texts.filterMap_eq {items : List Json.Value} {texts : List String} (spelt : Texts items texts) :
    items.filterMap Json.Value.string? = texts := by
  induction spelt with
  | nil => rfl
  | text text rest ih => rw [List.filterMap_cons_some (Json.Value.string?_eq_some_iff.mpr rfl), ih]
  | other noText rest ih =>
    have silent := Option.eq_none_iff_forall_ne_some.mpr fun text => mt Json.Value.string?_eq_some_iff.mp (noText text)
    rw [List.filterMap_cons_none silent, ih]

/-- An alias has the texts of an array as its targets, or a single text. Other values give it none. -/
inductive Lists : Json.Value → List String → Prop where
  | array {items : List Json.Value} {texts : List String} (spelt : Texts items texts) : Lists (.array items) texts
  | text (text : String) : Lists (.string text) [text]
  | other {value : Json.Value} (noArray : ∀ items, value ≠ .array items) (noText : ∀ text, value ≠ .string text) :
      Lists value []

theorem lists_targets (value : Json.Value) : Lists value (targets value) := by
  cases value with
  | array items => exact .array (texts_filterMap items)
  | string text => exact .text text
  | null | boolean | integer | double | object =>
    exact .other (fun _ same => by cases same) fun _ same => by cases same

theorem Lists.targets_eq {value : Json.Value} {texts : List String} (lists : Lists value texts) :
    targets value = texts := by
  cases lists with
  | array spelt => exact spelt.filterMap_eq
  | text => rfl
  | other noArray noText =>
    cases value with
    | array items => exact absurd rfl (noArray items)
    | string text => exact absurd rfl (noText text)
    | null | boolean | integer | double | object => rfl

def Spells (field : String × Json.Value) (entry : Alias) : Prop :=
  ∃ texts, Lists field.2 texts ∧ entry = Alias.ofEntry field.1 texts

/-- The `paths` of the `compilerOptions` are an object, and its fields spell the table one by one. -/
def Tabulates (document : Json.Value) (table : AliasTable) : Prop :=
  ∃ options fields, document.HasField "compilerOptions" options ∧ options.HasField "paths" (.object fields) ∧
    List.Forall₂ Spells fields table

theorem spells_iff {field : String × Json.Value} {entry : Alias} :
    Spells field entry ↔ Alias.ofEntry field.1 (targets field.2) = entry := by
  constructor
  · rintro ⟨texts, lists, rfl⟩
    rw [lists.targets_eq]
  · rintro rfl
    exact ⟨_, lists_targets field.2, rfl⟩

theorem forall₂_spells_iff {fields : List (String × Json.Value)} {table : AliasTable} :
    List.Forall₂ Spells fields table ↔
      AliasTable.ofEntries (fields.map fun field => (field.1, targets field.2)) = table := by
  induction fields generalizing table with
  | nil => simp [AliasTable.ofEntries, eq_comm]
  | cons field fields ih =>
    cases table with
    | nil => simp [AliasTable.ofEntries]
    | cons entry table =>
      rw [List.forall₂_cons, spells_iff, ih]
      simp [AliasTable.ofEntries]

theorem table?_eq_some_iff {document : Json.Value} {table : AliasTable} :
    table? document = some table ↔ Tabulates document table := by
  simp only [table?, Option.bind_eq_bind, Option.bind_eq_some_iff, Json.Value.field?_eq_some_iff,
    Json.Value.fields?_eq_some_iff]
  constructor
  · rintro ⟨options, inDocument, _, inOptions, fields, rfl, same⟩
    exact ⟨options, fields, inDocument, inOptions, forall₂_spells_iff.mpr (Option.some.inj same)⟩
  · rintro ⟨options, fields, inDocument, inOptions, spelt⟩
    exact ⟨options, inDocument, _, inOptions, fields, rfl, congrArg some (forall₂_spells_iff.mp spelt)⟩

theorem extended?_eq_some_iff {document : Json.Value} {target : String} :
    extended? document = some target ↔ document.HasField "extends" (.string target) := by
  simp [extended?, Option.bind_eq_some_iff, Json.Value.field?_eq_some_iff, Json.Value.string?_eq_some_iff]

/-! ### Files -/

section Files
variable (fileSystem : FileSystem)

def Holds (path : String) (document : Json.Value) : Prop :=
  ∃ text, fileSystem.readText path = .ok text ∧ Json.parse text = .ok document

def IsBroken (path : String) : Prop :=
  (∃ refusal, fileSystem.readText path = .error refusal) ∨
    ∃ text fault, fileSystem.readText path = .ok text ∧ Json.parse text = .error fault

def Defines (path : String) (table : AliasTable) : Prop :=
  ∃ document, Holds fileSystem path document ∧ Tabulates document table

def Extends (path target : String) : Prop :=
  ∃ document, Holds fileSystem path document ∧ document.HasField "extends" (.string target)

/-- What begins with a dot or at the root is a path. Anything else names a package. -/
def IsLocal (target : String) : Prop := target.toList.head? = some '.' ∨ Path.isAbsolute target = true

def targetPath (source target : String) : String := Path.join ((Path.parent? source).getD ".") target

inductive FirstFile (first second : String) : String → Prop where
  | first (found : fileSystem.isFile first = true) : FirstFile first second first
  | second (missing : fileSystem.isFile first = false) (found : fileSystem.isFile second = true) :
      FirstFile first second second

/-- A local target means the file at its path, or the one with `.json` behind it if there is none. -/
def Means (source target next : String) : Prop :=
  IsLocal target ∧ FirstFile fileSystem (targetPath source target) (targetPath source target ++ ".json") next

/-- The configuration is the one asked for, there or not, or else the first of the usual ones that is there. -/
inductive Chosen (root : String) : Option String → String → Prop where
  | asked (path : String) : Chosen root (some path) (Path.join root path)
  | usual {source : String}
      (found : FirstFile fileSystem (Path.join root "tsconfig.json") (Path.join root "jsconfig.json") source) :
      Chosen root none source

variable {fileSystem} {path source target next root : String} {explicit : Option String} {document : Json.Value}

theorem readDocument_eq_ok_iff : readDocument fileSystem path = .ok document ↔ Holds fileSystem path document := by
  unfold readDocument Holds
  cases content : fileSystem.readText path with
  | error refusal => simp
  | ok text => cases parsed : Json.parse text <;> simp [parsed]

theorem isBroken_iff : IsBroken fileSystem path ↔ ∃ failure, readDocument fileSystem path = .error failure := by
  unfold readDocument IsBroken
  cases content : fileSystem.readText path with
  | error refusal => simp
  | ok text => cases parsed : Json.parse text <;> simp [parsed]

theorem defines_iff {table : AliasTable} :
    Defines fileSystem path table ↔ (readDocument fileSystem path).toOption.bind table? = some table := by
  simp only [Defines, ← readDocument_eq_ok_iff, ← table?_eq_some_iff]
  cases readDocument fileSystem path <;> simp [Except.toOption]

theorem extends_iff :
    Extends fileSystem path target ↔ (readDocument fileSystem path).toOption.bind extended? = some target := by
  simp only [Extends, ← readDocument_eq_ok_iff, ← extended?_eq_some_iff]
  cases readDocument fileSystem path <;> simp [Except.toOption]

theorem find?_isFile_eq_some_iff {first second : String} :
    [first, second].find? fileSystem.isFile = some next ↔ FirstFile fileSystem first second next := by
  constructor
  · intro found
    cases isFirst : fileSystem.isFile first with
    | true =>
      rw [List.find?_cons_of_pos isFirst] at found
      obtain rfl := Option.some.inj found
      exact .first isFirst
    | false =>
      rw [List.find?_cons_of_neg (by simp [isFirst]), List.find?_singleton] at found
      obtain ⟨isSecond, same⟩ := Option.ite_none_right_eq_some.mp found
      obtain rfl := Option.some.inj same
      exact .second isFirst isSecond
  · rintro (found | ⟨missing, found⟩)
    · exact List.find?_cons_of_pos found
    · simp [missing, found]

theorem follow?_eq_some_iff : follow? fileSystem source target = some next ↔ Means fileSystem source target next := by
  -- A package has no candidates, and a path has two of them.
  by_cases isLocal : IsLocal target
  · have both : candidates source target = [targetPath source target, targetPath source target ++ ".json"] :=
      if_pos isLocal
    rw [follow?, both, find?_isFile_eq_some_iff, Means, and_iff_right isLocal]
  · have none : candidates source target = [] := if_neg isLocal
    simp [follow?, none, Means, isLocal]

theorem source?_eq_some_iff :
    source? fileSystem root explicit = some source ↔ Chosen fileSystem root explicit source := by
  cases explicit with
  | some path =>
    constructor
    · rintro ⟨⟩
      exact .asked path
    · rintro ⟨⟩
      rfl
  | none =>
    have usual : source? fileSystem root none = some source ↔ _ := find?_isFile_eq_some_iff
    rw [usual]
    constructor
    · exact .usual
    · intro chosen
      cases chosen with
      | usual found => exact found

instance (table : AliasTable) : Decidable (Defines fileSystem path table) := decidable_of_iff _ defines_iff.symm

instance : Decidable (Extends fileSystem path target) := decidable_of_iff _ extends_iff.symm

instance : Decidable (Means fileSystem source target next) := decidable_of_iff _ follow?_eq_some_iff

instance : Decidable (Chosen fileSystem root explicit source) := decidable_of_iff _ source?_eq_some_iff

end Files

end AliasConfig

end Orphans
