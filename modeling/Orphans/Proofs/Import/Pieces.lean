import Mathlib.Data.List.DropRight
import Orphans.Import.Extraction

/-! The pieces of an import statement as they are written.

A reader is compared with the piece that it reads: it succeeds on every text that begins with the piece, and where it
succeeds the text begins with the piece. No piece in front of a literal holds a quote, so the literal is found by
its first quote.
-/

set_option autoImplicit false

namespace Orphans.Import

/-- What is said about the characters of a text is decided along the text, not over all characters there are. -/
scoped instance (priority := 1100) decidableForallMem {p : Char → Prop} [DecidablePred p] (text : List Char) :
    Decidable (∀ c ∈ text, p c) :=
  List.decidableBAll p text

/-! ### Blanks and keywords -/

def AllBlank (text : List Char) : Prop := ∀ c ∈ text, Text.isBlank c = true

instance (text : List Char) : Decidable (AllBlank text) := inferInstanceAs (Decidable (∀ c ∈ text, _))

def IsGap (text : List Char) : Prop := text ≠ [] ∧ AllBlank text

instance (text : List Char) : Decidable (IsGap text) := inferInstanceAs (Decidable (_ ∧ _))

theorem AllBlank.not_mem {blanks : List Char} (blank : AllBlank blanks) {c : Char} (solid : Text.isBlank c = false) :
    c ∉ blanks := by
  intro inside
  simp [blank c inside] at solid

theorem skipBlanks_append {blanks : List Char} (blank : AllBlank blanks) (rest : List Char) :
    skipBlanks (blanks ++ rest) = skipBlanks rest :=
  List.dropWhile_append_of_pos blank

theorem skipBlanks_cons {c : Char} (solid : Text.isBlank c = false) (rest : List Char) :
    skipBlanks (c :: rest) = c :: rest := by
  simp [skipBlanks, solid]

theorem skipBlanks_append_of_solid {rest : List Char} (solid : skipBlanks rest = rest) (front : List Char) :
    skipBlanks (front ++ rest) = skipBlanks front ++ rest := by
  unfold skipBlanks at solid ⊢
  rw [List.dropWhile_append]
  split
  · next empty => rw [List.isEmpty_iff.mp empty, solid, List.nil_append]
  · rfl

theorem skipBlanks_sound (text : List Char) : ∃ blanks, AllBlank blanks ∧ text = blanks ++ skipBlanks text :=
  ⟨text.takeWhile Text.isBlank, fun _ => List.mem_takeWhile_imp, List.takeWhile_append_dropWhile.symm⟩

theorem someBlanks?_append {gap : List Char} (apart : IsGap gap) (rest : List Char) :
    someBlanks? (gap ++ rest) = some (skipBlanks rest) := by
  obtain ⟨inhabited, blank⟩ := apart
  cases gap with
  | nil => contradiction
  | cons c more =>
    have first : Text.isBlank c = true := blank c List.mem_cons_self
    have others : AllBlank more := fun other inside => blank other (List.mem_cons_of_mem _ inside)
    simp [someBlanks?, first, skipBlanks_append others]

theorem someBlanks?_cons {c : Char} (solid : Text.isBlank c = false) (rest : List Char) :
    someBlanks? (c :: rest) = none := by
  simp [someBlanks?, solid]

theorem someBlanks?_sound {text rest : List Char} (read : someBlanks? text = some rest) :
    ∃ gap, IsGap gap ∧ text = gap ++ rest := by
  cases text with
  | nil => simp [someBlanks?] at read
  | cons c others =>
    cases first : Text.isBlank c with
    | false => simp [someBlanks?, first] at read
    | true =>
      obtain rfl : skipBlanks others = rest := by simpa [someBlanks?, first] using read
      obtain ⟨blanks, blank, cut⟩ := skipBlanks_sound others
      refine ⟨c :: blanks, ⟨List.cons_ne_nil _ _, ?_⟩, by rw [List.cons_append, ← cut]⟩
      intro other inside
      rcases List.mem_cons.mp inside with rfl | inside
      · exact first
      · exact blank other inside

theorem keyword?_eq_some_iff {word text rest : List Char} : keyword? word text = some rest ↔ text = word ++ rest := by
  rw [keyword?, List.isPrefixOf?_eq_some_iff_append_eq, eq_comm]

@[simp] theorem keyword?_append (word rest : List Char) : keyword? word (word ++ rest) = some rest :=
  keyword?_eq_some_iff.mpr rfl

theorem keyword?_cons_of_ne {first c : Char} (different : first ≠ c) (word rest : List Char) :
    keyword? (first :: word) (c :: rest) = none := by
  simp [keyword?, List.isPrefixOf?, different]

theorem character?_eq_some_iff {expected : Char} {text rest : List Char} :
    character? expected text = some rest ↔ text = expected :: rest := by
  cases text with
  | nil => simp [character?]
  | cons c others => by_cases same : c = expected <;> simp [character?, same]

@[simp] theorem character?_cons (expected : Char) (rest : List Char) :
    character? expected (expected :: rest) = some rest :=
  character?_eq_some_iff.mpr rfl

theorem isWord_of_isBlank {c : Char} (blank : Text.isBlank c = true) : Text.isWord c = false := by
  have table : ∀ range ∈ Text.blankRanges, ∀ offset ≤ range.2 - range.1,
      Text.isWord (Char.ofNat (range.1 + offset)) = false := by decide +kernel
  obtain ⟨range, listed, lower, upper⟩ := (Text.inRanges_eq_true_iff _ _).mp blank
  have found := table range listed (c.toNat - range.1) (by omega)
  rwa [Nat.add_sub_cancel' lower, Char.ofNat_toNat] at found

/-! ### Literals -/

/-- A text begins with a literal that has the given body, and goes on with the given rest. -/
def Quoted (quotes body rest text : List Char) : Prop :=
  ∃ quote ∈ quotes, body ≠ [] ∧ (∀ c ∈ body, c ≠ quote ∧ c ≠ '\n') ∧ text = quote :: (body ++ quote :: rest)

theorem isBodyChar_iff {quote c : Char} : isBodyChar quote c = true ↔ c ≠ quote ∧ c ≠ '\n' := by
  simp [isBodyChar]

theorem Quoted.read {quotes body rest text : List Char} (quoted : Quoted quotes body rest text) :
    quoted? quotes text = some (body, rest) := by
  obtain ⟨quote, allowed, inhabited, oneLine, rfl⟩ := quoted
  have inside : ∀ c ∈ body, isBodyChar quote c = true := fun c member => isBodyChar_iff.mpr (oneLine c member)
  have closes : isBodyChar quote quote = false := by simp [isBodyChar]
  have taken : (body ++ quote :: rest).takeWhile (isBodyChar quote) = body := by
    simp [List.takeWhile_append_of_pos inside, closes]
  have left : (body ++ quote :: rest).dropWhile (isBodyChar quote) = quote :: rest := by
    simp [List.dropWhile_append_of_pos inside, closes]
  simp only [quoted?, if_pos allowed, taken, left]
  cases body with
  | nil => contradiction
  | cons first others => simp

theorem quoted?_eq_some_iff {quotes text body rest : List Char} :
    quoted? quotes text = some (body, rest) ↔ Quoted quotes body rest text := by
  constructor
  · intro read
    cases text with
    | nil => simp [quoted?] at read
    | cons quote others =>
      simp only [quoted?] at read
      split at read
      · next allowed =>
        split at read
        · next first front close after taken left =>
          split at read
          · next same =>
            obtain ⟨rfl, rfl⟩ : first :: front = body ∧ after = rest := by simpa using read
            subst same
            refine ⟨close, allowed, List.cons_ne_nil _ _, ?_, ?_⟩
            · rw [← taken]
              exact fun c member => isBodyChar_iff.mp (List.mem_takeWhile_imp member)
            · rw [← taken, ← left, List.takeWhile_append_dropWhile]
          · contradiction
        · contradiction
      · contradiction
  · exact Quoted.read

theorem Quoted.unique {quotes body rest text otherBody otherRest : List Char} (quoted : Quoted quotes body rest text)
    (other : Quoted quotes otherBody otherRest text) : body = otherBody ∧ rest = otherRest := by
  have same := quoted.read.symm.trans other.read
  simpa using same

theorem stringQuotes_subset : stringQuotes ⊆ callQuotes := by decide

theorem Quoted.mono {quotes others body rest text : List Char} (within : quotes ⊆ others)
    (quoted : Quoted quotes body rest text) : Quoted others body rest text := by
  obtain ⟨quote, allowed, literal⟩ := quoted
  exact ⟨quote, within allowed, literal⟩

def Plain (text : List Char) : Prop := ∀ c ∈ text, c ∉ callQuotes

instance (text : List Char) : Decidable (Plain text) := inferInstanceAs (Decidable (∀ c ∈ text, c ∉ callQuotes))

theorem Plain.append {front back : List Char} (first : Plain front) (second : Plain back) : Plain (front ++ back) := by
  intro c inside
  rcases List.mem_append.mp inside with inside | inside
  · exact first c inside
  · exact second c inside

theorem Plain.cons {c : Char} {text : List Char} (plain : Plain text) (first : c ∉ callQuotes) : Plain (c :: text) :=
  List.forall_mem_cons.mpr ⟨first, plain⟩

theorem not_mem_callQuotes_of_isBlank {c : Char} (blank : Text.isBlank c = true) : c ∉ callQuotes := by
  have solid : ∀ quote ∈ callQuotes, Text.isBlank quote = false := by decide
  intro quote
  simp [solid c quote] at blank

theorem AllBlank.plain {blanks : List Char} (blank : AllBlank blanks) : Plain blanks :=
  fun c inside => not_mem_callQuotes_of_isBlank (blank c inside)

theorem Quoted.skipBlanks {body rest text : List Char} (quoted : Quoted callQuotes body rest text) :
    Import.skipBlanks text = text := by
  obtain ⟨quote, allowed, -, -, rfl⟩ := quoted
  have solid : Text.isBlank quote = false := by
    by_contra blank
    exact not_mem_callQuotes_of_isBlank (by simpa using blank) allowed
  exact skipBlanks_cons solid _

/-- The first quote of a text tells where the plain text in front of a literal ends. -/
theorem Plain.cut {lead other behind otherBehind body rest otherBody otherRest : List Char} (plain : Plain lead)
    (otherPlain : Plain other) (quoted : Quoted callQuotes body rest behind)
    (otherQuoted : Quoted callQuotes otherBody otherRest otherBehind)
    (same : lead ++ behind = other ++ otherBehind) : lead = other ∧ behind = otherBehind := by
  obtain ⟨quote, allowed, -, -, rfl⟩ := quoted
  obtain ⟨otherQuote, otherAllowed, -, -, rfl⟩ := otherQuoted
  rcases List.append_eq_append_iff.mp same with ⟨middle, rfl, tail⟩ | ⟨middle, rfl, tail⟩
  · cases middle with
    | nil => simpa using tail
    | cons c others =>
      obtain ⟨rfl, -⟩ := List.cons.inj tail
      exact absurd allowed (otherPlain quote (by simp))
  · cases middle with
    | nil => simpa using tail.symm
    | cons c others =>
      obtain ⟨rfl, -⟩ := List.cons.inj tail
      exact absurd otherAllowed (plain otherQuote (by simp))

theorem hasInterpolation_iff (text : List Char) : hasInterpolation text = true ↔ ['$', '{'] <:+: text := by
  induction text with
  | nil => simp [hasInterpolation]
  | cons c rest ih =>
    have front : ['$', '{'] <+: c :: rest ↔ c = '$' ∧ rest.head? = some '{' := by
      cases rest with
      | nil => simp
      | cons next others => simp [eq_comm]
    rw [List.infix_cons_iff, front, ← ih]
    simp [hasInterpolation]

structure Literal (quotes : List Char) where
  quote : Char
  body : List Char
  quote_mem : quote ∈ quotes
  oneLine : ∀ c ∈ body, c ≠ quote ∧ c ≠ '\n'
  spelled : Text.trim body ≠ []
  fixed : ¬ ['$', '{'] <:+: body

namespace Literal

variable {quotes : List Char} (literal : Literal quotes)

def text : List Char := literal.quote :: (literal.body ++ [literal.quote])

def specifier : String := .ofList (Text.trim literal.body)

theorem quoted_text (rest : List Char) : Quoted quotes literal.body rest (literal.text ++ rest) := by
  have inhabited : literal.body ≠ [] := fun empty => literal.spelled (by rw [empty]; rfl)
  exact ⟨literal.quote, literal.quote_mem, inhabited, literal.oneLine, by simp [text]⟩

theorem specifierOf?_body : specifierOf? literal.body = some literal.specifier := by
  have plain : ¬ hasInterpolation (Text.trim literal.body) = true := fun found =>
    literal.fixed (((hasInterpolation_iff _).mp found).trans (Text.isInfix_trim _))
  simp [specifierOf?, literal.spelled, plain, specifier]

end Literal

end Orphans.Import
