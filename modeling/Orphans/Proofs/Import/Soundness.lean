import Orphans.Proofs.Import.Search

/-! Every import that is found is written in the text.

The search looks at one place after another, and where it takes a literal a statement of the form begins. So every
occurrence comes from a statement of the text, with its keyword at the beginning of a word. What the literal spells
is its body without the blanks around it. These are no part of an interpolation, hence the whole body has none.
-/

set_option autoImplicit false

namespace Orphans.Import

/-! ### Trimmed texts -/

theorem AllBlank.reverse {blanks : List Char} (blank : AllBlank blanks) : AllBlank blanks.reverse :=
  fun c inside => blank c (List.mem_reverse.mp inside)

theorem exists_blanks_trim (text : List Char) :
    ∃ front back, AllBlank front ∧ AllBlank back ∧ text = front ++ (Text.trim text ++ back) := by
  obtain ⟨front, frontBlank, cut⟩ := skipBlanks_sound text
  obtain ⟨back, backBlank, mirrored⟩ := skipBlanks_sound (skipBlanks text).reverse
  refine ⟨front, back.reverse, frontBlank, backBlank.reverse, ?_⟩
  have ending : skipBlanks text = Text.trim text ++ back.reverse := by
    rw [← List.reverse_reverse (skipBlanks text), mirrored, List.reverse_append]
    rfl
  rw [← ending, ← cut]

theorem isBlank_of_head?_trim {text : List Char} {c : Char} (first : (Text.trim text).head? = some c) :
    Text.isBlank c = false := by
  have front : Text.trim text <+: text.dropWhile Text.isBlank := List.rdropWhile_prefix _ _
  obtain ⟨back, whole⟩ := front
  have kept := List.head?_dropWhile_not Text.isBlank text
  rw [← whole, List.head?_append, first] at kept
  simpa using kept

theorem isBlank_of_getLast?_trim {text : List Char} {c : Char} (last : (Text.trim text).getLast? = some c) :
    Text.isBlank c = false := by
  have kept := List.head?_dropWhile_not Text.isBlank (text.dropWhile Text.isBlank).reverse
  rw [Text.trim, Text.dropEndWhile, List.getLast?_reverse] at last
  rw [last] at kept
  simpa using kept

theorem AllBlank.isInfix_of_append {blanks text piece : List Char} {c : Char} (blank : AllBlank blanks)
    (solid : Text.isBlank c = false) (inside : c :: piece <:+: blanks ++ text) : c :: piece <:+: text := by
  induction blanks with
  | nil => exact inside
  | cons first others ih =>
    rcases List.infix_cons_iff.mp inside with here | later
    · obtain ⟨rfl, -⟩ := List.cons_prefix_cons.mp here
      simp [blank c List.mem_cons_self] at solid
    · exact ih (fun other member => blank other (List.mem_cons_of_mem _ member)) later

theorem isInfix_trim_of_interpolation {text : List Char} (inside : ['$', '{'] <:+: text) :
    ['$', '{'] <:+: Text.trim text := by
  obtain ⟨front, back, frontBlank, backBlank, cut⟩ := exists_blanks_trim text
  rw [cut] at inside
  have behind := frontBlank.isInfix_of_append (by decide) inside
  rw [← List.reverse_infix, List.reverse_append] at behind
  exact List.reverse_infix.mp (backBlank.reverse.isInfix_of_append (by decide) behind)

/-! ### What is found -/

structure IsSpelling (specifier : String) : Prop where
  inhabited : specifier ≠ ""
  starts : ∀ c ∈ specifier.toList.head?, Text.isBlank c = false
  ends : ∀ c ∈ specifier.toList.getLast?, Text.isBlank c = false
  oneLine : '\n' ∉ specifier.toList
  fixed : ¬ ['$', '{'] <:+: specifier.toList

theorem Literal.isSpelling {quotes : List Char} (literal : Literal quotes) : IsSpelling literal.specifier where
  inhabited := fun empty => literal.spelled (String.ofList_eq_empty_iff.mp empty)
  starts := by
    rw [specifier, String.toList_ofList]
    exact fun c first => isBlank_of_head?_trim first
  ends := by
    rw [specifier, String.toList_ofList]
    exact fun c last => isBlank_of_getLast?_trim last
  oneLine := by
    rw [specifier, String.toList_ofList]
    exact fun inside => (literal.oneLine '\n' ((Text.isInfix_trim _).subset inside)).2 rfl
  fixed := by
    rw [specifier, String.toList_ofList]
    exact fun inside => literal.fixed (inside.trans (Text.isInfix_trim _))

theorem Quoted.exists_literal {quotes body rest text : List Char} {specifier : String}
    (quoted : Quoted quotes body rest text) (spelled : specifierOf? body = some specifier) :
    ∃ literal : Literal quotes, literal.specifier = specifier ∧ text = literal.text ++ rest := by
  obtain ⟨quote, allowed, -, oneLine, rfl⟩ := quoted
  simp only [specifierOf?] at spelled
  split at spelled
  · contradiction
  · next usable =>
    obtain ⟨inhabited, fixed⟩ := not_or.mp usable
    rw [hasInterpolation_iff] at fixed
    refine ⟨⟨quote, body, allowed, oneLine, inhabited, fun inside => fixed (isInfix_trim_of_interpolation inside)⟩,
      Option.some.inj spelled, ?_⟩
    simp [Literal.text]

theorem Form.Reads.exists_statement {form : Form} {body rest text : List Char} {specifier : String}
    (reads : form.Reads body rest text) (spelled : specifierOf? body = some specifier) :
    ∃ statement : Statement form, statement.literal.specifier = specifier ∧ text = statement.text ++ rest := by
  obtain ⟨opening, closing, behind, opens, closes, quoted, rfl⟩ := reads
  obtain ⟨literal, same, rfl⟩ := quoted.exists_literal spelled
  exact ⟨⟨opening, literal, closing, opens, closes⟩, same, by simp [Statement.text]⟩

theorem exists_reads_of_mem_bodies {form : Form} {body text : List Char} {fuel : Nat} {previous : Option Char}
    (member : body ∈ form.bodies fuel previous text) :
    ∃ front ahead rest, text = front ++ ahead ∧ Text.wordMayStart (front.getLast?.or previous) = true ∧
      form.Reads body rest ahead := by
  induction fuel generalizing previous text with
  | zero => simp [Form.bodies] at member
  | succ fuel ih =>
    cases text with
    | nil => simp [Form.bodies] at member
    | cons c others =>
      rw [Form.bodies] at member
      split at member
      · next found after read =>
        split at read
        · next starts =>
          have reads := Form.statement?_eq_some_iff.mp read
          rcases List.mem_cons.mp member with rfl | later
          · exact ⟨[], c :: others, after, rfl, by simpa using starts, reads⟩
          · -- The statement that was taken ends outside a word, so what holds without a character in front still does.
            obtain ⟨lead, last, outside, whole⟩ := reads.exists_end
            obtain ⟨front, ahead, rest, rfl, begins, here⟩ := ih later
            refine ⟨lead ++ last :: front, ahead, rest, by simpa using whole, ?_, here⟩
            rw [List.getLast?_append_cons, getLast?_cons_or]
            cases ending : front.getLast? with
            | none => simp [outside]
            | some d => simpa [ending] using begins
        · contradiction
      · obtain ⟨front, ahead, rest, rfl, begins, here⟩ := ih member
        exact ⟨c :: front, ahead, rest, rfl, by rwa [getLast?_cons_or], here⟩

/-- Every import that is found stands in the text as a statement of its form, at the beginning of a word, and the
literal of that statement spells its specifier. -/
theorem occurrences_sound {text : String} {found : Occurrence} (member : found ∈ occurrences text) :
    IsSpelling found.specifier ∧
    ∃ (before after : String) (statement : Statement found.form), text = before ++ .ofList statement.text ++ after ∧
      Text.wordMayStart before.toList.getLast? = true ∧ statement.literal.specifier = found.specifier := by
  obtain ⟨form, -, listed⟩ := List.mem_flatMap.mp member
  obtain ⟨body, inBodies, spelled⟩ := List.mem_filterMap.mp listed
  obtain ⟨specifier, read, rfl⟩ := Option.map_eq_some_iff.mp spelled
  obtain ⟨front, ahead, rest, whole, starts, reads⟩ := exists_reads_of_mem_bodies inBodies
  obtain ⟨statement, rfl, rfl⟩ := reads.exists_statement read
  refine ⟨statement.literal.isSpelling, .ofList front, .ofList rest, statement, ?_, by simpa using starts, rfl⟩
  rw [← String.ofList_append, ← String.ofList_append, List.append_assoc, ← whole, String.ofList_toList]

/-- A call with a template, behind a word that only ends like a keyword. -/
theorem occurrences_sound_templateCall :
    ⟨.requireCall, "./a"⟩ ∈ occurrences "prerequire('./no'); require( \x60 ./a \x60 )" ∧
    IsSpelling "./a" ∧
    ∃ (before after : String) (statement : Statement .requireCall),
      "prerequire('./no'); require( \x60 ./a \x60 )" = before ++ .ofList statement.text ++ after ∧
      Text.wordMayStart before.toList.getLast? = true ∧ statement.literal.specifier = "./a" := by
  have member : ⟨.requireCall, "./a"⟩ ∈ occurrences "prerequire('./no'); require( \x60 ./a \x60 )" := by decide +kernel
  exact ⟨member, occurrences_sound member⟩

end Orphans.Import
