import Orphans.Proofs.Import.Grammar

/-! Searching a text for statements.

The search goes from left to right and does not look back, so a statement is found unless one that begins further
left runs into it. A literal ends on its line. Therefore one that is opened in a text whose last line has no quote
also ends there, and only the text in front of a literal can reach beyond.
-/

set_option autoImplicit false

namespace Orphans.Import

/-- A text behind which a statement may begin: it ends outside a word, and its last line has no quote. -/
structure Clear (front : List Char) : Prop where
  starts : Text.wordMayStart front.getLast? = true
  settled : Plain (front.rtakeWhile (· ≠ '\n'))

theorem Clear.of_append {front back : List Char} (clear : Clear (front ++ back)) : Clear back := by
  constructor
  · by_cases empty : back = []
    · simp [empty]
    · have starts := clear.starts
      rwa [List.getLast?_append_of_ne_nil _ empty] at starts
  · intro c inside
    refine clear.settled c ?_
    rw [List.rtakeWhile, List.mem_reverse] at inside ⊢
    rw [List.reverse_append, List.takeWhile_append]
    split
    · exact List.mem_append_left _ ((List.takeWhile_sublist _).mem inside)
    · exact inside

theorem Clear.newline_mem {rest : List Char} {quote : Char} (clear : Clear (quote :: rest))
    (opens : quote ∈ callQuotes) : '\n' ∈ rest := by
  by_contra sameLine
  have whole : (quote :: rest).rtakeWhile (· ≠ '\n') = quote :: rest := by
    rw [List.rtakeWhile_eq_self_iff]
    intro c inside
    refine decide_eq_true ?_
    rintro rfl
    rcases List.mem_cons.mp inside with rfl | inside
    · exact absurd opens (by decide)
    · exact sameLine inside
  refine clear.settled quote ?_ opens
  rw [whole]
  exact List.mem_cons_self

theorem cut_cases {front ahead piece rest : List Char} (same : front ++ ahead = piece ++ rest) :
    (∃ shorter, front = piece ++ shorter ∧ shorter ++ ahead = rest) ∨
    (∃ c reach, piece = front ++ c :: reach ∧ ahead = c :: reach ++ rest) := by
  rcases List.append_eq_append_iff.mp same with ⟨reach, rfl, rfl⟩ | ⟨shorter, rfl, rfl⟩
  · cases reach with
    | nil => exact .inl ⟨[], by simp, by simp⟩
    | cons c reach => exact .inr ⟨c, reach, rfl, rfl⟩
  · exact .inl ⟨shorter, rfl, rfl⟩

theorem cut_of_head {front ahead piece rest : List Char} {first : Char} (begins : ahead.head? = some first)
    (missing : first ∉ piece) (same : front ++ ahead = piece ++ rest) :
    ∃ shorter, front = piece ++ shorter ∧ shorter ++ ahead = rest := by
  rcases cut_cases same with inFront | ⟨c, reach, rfl, rfl⟩
  · exact inFront
  · obtain rfl : c = first := by simpa using begins
    exact absurd (List.mem_append_right _ List.mem_cons_self) missing

theorem cut_cons {front ahead rest : List Char} {c first : Char} (begins : ahead.head? = some first)
    (different : c ≠ first) (same : front ++ ahead = c :: rest) :
    ∃ shorter, front = c :: shorter ∧ shorter ++ ahead = rest := by
  cases front with
  | nil =>
    obtain rfl : ahead = c :: rest := same
    exact absurd (by simpa using begins) different
  | cons other shorter =>
    obtain ⟨rfl, rfl⟩ := List.cons.inj same
    exact ⟨shorter, rfl, rfl⟩

theorem Clear.quoted_within {front ahead quotes body rest : List Char} {first : Char} (clear : Clear front)
    (begins : ahead.head? = some first) (letter : first ∉ callQuotes) (known : quotes ⊆ callQuotes)
    (quoted : Quoted quotes body rest (front ++ ahead)) : ∃ shorter, rest = shorter ++ ahead := by
  obtain ⟨quote, allowed, -, oneLine, same⟩ := quoted
  have opens : quote ∈ callQuotes := known allowed
  have different : quote ≠ first := fun here => letter (here ▸ opens)
  obtain ⟨others, rfl, inside⟩ := cut_cons begins different same
  have broken : '\n' ∈ others := clear.newline_mem opens
  rcases cut_cases inside with ⟨close, rfl, closed⟩ | ⟨c, reach, rfl, -⟩
  · obtain ⟨shorter, rfl, rfl⟩ := cut_cons begins different closed
    exact ⟨shorter, rfl⟩
  · -- The line break would stand inside the literal.
    exact absurd rfl (oneLine '\n' (List.mem_append_left _ broken)).2

/-! ### The search -/

namespace Form

def initial : Form → Char
  | .staticFrom | .sideEffect | .dynamicCall => 'i'
  | .requireCall => 'r'
  | .reExport => 'e'

variable {form : Form} {body rest text closing : List Char}

theorem Closing.cases_bracket (closes : form.Closing closing) :
    closing = [] ∨ ∃ blanks, AllBlank blanks ∧ closing = blanks ++ [')'] := by
  cases closes with
  | dynamicCall blank => exact .inr ⟨_, blank, rfl⟩
  | requireCall blank => exact .inr ⟨_, blank, rfl⟩
  | _ => exact .inl rfl

theorem Closing.initial_not_mem (closes : form.Closing closing) : form.initial ∉ closing := by
  have solid : Text.isBlank form.initial = false := by cases form <;> decide
  rcases closes.cases_bracket with rfl | ⟨blanks, blank, rfl⟩
  · exact List.not_mem_nil
  · exact List.not_mem_append (blank.not_mem solid) (by cases form <;> decide)

theorem Reads.head? (reads : form.Reads body rest text) : text.head? = some form.initial := by
  obtain ⟨opening, closing, behind, -, -, -, rfl⟩ := reads
  cases form <;> rfl

theorem Reads.exists_end (reads : form.Reads body rest text) :
    ∃ lead c, Text.isWord c = false ∧ text = lead ++ c :: rest := by
  obtain ⟨opening, closing, behind, -, closes, ⟨quote, allowed, -, -, rfl⟩, rfl⟩ := reads
  have table : ∀ c ∈ callQuotes, Text.isWord c = false := by decide
  rcases closes.cases_bracket with rfl | ⟨blanks, -, rfl⟩
  · exact ⟨form.word ++ (opening ++ quote :: body), quote, table quote (form.quotes_subset allowed), by simp⟩
  · exact ⟨form.word ++ (opening ++ quote :: (body ++ quote :: blanks)), ')', by decide, by simp⟩

theorem Reads.length_lt (reads : form.Reads body rest text) : rest.length < text.length := by
  obtain ⟨lead, c, -, rfl⟩ := reads.exists_end
  simp only [List.length_append, List.length_cons]
  omega

theorem bodies_of_length_le {fuel more : Nat} {previous : Option Char} (enough : text.length ≤ fuel)
    (alsoEnough : text.length ≤ more) : form.bodies fuel previous text = form.bodies more previous text := by
  induction fuel generalizing more previous text with
  | zero =>
    obtain rfl : text = [] := List.eq_nil_of_length_eq_zero (by omega)
    cases more <;> simp [bodies]
  | succ fuel ih =>
    cases text with
    | nil => cases more <;> simp [bodies]
    | cons c others =>
      cases more with
      | zero => simp at alsoEnough
      | succ more =>
        rw [bodies, bodies]
        split
        · next found after read =>
          split at read
          · have shorter := (statement?_eq_some_iff.mp read).length_lt
            exact congrArg (found :: ·) (ih (by omega) (by omega))
          · contradiction
        · exact ih (by simpa using enough) (by simpa using alsoEnough)

theorem occurrencesOf_of_reads (reads : form.Reads body rest text) : occurrencesOf form text =
    ((specifierOf? body).map (Occurrence.mk form)).toList ++ occurrencesOf form rest := by
  have begins := reads.head?
  have shorter := reads.length_lt
  have read := statement?_eq_some_iff.mpr reads
  cases text with
  | nil => simp at begins
  | cons c others =>
    have first : form.bodies (c :: others).length none (c :: others) = body :: form.bodies rest.length none rest := by
      rw [List.length_cons, bodies]
      simp only [Text.wordMayStart_none, if_true, read]
      rw [bodies_of_length_le (Nat.lt_succ_iff.mp shorter) le_rfl]
    rw [occurrencesOf, first, List.filterMap_cons]
    cases specifierOf? body <;> rfl

end Form

theorem getLast?_cons_or (c : Char) (front : List Char) (previous : Option Char) :
    (c :: front).getLast?.or previous = front.getLast?.or (some c) := by
  rw [List.getLast?_cons]
  cases front.getLast? <;> rfl

/-- A statement is found if every statement that begins further left ends in front of it or has its literal. -/
theorem mem_bodies_of_step {form : Form} {ahead body behind : List Char} (here : form.Reads body behind ahead)
    {front : List Char} {previous : Option Char} (starts : Text.wordMayStart (front.getLast?.or previous) = true)
    (step : ∀ passed left, front = passed ++ left → left ≠ [] → Text.wordMayStart (passed.getLast?.or previous) = true →
      ∀ found after, form.Reads found after (left ++ ahead) → found = body ∨ ∃ shorter, after = shorter ++ ahead)
    {fuel : Nat} (enough : front.length < fuel) : body ∈ form.bodies fuel previous (front ++ ahead) := by
  -- Every step of the search takes something off the front, and the hypothesis speaks of every cut of it.
  induction fuel generalizing front previous with
  | zero => omega
  | succ fuel ih =>
    cases front with
    | nil =>
      have begins := here.head?
      have read := Form.statement?_eq_some_iff.mpr here
      cases ahead with
      | nil => simp at begins
      | cons c rest =>
        have starts : Text.wordMayStart previous = true := by simpa using starts
        simp [Form.bodies, starts, read]
    | cons c others =>
      rw [List.cons_append, Form.bodies]
      split
      · next found after read =>
        split at read
        · next mayStart =>
          have reads := Form.statement?_eq_some_iff.mp read
          rcases step [] (c :: others) rfl (List.cons_ne_nil _ _) mayStart found after reads with rfl | ⟨shorter, rfl⟩
          · exact List.mem_cons_self
          · -- The search goes on behind the other statement, which still stands in front of this one.
            obtain ⟨lead, last, outside, same⟩ := reads.exists_end
            have whole : c :: others ++ ahead = lead ++ [last] ++ shorter ++ ahead := by simpa using same
            have cut : c :: others = lead ++ [last] ++ shorter := List.append_cancel_right whole
            rw [cut] at starts enough step
            refine List.mem_cons_of_mem _ (ih ?_ ?_ (by simp at enough; omega))
            · by_cases empty : shorter = []
              · simp [empty]
              · rw [List.getLast?_append_of_ne_nil _ empty] at starts
                simpa [List.getLast?_eq_some_getLast empty] using starts
            · intro passed left same inhabited mayStart
              refine step (lead ++ [last] ++ passed) left (by rw [same, List.append_assoc _ passed]) inhabited ?_
              rw [List.getLast?_append, List.getLast?_concat]
              cases ending : passed.getLast? with
              | none => simp [outside]
              | some d => simpa [ending] using mayStart
        · contradiction
      · rw [getLast?_cons_or] at starts
        refine ih starts ?_ (by simpa using enough)
        intro passed left same inhabited mayStart
        refine step (c :: passed) left (by rw [same, List.cons_append]) inhabited ?_
        rwa [getLast?_cons_or]

theorem mem_occurrences_of_step {form : Form} (statement : Statement form) {before : String}
    (clear : Clear before.toList) (after : String)
    (step : ∀ passed left, before.toList = passed ++ left → left ≠ [] → Text.wordMayStart passed.getLast? = true →
      Clear left → ∀ found rest, form.Reads found rest (left ++ (statement.text ++ after.toList)) →
        found = statement.literal.body ∨ ∃ shorter, rest = shorter ++ (statement.text ++ after.toList)) :
    ⟨form, statement.literal.specifier⟩ ∈ occurrences (before ++ .ofList statement.text ++ after) := by
  have here := statement.reads after.toList
  have begins := here.head?
  have searched : form ∈ Form.all := by cases form <;> decide
  refine List.mem_flatMap.mpr ⟨form, searched, List.mem_filterMap.mpr ⟨statement.literal.body, ?_, ?_⟩⟩
  · rw [String.toList_append, String.toList_append, String.toList_ofList, List.append_assoc]
    refine mem_bodies_of_step here (by simpa using clear.starts) ?_ ?_
    · intro passed left same inhabited mayStart
      rw [same] at clear
      exact step passed left same inhabited (by simpa using mayStart) clear.of_append
    · cases cut : statement.text ++ after.toList with
      | nil => simp [cut] at begins
      | cons c rest => simp
  · rw [statement.literal.specifierOf?_body]
    rfl

/-! ### Imports and calls -/

/-- The first quote behind an import or a call belongs to its literal. A statement that begins further left and
opens no literal before that quote has the same literal. -/
theorem Form.Reads.step {form : Form} (other : form ≠ .reExport) {ahead body behind : List Char}
    (here : form.Reads body behind ahead) {left : List Char} (clear : Clear left) {found after : List Char}
    (reads : form.Reads found after (left ++ ahead)) : found = body ∨ ∃ shorter, after = shorter ++ ahead := by
  have begins := here.head?
  have letter : form.initial ∉ callQuotes := by cases form <;> decide
  obtain ⟨opening, closing, literal, opens, -, quoted, rfl⟩ := here
  obtain ⟨otherOpening, otherClosing, otherLiteral, otherOpens, otherCloses, otherQuoted, same⟩ := reads
  have plain : Plain (form.word ++ opening) := form.plain_word.append (opens.plain other)
  have otherPlain : Plain (form.word ++ otherOpening) := form.plain_word.append (otherOpens.plain other)
  rw [← List.append_assoc form.word otherOpening] at same
  -- The other statement opens its literal in front of this one, or reaches into it without a quote.
  rcases cut_cases same with ⟨rest, rfl, rfl⟩ | ⟨c, reach, lead, reached⟩
  · right
    obtain ⟨close, closed⟩ := clear.of_append.quoted_within begins letter form.quotes_subset otherQuoted
    obtain ⟨shorter, -, rfl⟩ := cut_of_head begins otherCloses.initial_not_mem closed.symm
    exact ⟨shorter, rfl⟩
  · left
    have reachPlain : Plain (c :: reach) := fun quote inside =>
      otherPlain quote (lead ▸ List.mem_append_right _ inside)
    rw [← List.append_assoc] at reached
    obtain ⟨-, rfl⟩ := plain.cut reachPlain (quoted.mono form.quotes_subset) (otherQuoted.mono form.quotes_subset)
      reached
    exact (otherQuoted.unique quoted).1

/-- No text around an import or a call hides it. -/
theorem occurrences_complete {form : Form} (other : form ≠ .reExport) (statement : Statement form) {before : String}
    (clear : Clear before.toList) (after : String) :
    ⟨form, statement.literal.specifier⟩ ∈ occurrences (before ++ .ofList statement.text ++ after) := by
  refine mem_occurrences_of_step statement clear after ?_
  intro passed left _ _ _ leftClear found rest reads
  exact (statement.reads after.toList).step other leftClear reads

theorem isGap_space : IsGap [' '] := by decide

def siblingLiteral : Literal stringQuotes := ⟨'\'', ['.', '/', 'x'], by decide, by decide, by decide, by decide⟩

def namedImport : Statement .staticFrom where
  opening := [' '] ++ (['{', ' ', 'a', ' ', '}', ' '] ++ (Form.fromWord ++ [' ']))
  literal := siblingLiteral
  closing := []
  opens := .staticFrom isGap_space (by decide) (by decide) isGap_space.2
  closes := .staticFrom

/-- An unfinished import in front takes the whole statement for its clause, and ends in the same literal. -/
theorem occurrences_complete_namedImport :
    Clear "let q = '\"';\nimport ".toList ∧
    ⟨.staticFrom, "./x"⟩ ∈ occurrences ("let q = '\"';\nimport " ++ .ofList namedImport.text ++ ";") := by
  have clear : Clear "let q = '\"';\nimport ".toList := ⟨by decide, by decide⟩
  exact ⟨clear, occurrences_complete (by decide) namedImport clear ";"⟩

end Orphans.Import
