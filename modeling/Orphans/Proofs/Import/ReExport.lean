import Orphans.Proofs.Import.Search

/-! Re-exports in a text.

The names in the braces of a re-export may be anything, other statements included. A list that is open where a
re-export begins therefore takes the re-export in if its own closing brace stands in front of a source. A re-export
with a list of its own brings that brace along and is found; one that passes everything on may be lost.
-/

set_option autoImplicit false

namespace Orphans.Import

open Form (exportWord fromWord typeWord asWord IsTypeMark Passed Sourced)

/-- The text is a re-export up to some place in its list of names. -/
def OpensList (text : List Char) : Prop :=
  ∃ gap mark names, IsGap gap ∧ IsTypeMark mark ∧ '}' ∉ names ∧ text = exportWord ++ (gap ++ (mark ++ '{' :: names))

def ClosesList (body rest text : List Char) : Prop :=
  ∃ names behind, '}' ∉ names ∧ Sourced body rest behind ∧ text = names ++ '}' :: behind

theorem OpensList.reads {left ahead body rest : List Char} (opens : OpensList left)
    (closes : ClosesList body rest ahead) : Form.reExport.Reads body rest (left ++ ahead) := by
  obtain ⟨gap, mark, names, apart, marked, free, rfl⟩ := opens
  obtain ⟨others, behind, otherFree, ⟨blanks, more, literal, blank, moreBlank, quoted, rfl⟩, rfl⟩ := closes
  have written : Passed ('{' :: (names ++ others ++ ['}'])) := .listed (List.not_mem_append free otherFree)
  refine ⟨_, [], literal, .reExport apart marked written blank moreBlank, .reExport, quoted, ?_⟩
  simp [Form.word]

theorem ClosesList.unique {ahead body rest otherBody otherRest : List Char} (closes : ClosesList body rest ahead)
    (other : ClosesList otherBody otherRest ahead) : body = otherBody ∧ rest = otherRest := by
  have read : ∀ {body rest}, ClosesList body rest ahead → Form.exportClause? ('{' :: ahead) = some (body, rest) := by
    rintro body rest ⟨names, behind, free, sourced, rfl⟩
    exact Form.exportClause?_eq_some_iff.mpr ⟨_, behind, .listed free, sourced, by simp⟩
  simpa using (read closes).symm.trans (read other)

theorem not_sourced_append {blanks body rest others : List Char} {c : Char} (blank : AllBlank blanks)
    (solid : Text.isBlank c = false) (different : c ≠ 'f') : ¬ Sourced body rest (blanks ++ c :: others) := by
  intro sourced
  have read := Form.exportSource?_eq_some_iff.mpr sourced
  rw [Form.exportSource?, skipBlanks_append blank, skipBlanks_cons solid, Form.fromLiteral?, fromWord,
    keyword?_cons_of_ne different.symm] at read
  cases read

theorem Clear.cut_of_word {front ahead piece rest : List Char} (clear : Clear front)
    (word : ∀ c ∈ piece, Text.isWord c = true) (apart : front = [] → ahead.head? ≠ piece.head?)
    (same : front ++ ahead = piece ++ rest) : ∃ shorter, front = piece ++ shorter ∧ shorter ++ ahead = rest := by
  rcases cut_cases same with inFront | ⟨c, reach, rfl, rfl⟩
  · exact inFront
  · by_cases empty : front = []
    · exact absurd (by simp [empty]) (apart empty)
    · have starts := clear.starts
      rw [List.getLast?_eq_some_getLast empty] at starts
      simp [word _ (List.mem_append_left _ (List.getLast_mem empty))] at starts

section Ahead
variable {ahead : List Char} (begins : ahead.head? = some 'e')
include begins

theorem Clear.sourced_within {front body rest : List Char} (clear : Clear front)
    (sourced : Sourced body rest (front ++ ahead)) : ∃ shorter, rest = shorter ++ ahead := by
  obtain ⟨blanks, more, literal, blank, moreBlank, quoted, same⟩ := sourced
  have solid : Text.isBlank 'e' = false := by decide
  have noLetter : 'e' ∉ fromWord := by decide
  obtain ⟨front, rfl, onwards⟩ := cut_of_head begins (blank.not_mem solid) same
  obtain ⟨front, rfl, further⟩ := cut_of_head begins noLetter onwards
  obtain ⟨front, rfl, rfl⟩ := cut_of_head begins (moreBlank.not_mem solid) further
  exact clear.of_append.of_append.of_append.quoted_within begins (by decide) stringQuotes_subset quoted

theorem Clear.mark_within {front mark rest : List Char} (clear : Clear front) (marked : IsTypeMark mark)
    (same : front ++ ahead = mark ++ rest) : ∃ shorter, front = mark ++ shorter ∧ shorter ++ ahead = rest := by
  rcases marked with rfl | ⟨gap, apart, rfl⟩
  · exact ⟨front, rfl, same⟩
  · rw [List.append_assoc] at same
    have word : ∀ c ∈ typeWord, Text.isWord c = true := by decide
    obtain ⟨front, rfl, onwards⟩ := clear.cut_of_word word (fun _ => by rw [begins]; decide) same
    obtain ⟨front, rfl, rfl⟩ := cut_of_head begins (apart.2.not_mem (by decide)) onwards
    exact ⟨front, by simp, rfl⟩

end Ahead

theorem Form.Reads.exists_sign {body rest text : List Char} (reads : Form.reExport.Reads body rest text) :
    ∃ gap c others, IsGap gap ∧ Text.isBlank c = false ∧ c ≠ 'f' ∧ text = exportWord ++ (gap ++ c :: others) := by
  obtain ⟨opening, closing, literal, opens, -, -, rfl⟩ := reads
  cases opens with
  | @reExport gap mark passed blanks more apart marked written =>
    obtain ⟨c, others, front, sign⟩ := marked.head written
    refine ⟨gap, c, others ++ (blanks ++ (fromWord ++ more) ++ literal), apart, ?_, ?_, ?_⟩
    · rcases sign with rfl | rfl | rfl <;> decide
    · rcases sign with rfl | rfl | rfl <;> decide
    · have cut : ∀ later, mark ++ (passed ++ later) = c :: (others ++ later) := by
        intro later
        rw [← List.append_assoc, front, List.cons_append]
      rw [cut]
      simp [Form.word]

/-- The name of a bundle does not run into a re-export: what follows the keyword there is no source. -/
theorem name_within {front name ahead body behind found after rest : List Char}
    (here : Form.reExport.Reads body behind ahead) (named : ∀ c ∈ name, Form.isNameChar c = true)
    (sourced : Sourced found after rest) (same : front ++ ahead = name ++ rest) :
    ∃ shorter, front = name ++ shorter ∧ shorter ++ ahead = rest := by
  obtain ⟨gap, sign, others, apart, solid, different, written⟩ := here.exists_sign
  rcases cut_cases same with inFront | ⟨c, reach, rfl, reached⟩
  · exact inFront
  · exfalso
    rcases cut_cases (written.symm.trans reached) with ⟨letters, word, rfl⟩ | ⟨first, letters, whole, blanks⟩
    · cases letters with
      | nil => exact not_sourced_append apart.2 solid different sourced
      | cons letter letters =>
        -- The name ends inside the keyword, and the source would begin with one of its letters.
        have table : ∀ c ∈ exportWord, Text.isBlank c = false ∧ c ≠ 'f' := by decide
        obtain ⟨letterSolid, letterDifferent⟩ := table letter (word ▸ List.mem_append_right _ List.mem_cons_self)
        exact not_sourced_append (show AllBlank [] by decide) letterSolid letterDifferent sourced
    · -- The name goes on behind the keyword, where a blank stands.
      obtain ⟨inhabited, blank⟩ := apart
      obtain ⟨space, spaces, rfl⟩ := List.exists_cons_of_ne_nil inhabited
      obtain ⟨rfl, -⟩ := List.cons.inj blanks
      have letter := named space (List.mem_append_right _ (whole ▸ List.mem_append_right _ List.mem_cons_self))
      simpa [blank space List.mem_cons_self] using Form.isBlank_of_isNameChar letter

/-- A re-export that begins further left ends in front of this one, or this one stands in its list of names. -/
theorem Form.Reads.reExport_step {ahead body behind : List Char} (here : Form.reExport.Reads body behind ahead)
    {left : List Char} (inhabited : left ≠ []) (clear : Clear left) {found after : List Char}
    (reads : Form.reExport.Reads found after (left ++ ahead)) :
    (∃ shorter, after = shorter ++ ahead) ∨ OpensList left ∧ ClosesList found after ahead := by
  have begins : ahead.head? = some 'e' := here.head?
  have solid : Text.isBlank 'e' = false := by decide
  obtain ⟨opening, closing, literal, opens, closes, quoted, same⟩ := reads
  cases closes
  cases opens with
  | @reExport gap mark passed blanks more apart marked written blank moreBlank =>
    simp only [List.append_assoc] at same
    have sourced : Sourced found after (blanks ++ (fromWord ++ (more ++ literal))) :=
      ⟨blanks, more, literal, blank, moreBlank, quoted, rfl⟩
    generalize blanks ++ (fromWord ++ (more ++ literal)) = source at same sourced
    have word : ∀ c ∈ exportWord, Text.isWord c = true := by decide
    obtain ⟨front, rfl, atGap⟩ := clear.cut_of_word word (fun empty => absurd empty inhabited) same
    obtain ⟨front, rfl, atMark⟩ := cut_of_head begins (apart.2.not_mem solid) atGap
    obtain ⟨front, rfl, atPassed⟩ := clear.of_append.of_append.mark_within begins marked atMark
    have frontClear : Clear front := clear.of_append.of_append.of_append
    -- What is passed on stands in front, or it is a list that is still open.
    have passedWithin : (∃ shorter, front = passed ++ shorter ∧ shorter ++ ahead = source) ∨
        OpensList (exportWord ++ (gap ++ (mark ++ front))) ∧ ClosesList found after ahead := by
      cases written with
      | everything => exact .inl (cut_cons begins (by decide) atPassed)
      | bundled gapApart moreApart _ named =>
        simp only [List.cons_append, List.append_assoc] at atPassed
        obtain ⟨front, rfl, atBlanks⟩ := cut_cons begins (by decide) atPassed
        obtain ⟨front, rfl, atWord⟩ := cut_of_head begins (gapApart.2.not_mem solid) atBlanks
        obtain ⟨front, rfl, atMore⟩ := cut_of_head begins (by decide) atWord
        obtain ⟨front, rfl, atName⟩ := cut_of_head begins (moreApart.2.not_mem solid) atMore
        obtain ⟨front, rfl, rfl⟩ := name_within here named sourced atName
        exact .inl ⟨front, by simp, rfl⟩
      | @listed names free =>
        simp only [List.cons_append, List.append_assoc, List.nil_append] at atPassed
        obtain ⟨front, rfl, atNames⟩ := cut_cons begins (by decide) atPassed
        rcases cut_cases atNames with ⟨front, rfl, atBrace⟩ | ⟨c, reach, rfl, reached⟩
        · obtain ⟨front, rfl, rfl⟩ := cut_cons begins (by decide) atBrace
          exact .inl ⟨front, by simp, rfl⟩
        · rw [List.mem_append, not_or] at free
          exact .inr ⟨⟨gap, mark, front, apart, marked, free.1, rfl⟩, ⟨c :: reach, source, free.2, sourced, reached⟩⟩
    rcases passedWithin with ⟨front, rfl, rfl⟩ | absorbed
    · exact .inl (frontClear.of_append.sourced_within begins sourced)
    · exact .inr absorbed

/-- A list of names that begins somewhere in the text is still open at its end. -/
def LeavesListOpen (before : List Char) : Prop :=
  ∃ passed left, before = passed ++ left ∧ Text.wordMayStart passed.getLast? = true ∧ OpensList left

theorem closesList_of_brace (statement : Statement .reExport) (listed : '}' ∈ statement.opening) (rest : List Char) :
    ClosesList statement.literal.body rest (statement.text ++ rest) := by
  obtain ⟨opening, literal, closing, opens, closes⟩ := statement
  cases closes
  cases opens with
  | @reExport gap mark passed blanks more apart marked written blank moreBlank =>
    have noBrace : ∀ {blanks}, AllBlank blanks → '}' ∉ blanks := fun blank => blank.not_mem (by decide)
    have markFree : '}' ∉ mark := by
      rcases marked with rfl | ⟨gap, markApart, rfl⟩
      · simp
      · exact List.not_mem_append (by decide) (noBrace markApart.2)
    cases written with
    | everything =>
      simp [noBrace apart.2, noBrace blank, noBrace moreBlank, markFree, fromWord] at listed
    | bundled gapApart moreApart _ named =>
      have nameFree : '}' ∉ _ := fun inside => absurd (named _ inside) (by decide)
      simp [noBrace apart.2, noBrace blank, noBrace moreBlank, markFree, fromWord, noBrace gapApart.2, asWord,
        noBrace moreApart.2, nameFree] at listed
    | @listed names free =>
      refine ⟨exportWord ++ (gap ++ (mark ++ '{' :: names)), blanks ++ (fromWord ++ (more ++ (literal.text ++ rest))),
        ?_, ⟨blanks, more, _, blank, moreBlank, literal.quoted_text rest, rfl⟩, ?_⟩
      · simp [noBrace apart.2, markFree, free, exportWord]
      · simp [Statement.text, Form.word]

/-- A re-export is found, unless it stands in a list of names that is open in front of it and closed behind it. A search
that begins at such a list takes the source of the list and goes on behind it. -/
theorem reExport_found_or_absorbed (statement : Statement .reExport) {before : String} (clear : Clear before.toList)
    (after : String) :
    (⟨.reExport, statement.literal.specifier⟩ ∈ occurrences (before ++ .ofList statement.text ++ after) ∨
      '}' ∉ statement.opening ∧ LeavesListOpen before.toList ∧
        ∃ body rest, ClosesList body rest (statement.text ++ after.toList)) ∧
    ∀ left body rest, OpensList left → ClosesList body rest (statement.text ++ after.toList) →
      occurrencesOf .reExport (left ++ (statement.text ++ after.toList)) =
        ((specifierOf? body).map (Occurrence.mk .reExport)).toList ++ occurrencesOf .reExport rest := by
  constructor
  · by_cases absorbed : '}' ∉ statement.opening ∧ LeavesListOpen before.toList ∧
      ∃ body rest, ClosesList body rest (statement.text ++ after.toList)
    · exact .inr absorbed
    · left
      refine mem_occurrences_of_step statement clear after ?_
      intro passed left same inhabited mayStart leftClear found rest reads
      -- A re-export further left is over before this one begins, or it has this one in its list of names.
      rcases (statement.reads after.toList).reExport_step inhabited leftClear reads with within | ⟨opens, closes⟩
      · exact .inr within
      · by_cases listed : '}' ∈ statement.opening
        · exact .inl (closes.unique (closesList_of_brace statement listed _)).1
        · exact absurd ⟨listed, ⟨passed, left, same, mayStart, opens⟩, found, rest, closes⟩ absorbed
  · intro left body rest opens closes
    exact Form.occurrencesOf_of_reads (opens.reads closes)

def listReExport : Statement .reExport where
  opening := [' '] ++ ([] ++ (('{' :: ([' ', 'a', ' '] ++ ['}'])) ++ ([' '] ++ (fromWord ++ [' ']))))
  literal := siblingLiteral
  closing := []
  opens := .reExport isGap_space (.inl rfl) (.listed (by decide)) isGap_space.2 isGap_space.2
  closes := .reExport

theorem reExport_found_behind_open_list :
    Clear "export \x7b\n".toList ∧
    ⟨.reExport, "./x"⟩ ∈ occurrences ("export \x7b\n" ++ .ofList listReExport.text ++ ";") := by
  have clear : Clear "export \x7b\n".toList := ⟨by decide, by decide⟩
  refine ⟨clear, ?_⟩
  rcases (reExport_found_or_absorbed listReExport clear ";").1 with found | ⟨unlisted, -⟩
  · exact found
  · exact absurd (by decide) unlisted

def wholeReExport : Statement .reExport where
  opening := [' '] ++ ([] ++ (['*'] ++ ([' '] ++ (fromWord ++ [' ']))))
  literal := siblingLiteral
  closing := []
  opens := .reExport isGap_space (.inl rfl) .everything isGap_space.2 isGap_space.2
  closes := .reExport

/-- The comment opens a list that the names of the next import close. -/
theorem reExport_lost_behind_comment :
    Clear "// export \x7b\n".toList ∧
    ⟨.reExport, wholeReExport.literal.specifier⟩ ∉
      occurrences ("// export \x7b\n" ++ .ofList wholeReExport.text ++ ";\nimport \x7b b \x7d from './y';\n") :=
  ⟨⟨by decide, by decide⟩, by decide +kernel⟩

end Orphans.Import
