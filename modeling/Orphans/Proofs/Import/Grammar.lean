import Orphans.Proofs.Import.Pieces

/-! How import statements are written.

The grammar says which texts are statements of a form, without saying how they are looked for. A text is read as a
statement exactly if it begins with one, and then the body of the literal and the rest of the text are determined.
-/

set_option autoImplicit false

namespace Orphans.Import

namespace Form

theorem isBlank_of_isNameChar {c : Char} (named : isNameChar c = true) : Text.isBlank c = false := by
  by_contra blank
  have blank : Text.isBlank c = true := by simpa using blank
  have dollar : c ≠ '$' := by
    rintro rfl
    exact absurd blank (by decide)
  simp [isNameChar, isWord_of_isBlank blank, dollar] at named

theorem isNameChar_of_isBlank {c : Char} (blank : Text.isBlank c = true) : isNameChar c = false := by
  by_contra named
  simp [isBlank_of_isNameChar (c := c) (by simpa using named)] at blank

theorem exists_unnamed {blanks body rest text : List Char} (blank : AllBlank blanks)
    (quoted : Quoted stringQuotes body rest text) :
    ∃ c others, isNameChar c = false ∧ blanks ++ text = c :: others := by
  cases blanks with
  | nil =>
    have table : ∀ quote ∈ stringQuotes, isNameChar quote = false := by decide
    obtain ⟨quote, allowed, -, -, rfl⟩ := quoted
    exact ⟨quote, _, table quote allowed, rfl⟩
  | cons c others => exact ⟨c, others ++ text, isNameChar_of_isBlank (blank c List.mem_cons_self), rfl⟩

/-! ### Sources -/

def Sourced (body rest text : List Char) : Prop :=
  ∃ blanks more behind, AllBlank blanks ∧ AllBlank more ∧ Quoted stringQuotes body rest behind ∧
    text = blanks ++ (fromWord ++ (more ++ behind))

theorem fromLiteral?_append {more behind body rest : List Char} (blank : AllBlank more)
    (quoted : Quoted stringQuotes body rest behind) :
    fromLiteral? (fromWord ++ (more ++ behind)) = some (body, rest) := by
  have solid := (quoted.mono stringQuotes_subset).skipBlanks
  simp [fromLiteral?, skipBlanks_append blank, solid, quoted.read]

theorem fromLiteral?_sound {text body rest : List Char} (read : fromLiteral? text = some (body, rest)) :
    ∃ more behind, AllBlank more ∧ Quoted stringQuotes body rest behind ∧ text = fromWord ++ (more ++ behind) := by
  obtain ⟨others, word, literal⟩ := Option.bind_eq_some_iff.mp read
  obtain ⟨more, blank, cut⟩ := skipBlanks_sound others
  refine ⟨more, skipBlanks others, blank, quoted?_eq_some_iff.mp literal, ?_⟩
  rw [← cut, keyword?_eq_some_iff.mp word]

theorem exportSource?_eq_some_iff {text body rest : List Char} :
    exportSource? text = some (body, rest) ↔ Sourced body rest text := by
  constructor
  · intro read
    obtain ⟨blanks, blank, cut⟩ := skipBlanks_sound text
    obtain ⟨more, behind, moreBlank, quoted, written⟩ := fromLiteral?_sound read
    exact ⟨blanks, more, behind, blank, moreBlank, quoted, by rw [← written, ← cut]⟩
  · rintro ⟨blanks, more, behind, blank, moreBlank, quoted, rfl⟩
    have solid : skipBlanks (fromWord ++ (more ++ behind)) = fromWord ++ (more ++ behind) :=
      skipBlanks_cons (by decide) _
    rw [exportSource?, skipBlanks_append blank, solid, fromLiteral?_append moreBlank quoted]

/-! ### Clauses of imports -/

theorem isSome_clause? {clause rest : List Char} {previous : Char} (free : ∀ c ∈ clause, c ∉ clauseStops)
    (starts : Text.isWord (clause.getLastD previous) = false) (found : (fromLiteral? rest).isSome = true) :
    (clause? previous (clause ++ rest)).isSome = true := by
  -- A source may also be found further left, in the clause itself. So the induction is about success, and which
  -- literal is read follows from the quotes.
  induction clause generalizing previous with
  | nil =>
    cases rest with
    | nil => simp [fromLiteral?, keyword?, fromWord, List.isPrefixOf?] at found
    | cons c others =>
      obtain ⟨source, read⟩ := Option.isSome_iff_exists.mp found
      have outside : Text.isWord previous = false := by simpa using starts
      simp [clause?, outside, read]
  | cons c others ih =>
    rw [List.cons_append, clause?]
    split
    · rfl
    · rw [if_neg (free c List.mem_cons_self)]
      refine ih (fun other inside => free other (List.mem_cons_of_mem _ inside)) ?_
      rwa [List.getLastD_cons] at starts

theorem clause?_sound {text body rest : List Char} {previous : Char}
    (read : clause? previous text = some (body, rest)) :
    ∃ clause more behind, (∀ c ∈ clause, c ∉ clauseStops) ∧ Text.isWord (clause.getLastD previous) = false ∧
      AllBlank more ∧ Quoted stringQuotes body rest behind ∧ text = clause ++ (fromWord ++ (more ++ behind)) := by
  induction text generalizing previous with
  | nil => simp [clause?] at read
  | cons c others ih =>
    rw [clause?] at read
    split at read
    · next found here =>
      obtain rfl := Option.some.inj read
      split at here
      · contradiction
      · next outside =>
        obtain ⟨more, behind, blank, quoted, written⟩ := fromLiteral?_sound here
        exact ⟨[], more, behind, by simp, by simpa using outside, blank, quoted, written⟩
    · split at read
      · contradiction
      · next free =>
        obtain ⟨clause, more, behind, others, starts, blank, quoted, rfl⟩ := ih read
        refine ⟨c :: clause, more, behind, ?_, by rwa [List.getLastD_cons], blank, quoted, rfl⟩
        simpa [free] using others

theorem plain_of_free {clause : List Char} (free : ∀ c ∈ clause, c ∉ clauseStops) : Plain clause := by
  have table : ∀ c ∈ callQuotes, c ∈ clauseStops := by decide
  exact fun c inside quote => free c inside (table c quote)

/-! ### What a re-export passes on -/

inductive Passed : List Char → Prop where
  | everything : Passed ['*']
  | bundled {gap more name : List Char} : IsGap gap → IsGap more → name ≠ [] → (∀ c ∈ name, isNameChar c = true) →
      Passed ('*' :: (gap ++ (asWord ++ (more ++ name))))
  | listed {names : List Char} : '}' ∉ names → Passed ('{' :: (names ++ ['}']))

theorem namespaceSource?_of_sourced {text body rest : List Char} (sourced : Sourced body rest text) :
    namespaceSource? text = none := by
  obtain ⟨blanks, more, behind, blank, -, -, rfl⟩ := sourced
  have solid : skipBlanks (fromWord ++ (more ++ behind)) = fromWord ++ (more ++ behind) :=
    skipBlanks_cons (by decide) _
  have noWord : keyword? asWord (fromWord ++ (more ++ behind)) = none := keyword?_cons_of_ne (by decide) _ _
  by_cases none : blanks = []
  · subst none
    have noBlank : someBlanks? (fromWord ++ (more ++ behind)) = Option.none := someBlanks?_cons (by decide) _
    simp [namespaceSource?, noBlank]
  · simp [namespaceSource?, someBlanks?_append ⟨none, blank⟩, solid, noWord]

theorem namespaceSource?_append {gap more name text body rest : List Char} (apart : IsGap gap) (moreApart : IsGap more)
    (inhabited : name ≠ []) (named : ∀ c ∈ name, isNameChar c = true) (sourced : Sourced body rest text) :
    namespaceSource? (gap ++ (asWord ++ (more ++ (name ++ text)))) = some (body, rest) := by
  have source := exportSource?_eq_some_iff.mpr sourced
  obtain ⟨blanks, last, behind, blank, lastBlank, quoted, rfl⟩ := sourced
  have nameSolid : skipBlanks (name ++ (blanks ++ (fromWord ++ (last ++ behind)))) =
      name ++ (blanks ++ (fromWord ++ (last ++ behind))) := by
    cases name with
    | nil => contradiction
    | cons c others => exact skipBlanks_cons (isBlank_of_isNameChar (named c List.mem_cons_self)) _
  have wordSolid : ∀ rest, skipBlanks (asWord ++ rest) = asWord ++ rest := fun rest => skipBlanks_cons (by decide) _
  simp only [namespaceSource?, someBlanks?_append apart, wordSolid, Option.bind_some, keyword?_append,
    someBlanks?_append moreApart, nameSolid]
  rw [List.takeWhile_append_of_pos named, List.dropWhile_append_of_pos named]
  cases blanks with
  | cons c others =>
    -- A blank ends the name.
    have unnamed : isNameChar c = false := isNameChar_of_isBlank (blank c List.mem_cons_self)
    simp only [List.cons_append] at source ⊢
    simp [unnamed, inhabited, source]
  | nil =>
    -- The name runs into `from` and gives it back.
    have fromNamed : ∀ c ∈ fromWord, isNameChar c = true := by decide
    have stops : (last ++ behind).takeWhile isNameChar = [] ∧
        (last ++ behind).dropWhile isNameChar = last ++ behind := by
      obtain ⟨c, others, unnamed, cut⟩ := exists_unnamed lastBlank quoted
      simp [cut, unnamed]
    have solid := (quoted.mono stringQuotes_subset).skipBlanks
    have noSource : exportSource? (last ++ behind) = none := by
      obtain ⟨quote, allowed, -, -, rfl⟩ := quoted
      have other : 'f' ≠ quote := by
        rintro rfl
        exact absurd allowed (by decide)
      rw [exportSource?, skipBlanks_append lastBlank, solid, fromLiteral?, fromWord, keyword?_cons_of_ne other]
      rfl
    have ending : fromWord.isSuffixOf? (name ++ fromWord) = some name :=
      List.isSuffixOf?_eq_some_iff_append_eq.mpr rfl
    rw [List.nil_append, List.takeWhile_append_of_pos fromNamed, List.dropWhile_append_of_pos fromNamed, stops.1,
      stops.2, List.append_nil, if_neg (List.append_ne_nil_of_left_ne_nil inhabited _), noSource, ending]
    cases name with
    | nil => contradiction
    | cons c others => simp [skipBlanks_append lastBlank, solid, quoted.read]

theorem namespaceSource?_sound {text body rest : List Char} (read : namespaceSource? text = some (body, rest)) :
    ∃ passed behind, Passed ('*' :: passed) ∧ Sourced body rest behind ∧ text = passed ++ behind := by
  obtain ⟨named, front, onwards⟩ := Option.bind_eq_some_iff.mp read
  obtain ⟨others, front, blanks⟩ := Option.bind_eq_some_iff.mp front
  obtain ⟨first, start, word⟩ := Option.bind_eq_some_iff.mp front
  obtain ⟨gap, apart, rfl⟩ := someBlanks?_sound start
  obtain ⟨more, moreApart, rfl⟩ := someBlanks?_sound blanks
  obtain rfl := keyword?_eq_some_iff.mp word
  have inName : ∀ c ∈ named.takeWhile isNameChar, isNameChar c = true := fun _ => List.mem_takeWhile_imp
  have cut : named.takeWhile isNameChar ++ named.dropWhile isNameChar = named := List.takeWhile_append_dropWhile
  dsimp only at onwards
  generalize named.takeWhile isNameChar = name at onwards inName cut
  generalize named.dropWhile isNameChar = after at onwards cut
  subst cut
  split at onwards
  · contradiction
  · next inhabited =>
    split at onwards
    · next found source =>
      obtain rfl := Option.some.inj onwards
      refine ⟨gap ++ (asWord ++ (more ++ name)), after, .bundled apart moreApart inhabited inName,
        exportSource?_eq_some_iff.mp source, by simp⟩
    · split at onwards
      · next c others ending =>
        -- The name has given `from` back, and the literal stands behind it.
        obtain rfl := List.isSuffixOf?_eq_some_iff_append_eq.mp ending
        obtain ⟨last, blank, rest⟩ := skipBlanks_sound after
        have literal := quoted?_eq_some_iff.mp onwards
        refine ⟨gap ++ (asWord ++ (more ++ (c :: others))), fromWord ++ (last ++ skipBlanks after),
          .bundled apart moreApart (List.cons_ne_nil _ _) ?_,
          ⟨[], last, _, by simp [AllBlank], blank, literal, rfl⟩, ?_⟩
        · exact fun other inside => inName other (List.mem_append_left _ inside)
        · rw [← rest]
          simp
      · contradiction

theorem exportClause?_eq_some_iff {text body rest : List Char} : exportClause? text = some (body, rest) ↔
    ∃ passed behind, Passed passed ∧ Sourced body rest behind ∧ text = passed ++ behind := by
  constructor
  · intro read
    unfold exportClause? at read
    split at read
    · next others =>
      split at read
      · next found bundle =>
        obtain rfl := Option.some.inj read
        obtain ⟨passed, behind, written, sourced, rfl⟩ := namespaceSource?_sound bundle
        exact ⟨_, behind, written, sourced, rfl⟩
      · exact ⟨['*'], others, .everything, exportSource?_eq_some_iff.mp read, rfl⟩
    · next others =>
      obtain ⟨behind, brace, source⟩ := Option.bind_eq_some_iff.mp read
      have names : '}' ∉ others.takeWhile (· ≠ '}') := fun inside => by simpa using List.mem_takeWhile_imp inside
      refine ⟨_, behind, .listed names, exportSource?_eq_some_iff.mp source, ?_⟩
      have cut : others.takeWhile (· ≠ '}') ++ others.dropWhile (· ≠ '}') = others := List.takeWhile_append_dropWhile
      rw [character?_eq_some_iff.mp brace] at cut
      rw [List.cons_append, List.append_assoc, List.singleton_append, cut]
    · contradiction
  · rintro ⟨passed, behind, written, sourced, rfl⟩
    have source := exportSource?_eq_some_iff.mpr sourced
    cases written with
    -- `*` is first tried with a name behind it, which fails where `from` follows.
    | everything => simp [exportClause?, namespaceSource?_of_sourced sourced, source]
    | bundled apart moreApart inhabited named =>
      have bundle := namespaceSource?_append apart moreApart inhabited named sourced
      simp [exportClause?, bundle]
    | @listed names free =>
      have inside : ∀ c ∈ names, decide (c ≠ '}') = true := fun c member =>
        decide_eq_true fun brace => free (brace ▸ member)
      simp only [List.cons_append, List.append_assoc, List.nil_append, exportClause?]
      rw [List.dropWhile_append_of_pos inside]
      simp [source]

def IsTypeMark (text : List Char) : Prop := text = [] ∨ ∃ gap, IsGap gap ∧ text = typeWord ++ gap

theorem skipType_sound (text : List Char) : ∃ mark, IsTypeMark mark ∧ text = mark ++ skipType text := by
  unfold skipType
  cases read : (keyword? typeWord text).bind someBlanks? with
  | none => exact ⟨[], .inl rfl, rfl⟩
  | some rest =>
    obtain ⟨others, word, blanks⟩ := Option.bind_eq_some_iff.mp read
    obtain ⟨gap, apart, rfl⟩ := someBlanks?_sound blanks
    obtain rfl := keyword?_eq_some_iff.mp word
    exact ⟨typeWord ++ gap, .inr ⟨gap, apart, rfl⟩, by simp⟩

theorem Passed.head {passed : List Char} (written : Passed passed) :
    ∃ c others, passed = c :: others ∧ (c = '*' ∨ c = '{') := by
  cases written with
  | everything => exact ⟨'*', [], rfl, .inl rfl⟩
  | bundled => exact ⟨'*', _, rfl, .inl rfl⟩
  | listed => exact ⟨'{', _, rfl, .inr rfl⟩

theorem IsTypeMark.head {mark passed : List Char} (marked : IsTypeMark mark) (written : Passed passed) :
    ∃ c others, mark ++ passed = c :: others ∧ (c = 't' ∨ c = '*' ∨ c = '{') := by
  rcases marked with rfl | ⟨gap, -, rfl⟩
  · obtain ⟨c, others, rfl, sign⟩ := written.head
    exact ⟨c, others, rfl, .inr sign⟩
  · exact ⟨'t', _, rfl, .inl rfl⟩

theorem skipType_append {mark passed : List Char} (marked : IsTypeMark mark) (written : Passed passed)
    (behind : List Char) : skipType (mark ++ (passed ++ behind)) = passed ++ behind := by
  obtain ⟨c, others, rfl, sign⟩ := written.head
  rcases marked with rfl | ⟨gap, apart, rfl⟩
  · have noWord : keyword? typeWord (c :: (others ++ behind)) = none := by
      refine keyword?_cons_of_ne ?_ _ _
      rcases sign with rfl | rfl <;> decide
    simp [skipType, noWord]
  · have solid : Text.isBlank c = false := by rcases sign with rfl | rfl <;> decide
    simp [skipType, someBlanks?_append apart, skipBlanks_cons solid]

/-! ### Statements -/

def quotes : Form → List Char
  | .staticFrom | .sideEffect | .reExport => stringQuotes
  | .dynamicCall | .requireCall => callQuotes

/-- What stands between the keyword of a form and its literal. -/
inductive Opening : Form → List Char → Prop where
  | staticFrom {gap clause more : List Char} : IsGap gap → (∀ c ∈ clause, c ∉ clauseStops) →
      Text.wordMayStart (gap ++ clause).getLast? = true → AllBlank more →
      Opening .staticFrom (gap ++ (clause ++ (fromWord ++ more)))
  | sideEffect {blanks : List Char} : AllBlank blanks → Opening .sideEffect blanks
  | dynamicCall {blanks more : List Char} : AllBlank blanks → AllBlank more →
      Opening .dynamicCall (blanks ++ '(' :: more)
  | requireCall {blanks more : List Char} : AllBlank blanks → AllBlank more →
      Opening .requireCall (blanks ++ '(' :: more)
  | reExport {gap mark passed blanks more : List Char} : IsGap gap → IsTypeMark mark → Passed passed →
      AllBlank blanks → AllBlank more → Opening .reExport (gap ++ (mark ++ (passed ++ (blanks ++ (fromWord ++ more)))))

inductive Closing : Form → List Char → Prop where
  | staticFrom : Closing .staticFrom []
  | sideEffect : Closing .sideEffect []
  | dynamicCall {blanks : List Char} : AllBlank blanks → Closing .dynamicCall (blanks ++ [')'])
  | requireCall {blanks : List Char} : AllBlank blanks → Closing .requireCall (blanks ++ [')'])
  | reExport : Closing .reExport []

/-- A text begins with a statement of the form whose literal has the given body, and goes on with the given rest. -/
def Reads (form : Form) (body rest text : List Char) : Prop :=
  ∃ opening closing behind, form.Opening opening ∧ form.Closing closing ∧
    Quoted form.quotes body (closing ++ rest) behind ∧ text = form.word ++ (opening ++ behind)

theorem plain_word (form : Form) : Plain form.word := by cases form <;> decide

theorem quotes_subset (form : Form) : form.quotes ⊆ callQuotes := by cases form <;> decide

/-- Only a list of names that are passed on may hold quotes. -/
theorem Opening.plain {form : Form} {opening : List Char} (opens : form.Opening opening) (other : form ≠ .reExport) :
    Plain opening := by
  cases opens with
  | staticFrom apart free starts blank =>
    exact apart.2.plain.append ((plain_of_free free).append (.append (by decide) blank.plain))
  | sideEffect blank => exact blank.plain
  | dynamicCall blank moreBlank => exact blank.plain.append (moreBlank.plain.cons (by decide))
  | requireCall blank moreBlank => exact blank.plain.append (moreBlank.plain.cons (by decide))
  | reExport => contradiction

theorem call?_eq_some_iff {text body rest : List Char} : call? text = some (body, rest) ↔
    ∃ blanks more last behind, AllBlank blanks ∧ AllBlank more ∧ AllBlank last ∧
      Quoted callQuotes body (last ++ ')' :: rest) behind ∧ text = blanks ++ '(' :: (more ++ behind) := by
  constructor
  · intro read
    obtain ⟨others, bracket, read⟩ := Option.bind_eq_some_iff.mp read
    obtain ⟨⟨inside, after⟩, literal, read⟩ := Option.bind_eq_some_iff.mp read
    obtain ⟨behind, close, same⟩ := Option.map_eq_some_iff.mp read
    obtain ⟨rfl, rfl⟩ : inside = body ∧ behind = rest := by simpa using same
    obtain ⟨blanks, blank, front⟩ := skipBlanks_sound text
    obtain ⟨more, moreBlank, middle⟩ := skipBlanks_sound others
    obtain ⟨last, lastBlank, back⟩ := skipBlanks_sound after
    have quoted := quoted?_eq_some_iff.mp literal
    rw [character?_eq_some_iff.mp bracket] at front
    rw [character?_eq_some_iff.mp close] at back
    rw [back] at quoted
    exact ⟨blanks, more, last, _, blank, moreBlank, lastBlank, quoted, by rw [← middle, ← front]⟩
  · rintro ⟨blanks, more, last, behind, blank, moreBlank, lastBlank, quoted, rfl⟩
    have opened : ∀ others, skipBlanks ('(' :: others) = '(' :: others := skipBlanks_cons (by decide)
    have closed : ∀ others, skipBlanks (')' :: others) = ')' :: others := skipBlanks_cons (by decide)
    simp [call?, skipBlanks_append blank, opened, skipBlanks_append moreBlank, quoted.skipBlanks, quoted.read,
      skipBlanks_append lastBlank, closed]

theorem shape?_staticFrom_sound {text body rest : List Char} (read : shape? .staticFrom text = some (body, rest)) :
    ∃ opening behind, Opening .staticFrom opening ∧ Quoted stringQuotes body rest behind ∧
      text = opening ++ behind := by
  obtain ⟨others, blanks, found⟩ := Option.bind_eq_some_iff.mp read
  obtain ⟨gap, apart, rfl⟩ := someBlanks?_sound blanks
  obtain ⟨clause, more, behind, free, starts, blank, quoted, rfl⟩ := clause?_sound found
  refine ⟨_, behind, .staticFrom apart free ?_ blank, quoted, by simp⟩
  by_cases empty : clause = []
  · -- The last blank of the gap stands in front of `from`.
    subst empty
    obtain ⟨inhabited, allBlank⟩ := apart
    rw [List.append_nil, List.getLast?_eq_some_getLast inhabited]
    simp [isWord_of_isBlank (allBlank _ (List.getLast_mem inhabited))]
  · rw [List.getLast?_append_of_ne_nil _ empty, List.getLast?_eq_some_getLast empty]
    simpa [List.getLastD_eq_getLast?, List.getLast?_eq_some_getLast empty] using starts

theorem shape?_staticFrom_append {opening behind body rest : List Char} (opens : Opening .staticFrom opening)
    (quoted : Quoted stringQuotes body rest behind) : shape? .staticFrom (opening ++ behind) = some (body, rest) := by
  have plain := opens.plain (by decide)
  have succeeds : (shape? .staticFrom (opening ++ behind)).isSome = true := by
    cases opens with
    | @staticFrom gap clause more apart free starts blank =>
      have found : (fromLiteral? (fromWord ++ (more ++ behind))).isSome = true := by
        simp [fromLiteral?_append blank quoted]
      have solid : skipBlanks (fromWord ++ (more ++ behind)) = fromWord ++ (more ++ behind) :=
        skipBlanks_cons (by decide) _
      -- The blanks in front of the clause are taken with the gap.
      simp only [List.append_assoc, shape?, someBlanks?_append apart, Option.bind_some,
        skipBlanks_append_of_solid solid]
      refine isSome_clause? (fun c inside => free c ((List.dropWhile_sublist _).mem inside)) ?_ found
      by_cases empty : skipBlanks clause = []
      · rw [empty]
        decide
      · obtain ⟨front, -, cut⟩ := skipBlanks_sound clause
        rw [cut, ← List.append_assoc, List.getLast?_append_of_ne_nil _ empty,
          List.getLast?_eq_some_getLast empty] at starts
        simpa [List.getLastD_eq_getLast?, List.getLast?_eq_some_getLast empty] using starts
  obtain ⟨⟨otherBody, otherRest⟩, read⟩ := Option.isSome_iff_exists.mp succeeds
  obtain ⟨otherOpening, otherBehind, otherOpens, otherQuoted, same⟩ := shape?_staticFrom_sound read
  obtain ⟨-, rfl⟩ := plain.cut (otherOpens.plain (by decide)) (quoted.mono stringQuotes_subset)
    (otherQuoted.mono stringQuotes_subset) same
  obtain ⟨rfl, rfl⟩ := quoted.unique otherQuoted
  exact read

theorem statement?_eq_some_iff {form : Form} {text body rest : List Char} :
    form.statement? text = some (body, rest) ↔ form.Reads body rest text := by
  constructor
  · intro read
    obtain ⟨others, word, shape⟩ := Option.bind_eq_some_iff.mp read
    obtain rfl := keyword?_eq_some_iff.mp word
    cases form with
    | staticFrom =>
      obtain ⟨opening, behind, opens, quoted, rfl⟩ := shape?_staticFrom_sound shape
      exact ⟨opening, [], behind, opens, .staticFrom, quoted, rfl⟩
    | sideEffect =>
      obtain ⟨blanks, blank, cut⟩ := skipBlanks_sound others
      exact ⟨blanks, [], _, .sideEffect blank, .sideEffect, quoted?_eq_some_iff.mp shape, by rw [← cut]⟩
    | dynamicCall =>
      obtain ⟨blanks, more, last, behind, blank, moreBlank, lastBlank, quoted, rfl⟩ := call?_eq_some_iff.mp shape
      exact ⟨_, _, behind, .dynamicCall blank moreBlank, .dynamicCall lastBlank, by simpa [quotes] using quoted,
        by simp⟩
    | requireCall =>
      obtain ⟨blanks, more, last, behind, blank, moreBlank, lastBlank, quoted, rfl⟩ := call?_eq_some_iff.mp shape
      exact ⟨_, _, behind, .requireCall blank moreBlank, .requireCall lastBlank, by simpa [quotes] using quoted,
        by simp⟩
    | reExport =>
      obtain ⟨after, blanks, clause⟩ := Option.bind_eq_some_iff.mp shape
      obtain ⟨gap, apart, rfl⟩ := someBlanks?_sound blanks
      obtain ⟨mark, marked, cut⟩ := skipType_sound after
      obtain ⟨passed, behind, written, ⟨blanks, more, literal, blank, moreBlank, quoted, rfl⟩, split⟩ :=
        exportClause?_eq_some_iff.mp clause
      refine ⟨_, [], literal, .reExport apart marked written blank moreBlank, .reExport, quoted, ?_⟩
      rw [cut, split]
      simp
  · rintro ⟨opening, closing, behind, opens, closes, quoted, rfl⟩
    rw [statement?, keyword?_append, Option.bind_some]
    cases opens with
    | staticFrom apart free starts blank =>
      cases closes
      exact shape?_staticFrom_append (.staticFrom apart free starts blank) quoted
    | sideEffect blank =>
      cases closes
      rw [shape?, skipBlanks_append blank, (quoted.mono stringQuotes_subset).skipBlanks]
      exact quoted.read
    | dynamicCall blank moreBlank =>
      cases closes with
      | dynamicCall lastBlank =>
        exact call?_eq_some_iff.mpr
          ⟨_, _, _, behind, blank, moreBlank, lastBlank, by simpa [quotes] using quoted, by simp⟩
    | requireCall blank moreBlank =>
      cases closes with
      | requireCall lastBlank =>
        exact call?_eq_some_iff.mpr
          ⟨_, _, _, behind, blank, moreBlank, lastBlank, by simpa [quotes] using quoted, by simp⟩
    | @reExport gap mark passed blanks more apart marked written blank moreBlank =>
      cases closes
      obtain ⟨c, others, front, sign⟩ := marked.head written
      -- Neither `type` nor what is passed on begins with a blank, so skipping blanks stops in front of them.
      have solid : Text.isBlank c = false := by rcases sign with rfl | rfl | rfl <;> decide
      have cut : ∀ later, skipBlanks (mark ++ (passed ++ later)) = mark ++ (passed ++ later) := by
        intro later
        rw [← List.append_assoc, front]
        exact skipBlanks_cons solid _
      have sourced : Sourced body rest (blanks ++ (fromWord ++ (more ++ behind))) :=
        ⟨blanks, more, behind, blank, moreBlank, quoted, rfl⟩
      simp only [List.append_assoc, shape?, someBlanks?_append apart, Option.bind_some, cut,
        skipType_append marked written]
      exact exportClause?_eq_some_iff.mpr ⟨passed, _, written, sourced, rfl⟩

end Form

structure Statement (form : Form) where
  opening : List Char
  literal : Literal form.quotes
  closing : List Char
  opens : form.Opening opening
  closes : form.Closing closing

namespace Statement

variable {form : Form} (statement : Statement form)

def text : List Char := form.word ++ (statement.opening ++ (statement.literal.text ++ statement.closing))

theorem reads (rest : List Char) : form.Reads statement.literal.body rest (statement.text ++ rest) := by
  refine ⟨_, _, _, statement.opens, statement.closes, statement.literal.quoted_text _, ?_⟩
  simp [text]

end Statement

end Orphans.Import
