import Orphans.Proofs.Key.Trail

/-! The normal form of any path.

What folding leaves are some `..` in front, none of them below a root, and names behind. Written out and read again,
such segments come back as they were, and so does a drive in front of them. Only a path without a root and without a
drive may be read in another way, if its first name begins like a drive.
-/

set_option autoImplicit false

namespace Orphans.Key

/-! ### Folded segments -/

def IsFolded (rooted : Bool) (segments : List (List Char)) : Prop :=
  ∃ climbs names, (rooted = true → climbs = 0) ∧ (∀ name ∈ names, IsSegment name) ∧
    segments = List.replicate climbs ['.', '.'] ++ names

section
variable {rooted : Bool} {segments : List (List Char)}

theorem IsFolded.of_named (rooted : Bool) (named : ∀ name ∈ segments, IsSegment name) : IsFolded rooted segments :=
  ⟨0, segments, fun _ => rfl, named, rfl⟩

theorem IsFolded.climb_or_named (folded : IsFolded rooted segments) {segment : List Char}
    (member : segment ∈ segments) :
    segment = ['.', '.'] ∨ IsSegment segment := by
  obtain ⟨climbs, names, -, named, rfl⟩ := folded
  rcases List.mem_append.mp member with climb | name
  · exact .inl (List.eq_of_mem_replicate climb)
  · exact .inr (named segment name)

theorem IsFolded.ne_nil (folded : IsFolded rooted segments) {segment : List Char} (member : segment ∈ segments) :
    segment ≠ [] := by
  rcases folded.climb_or_named member with rfl | named
  · exact List.cons_ne_nil _ _
  · exact named.ne_nil

theorem IsFolded.ne_current (folded : IsFolded rooted segments) {segment : List Char} (member : segment ∈ segments) :
    segment ≠ ['.'] := by
  rcases folded.climb_or_named member with rfl | named
  · decide
  · exact named.ne_current

theorem IsFolded.plain (folded : IsFolded rooted segments) {segment : List Char} (member : segment ∈ segments) :
    '/' ∉ segment ∧ '\\' ∉ segment := by
  rcases folded.climb_or_named member with rfl | named
  · decide
  · exact ⟨named.no_slash, named.no_backslash⟩

theorem IsFolded.named_of_head {first : List Char} {rest : List (List Char)} (folded : IsFolded rooted (first :: rest))
    (name : first ≠ ['.', '.']) : ∀ segment ∈ first :: rest, IsSegment segment := by
  obtain ⟨climbs, names, -, named, shape⟩ := folded
  cases climbs with
  | zero =>
    rw [List.replicate_zero, List.nil_append] at shape
    rwa [shape]
  | succ climbs =>
    rw [List.replicate_succ, List.cons_append] at shape
    exact absurd (List.cons.inj shape).1 name

theorem pushSegment_climb (climbs : Nat) :
    pushSegment false (List.replicate climbs ['.', '.']) ['.', '.'] = List.replicate (climbs + 1) ['.', '.'] := by
  cases climbs <;> simp [pushSegment, List.replicate_succ]

theorem isFolded_pushSegment {kept : List (List Char)} (folded : IsFolded rooted kept.reverse) {segment : List Char}
    (noSlash : '/' ∉ segment) (noBackslash : '\\' ∉ segment) :
    IsFolded rooted (pushSegment rooted kept segment).reverse := by
  by_cases idle : segment = [] ∨ segment = ['.']
  · have kept : pushSegment rooted kept segment = kept := by simp [pushSegment, idle]
    rwa [kept]
  · obtain ⟨notEmpty, notCurrent⟩ := not_or.mp idle
    obtain ⟨climbs, names, top, named, shape⟩ := folded
    have stack : kept = names.reverse ++ List.replicate climbs ['.', '.'] := by
      rw [← List.reverse_reverse kept, shape, List.reverse_append, List.reverse_replicate]
    subst stack
    by_cases parent : segment = ['.', '.']
    · subst parent
      rcases List.eq_nil_or_concat names with rfl | ⟨front, last, rfl⟩
      · -- There is no name to take away. Without a root there is one more climb.
        rw [List.reverse_nil, List.nil_append]
        cases rooted with
        | true =>
          obtain rfl := top rfl
          exact .of_named true (List.forall_mem_nil _)
        | false =>
          rw [pushSegment_climb, List.reverse_replicate]
          exact ⟨climbs + 1, [], (absurd · Bool.false_ne_true), named, (List.append_nil _).symm⟩
      -- The last name is taken away.
      · have lastNamed := (named last (by simp)).ne_parent
        refine ⟨climbs, front, top, fun name member => named name (by simp [member]), ?_⟩
        simp [pushSegment, lastNamed]
    · have segmentNamed : IsSegment segment := ⟨notEmpty, notCurrent, parent, noSlash, noBackslash⟩
      rw [pushSegment_of_isSegment rooted _ segmentNamed]
      refine ⟨climbs, names ++ [segment], top, ?_, by simp⟩
      simpa [or_imp, forall_and, segmentNamed] using named

theorem isFolded_foldSegments (rooted : Bool) {segments : List (List Char)}
    (plain : ∀ segment ∈ segments, '/' ∉ segment ∧ '\\' ∉ segment) :
    IsFolded rooted (foldSegments rooted segments) := by
  have run : ∀ kept : List (List Char), IsFolded rooted kept.reverse →
      IsFolded rooted (segments.foldl (pushSegment rooted) kept).reverse := by
    induction segments with
    | nil => exact fun _ folded => folded
    | cons first rest ih =>
      intro kept folded
      obtain ⟨noSlash, noBackslash⟩ := plain first List.mem_cons_self
      exact ih (fun segment member => plain segment (List.mem_cons_of_mem _ member)) _
        (isFolded_pushSegment folded noSlash noBackslash)
  exact run [] (.of_named rooted (List.forall_mem_nil _))

theorem foldSegments_idle (rooted : Bool) {piece : List Char} (idle : piece = [] ∨ piece = ['.'])
    (pieces : List (List Char)) : foldSegments rooted (piece :: pieces) = foldSegments rooted pieces := by
  simp [foldSegments, pushSegment, idle]

theorem foldSegments_climbs (climbs : Nat) :
    foldSegments false (List.replicate climbs ['.', '.']) = List.replicate climbs ['.', '.'] := by
  have run : (List.replicate climbs ['.', '.']).foldl (pushSegment false) [] = List.replicate climbs ['.', '.'] := by
    induction climbs with
    | zero => rfl
    | succ climbs ih => rw [List.replicate_succ', List.foldl_concat, ih, pushSegment_climb, List.replicate_succ']
  rw [foldSegments, run, List.reverse_replicate]

theorem IsFolded.foldSegments_eq (folded : IsFolded rooted segments) : foldSegments rooted segments = segments := by
  obtain ⟨climbs, names, top, named, rfl⟩ := folded
  rw [foldSegments_append rooted _ named]
  cases rooted with
  | true => rw [top rfl]; rfl
  | false => rw [foldSegments_climbs]

end

/-! ### Writing and reading -/

def spell (rooted : Bool) (segments : List (List Char)) : List Char :=
  if rooted then '/' :: joinSegments segments else joinSegments segments

theorem render_eq_spell {drive : List Char} {rooted : Bool} {segments : List (List Char)}
    (visible : drive ≠ [] ∨ rooted = true ∨ segments ≠ []) :
    render drive rooted segments = drive ++ spell rooted segments := by
  cases rooted with
  | true => rfl
  | false =>
    have shown : ¬ (drive = [] ∧ segments = []) := by
      rintro ⟨rfl, rfl⟩
      simp at visible
    rw [render, if_neg Bool.false_ne_true, if_neg shown, spell, if_neg Bool.false_ne_true]

theorem normalizeChars_of_splitDrive {path drive rest : List Char} (cut : splitDrive (unify path) = (drive, rest)) :
    normalizeChars path =
      render drive (rest.head? == some '/') (foldSegments (rest.head? == some '/') (rest.splitOn '/')) := by
  rw [normalizeChars, cut]

section Folded
variable {rooted : Bool} {segments : List (List Char)} (folded : IsFolded rooted segments)
include folded

theorem IsFolded.splitOn_joinSegments (inhabited : segments ≠ []) : (joinSegments segments).splitOn '/' = segments :=
  List.splitOn_intercalate '/' (fun _ member => (folded.plain member).1) inhabited

theorem IsFolded.head?_joinSegments : (joinSegments segments).head? ≠ some '/' := by
  cases segments with
  | nil => simp [joinSegments]
  | cons first rest =>
    obtain ⟨c, others, rfl⟩ := List.exists_cons_of_ne_nil (folded.ne_nil List.mem_cons_self)
    have different : c ≠ '/' := fun same => (folded.plain List.mem_cons_self).1 (by simp [same])
    simpa [joinSegments_cons] using different

theorem IsFolded.head?_spell : ((spell rooted segments).head? == some '/') = rooted := by
  cases rooted with
  | true => rfl
  | false => simpa [spell] using folded.head?_joinSegments

theorem IsFolded.foldSegments_spell : foldSegments rooted ((spell rooted segments).splitOn '/') = segments := by
  have body : foldSegments rooted ((joinSegments segments).splitOn '/') = segments := by
    by_cases empty : segments = []
    · subst empty
      cases rooted <;> rfl
    · rw [folded.splitOn_joinSegments empty, folded.foldSegments_eq]
  cases rooted with
  | true =>
    -- The separator in front leaves an empty piece, which folding drops.
    rw [spell, if_pos rfl, List.splitOn_cons_eq_if_modifyHead, if_pos (beq_self_eq_true '/'),
      foldSegments_idle true (.inl rfl), body]
  | false => rwa [spell, if_neg Bool.false_ne_true]

theorem IsFolded.not_mem_joinSegments : '\\' ∉ joinSegments segments :=
  Key.not_mem_joinSegments (by decide) fun _ member => (folded.plain member).2

theorem IsFolded.unify_spell : unify (spell rooted segments) = spell rooted segments := by
  apply unify_of_not_mem
  unfold spell
  split
  · simpa using folded.not_mem_joinSegments
  · exact folded.not_mem_joinSegments

theorem normalizeChars_behind_drive {letter : Char} (alpha : letter.isAlpha = true) :
    normalizeChars (letter :: ':' :: spell rooted segments) = letter :: ':' :: spell rooted segments := by
  have plain : letter ≠ '\\' := by
    rintro rfl
    cases alpha
  have unified : unify (letter :: ':' :: spell rooted segments) = letter :: ':' :: spell rooted segments := by
    simpa [unify, plain] using folded.unify_spell
  have cut : splitDrive (unify (letter :: ':' :: spell rooted segments)) = ([letter, ':'], spell rooted segments) := by
    simp [unified, splitDrive, alpha]
  rw [normalizeChars_of_splitDrive cut, folded.head?_spell, folded.foldSegments_spell]
  exact render_eq_spell (.inl (List.cons_ne_nil letter [':']))

theorem normalizeChars_driveless (driveless : splitDrive (spell rooted segments) = ([], spell rooted segments))
    (visible : rooted = true ∨ segments ≠ []) : normalizeChars (spell rooted segments) = spell rooted segments := by
  have cut : splitDrive (unify (spell rooted segments)) = ([], spell rooted segments) := by
    rw [folded.unify_spell, driveless]
  rw [normalizeChars_of_splitDrive cut, folded.head?_spell, folded.foldSegments_spell]
  exact render_eq_spell (.inr visible)

end Folded

/-! ### Reading a relative path again -/

/-- An ASCII letter and `:.`, which reads as a drive and a segment that stands for nothing. -/
def isDottedDrive : List Char → Bool
  | [letter, ':', '.'] => letter.isAlpha
  | _ => false

theorem isDottedDrive_iff {segment : List Char} :
    isDottedDrive segment = true ↔ ∃ letter, letter.isAlpha = true ∧ segment = [letter, ':', '.'] := by
  constructor
  · intro dotted
    unfold isDottedDrive at dotted
    split at dotted
    · next letter => exact ⟨letter, dotted, rfl⟩
    · cases dotted
  · rintro ⟨letter, alpha, rfl⟩
    exact alpha

theorem splitDrive_cases (text : List Char) :
    (∃ letter rest, letter.isAlpha = true ∧ text = letter :: ':' :: rest ∧ splitDrive text = ([letter, ':'], rest)) ∨
      splitDrive text = ([], text) := by
  unfold splitDrive
  split
  · next letter rest =>
    split
    · next alpha => exact .inl ⟨letter, rest, alpha, rfl, rfl⟩
    · exact .inr rfl
  · exact .inr rfl

def IsDrive (drive : List Char) : Prop := drive = [] ∨ ∃ letter : Char, letter.isAlpha = true ∧ drive = [letter, ':']

theorem exists_splitDrive (text : List Char) :
    ∃ drive rest, splitDrive text = (drive, rest) ∧ IsDrive drive ∧ text = drive ++ rest := by
  rcases splitDrive_cases text with ⟨letter, rest, alpha, whole, cut⟩ | cut
  · exact ⟨[letter, ':'], rest, cut, .inr ⟨letter, alpha, rfl⟩, whole⟩
  · exact ⟨[], text, cut, .inl rfl, rfl⟩

theorem exists_folded (path : List Char) :
    ∃ drive rooted segments, IsDrive drive ∧ IsFolded rooted segments ∧
      normalizeChars path = render drive rooted segments := by
  obtain ⟨drive, rest, cut, isDrive, text⟩ := exists_splitDrive (unify path)
  have plain : '\\' ∉ rest := fun inside => not_mem_unify path (text ▸ List.mem_append_right drive inside)
  exact ⟨drive, _, _, isDrive, isFolded_foldSegments _ fun _ => plain_of_mem_splitOn plain,
    normalizeChars_of_splitDrive cut⟩

section Relative
variable {first : List Char} {rest : List (List Char)} (folded : IsFolded false (first :: rest))
include folded

theorem exists_behind_drive {letter : Char} {more : List Char}
    (text : joinSegments (first :: rest) = letter :: ':' :: more) :
    ∃ inner, first = letter :: ':' :: inner ∧ more = inner ++ trail rest := by
  obtain ⟨c, others, rfl⟩ := List.exists_cons_of_ne_nil (folded.ne_nil List.mem_cons_self)
  rw [joinSegments_cons, List.cons_append] at text
  obtain ⟨rfl, behind⟩ := List.cons.inj text
  cases others with
  | nil =>
    -- Behind a lone letter there is a separator or nothing.
    cases rest <;> simp at behind
  | cons colon inner =>
    obtain ⟨rfl, same⟩ := List.cons.inj behind
    exact ⟨inner, rfl, same.symm⟩

/-- What follows the drive is a normal form of its own, but for a lone dot. -/
theorem exists_spell_behind_drive {letter : Char} {inner : List Char} (shape : first = letter :: ':' :: inner)
    (notDot : inner ≠ ['.']) :
    ∃ rooted segments, IsFolded rooted segments ∧ inner ++ trail rest = spell rooted segments := by
  have named := folded.named_of_head (by simp [shape])
  have restNamed : ∀ name ∈ rest, IsSegment name := fun name member => named name (List.mem_cons_of_mem _ member)
  have firstNamed : IsSegment (letter :: ':' :: inner) := shape ▸ named first List.mem_cons_self
  by_cases empty : inner = []
  · subst empty
    by_cases last : rest = []
    · subst last
      exact ⟨false, [], .of_named false restNamed, rfl⟩
    · exact ⟨true, rest, .of_named true restNamed, (slash_joinSegments last).symm⟩
  · refine ⟨false, inner :: rest, ?_, (joinSegments_cons inner rest).symm⟩
    by_cases parent : inner = ['.', '.']
    · subst parent
      exact ⟨1, rest, (absurd · Bool.false_ne_true), restNamed, rfl⟩
    · have innerNamed : IsSegment inner := by
        refine ⟨empty, notDot, parent, fun slash => firstNamed.no_slash ?_, fun backslash => firstNamed.no_backslash ?_⟩
        · simp [slash]
        · simp [backslash]
      exact .of_named false (by simpa [innerNamed] using restNamed)

theorem normalizeChars_dottedDrive {letter : Char} (alpha : letter.isAlpha = true)
    (shape : first = [letter, ':', '.']) :
    normalizeChars (joinSegments (first :: rest)) = letter :: ':' :: joinSegments rest := by
  have restNamed : ∀ name ∈ rest, IsSegment name := fun name member =>
    folded.named_of_head (by simp [shape]) name (List.mem_cons_of_mem _ member)
  have restFolded : IsFolded false rest := .of_named false restNamed
  have cut : splitDrive (unify (joinSegments (first :: rest))) = ([letter, ':'], ['.'] ++ trail rest) := by
    have unified : unify (joinSegments (first :: rest)) = joinSegments (first :: rest) := folded.unify_spell
    rw [unified, joinSegments_cons, shape]
    simp [splitDrive, alpha]
  have relative : ((['.'] ++ trail rest).head? == some '/') = false := by simp
  have pieces : (['.'] ++ trail rest).splitOn '/' = ['.'] :: rest := by
    rw [splitOn_append_trail (fun name member => (restNamed name member).no_slash),
      List.splitOn_eq_singleton (by decide), List.singleton_append]
  rw [normalizeChars_of_splitDrive cut, relative, pieces, foldSegments_idle false (.inr rfl),
    restFolded.foldSegments_eq]
  exact render_eq_spell (.inl (List.cons_ne_nil letter [':']))

theorem normalizeChars_relative_iff :
    normalizeChars (joinSegments (first :: rest)) = joinSegments (first :: rest) ↔ ¬ isDottedDrive first = true := by
  rcases splitDrive_cases (joinSegments (first :: rest)) with ⟨letter, more, alpha, text, -⟩ | driveless
  · obtain ⟨inner, shape, behind⟩ := exists_behind_drive folded text
    by_cases dot : inner = ['.']
    · -- The dot is gone when the text is read again.
      rw [dot] at shape
      have dotted : isDottedDrive first = true := isDottedDrive_iff.mpr ⟨letter, alpha, shape⟩
      refine iff_of_false ?_ (not_not_intro dotted)
      rw [normalizeChars_dottedDrive folded alpha shape, joinSegments_cons, shape]
      intro same
      have lengths := congrArg List.length same
      cases rest with
      | nil => simp [joinSegments] at lengths
      | cons next others => simp [joinSegments_cons] at lengths
    · have undotted : ¬ isDottedDrive first = true := by
        rw [isDottedDrive_iff]
        rintro ⟨other, -, same⟩
        rw [shape] at same
        exact dot (List.cons.inj (List.cons.inj same).2).2
      refine iff_of_true ?_ undotted
      obtain ⟨rooted, segments, behindFolded, spelled⟩ := exists_spell_behind_drive folded shape dot
      rw [text, behind, spelled]
      exact normalizeChars_behind_drive behindFolded alpha
  · have undotted : ¬ isDottedDrive first = true := by
      rw [isDottedDrive_iff]
      rintro ⟨letter, alpha, rfl⟩
      simp [joinSegments_cons, splitDrive, alpha] at driveless
    exact iff_of_true (normalizeChars_driveless folded driveless (.inr (List.cons_ne_nil first rest))) undotted

end Relative

/-! ### Normalising twice -/

/-- A path without a root or a drive whose first surviving segment is an ASCII letter and `:.`. -/
structure ReadsAsDrive (path : String) : Prop where
  rootless : (unify path.toList).head? ≠ some '/'
  driveless : (splitDrive (unify path.toList)).1 = []
  dotted : ∃ letter : Char, letter.isAlpha = true ∧
    (foldSegments false ((unify path.toList).splitOn '/')).head? = some [letter, ':', '.']

theorem any_isDottedDrive_iff {first : Option (List Char)} :
    first.any isDottedDrive = true ↔ ∃ letter : Char, letter.isAlpha = true ∧ first = some [letter, ':', '.'] := by
  cases first <;> simp [isDottedDrive_iff]

instance (path : String) : Decidable (ReadsAsDrive path) :=
  decidable_of_iff ((unify path.toList).head? ≠ some '/' ∧ (splitDrive (unify path.toList)).1 = [] ∧
    (foldSegments false ((unify path.toList).splitOn '/')).head?.any isDottedDrive = true)
    ⟨fun ⟨rootless, driveless, dotted⟩ => ⟨rootless, driveless, any_isDottedDrive_iff.mp dotted⟩,
      fun ⟨rootless, driveless, dotted⟩ => ⟨rootless, driveless, any_isDottedDrive_iff.mpr dotted⟩⟩

theorem readsAsDrive_iff {path : String} (rootless : (unify path.toList).head? ≠ some '/')
    (driveless : (splitDrive (unify path.toList)).1 = []) :
    ReadsAsDrive path ↔ (foldSegments false ((unify path.toList).splitOn '/')).head?.any isDottedDrive = true := by
  rw [any_isDottedDrive_iff]
  exact ⟨ReadsAsDrive.dotted, fun dotted => ⟨rootless, driveless, dotted⟩⟩

theorem normalizeChars_normalizeChars_iff (path : String) :
    normalizeChars (normalizeChars path.toList) = normalizeChars path.toList ↔ ¬ ReadsAsDrive path := by
  have folded : ∀ rooted {text : List Char}, '\\' ∉ text → IsFolded rooted (foldSegments rooted (text.splitOn '/')) :=
    fun rooted _ plain => isFolded_foldSegments rooted fun _ => plain_of_mem_splitOn plain
  have plain := not_mem_unify path.toList
  rcases splitDrive_cases (unify path.toList) with ⟨letter, rest, alpha, text, cut⟩ | cut
  · -- With a drive in front, what was written behind it is read behind it.
    have restPlain : '\\' ∉ rest := fun inside => plain (by rw [text]; simp [inside])
    refine iff_of_true ?_ fun unstable => ?_
    · rw [normalizeChars_of_splitDrive cut, render_eq_spell (.inl (List.cons_ne_nil letter [':']))]
      exact normalizeChars_behind_drive (folded _ restPlain) alpha
    · have none := unstable.driveless
      rw [cut] at none
      cases none
  · have written := normalizeChars_of_splitDrive cut
    cases rooted : (unify path.toList).head? == some '/' with
    | true =>
      rw [rooted, render_eq_spell (.inr (.inl rfl)), List.nil_append] at written
      refine iff_of_true ?_ fun unstable => unstable.rootless (by simpa using rooted)
      rw [written]
      exact normalizeChars_driveless (folded true plain) (splitDrive_slash _) (.inl rfl)
    | false =>
      have keptFolded := folded false plain
      rw [rooted] at written
      rw [readsAsDrive_iff (by simpa using rooted) (by rw [cut]), written]
      -- Only here may the first segment be taken for a drive.
      cases kept : foldSegments false ((unify path.toList).splitOn '/') with
      | nil => decide
      | cons first rest =>
        rw [kept] at keptFolded
        exact normalizeChars_relative_iff keptFolded

/-- A path that begins with a separator has a key of plain segments below a root. Normalising a second time changes
nothing, except where the first segment that survived is taken for a drive with a dot behind it. -/
theorem normalize_normalForm (path : String) :
    (path.toList.head? = some '/' ∨ path.toList.head? = some '\\' →
      ∃ segments : List (List Char), (normalize path).toList = '/' :: joinSegments segments ∧
        ∀ segment ∈ segments, segment ≠ [] ∧ segment ≠ ['.'] ∧ segment ≠ ['.', '.'] ∧
          '/' ∉ segment ∧ '\\' ∉ segment) ∧
    (normalize (normalize path) = normalize path ↔ ¬ ReadsAsDrive path) := by
  constructor
  · intro separator
    have absolute : (unify path.toList).head? = some '/' := by
      rw [unify, List.head?_map]
      rcases separator with slash | backslash
      · rw [slash]; rfl
      · rw [backslash]; rfl
    refine ⟨segments path.toList, ?_, ?_⟩
    · rw [toList_normalize, normalizeChars_of_absolute absolute]
    · intro segment member
      obtain ⟨notEmpty, notCurrent, notParent, noSlash, noBackslash⟩ := isSegment_of_mem_segments member
      exact ⟨notEmpty, notCurrent, notParent, noSlash, noBackslash⟩
  · rw [← normalizeChars_normalizeChars_iff, ← String.toList_inj]
    simp

/-- Back slashes in front and between make a rooted key, and a name that is left in front after folding a drive. -/
theorem normalize_normalForm_strayDrive :
    (∃ segments : List (List Char), (normalize "\\a/..\\C:.//b").toList = '/' :: joinSegments segments ∧
        ∀ segment ∈ segments, segment ≠ [] ∧ segment ≠ ['.'] ∧ segment ≠ ['.', '.'] ∧
          '/' ∉ segment ∧ '\\' ∉ segment) ∧
      normalize (normalize "\\a/..\\C:.//b") = normalize "\\a/..\\C:.//b" ∧
      normalize (normalize "a/..\\C:.//b") ≠ normalize "a/..\\C:.//b" := by
  obtain ⟨rooted, stable⟩ := normalize_normalForm "\\a/..\\C:.//b"
  obtain ⟨-, unstable⟩ := normalize_normalForm "a/..\\C:.//b"
  refine ⟨rooted (.inr rfl), stable.mpr (by decide), fun same => ?_⟩
  exact unstable.mp same (by decide)

end Orphans.Key
