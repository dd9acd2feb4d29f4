import Mathlib.Data.List.Basic
import Orphans.Classification
import Orphans.Report.Dot

/-! Reading a DOT document back.

The reader passes over the text once, from left to right. What stands between quotes becomes one token and
every other character a token of its own, so that neither a line break nor a statement inside a label counts
as one. The tokens are then cut into lines, and each line is read alone. What the reader finds in a printed
document are the lists that were printed.
-/

set_option autoImplicit false

namespace Orphans.Report

/-! ### The reader -/

inductive Token where
  | quoted (text : String)
  | plain (c : Char)
  deriving DecidableEq, Repr

/-- The tokens of a text. While a label is open, `some inside` holds what has been read of it, the last
character first; a label that is never closed leaves no tokens. -/
def scan : Option (List Char) → List Char → Option (List Token)
  | none, [] => some []
  | some _, [] => none
  | none, '"' :: rest => scan (some []) rest
  | none, c :: rest => (scan none rest).map (.plain c :: ·)
  | some inside, '\\' :: '\\' :: rest => scan (some ('\\' :: inside)) rest
  | some inside, '\\' :: '"' :: rest => scan (some ('"' :: inside)) rest
  | some inside, '"' :: rest => (scan none rest).map (.quoted (.ofList inside.reverse) :: ·)
  | some inside, c :: rest => scan (some (c :: inside)) rest

inductive Statement where
  | node (standing : Standing) (file : String)
  | edge (edge : Edge)
  deriving DecidableEq, Repr

def colour : Standing → String
  | .referenced => referencedColour
  | .unreferenced => unreferencedColour
  | .exempt => exemptColour

def colouring (standing : Standing) : List Char :=
  " [fillcolor=".toList ++ (colour standing).toList ++ "];".toList

def standing? (tokens : List Token) : Option Standing :=
  [Standing.referenced, .unreferenced, .exempt].find? fun standing =>
    tokens = (colouring standing).map .plain

def statement? : List Token → Option Statement
  | .plain ' ' :: .plain ' ' :: .quoted importer :: .plain ' ' :: .plain '-' :: .plain '>' :: .plain ' ' ::
      .quoted imported :: [.plain ';'] => some (.edge ⟨importer, imported⟩)
  | .plain ' ' :: .plain ' ' :: .quoted file :: rest => (standing? rest).map (.node · file)
  | _ => none

def statements (tokens : List Token) : List Statement :=
  (tokens.splitOn (.plain '\n')).filterMap statement?

def Statement.file? (standing : Standing) : Statement → Option String
  | .node own file => if own = standing then some file else none
  | .edge _ => none

def Statement.edge? : Statement → Option Edge
  | .node _ _ => none
  | .edge arrow => some arrow

structure Drawing where
  referenced : List String
  unreferenced : List String
  exempt : List String
  edges : List Edge
  deriving DecidableEq, Repr

namespace Drawing

def ofStatements (statements : List Statement) : Drawing where
  referenced := statements.filterMap (Statement.file? .referenced)
  unreferenced := statements.filterMap (Statement.file? .unreferenced)
  exempt := statements.filterMap (Statement.file? .exempt)
  edges := statements.filterMap Statement.edge?

def read (document : String) : Option Drawing :=
  (scan none document.toList).map fun tokens => ofStatements (statements tokens)

def ofAnalysis (analysis : Analysis) : Drawing :=
  ⟨analysis.referenced, analysis.unreferenced, analysis.exempt, analysis.edges⟩

end Drawing

/-! ### Tokens of what is printed -/

theorem scan_append {reading : Option (List Char)} {text : List Char} {tokens : List Token}
    (scanned : scan reading text = some tokens) (rest : List Char) :
    scan reading (text ++ rest) = (scan none rest).map (tokens ++ ·) := by
  fun_induction scan reading text generalizing tokens with
  | case1 =>
    obtain rfl := Option.some.inj scanned
    simp
  | case2 => cases scanned
  | case3 text ih => simpa [scan] using ih scanned
  | case4 c text bare ih =>
    obtain ⟨later, found, rfl⟩ := Option.map_eq_some_iff.mp scanned
    simp [scan, ih found, Function.comp_def]
  | case5 inside text ih => simpa [scan] using ih scanned
  | case6 inside text ih => simpa [scan] using ih scanned
  | case7 inside text ih =>
    obtain ⟨later, found, rfl⟩ := Option.map_eq_some_iff.mp scanned
    simp [scan, ih found, Function.comp_def]
  | case8 inside c text notSlash notQuote bare ih =>
    -- The label is still open behind `c`, so `text` goes on and settles whether `c` escapes something.
    cases text with
    | nil => simp [scan] at scanned
    | cons next text =>
      simp only [List.cons.injEq] at notSlash notQuote
      have step : scan (some inside) (c :: next :: text ++ rest) =
          scan (some (c :: inside)) (next :: text ++ rest) := by
        simp only [List.cons_append]
        rw [scan]
        all_goals grind
      rw [step]
      exact ih scanned

theorem scan_plain {text : List Char} (bare : '"' ∉ text) : scan none text = some (text.map .plain) := by
  induction text with
  | nil => rfl
  | cons c rest ih =>
    have notQuote : c ≠ '"' := fun quote => bare (quote ▸ List.mem_cons_self)
    have bareRest : '"' ∉ rest := fun inside => bare (List.mem_cons_of_mem _ inside)
    simp [scan, ih bareRest]

theorem scan_escaped (inside text : List Char) :
    scan (some inside) (text.flatMap escapeLabelChar ++ ['"']) =
      some [.quoted (.ofList (inside.reverse ++ text))] := by
  induction text generalizing inside with
  | nil => simp [scan]
  | cons c rest ih =>
    rw [List.flatMap_cons, List.append_assoc, escapeLabelChar]
    by_cases slash : c = '\\'
    · simp [slash, scan, ih]
    · by_cases quote : c = '"'
      · simp [quote, scan, ih]
      · simp [slash, quote, scan, ih]

@[simp] theorem scan_label (text : String) : scan none (label text) = some [.quoted text] := by
  simp [label, scan, scan_escaped]

/-- A label is read back as it was, whatever stands in it and whatever follows. -/
theorem scan_label_append (text : String) (rest : List Char) :
    scan none (label text ++ rest) = (scan none rest).map (.quoted text :: ·) :=
  scan_append (scan_label text) rest

example : scan none (label "a\" -> \"b\\\n" ++ [';']) = some [.quoted "a\" -> \"b\\\n", .plain ';'] := by
  decide

def nodeTokens (standing : Standing) (file : String) : List Token :=
  .plain ' ' :: .plain ' ' :: .quoted file :: (colouring standing).map .plain

def edgeTokens (edge : Edge) : List Token :=
  [.plain ' ', .plain ' ', .quoted edge.importer, .plain ' ', .plain '-', .plain '>', .plain ' ',
    .quoted edge.imported, .plain ';']

theorem scan_nodeLine (standing : Standing) (file : String) :
    scan none (nodeLine (colour standing) file) = some (nodeTokens standing file) := by
  have bare : '"' ∉ colouring standing := by cases standing <;> decide
  have printed : nodeLine (colour standing) file = ' ' :: ' ' :: (label file ++ colouring standing) := by
    unfold nodeLine colouring
    simp only [List.append_assoc]
  rw [printed]
  simp [scan, scan_label_append, scan_plain bare, nodeTokens]

theorem scan_edgeLine (edge : Edge) : scan none (edgeLine edge) = some (edgeTokens edge) := by
  have arrow : " -> ".toList = [' ', '-', '>', ' '] := by decide
  simp [edgeLine, arrow, scan, scan_label_append, edgeTokens]

/-! ### Statements of what is printed -/

/-- The lines are read as the statements, whatever follows them. -/
def Shows (lines : List (List Char)) (shown : List Statement) : Prop :=
  ∃ tokens, scan none (lines.flatMap fun line => line ++ ['\n']) = some tokens ∧
    ∀ later, statements (tokens ++ later) = shown ++ statements later

namespace Shows

theorem nil : Shows [] [] := ⟨[], rfl, fun _ => rfl⟩

theorem line {line : List Char} {tokens : List Token} (scanned : scan none line = some tokens)
    (unbroken : .plain '\n' ∉ tokens) : Shows [line] (statement? tokens).toList := by
  refine ⟨tokens ++ [.plain '\n'], ?_, fun later => ?_⟩
  · rw [List.flatMap_singleton, scan_append scanned]
    rfl
  · rw [statements, List.append_assoc, List.singleton_append, List.splitOn_append_cons_self,
      List.splitOn_eq_singleton unbroken, List.filterMap_append]
    cases found : statement? tokens <;> simp [found, statements]

theorem append {first second : List (List Char)} {shown others : List Statement} (left : Shows first shown)
    (right : Shows second others) : Shows (first ++ second) (shown ++ others) := by
  obtain ⟨tokens, scanned, reads⟩ := left
  obtain ⟨more, scannedToo, readsToo⟩ := right
  refine ⟨tokens ++ more, ?_, fun later => ?_⟩
  · rw [List.flatMap_append, scan_append scanned, scannedToo]
    rfl
  · rw [List.append_assoc, reads, readsToo, List.append_assoc]

theorem map {α : Type} {print : α → List Char} {statement : α → Statement}
    (each : ∀ value, Shows [print value] [statement value]) (values : List α) :
    Shows (values.map print) (values.map statement) := by
  induction values with
  | nil => exact nil
  | cons first rest ih => exact (each first).append ih

theorem node (standing : Standing) (file : String) :
    Shows [nodeLine (colour standing) file] [.node standing file] := by
  have unbroken : .plain '\n' ∉ nodeTokens standing file := by
    have bare : '\n' ∉ colouring standing := by cases standing <;> decide
    simpa [nodeTokens] using bare
  have found : standing? ((colouring standing).map .plain) = some standing := by cases standing <;> decide
  -- A colouring begins with a bracket, so it is not mistaken for an arrow.
  obtain ⟨rest, shape⟩ : ∃ rest, colouring standing = ' ' :: '[' :: rest :=
    ⟨(colouring standing).drop 2, by cases standing <;> decide⟩
  have read : statement? (nodeTokens standing file) = some (.node standing file) := by
    rw [shape] at found
    simp only [List.map_cons] at found
    simp [nodeTokens, shape, statement?, found]
  simpa [read] using line (scan_nodeLine standing file) unbroken

theorem edge (edge : Edge) : Shows [edgeLine edge] [.edge edge] :=
  line (scan_edgeLine edge) (by simp [edgeTokens])

theorem silent {lines : List (List Char)}
    (quiet : ∀ line ∈ lines, (scan none line).any fun tokens =>
      .plain '\n' ∉ tokens ∧ statement? tokens = none) : Shows lines [] := by
  induction lines with
  | nil => exact nil
  | cons first rest ih =>
    obtain ⟨tokens, scanned, unbroken⟩ := (Option.any_eq_true _ _).mp (quiet first List.mem_cons_self)
    obtain ⟨unbroken, nothing⟩ := of_decide_eq_true unbroken
    have alone := line scanned unbroken
    rw [nothing] at alone
    exact alone.append (ih fun line member => quiet line (List.mem_cons_of_mem _ member))

end Shows

theorem shows_dotLines (analysis : Analysis) :
    Shows (dotLines analysis)
      (analysis.referenced.map (.node .referenced) ++ analysis.unreferenced.map (.node .unreferenced) ++
        analysis.exempt.map (.node .exempt) ++ analysis.edges.map .edge) := by
  have opening : Shows (dotOpening.map String.toList) [] := .silent (by decide +kernel)
  have gap : Shows [[]] [] := .silent (by decide)
  have closing : Shows (dotClosing.map String.toList) [] := .silent (by decide)
  have nodes := ((Shows.map (Shows.node .referenced) analysis.referenced).append
    (.map (Shows.node .unreferenced) analysis.unreferenced)).append
    (.map (Shows.node .exempt) analysis.exempt)
  have edges := Shows.map Shows.edge analysis.edges
  simpa [dotLines, colour] using (((opening.append nodes).append gap).append edges).append closing

namespace Drawing

theorem ofStatements_append (first second : List Statement) :
    ofStatements (first ++ second) =
      ⟨(ofStatements first).referenced ++ (ofStatements second).referenced,
        (ofStatements first).unreferenced ++ (ofStatements second).unreferenced,
        (ofStatements first).exempt ++ (ofStatements second).exempt,
        (ofStatements first).edges ++ (ofStatements second).edges⟩ := by
  simp only [ofStatements, List.filterMap_append]

theorem ofStatements_nodes (standing : Standing) (files : List String) :
    ofStatements (files.map (.node standing)) =
      ⟨if standing = .referenced then files else [], if standing = .unreferenced then files else [],
        if standing = .exempt then files else [], []⟩ := by
  cases standing <;> simp [ofStatements, List.filterMap_map, Function.comp_def, Statement.file?, Statement.edge?]

theorem ofStatements_edges (edges : List Edge) : ofStatements (edges.map .edge) = ⟨[], [], [], edges⟩ := by
  simp [ofStatements, List.filterMap_map, Function.comp_def, Statement.file?, Statement.edge?]

theorem read_dot (analysis : Analysis) : read (dot analysis) = some (ofAnalysis analysis) := by
  obtain ⟨tokens, scanned, reads⟩ := shows_dotLines analysis
  have shown := reads []
  rw [List.append_nil] at shown
  have nothing : statements [] = [] := rfl
  rw [read, dot, String.toList_ofList, scanned, Option.map_some, shown, nothing]
  simp [ofStatements_append, ofStatements_nodes, ofStatements_edges, ofAnalysis]

end Drawing

def replaceChar (old : Char) (new text : List Char) : List Char :=
  text.flatMap fun c => if c = old then new else [c]

/-- Back slashes have to be doubled before quotes bring in new ones. -/
theorem flatMap_escapeLabelChar (text : List Char) :
    text.flatMap escapeLabelChar = replaceChar '"' ['\\', '"'] (replaceChar '\\' ['\\', '\\'] text) := by
  rw [replaceChar, replaceChar, List.flatMap_assoc]
  congr 1
  funext c
  by_cases slash : c = '\\'
  · simp [escapeLabelChar, slash]
  · simp [escapeLabelChar, slash]

theorem dot_reads_back :
    (∀ analysis : Analysis, Drawing.read (dot analysis) = some (.ofAnalysis analysis)) ∧
    (∀ first second : Analysis,
      dot first = dot second ↔ Drawing.ofAnalysis first = Drawing.ofAnalysis second) ∧
    (∀ (text : String) (rest : List Char),
      scan none (label text ++ rest) = (scan none rest).map (.quoted text :: ·)) ∧
    (∀ text : String, label text =
      '"' :: (replaceChar '"' ['\\', '"'] (replaceChar '\\' ['\\', '\\'] text.toList) ++ ['"'])) := by
  refine ⟨Drawing.read_dot, fun first second => ⟨fun same => ?_, fun same => ?_⟩, scan_label_append,
    fun text => by rw [label, flatMap_escapeLabelChar]⟩
  · have again := Drawing.read_dot second
    rw [← same, Drawing.read_dot first] at again
    exact Option.some.inj again
  · obtain ⟨referenced, unreferenced, exempt, edges⟩ := (Drawing.mk.injEq ..).mp same
    rw [dot, dot, dotLines, dotLines, referenced, unreferenced, exempt, edges]

end Orphans.Report
