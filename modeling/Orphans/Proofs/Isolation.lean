import Orphans.Proofs.Analysis
import Orphans.Proofs.Schedule

/-! Units that fail.

The unit of a file may break down, and a file may be no text or not there. Neither is felt by the other
files: the outcome of a failed unit has no targets and no specifiers, so the sets and the counter of
specifiers are those of the other files, and what the failure leaves is its diagnostic. The file itself
stays known, and imports still reach it.
-/

set_option autoImplicit false

namespace Orphans

namespace References

variable {outcome : Candidate → Outcome} {files : List Candidate} {failing : Candidate → Bool}

theorem mem_flatMap_filter {α : Type} {brings : Candidate → List α}
    (barren : ∀ file ∈ files, failing file = true → brings file = []) {value : α} :
    value ∈ files.flatMap brings ↔ value ∈ (files.filter fun file => !failing file).flatMap brings := by
  simp only [List.mem_flatMap, List.mem_filter, Bool.not_eq_true', and_assoc]
  constructor
  · rintro ⟨file, member, brought⟩
    refine ⟨file, member, ?_, brought⟩
    cases fails : failing file with
    | false => rfl
    | true =>
      rw [barren file member fails] at brought
      cases brought
  · rintro ⟨file, member, -, brought⟩
    exact ⟨file, member, brought⟩

theorem sum_map_filter {weight : Candidate → Nat}
    (weightless : ∀ file ∈ files, failing file = true → weight file = 0) :
    (files.map weight).sum = ((files.filter fun file => !failing file).map weight).sum := by
  induction files with
  | nil => rfl
  | cons file rest ih =>
    have later := ih fun other member => weightless other (List.mem_cons_of_mem file member)
    cases fails : failing file with
    | false => simp [fails, later]
    | true => simp [fails, later, weightless file List.mem_cons_self fails]

theorem filterMap_perm_of_test {α β : Type} {values : List α} {gives : α → Option β} {test : α → Bool}
    {given : α → β} (known : ∀ value ∈ values, test value = true → gives value = some (given value)) :
    (values.filterMap gives).Perm
      ((values.filter fun value => !test value).filterMap gives ++ (values.filter test).map given) := by
  have told : (values.filter test).filterMap gives = (values.filter test).map given := by
    rw [← List.filterMap_eq_map]
    refine List.filterMap_congr fun value member => ?_
    obtain ⟨inside, passes⟩ := List.mem_filter.mp member
    exact known value inside passes
  have split := (List.filter_append_perm test values).symm.filterMap gives
  rw [List.filterMap_append, told] at split
  exact split.trans List.perm_append_comm

/-- Files that bring no targets and no specifiers are seen in the number of units and in the diagnostics. -/
theorem ofOutcomes_filter
    (noTargets : ∀ file ∈ files, failing file = true → (outcome file).targets = [])
    (noSpecifiers : ∀ file ∈ files, failing file = true → (outcome file).specifiers = 0) :
    ofOutcomes (files.map outcome) =
      { ofOutcomes ((files.filter fun file => !failing file).map outcome) with
        units := files.length
        diagnostics := files.filterMap fun file => (outcome file).diagnostic } := by
  have noEdges : ∀ file ∈ files, failing file = true → (outcome file).edges = [] := by
    intro file member fails
    rw [Outcome.edges, noTargets file member fails, List.map_nil]
  simp only [ofOutcomes_eq_summary, summary, List.flatMap_map, List.map_map, List.filterMap_map, List.length_map,
    References.mk.injEq, true_and, Function.comp_def]
  exact ⟨Ascending.ofList_congr fun key => mem_flatMap_filter noTargets,
    Ascending.ofList_congr fun edge => mem_flatMap_filter noEdges, sum_map_filter noSpecifiers⟩

theorem diagnostics_ofOutcomes : (ofOutcomes (files.map outcome)).diagnostics =
    files.filterMap fun file => (outcome file).diagnostic := by
  rw [ofOutcomes_eq_summary]
  exact List.filterMap_map ..

end References

namespace Linker

variable (linker : Linker) (fileSystem : FileSystem) (breaks : Candidate → Option (Option String))

def unit (file : Candidate) : Except (Option String) Outcome :=
  match breaks file with
  | some text => .error text
  | none => .ok (linker.outcome fileSystem file)

def Fails (file : Candidate) : Prop :=
  (breaks file).isSome = true ∨ ∃ refusal, fileSystem.readText file.path = .error refusal

def contribution (file : Candidate) : Outcome := (Task.attempt (linker.unit fileSystem breaks) file).outcome

section Units
variable {linker fileSystem breaks} {file : Candidate}

theorem contribution_of_broken {text : Option String} (broken : breaks file = some text) :
    linker.contribution fileSystem breaks file =
      ⟨file.key, 0, [], some (Failure.worker file.path (text.getD "unknown panic")).toDiagnostic⟩ := by
  simp [contribution, Task.attempt, Task.outcome, unit, broken]

theorem contribution_of_whole (whole : breaks file = none) :
    linker.contribution fileSystem breaks file = linker.outcome fileSystem file := by
  simp [contribution, Task.attempt, Task.outcome, unit, whole]

theorem outcome_of_refusal {refusal : Refusal} (read : fileSystem.readText file.path = .error refusal) :
    linker.outcome fileSystem file = outcomeOfRefusal file refusal := by
  rw [outcome, read]

theorem outcome_of_empty (read : fileSystem.readText file.path = .ok "") :
    linker.outcome fileSystem file = ⟨file.key, 0, [], none⟩ := by
  simp [outcome, read, outcomeOfText, Import.specifiers_empty, targets, Ascending.ofList]

theorem contribution_of_fails (linker : Linker) (fails : Fails fileSystem breaks file) :
    ∃ report : Diagnostic, linker.contribution fileSystem breaks file = ⟨file.key, 0, [], some report⟩ ∧
      report.path = some file.path ∧
      report.kind = if (breaks file).isSome then .workerFailure else .unreadableFile := by
  cases broken : breaks file with
  | some text => exact ⟨_, contribution_of_broken broken, rfl, by simp [Failure.toDiagnostic, Failure.diagnosticKind]⟩
  | none =>
    obtain ⟨refusal, read⟩ := fails.resolve_left (by simp [broken])
    have left : linker.contribution fileSystem breaks file = outcomeOfRefusal file refusal := by
      rw [contribution_of_whole broken, outcome_of_refusal read]
    exact ⟨_, left, rfl, by simp [Failure.toDiagnostic, Failure.diagnosticKind]⟩

end Units

theorem run_unit (pool : Pool) (workers : 1 ≤ pool.jobs) (files : List Candidate) :
    pool.run false (files.map (Task.attempt (linker.unit fileSystem breaks))) =
      .ok (.ofOutcomes (files.map (linker.contribution fileSystem breaks))) :=
  pool.run_attempt (linker.unit fileSystem breaks) workers files

/-- The references of all files against those of the files that do not fail, with the diagnostics that
the failures leave. -/
structure Isolates (files : List Candidate) (failing : Candidate → Bool) (whole remaining : References)
    (report : Candidate → Diagnostic) : Prop where
  units : whole.units = files.length
  referenced : whole.referenced = remaining.referenced
  edges : whole.edges = remaining.edges
  specifiers : whole.specifiers = remaining.specifiers
  diagnostics : whole.diagnostics.Perm (remaining.diagnostics ++ (files.filter failing).map report)
  path : ∀ file ∈ files, failing file = true → (report file).path = some file.path
  kind : ∀ file ∈ files, failing file = true →
    (report file).kind = if (breaks file).isSome then .workerFailure else .unreadableFile
  /-- A failed file is still reached by the others. -/
  reached : ∀ importer ∈ files, breaks importer = none → ∀ imported ∈ files, failing imported = true →
    imported.key ∈ linker.known →
    importer.Reaches fileSystem linker.scheme linker.resolver imported.key →
      ⟨importer.key, imported.key⟩ ∈ whole.edges ∧ imported.key ∈ whole.referenced

section Runs
variable {linker fileSystem breaks} {files : List Candidate} {failing : Candidate → Bool}
  (fails : ∀ file ∈ files, failing file = true → Fails fileSystem breaks file)
include fails

theorem exists_report (linker : Linker) : ∃ report : Candidate → Diagnostic, ∀ file ∈ files, failing file = true →
    linker.contribution fileSystem breaks file = ⟨file.key, 0, [], some (report file)⟩ ∧
    (report file).path = some file.path ∧
    (report file).kind = if (breaks file).isSome then .workerFailure else .unreadableFile := by
  have each : ∀ file, ∃ report : Diagnostic, file ∈ files → failing file = true →
      linker.contribution fileSystem breaks file = ⟨file.key, 0, [], some report⟩ ∧
      report.path = some file.path ∧
      report.kind = if (breaks file).isSome then .workerFailure else .unreadableFile := by
    intro file
    by_cases failed : file ∈ files ∧ failing file = true
    · obtain ⟨report, left⟩ := contribution_of_fails linker (fails file failed.1 failed.2)
      exact ⟨report, fun _ _ => left⟩
    · exact ⟨⟨.workerFailure, none, ""⟩, fun member failing => absurd ⟨member, failing⟩ failed⟩
  exact ⟨fun file => (each file).choose, fun file => (each file).choose_spec⟩

theorem ofOutcomes_of_fails :
    References.ofOutcomes (files.map (linker.contribution fileSystem breaks)) =
      { References.ofOutcomes ((files.filter fun file => !failing file).map
          (linker.contribution fileSystem breaks)) with
        units := files.length
        diagnostics := files.filterMap fun file => (linker.contribution fileSystem breaks file).diagnostic } := by
  obtain ⟨report, left⟩ := exists_report fails linker
  exact References.ofOutcomes_filter (fun file member failed => by rw [(left file member failed).1])
    (fun file member failed => by rw [(left file member failed).1])

theorem isolates {report : Candidate → Diagnostic}
    (left : ∀ file ∈ files, failing file = true →
      linker.contribution fileSystem breaks file = ⟨file.key, 0, [], some (report file)⟩ ∧
      (report file).path = some file.path ∧
      (report file).kind = if (breaks file).isSome then .workerFailure else .unreadableFile) :
    linker.Isolates fileSystem breaks files failing
      (.ofOutcomes (files.map (linker.contribution fileSystem breaks)))
      (.ofOutcomes ((files.filter fun file => !failing file).map (linker.contribution fileSystem breaks)))
      report where
  units := by rw [References.units_ofOutcomes, List.length_map]
  referenced := by rw [ofOutcomes_of_fails fails]
  edges := by rw [ofOutcomes_of_fails fails]
  specifiers := by rw [ofOutcomes_of_fails fails]
  diagnostics := by
    rw [References.diagnostics_ofOutcomes, References.diagnostics_ofOutcomes]
    exact References.filterMap_perm_of_test fun file member failed => by rw [(left file member failed).1]
  path file member failed := (left file member failed).2.1
  kind file member failed := (left file member failed).2.2
  reached importer importing whole imported _ _ known reaches := by
    have target : imported.key ∈ (linker.contribution fileSystem breaks importer).targets := by
      rw [contribution_of_whole whole]
      exact (linker.mem_targets_outcome fileSystem importer).mpr ⟨reaches, known⟩
    have source : importer.key = (linker.contribution fileSystem breaks importer).file := by
      rw [contribution_of_whole whole, file_outcome]
    exact ⟨References.mem_edges_ofOutcomes.mpr ⟨_, List.mem_map_of_mem importing, source, target⟩,
      References.mem_referenced_ofOutcomes.mpr ⟨_, List.mem_map_of_mem importing, target⟩⟩

variable {emptied : FileSystem}
  (reads : ∀ file ∈ files, emptied.readText file.path =
    if failing file && (breaks file).isNone then .ok "" else fileSystem.readText file.path)
include reads

theorem contribution_emptied {file : Candidate} (member : file ∈ files) :
    linker.contribution emptied breaks file =
      { linker.contribution fileSystem breaks file with
        diagnostic := if failing file && (breaks file).isNone then none
          else (linker.contribution fileSystem breaks file).diagnostic } := by
  have read := reads file member
  cases broken : breaks file with
  | some text => simp [contribution_of_broken broken]
  | none =>
    simp only [contribution_of_whole broken]
    cases failed : failing file with
    | true =>
      obtain ⟨refusal, refused⟩ := (fails file member failed).resolve_left (by simp [broken])
      simp only [failed, broken, Option.isNone_none, Bool.and_self, if_true] at read
      simp [outcome_of_empty read, outcome_of_refusal refused, outcomeOfRefusal]
    | false =>
      simp only [failed, Bool.false_and, Bool.false_eq_true, if_false] at read
      simp [outcome, read]

theorem ofOutcomes_emptied (linker : Linker) :
    References.ofOutcomes (files.map (linker.contribution emptied breaks)) =
      { References.ofOutcomes (files.map (linker.contribution fileSystem breaks)) with
        diagnostics := (files.filter fun file => !(failing file && (breaks file).isNone)).filterMap fun file =>
          (linker.contribution fileSystem breaks file).diagnostic } := by
  have same : files.map (linker.contribution emptied breaks) = files.map fun file =>
      { linker.contribution fileSystem breaks file with
        diagnostic := if failing file && (breaks file).isNone then none
          else (linker.contribution fileSystem breaks file).diagnostic } :=
    List.map_congr_left fun file member => contribution_emptied fails reads member
  have kept : files.filterMap (fun file => if failing file && (breaks file).isNone then none
        else (linker.contribution fileSystem breaks file).diagnostic) =
      (files.filter fun file => !(failing file && (breaks file).isNone)).filterMap fun file =>
        (linker.contribution fileSystem breaks file).diagnostic := by
    rw [List.filterMap_filter]
    refine List.filterMap_congr fun file _ => ?_
    cases failing file && (breaks file).isNone <;> rfl
  rw [same, References.ofOutcomes_eq_summary, References.ofOutcomes_eq_summary]
  simp only [References.summary, List.flatMap_map, List.map_map, List.filterMap_map, List.length_map,
    Function.comp_def, Outcome.edges, kept]

end Runs

/-- Failing units leave the other files alone. However the work is split, the run has the result of the
files that do not fail, one diagnostic more for each that does, and all of them as units. -/
theorem run_isolates_failures {pool : Pool} (workers : 1 ≤ pool.jobs) {files : List Candidate}
    {failing : Candidate → Bool} (fails : ∀ file ∈ files, failing file = true → Fails fileSystem breaks file) :
    ∃ (whole remaining : References) (report : Candidate → Diagnostic),
      pool.run false (files.map (Task.attempt (linker.unit fileSystem breaks))) = .ok whole ∧
      pool.run false ((files.filter fun file => !failing file).map
        (Task.attempt (linker.unit fileSystem breaks))) = .ok remaining ∧
      linker.Isolates fileSystem breaks files failing whole remaining report ∧
      (∀ schedule : Schedule Candidate, schedule.items = files →
        schedule.merge (fun file => (Task.attempt (linker.unit fileSystem breaks) file).contribution false) =
          whole) ∧
      ((∀ file, breaks file = none) →
        linker.collect fileSystem pool false files = .ok whole ∧
        linker.collect fileSystem pool false (files.filter fun file => !failing file) = .ok remaining) ∧
      ∀ emptied : FileSystem,
        (∀ file ∈ files, emptied.readText file.path =
          if failing file && (breaks file).isNone then .ok "" else fileSystem.readText file.path) →
        ∃ light, pool.run false (files.map (Task.attempt (linker.unit emptied breaks))) = .ok light ∧
          light = { whole with diagnostics := light.diagnostics } ∧
          whole.diagnostics.Perm (light.diagnostics ++
            (files.filter fun file => failing file && (breaks file).isNone).map report) := by
  obtain ⟨report, left⟩ := exists_report fails linker
  refine ⟨_, _, report, linker.run_unit fileSystem breaks pool workers _,
    linker.run_unit fileSystem breaks pool workers _, isolates fails left, ?_, ?_, ?_⟩
  · rintro schedule rfl
    exact Schedule.merge_attempt (linker.unit fileSystem breaks) schedule
  · intro sound
    have jobs : pool.jobs ≠ 0 := by omega
    have outcomes : linker.contribution fileSystem breaks = linker.outcome fileSystem :=
      funext fun file => contribution_of_whole (sound file)
    rw [outcomes]
    exact ⟨linker.collect_eq fileSystem pool jobs files, linker.collect_eq fileSystem pool jobs _⟩
  · intro emptied reads
    -- An empty file has no outcome to speak of, just as one that cannot be read.
    have light := ofOutcomes_emptied fails reads linker
    refine ⟨_, linker.run_unit emptied breaks pool workers files, ?_, ?_⟩
    · rw [light]
    · rw [light, References.diagnostics_ofOutcomes]
      refine References.filterMap_perm_of_test fun file member unread => ?_
      have failed : failing file = true := (Bool.and_eq_true _ _ ▸ unread).1
      rw [(left file member failed).1]

/-- A file that imports two others. The text of one of them is left open. -/
def frailProject (torn : Option String) : FileSystem where
  root := .directory [("app", .directory
    [("a.ts", .file (some "import './b'; import './c'")), ("b.ts", .file torn),
     ("c.ts", .file (some "import './a'"))])]
  workingDirectory := []

def frailFiles : List Candidate := [⟨"/app/a.ts"⟩, ⟨"/app/b.ts"⟩, ⟨"/app/c.ts"⟩]

def frailBreaks (file : Candidate) : Option (Option String) :=
  if file.path = "/app/c.ts" then some (some "index out of bounds") else none

theorem run_isolates_failures_frailProject :
    let linker := configure "/app" Options.defaultExtensions [] frailFiles
    let failing : Candidate → Bool := fun file => file.path ≠ "/app/a.ts"
    (∀ file ∈ frailFiles, failing file = true → Fails (frailProject none) frailBreaks file) ∧
    ∃ (whole remaining : References) (report : Candidate → Diagnostic),
      Pool.run ⟨2, 1⟩ false (frailFiles.map (Task.attempt (linker.unit (frailProject none) frailBreaks))) =
        .ok whole ∧
      linker.Isolates (frailProject none) frailBreaks frailFiles failing whole remaining report ∧
      whole.edges = [⟨"/app/a.ts", "/app/b.ts"⟩, ⟨"/app/a.ts", "/app/c.ts"⟩] ∧
      ∃ light,
        Pool.run ⟨2, 1⟩ false
          (frailFiles.map (Task.attempt (linker.unit (frailProject (some "")) frailBreaks))) = .ok light ∧
        light.edges = whole.edges ∧ light.diagnostics.map Diagnostic.kind = [.workerFailure] := by
  intro linker failing
  have fails : ∀ file ∈ frailFiles, failing file = true → Fails (frailProject none) frailBreaks file := by
    intro file member failed
    simp only [frailFiles, List.mem_cons, List.not_mem_nil, or_false] at member
    rcases member with rfl | rfl | rfl
    · exact absurd failed (by decide)
    · exact .inr ⟨.notText, by decide +kernel⟩
    · exact .inl (by decide)
  have reads : ∀ file ∈ frailFiles, (frailProject (some "")).readText file.path =
      if failing file && (frailBreaks file).isNone then .ok "" else (frailProject none).readText file.path := by
    decide +kernel
  have edges : (Pool.run ⟨2, 1⟩ false (frailFiles.map
      (Task.attempt (linker.unit (frailProject none) frailBreaks)))).map References.edges =
      .ok [⟨"/app/a.ts", "/app/b.ts"⟩, ⟨"/app/a.ts", "/app/c.ts"⟩] := by
    decide +kernel
  have kinds : (Pool.run ⟨2, 1⟩ false (frailFiles.map
      (Task.attempt (linker.unit (frailProject (some "")) frailBreaks)))).map
        (·.diagnostics.map Diagnostic.kind) = .ok [.workerFailure] := by
    decide +kernel
  have workers : 1 ≤ (Pool.mk 2 1).jobs := by decide
  obtain ⟨whole, remaining, report, ran, -, isolates, -, -, emptied⟩ :=
    linker.run_isolates_failures (frailProject none) frailBreaks workers fails
  obtain ⟨light, lightRan, same, -⟩ := emptied _ reads
  rw [ran] at edges
  rw [lightRan] at kinds
  refine ⟨fails, whole, remaining, report, ran, isolates, Except.ok.inj edges, light, lightRan, ?_,
    Except.ok.inj kinds⟩
  rw [same]

end Linker

end Orphans
