import Orphans.CommandLine.Session
import Orphans.Proofs.Analysis
import Orphans.Proofs.FileSystem.Edit

/-! What the exit status of a run tells, and what a run leaves behind.

A run either ends before there is a result, or it has one result and reports it. In the first case the
status is 1 and nothing is written. In the second case an output path that may not be used gives 2, and
otherwise the status says whether a file is left without an importer and an exemption. The only file that
is ever written is the one at the output path.
-/

set_option autoImplicit false

namespace Orphans

namespace Analysis

def AllUsed (fileSystem : FileSystem) (options : Options) (analysis : Analysis) : Prop :=
  ∀ file ∈ (discovery fileSystem options analysis.root).files,
    let key := Key.relativeTo (Key.normalize analysis.root) file.key
    key ∈ analysis.referenced ∨ key ∈ analysis.exempt

theorem hasUnreferenced_eq_false_iff {fileSystem : FileSystem} {options : Options} {cancelled : Bool}
    {analysis : Analysis} (ran : run fileSystem options cancelled = .ok analysis) :
    analysis.hasUnreferenced = false ↔ AllUsed fileSystem options analysis := by
  obtain ⟨-, describes⟩ := describes_of_run ran
  have empty_iff : analysis.hasUnreferenced = false ↔ analysis.unreferenced = [] := by simp [hasUnreferenced]
  rw [empty_iff]
  constructor
  · intro empty file member
    have listed := (describes.mem_files _).mpr ⟨file, member, rfl⟩
    simpa [files, empty] using listed
  · intro used
    refine List.eq_nil_iff_forall_not_mem.mpr fun key member => ?_
    obtain ⟨-, file, inside, -, rfl⟩ := (describes.mem_unreferenced key).mp member
    rcases used file inside with referenced | exempt
    · exact describes.referenced_unreferenced referenced member
    · exact describes.unreferenced_exempt member exempt

end Analysis

namespace CommandLine

/-! ### What a run is asked to do -/

/-- The command line decides, or else the settings, or else the default. -/
inductive Prevails {α : Type} (default : α) : Option α → Option α → α → Prop where
  | given (value : α) (setting : Option α) : Prevails default (some value) setting value
  | set (value : α) : Prevails default none (some value) value
  | neither : Prevails default none none default

/-- An option that takes many values is absent if it has none. -/
def given? (values : List String) : Option (List String) := if values = [] then none else some values

structure Plan.Obeys (plan : Plan) (arguments : Arguments) (settings : Settings) (processors : Nat) : Prop where
  extensions : Prevails Options.defaultExtensions (given? arguments.extensions) settings.extensions
    plan.options.extensions
  excludedDirectories : Prevails Options.defaultExcludedDirectories (given? arguments.exclude) settings.exclude
    plan.options.excludedDirectories
  jobs : Prevails processors arguments.jobs settings.jobs plan.options.jobs
  aliasConfig : Prevails none (arguments.aliasConfig.map some) (settings.aliasConfig.map some) plan.options.aliasConfig
  /-- The names of both count. -/
  exemptNames : ∀ name, name ∈ plan.options.exemptNames ↔ name ∈ settings.exempt.getD [] ∨ name ∈ arguments.exempt
  json : plan.json = true ↔ arguments.json = true ∨ settings.wantsJson = true

theorem Prevails.eq_given {α : Type} {default value chosen : α} {setting : Option α}
    (prevails : Prevails default (some value) setting chosen) : chosen = value := by
  cases prevails
  rfl

theorem prevails_preferred (values : List String) (setting : Option (List String)) (default : List String) :
    Prevails default (given? values) setting (preferred values setting default) := by
  cases values with
  | nil =>
    cases setting with
    | none => exact .neither
    | some value => exact .set value
  | cons first rest => exact .given (first :: rest) setting

theorem prevails_or {α : Type} (value setting : Option α) (default : α) :
    Prevails default value setting ((value.or setting).getD default) := by
  cases value with
  | some value => exact .given value setting
  | none =>
    cases setting with
    | none => exact .neither
    | some value => exact .set value

theorem obeys_plan (arguments : Arguments) (root : String) (processors : Nat) (settings : Settings) :
    (plan arguments root processors settings).Obeys arguments settings processors where
  extensions := prevails_preferred ..
  excludedDirectories := prevails_preferred ..
  jobs := prevails_or ..
  aliasConfig := by
    -- The default is that there is no configuration, which is a value here.
    have decided := prevails_or (arguments.aliasConfig.map some) (settings.aliasConfig.map some) none
    rw [← Option.map_or] at decided
    change Prevails _ _ _ (arguments.aliasConfig.or settings.aliasConfig)
    cases chosen : arguments.aliasConfig.or settings.aliasConfig <;> simpa [chosen] using decided
  exemptNames name := List.mem_append
  json := Bool.or_eq_true_iff

/-! ### The way to a result -/

namespace Arguments

section
variable (fileSystem : FileSystem) (processors : Nat) (arguments : Arguments)

def options : Options := (planAt fileSystem processors arguments arguments.target).options

structure Yields (analysis : Analysis) : Prop where
  exists_target : fileSystem.contains arguments.target = true
  ran : Analysis.run fileSystem (arguments.options fileSystem processors) false = .ok analysis

def AcceptsOutput : Prop := ∀ path, arguments.dotFile = some path → OutputPath.check path = .ok ()

/-- The result is written to a location, which an accepted output path leads to. -/
structure Writes (analysis : Analysis) (location : List String) : Prop where
  yields : arguments.Yields fileSystem processors analysis
  accepted : ∃ path, arguments.dotFile = some path ∧ OutputPath.check path = .ok () ∧
    fileSystem.destination path = .ok location

end

variable {fileSystem : FileSystem} {processors : Nat} {arguments : Arguments}

theorem Yields.unique {first second : Analysis} (left : arguments.Yields fileSystem processors first)
    (right : arguments.Yields fileSystem processors second) : first = second :=
  Except.ok.inj (left.ran.symm.trans right.ran)

end Arguments

section Runs
variable (fileSystem : FileSystem) (processors elapsed : Nat) (arguments : Arguments)

theorem analyse_cases :
    (∃ analysis json, arguments.Yields fileSystem processors analysis ∧
      analyse fileSystem processors elapsed arguments = conclude arguments json analysis elapsed) ∨
    (∀ analysis, ¬ arguments.Yields fileSystem processors analysis) ∧
      ∃ message, analyse fileSystem processors elapsed arguments = .fatal message := by
  unfold analyse prepare
  by_cases found : fileSystem.contains arguments.target = true
  · cases ran : Analysis.run fileSystem (arguments.options fileSystem processors) false with
    | ok analysis =>
      refine .inl ⟨analysis, (planAt fileSystem processors arguments arguments.target).json, ⟨found, ran⟩, ?_⟩
      rw [Arguments.options] at ran
      simp only [found, if_true, ran]
    | error failure =>
      refine .inr ⟨fun analysis yields => ?_, ?_⟩
      · have both := ran.symm.trans yields.ran
        cases both
      · rw [Arguments.options] at ran
        simp only [found, if_true, ran]
        exact ⟨_, rfl⟩
  · refine .inr ⟨fun analysis yields => found yields.exists_target, ?_⟩
    simp only [found]
    exact ⟨_, rfl⟩

end Runs

/-! ### The reply to a result -/

theorem verdict_eq_zero_iff {analysis : Analysis} : verdict analysis = 0 ↔ analysis.hasUnreferenced = false := by
  unfold verdict
  cases analysis.hasUnreferenced <;> simp

theorem verdict_le_one (analysis : Analysis) : verdict analysis ≤ 1 := by
  unfold verdict
  split <;> omega

section Conclusions
variable {arguments : Arguments} (json : Bool) (analysis : Analysis) (elapsed : Nat)

theorem conclude_of_accepts (accepts : arguments.AcceptsOutput) :
    (conclude arguments json analysis elapsed).exit = verdict analysis ∧
      (conclude arguments json analysis elapsed).file =
        arguments.dotFile.map fun path => (path, Report.dot analysis) := by
  unfold conclude
  cases given : arguments.dotFile with
  | none => exact ⟨rfl, rfl⟩
  | some path => simp [accepts path given]

theorem conclude_of_rejects (rejects : ¬ arguments.AcceptsOutput) :
    (conclude arguments json analysis elapsed).exit = usageExit ∧
      (conclude arguments json analysis elapsed).file = none := by
  simp only [Arguments.AcceptsOutput, not_forall] at rejects
  obtain ⟨path, given, refused⟩ := rejects
  unfold conclude
  cases checked : OutputPath.check path with
  | ok _ => exact absurd checked refused
  | error fault => simp [given, checked]

end Conclusions

/-! ### Writing -/

namespace Reply

variable (reply : Reply) (fileSystem : FileSystem)

/-- A write that fails is reported and changes neither the status nor the file system. -/
theorem exit_perform : (reply.perform fileSystem).1.exit = reply.exit := by
  unfold perform
  split
  · rfl
  · split <;> rfl

theorem perform_of_destination {reply : Reply} {path text : String} {location : List String}
    (asked : reply.file = some (path, text)) (found : fileSystem.destination path = .ok location) :
    (reply.perform fileSystem).2 = fileSystem.set location (some (.file (some text))) := by
  simp [perform, asked, FileSystem.write, found]

theorem perform_of_refusal {reply : Reply}
    (refused : ∀ path text location, reply.file = some (path, text) →
      fileSystem.destination path ≠ .ok location) :
    (reply.perform fileSystem).2 = fileSystem := by
  unfold perform
  split
  · rfl
  · next path text asked =>
    cases found : fileSystem.destination path with
    | ok location => exact absurd found (refused path text location asked)
    | error refusal => simp [FileSystem.write, found]

end Reply

/-! ### Whole runs -/

section Runs
variable (fileSystem : FileSystem) (processors elapsed : Nat) {arguments : Arguments}

theorem analyse_outcome (arguments : Arguments) :
    let reply := analyse fileSystem processors elapsed arguments
    (∃ analysis, arguments.Yields fileSystem processors analysis ∧ arguments.AcceptsOutput ∧
      reply.exit = verdict analysis ∧
      reply.file = arguments.dotFile.map fun path => (path, Report.dot analysis)) ∨
    (∃ analysis, arguments.Yields fileSystem processors analysis ∧ ¬ arguments.AcceptsOutput ∧
      reply.exit = 2 ∧ reply.file = none) ∨
    (∀ analysis, ¬ arguments.Yields fileSystem processors analysis) ∧ reply.exit = 1 ∧ reply.file = none := by
  intro reply
  rcases analyse_cases fileSystem processors elapsed arguments with
    ⟨analysis, json, yields, concluded⟩ | ⟨nothing, message, failed⟩
  · rw [show reply = _ from concluded]
    by_cases accepts : arguments.AcceptsOutput
    · exact .inl ⟨analysis, yields, accepts, conclude_of_accepts json analysis elapsed accepts⟩
    · exact .inr (.inl ⟨analysis, yields, accepts, conclude_of_rejects json analysis elapsed accepts⟩)
  · rw [show reply = _ from failed]
    exact .inr (.inr ⟨nothing, rfl, rfl⟩)

theorem exit_analyse_eq_zero_iff (arguments : Arguments) :
    (analyse fileSystem processors elapsed arguments).exit = 0 ↔ ∃ analysis,
      arguments.Yields fileSystem processors analysis ∧
      analysis.AllUsed fileSystem (arguments.options fileSystem processors) ∧ arguments.AcceptsOutput := by
  rcases analyse_outcome fileSystem processors elapsed arguments with
    ⟨analysis, yields, accepts, exit, -⟩ | ⟨-, -, rejects, exit, -⟩ | ⟨nothing, exit, -⟩
  · rw [exit, verdict_eq_zero_iff, Analysis.hasUnreferenced_eq_false_iff yields.ran]
    constructor
    · exact fun used => ⟨analysis, yields, used, accepts⟩
    · rintro ⟨other, otherYields, used, -⟩
      rwa [yields.unique otherYields]
  · rw [exit]
    exact ⟨fun zero => absurd zero (by decide), fun ⟨_, _, _, accepts⟩ => absurd accepts rejects⟩
  · rw [exit]
    exact ⟨fun zero => absurd zero (by decide), fun ⟨analysis, yields, _⟩ => absurd yields (nothing analysis)⟩

theorem exit_analyse_eq_two_iff (arguments : Arguments) :
    (analyse fileSystem processors elapsed arguments).exit = 2 ↔
      (∃ analysis, arguments.Yields fileSystem processors analysis) ∧ ¬ arguments.AcceptsOutput := by
  rcases analyse_outcome fileSystem processors elapsed arguments with
    ⟨analysis, -, accepts, exit, -⟩ | ⟨analysis, yields, rejects, exit, -⟩ | ⟨nothing, exit, -⟩
  · have atMostOne := verdict_le_one analysis
    rw [exit]
    exact ⟨fun two => by omega, fun ⟨_, rejects⟩ => absurd accepts rejects⟩
  · exact ⟨fun _ => ⟨⟨analysis, yields⟩, rejects⟩, fun _ => exit⟩
  · rw [exit]
    exact ⟨fun two => absurd two (by decide), fun ⟨⟨analysis, yields⟩, _⟩ => absurd yields (nothing analysis)⟩

theorem exit_analyse_le_two (arguments : Arguments) :
    (analyse fileSystem processors elapsed arguments).exit ≤ 2 := by
  rcases analyse_outcome fileSystem processors elapsed arguments with
    ⟨analysis, -, -, exit, -⟩ | ⟨-, -, -, exit, -⟩ | ⟨-, exit, -⟩
  · have atMostOne := verdict_le_one analysis
    omega
  · omega
  · omega

theorem file_analyse (arguments : Arguments) {path text : String} :
    (analyse fileSystem processors elapsed arguments).file = some (path, text) ↔
      arguments.dotFile = some path ∧ OutputPath.check path = .ok () ∧
      ∃ analysis, arguments.Yields fileSystem processors analysis ∧ text = Report.dot analysis := by
  rcases analyse_outcome fileSystem processors elapsed arguments with
    ⟨analysis, yields, accepts, -, file⟩ | ⟨-, -, rejects, -, file⟩ | ⟨nothing, -, file⟩
  · rw [file, Option.map_eq_some_iff]
    constructor
    · rintro ⟨given, asked, same⟩
      obtain ⟨rfl, rfl⟩ := Prod.mk.inj same
      exact ⟨asked, accepts given asked, analysis, yields, rfl⟩
    · rintro ⟨asked, -, other, otherYields, rfl⟩
      exact ⟨path, asked, by rw [yields.unique otherYields]⟩
  · rw [file]
    refine ⟨fun asked => (by cases asked), ?_⟩
    rintro ⟨asked, accepted, -⟩
    refine absurd (fun given same => ?_) rejects
    obtain rfl := Option.some.inj (asked.symm.trans same)
    exact accepted
  · rw [file]
    refine ⟨fun asked => (by cases asked), ?_⟩
    rintro ⟨-, -, analysis, yields, -⟩
    exact absurd yields (nothing analysis)

theorem perform_analyse (arguments : Arguments) :
    let after := ((analyse fileSystem processors elapsed arguments).perform fileSystem).2
    (∃ analysis location, arguments.Writes fileSystem processors analysis location ∧
      after.root.get? location = some (.file (some (Report.dot analysis))) ∧
      FileSystem.AgreeExcept location fileSystem after) ∨
    (∀ analysis location, ¬ arguments.Writes fileSystem processors analysis location) ∧ after = fileSystem := by
  intro after
  by_cases writes : ∃ analysis location, arguments.Writes fileSystem processors analysis location
  · obtain ⟨analysis, location, writes⟩ := writes
    obtain ⟨path, asked, accepted, found⟩ := writes.accepted
    have written : after = fileSystem.set location (some (.file (some (Report.dot analysis)))) :=
      Reply.perform_of_destination fileSystem
        ((file_analyse fileSystem processors elapsed arguments).mpr
          ⟨asked, accepted, analysis, writes.yields, rfl⟩) found
    rw [written]
    exact .inl ⟨analysis, location, writes, FileSystem.get?_of_write found _,
      FileSystem.agreeExcept_of_write found _⟩
  · refine .inr ⟨fun analysis location here => writes ⟨analysis, location, here⟩, ?_⟩
    refine Reply.perform_of_refusal fileSystem fun path text location asked found => writes ?_
    obtain ⟨given, accepted, analysis, yields, -⟩ :=
      (file_analyse fileSystem processors elapsed arguments).mp asked
    exact ⟨analysis, location, yields, path, given, accepted, found⟩

theorem reply_of_parse {words : List String} (parsed : parse? words = some (.analyse arguments)) :
    reply fileSystem processors elapsed words = analyse fileSystem processors elapsed arguments := by
  rw [reply, parsed]

/-- The status is 0 if the path exists, its project can be analysed, all files there are used and the output
path may be used; it is 2 if only the output path stands in the way of a report, and 1 otherwise. A run
writes nothing but the drawing at the accepted output path. -/
theorem exit_tells_truth {words : List String} (parsed : parse? words = some (.analyse arguments)) :
    let answer := (reply fileSystem processors elapsed words).perform fileSystem
    (answer.1.exit = 0 ↔ ∃ analysis, arguments.Yields fileSystem processors analysis ∧
      analysis.AllUsed fileSystem (arguments.options fileSystem processors) ∧ arguments.AcceptsOutput) ∧
    (answer.1.exit = 2 ↔
      (∃ analysis, arguments.Yields fileSystem processors analysis) ∧ ¬ arguments.AcceptsOutput) ∧
    (answer.1.exit ≠ 0 → answer.1.exit ≠ 2 → answer.1.exit = 1) ∧
    ((∃ analysis location, arguments.Writes fileSystem processors analysis location ∧
        answer.2.root.get? location = some (.file (some (Report.dot analysis))) ∧
        FileSystem.AgreeExcept location fileSystem answer.2) ∨
      (∀ analysis location, ¬ arguments.Writes fileSystem processors analysis location) ∧
        answer.2 = fileSystem) := by
  intro answer
  -- Writing changes no status, so it is that of the reply.
  have most := exit_analyse_le_two fileSystem processors elapsed arguments
  have status : answer.1.exit = (analyse fileSystem processors elapsed arguments).exit := by
    rw [Reply.exit_perform, reply_of_parse fileSystem processors elapsed parsed]
  have left : answer.2 = ((analyse fileSystem processors elapsed arguments).perform fileSystem).2 := by
    rw [← reply_of_parse fileSystem processors elapsed parsed]
  rw [status, left]
  exact ⟨exit_analyse_eq_zero_iff fileSystem processors elapsed arguments,
    exit_analyse_eq_two_iff fileSystem processors elapsed arguments, by omega,
    perform_analyse fileSystem processors elapsed arguments⟩

/-- A project whose settings exempt the file that a run is started on, and pass over its directory. -/
def startedProject : FileSystem where
  root := .directory [("app", .directory
    [("deadfile.toml", .file (some "exempt = [\"start.ts\"]\nexclude = [\"src\"]")),
     ("legacy", .directory [("old.ts", .file (some ""))]),
     ("package.json", .file (some "")),
     ("src", .directory [("part.ts", .file (some "")), ("start.ts", .file (some "import './part'"))])])]
  workingDirectory := ["app", "src"]

def startedWords : List String := ["start.ts", "--exclude", "legacy", "--dot-file", "graph.dot"]

def startedArguments : Arguments :=
  { Arguments.none with path := some "start.ts", exclude := ["legacy"], dotFile := some "graph.dot" }

def startedAnalysis : Analysis where
  root := "/app"
  totalFiles := 2
  referenced := ["src/part.ts"]
  unreferenced := []
  exempt := ["src/start.ts"]
  edges := [⟨"src/start.ts", "src/part.ts"⟩]
  diagnostics := []

def plainArguments : Arguments := { Arguments.none with path := some "start.ts" }

def legacyAnalysis : Analysis where
  root := "/app"
  totalFiles := 1
  referenced := []
  unreferenced := ["legacy/old.ts"]
  exempt := []
  edges := []
  diagnostics := []

/-- With `--exclude legacy` all files are used. The settings alone would look into `legacy` and nowhere else. -/
theorem exit_tells_truth_startedProject :
    (settingsAt startedProject "/app").exclude = some ["src"] ∧
    (startedArguments.options startedProject 4).excludedDirectories = ["legacy"] ∧
    (parse? startedWords = some (.analyse startedArguments) ∧
      ((reply startedProject 4 0 startedWords).perform startedProject).1.exit = 0 ∧
      ((reply startedProject 4 0 startedWords).perform startedProject).2.root.get? ["app", "src", "graph.dot"] =
        some (.file (some (Report.dot startedAnalysis)))) ∧
    parse? ["start.ts"] = some (.analyse plainArguments) ∧
      ((reply startedProject 4 0 ["start.ts"]).perform startedProject).1.exit = 1 ∧
      ((reply startedProject 4 0 ["start.ts"]).perform startedProject).2 = startedProject := by
  have excludes : (settingsAt startedProject "/app").exclude = some ["src"] := by decide +kernel
  have obeys := obeys_plan startedArguments (ProjectRoot.find startedProject "start.ts") 4
    (settingsAt startedProject (ProjectRoot.find startedProject "start.ts"))
  refine ⟨excludes, obeys.excludedDirectories.eq_given, ?_, ?_⟩
  · have parsed : parse? startedWords = some (.analyse startedArguments) := by decide +kernel
    have yields : startedArguments.Yields startedProject 4 startedAnalysis :=
      ⟨by decide +kernel, by decide +kernel⟩
    have used : startedAnalysis.AllUsed startedProject (startedArguments.options startedProject 4) := by
      unfold Analysis.AllUsed
      decide +kernel
    have accepted : OutputPath.check "graph.dot" = .ok () := by decide +kernel
    have found : startedProject.destination "graph.dot" = .ok ["app", "src", "graph.dot"] := by decide +kernel
    have accepts : startedArguments.AcceptsOutput := by
      intro path given
      obtain rfl := Option.some.inj given
      exact accepted
    have truth := exit_tells_truth startedProject 4 0 parsed
    -- The answer is not to be computed: all that is needed of it stands in the theorem.
    generalize (reply startedProject 4 0 startedWords).perform startedProject = answer at truth ⊢
    obtain ⟨zero, -, -, written⟩ := truth
    refine ⟨parsed, zero.mpr ⟨startedAnalysis, yields, used, accepts⟩, ?_⟩
    rcases written with ⟨analysis, location, writes, drawn, -⟩ | ⟨never, -⟩
    · obtain ⟨path, given, -, destination⟩ := writes.accepted
      obtain rfl := Option.some.inj given
      obtain rfl := Except.ok.inj (found.symm.trans destination)
      rw [yields.unique writes.yields]
      exact drawn
    · exact absurd ⟨yields, "graph.dot", rfl, accepted, found⟩ (never startedAnalysis _)
  · have parsed : parse? ["start.ts"] = some (.analyse plainArguments) := by decide +kernel
    have yields : plainArguments.Yields startedProject 4 legacyAnalysis := ⟨by decide +kernel, by decide +kernel⟩
    have unused : ¬ legacyAnalysis.AllUsed startedProject (plainArguments.options startedProject 4) := by
      unfold Analysis.AllUsed
      decide +kernel
    have accepts : plainArguments.AcceptsOutput := fun path given => by cases given
    have truth := exit_tells_truth startedProject 4 0 parsed
    generalize (reply startedProject 4 0 ["start.ts"]).perform startedProject = answer at truth ⊢
    obtain ⟨zero, two, otherwise, written⟩ := truth
    refine ⟨parsed, otherwise ?_ ?_, ?_⟩
    · intro none
      obtain ⟨analysis, again, used, -⟩ := zero.mp none
      rw [← yields.unique again] at used
      exact unused used
    · exact fun refused => (two.mp refused).2 accepts
    · rcases written with ⟨analysis, location, writes, -⟩ | ⟨-, same⟩
      · obtain ⟨path, given, -⟩ := writes.accepted
        cases given
      · exact same

end Runs

end CommandLine

end Orphans
