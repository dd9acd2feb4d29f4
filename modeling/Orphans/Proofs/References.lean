import Mathlib.Algebra.BigOperators.Group.List.Basic
import Mathlib.Algebra.GroupWithZero.Nat
import Orphans.Proofs.Ascending
import Orphans.References

/-! What references say about the outcomes they were made from.

Absorbing outcomes one after the other and uniting the results of batches both compute the summary of all
outcomes, in which the sets, the diagnostics and the counters are written down at once. Every law of
absorbing and uniting follows from that.
-/

set_option autoImplicit false

namespace Orphans

namespace Outcome

def edges (outcome : Outcome) : List Edge := outcome.targets.map (Edge.mk outcome.file)

theorem mem_edges {outcome : Outcome} {edge : Edge} :
    edge ∈ outcome.edges ↔ edge.importer = outcome.file ∧ edge.imported ∈ outcome.targets := by
  constructor
  · intro member
    obtain ⟨target, inTargets, rfl⟩ := List.mem_map.mp member
    exact ⟨rfl, inTargets⟩
  · rintro ⟨importer, imported⟩
    exact List.mem_map.mpr ⟨edge.imported, imported, by rw [← importer]⟩

end Outcome

namespace References

open Ascending (Ascends)

def summary (outcomes : List Outcome) : References where
  referenced := Ascending.ofList (outcomes.flatMap Outcome.targets)
  edges := Ascending.ofList (outcomes.flatMap Outcome.edges)
  diagnostics := outcomes.filterMap Outcome.diagnostic
  units := outcomes.length
  specifiers := (outcomes.map Outcome.specifiers).sum

theorem absorb_summary (outcomes : List Outcome) (outcome : Outcome) :
    absorb (summary outcomes) outcome = summary (outcomes ++ [outcome]) := by
  have diagnostics : outcomes.filterMap Outcome.diagnostic ++ outcome.diagnostic.toList =
      (outcomes ++ [outcome]).filterMap Outcome.diagnostic := by
    cases found : outcome.diagnostic <;> simp [List.filterMap_append, found]
  -- Absorbing puts the new outcome in front of the sets and behind the diagnostics.
  simp only [absorb, summary, References.mk.injEq]
  exact ⟨Ascending.union_flatMap Outcome.targets outcomes outcome,
    Ascending.union_flatMap Outcome.edges outcomes outcome, diagnostics, by simp, by simp⟩

theorem foldl_absorb_summary (done rest : List Outcome) :
    rest.foldl absorb (summary done) = summary (done ++ rest) := by
  induction rest generalizing done with
  | nil => rw [List.append_nil, List.foldl_nil]
  | cons outcome rest ih => rw [List.foldl_cons, absorb_summary, ih, List.append_assoc, List.singleton_append]

theorem ofOutcomes_eq_summary (outcomes : List Outcome) : ofOutcomes outcomes = summary outcomes :=
  foldl_absorb_summary [] outcomes

theorem union_summary (left right : List Outcome) :
    union (summary left) (summary right) = summary (left ++ right) := by
  simp [union, summary, Ascending.union_ofList_ofList]

theorem union_ofOutcomes (left right : List Outcome) :
    union (ofOutcomes left) (ofOutcomes right) = ofOutcomes (left ++ right) := by
  simp only [ofOutcomes_eq_summary, union_summary]

theorem foldl_union_ofOutcomes (done : List Outcome) (batches : List (List Outcome)) :
    (batches.map ofOutcomes).foldl union (ofOutcomes done) = ofOutcomes (done ++ batches.flatten) := by
  induction batches generalizing done with
  | nil => simp
  | cons batch rest ih =>
    rw [List.map_cons, List.foldl_cons, union_ofOutcomes, ih, List.append_assoc, List.flatten_cons]

section Members
variable {outcomes : List Outcome}

theorem mem_referenced_ofOutcomes {key : String} :
    key ∈ (ofOutcomes outcomes).referenced ↔ ∃ outcome ∈ outcomes, key ∈ outcome.targets := by
  simp [ofOutcomes_eq_summary, summary]

theorem mem_edges_ofOutcomes {edge : Edge} :
    edge ∈ (ofOutcomes outcomes).edges ↔
      ∃ outcome ∈ outcomes, edge.importer = outcome.file ∧ edge.imported ∈ outcome.targets := by
  simp [ofOutcomes_eq_summary, summary, Outcome.mem_edges]

theorem mem_referenced_iff_edge {key : String} :
    key ∈ (ofOutcomes outcomes).referenced ↔ ∃ edge ∈ (ofOutcomes outcomes).edges, edge.imported = key := by
  rw [mem_referenced_ofOutcomes]
  constructor
  · rintro ⟨outcome, member, target⟩
    exact ⟨⟨outcome.file, key⟩, mem_edges_ofOutcomes.mpr ⟨outcome, member, rfl, target⟩, rfl⟩
  · rintro ⟨edge, member, rfl⟩
    obtain ⟨outcome, inside, -, target⟩ := mem_edges_ofOutcomes.mp member
    exact ⟨outcome, inside, target⟩

theorem ascends_referenced_ofOutcomes : Ascends (ofOutcomes outcomes).referenced := by
  rw [ofOutcomes_eq_summary]
  exact Ascending.ascends_ofList _

theorem ascends_edges_ofOutcomes : Ascends (ofOutcomes outcomes).edges := by
  rw [ofOutcomes_eq_summary]
  exact Ascending.ascends_ofList _

theorem units_ofOutcomes : (ofOutcomes outcomes).units = outcomes.length := by
  rw [ofOutcomes_eq_summary]
  rfl

end Members

structure Agrees (left right : References) : Prop where
  referenced : left.referenced = right.referenced
  edges : left.edges = right.edges
  diagnostics : left.diagnostics.Perm right.diagnostics
  units : left.units = right.units
  specifiers : left.specifiers = right.specifiers

theorem agrees_of_perm {left right : List Outcome} (shuffled : left.Perm right) :
    Agrees (ofOutcomes left) (ofOutcomes right) := by
  simp only [ofOutcomes_eq_summary]
  constructor
  · exact Ascending.ofList_congr fun key => (shuffled.flatMap_right _).mem_iff
  · exact Ascending.ofList_congr fun edge => (shuffled.flatMap_right _).mem_iff
  · exact shuffled.filterMap _
  · exact shuffled.length_eq
  · exact (shuffled.map _).sum_eq

end References

/-! ### What units return -/

namespace Task

def returned? (task : Task) : Option Outcome := task.result.toOption

/-- The diagnostic of a unit: the one it returns, or else a notice that it broke down on its file. -/
def notice? (task : Task) : Option Diagnostic :=
  match task.result with
  | .ok outcome => outcome.diagnostic
  | .error text => some ⟨.workerFailure, some task.file.path,
      "Worker failed on " ++ task.file.path ++ ": " ++ text.getD "unknown panic"⟩

theorem diagnostic_outcome (task : Task) : task.outcome.diagnostic = task.notice? := by
  unfold Task.outcome notice?
  cases task.result <;> rfl

theorem specifiers_outcome (task : Task) :
    task.outcome.specifiers = (task.returned?.map Outcome.specifiers).getD 0 := by
  unfold Task.outcome returned?
  cases task.result <;> rfl

/-- What needs a target is true of an outcome only if a unit has returned it. -/
theorem outcome_iff_returned (task : Task) (holds : Outcome → Prop)
    (needs : ∀ outcome, holds outcome → outcome.targets ≠ []) :
    holds task.outcome ↔ ∃ outcome, task.result = .ok outcome ∧ holds outcome := by
  unfold Task.outcome
  cases task.result with
  | ok outcome => simp
  | error text =>
    refine iff_of_false (fun broken => needs _ broken rfl) ?_
    rintro ⟨outcome, ⟨⟩, -⟩

end Task

namespace References

/-- The references hold the targets and specifiers of all outcomes that units have returned, and the diagnostics of all
units in their order. A unit that broke down is in them with one diagnostic of its own. -/
structure Complete (tasks : List Task) (references : References) : Prop where
  mem_referenced : ∀ key, key ∈ references.referenced ↔
    ∃ task ∈ tasks, ∃ outcome, task.result = .ok outcome ∧ key ∈ outcome.targets
  mem_edges : ∀ edge, edge ∈ references.edges ↔
    ∃ task ∈ tasks, ∃ outcome, task.result = .ok outcome ∧
      edge.importer = outcome.file ∧ edge.imported ∈ outcome.targets
  ascends_referenced : Ascending.Ascends references.referenced
  ascends_edges : Ascending.Ascends references.edges
  diagnostics : references.diagnostics = tasks.filterMap Task.notice?
  units : references.units = tasks.length
  specifiers : references.specifiers = ((tasks.filterMap Task.returned?).map Outcome.specifiers).sum

theorem sum_specifiers_outcome (tasks : List Task) :
    (tasks.map fun task => task.outcome.specifiers).sum =
      ((tasks.filterMap Task.returned?).map Outcome.specifiers).sum := by
  induction tasks with
  | nil => rfl
  | cons task tasks ih =>
    rw [List.map_cons, List.sum_cons, ih, task.specifiers_outcome]
    cases returned : task.returned? <;> simp [returned]

theorem complete_ofOutcomes (tasks : List Task) : Complete tasks (ofOutcomes (tasks.map Task.outcome)) where
  mem_referenced key := by
    -- A unit that broke down has no targets, so whatever has one was returned.
    rw [mem_referenced_ofOutcomes]
    simp only [List.mem_map, exists_exists_and_eq_and]
    exact exists_congr fun task => and_congr_right fun _ =>
      task.outcome_iff_returned (key ∈ ·.targets) fun _ target => List.ne_nil_of_mem target
  mem_edges edge := by
    rw [mem_edges_ofOutcomes]
    simp only [List.mem_map, exists_exists_and_eq_and]
    exact exists_congr fun task => and_congr_right fun _ =>
      task.outcome_iff_returned (fun outcome => edge.importer = outcome.file ∧ edge.imported ∈ outcome.targets)
        fun _ leads => List.ne_nil_of_mem leads.2
  ascends_referenced := ascends_referenced_ofOutcomes
  ascends_edges := ascends_edges_ofOutcomes
  diagnostics := by
    rw [ofOutcomes_eq_summary, summary, List.filterMap_map]
    exact List.filterMap_congr fun task _ => task.diagnostic_outcome
  units := by rw [units_ofOutcomes, List.length_map]
  specifiers := by
    rw [ofOutcomes_eq_summary, summary, List.map_map]
    exact sum_specifiers_outcome tasks

end References

namespace Pool

/-- The batches of a pool leave no trace in its result. -/
theorem run_eq (pool : Pool) (cancelled : Bool) (tasks : List Task) :
    pool.run cancelled tasks =
      if pool.jobs = 0 then .error .noWorker
      else if cancelled || tasks.any Task.cancels then .error .cancelled
      else .ok (References.ofOutcomes (tasks.map Task.outcome)) := by
  have united := References.foldl_union_ofOutcomes []
    (batches (max 1 pool.batchSize) (tasks.map Task.outcome))
  rw [flatten_batches, List.nil_append] at united
  unfold run
  rw [← united]
  rfl

end Pool

end Orphans
