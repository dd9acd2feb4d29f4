import Orphans.Ascending
import Orphans.Candidate
import Orphans.Edge
import Orphans.Failure

/-! The references of many files, put together.

Each file is one unit of work with an outcome of its own. The outcomes of a batch are absorbed one after
the other, and the batches are united. Both only join sets, append diagnostics and add counters, so how
the files are cut into batches leaves the result as it is.
-/

set_option autoImplicit false

namespace Orphans

structure Outcome where
  /-- The key of the file. -/
  file : String
  /-- The number of specifiers found in it. -/
  specifiers : Nat
  /-- The keys of the known files that its specifiers reach. -/
  targets : List String
  diagnostic : Option Diagnostic
  deriving DecidableEq, Repr

structure References where
  /-- The keys that some file reaches. -/
  referenced : List String
  edges : List Edge
  diagnostics : List Diagnostic
  units : Nat
  specifiers : Nat
  deriving DecidableEq, Repr

namespace References

def empty : References := ⟨[], [], [], 0, 0⟩

def absorb (references : References) (outcome : Outcome) : References where
  referenced := Ascending.union outcome.targets references.referenced
  edges := Ascending.union (outcome.targets.map (Edge.mk outcome.file)) references.edges
  diagnostics := references.diagnostics ++ outcome.diagnostic.toList
  units := references.units + 1
  specifiers := references.specifiers + outcome.specifiers

def union (left right : References) : References where
  referenced := Ascending.union left.referenced right.referenced
  edges := Ascending.union left.edges right.edges
  diagnostics := left.diagnostics ++ right.diagnostics
  units := left.units + right.units
  specifiers := left.specifiers + right.specifiers

def ofOutcomes (outcomes : List Outcome) : References := outcomes.foldl absorb empty

end References

structure Task where
  file : Candidate
  /-- The outcome, or the text that the unit left when it broke down. -/
  result : Except (Option String) Outcome
  /-- Whether the unit asked for the run to be cancelled. -/
  cancels : Bool

namespace Task

def finished (file : Candidate) (outcome : Outcome) : Task := ⟨file, .ok outcome, false⟩

/-- A unit that broke down contributes nothing but a diagnostic. -/
def outcome (task : Task) : Outcome :=
  match task.result with
  | .ok outcome => outcome
  | .error text =>
    ⟨task.file.key, 0, [],
      some (Failure.worker task.file.path (text.getD "unknown panic")).toDiagnostic⟩

end Task

structure Pool where
  jobs : Nat
  batchSize : Nat
  deriving DecidableEq, Repr

namespace Pool

def intoBatch {α : Type} (size : Nat) (value : α) : List (List α) → List (List α)
  | [] => [[value]]
  | batch :: rest =>
    if batch.length < size then (value :: batch) :: rest else [value] :: batch :: rest

/-- A list cut into batches of the given size, the first of which may be shorter. -/
def batches {α : Type} (size : Nat) (values : List α) : List (List α) :=
  values.foldr (intoBatch size) []

theorem flatten_intoBatch {α : Type} (size : Nat) (value : α) (parts : List (List α)) :
    (intoBatch size value parts).flatten = value :: parts.flatten := by
  cases parts with
  | nil => rfl
  | cons batch rest =>
    simp only [intoBatch]
    split <;> simp

@[simp] theorem flatten_batches {α : Type} (size : Nat) (values : List α) :
    (batches size values).flatten = values := by
  induction values with
  | nil => rfl
  | cons value rest ih =>
    change (intoBatch size value (batches size rest)).flatten = value :: rest
    rw [flatten_intoBatch, ih]

/-- Put the outcomes of all tasks together. A pool needs a worker. A run that is cancelled before its
end has no result, whatever was done up to then. -/
def run (pool : Pool) (cancelled : Bool) (tasks : List Task) : Except Failure References :=
  if pool.jobs = 0 then .error .noWorker
  else if cancelled || tasks.any Task.cancels then .error .cancelled
  else
    .ok (((batches (max 1 pool.batchSize) (tasks.map Task.outcome)).map References.ofOutcomes).foldl
      References.union .empty)

end Pool

end Orphans
