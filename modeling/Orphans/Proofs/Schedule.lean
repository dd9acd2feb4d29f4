import Orphans.Proofs.References

/-! Spreading units of work over workers.

A schedule is a tree: contiguous chunks are absorbed from nothing, and the results of chunks are united in
whatever shape the workers happen to finish, with idle leaves where a split found no work. What a schedule
merges to depends only on its items in their order, so no choice of the workers can be seen in the result.
-/

set_option autoImplicit false

namespace Orphans

inductive Schedule (α : Type) where
  | idle
  | chunk (items : List α)
  | join (left right : Schedule α)
  deriving Repr

namespace Schedule

variable {α : Type}

def items : Schedule α → List α
  | .idle => []
  | .chunk items => items
  | .join left right => left.items ++ right.items

/-- The references that a schedule comes to. An item without a contribution is passed over. -/
def merge (contribution : α → Option Outcome) : Schedule α → References
  | .idle => .empty
  | .chunk items => (items.filterMap contribution).foldl References.absorb .empty
  | .join left right => .union (left.merge contribution) (right.merge contribution)

theorem merge_eq_ofOutcomes (contribution : α → Option Outcome) (schedule : Schedule α) :
    schedule.merge contribution = .ofOutcomes (schedule.items.filterMap contribution) := by
  induction schedule with
  | idle => rfl
  | chunk items => rfl
  | join left right leftIH rightIH =>
    rw [merge, leftIH, rightIH, References.union_ofOutcomes, items, List.filterMap_append]

end Schedule

namespace Task

def attempt (unit : Candidate → Except (Option String) Outcome) (file : Candidate) : Task :=
  ⟨file, unit file, false⟩

/-- What a task contributes. A worker that finds the token set skips the file. -/
def contribution (cancelled : Bool) (task : Task) : Option Outcome :=
  if cancelled then none else some task.outcome

end Task

namespace References

def sequential (unit : Candidate → Except (Option String) Outcome) (files : List Candidate) :
    References :=
  (files.map fun file => (Task.attempt unit file).outcome).foldl absorb empty

theorem sequential_agrees (unit : Candidate → Except (Option String) Outcome)
    {files others : List Candidate} (shuffled : others.Perm files) :
    Agrees (sequential unit others) (sequential unit files) :=
  agrees_of_perm (shuffled.map _)

end References

theorem Schedule.merge_attempt (unit : Candidate → Except (Option String) Outcome)
    (schedule : Schedule Candidate) :
    schedule.merge (fun file => (Task.attempt unit file).contribution false) =
      References.sequential unit schedule.items := by
  rw [merge_eq_ofOutcomes]
  exact congrArg References.ofOutcomes (congrFun List.filterMap_eq_map schedule.items)

theorem Pool.run_attempt (unit : Candidate → Except (Option String) Outcome) (pool : Pool)
    (workers : 1 ≤ pool.jobs) (files : List Candidate) :
    pool.run false (files.map (Task.attempt unit)) = .ok (References.sequential unit files) := by
  have someWorker : pool.jobs ≠ 0 := by omega
  have nobodyCancels : (files.map (Task.attempt unit)).any Task.cancels = false := by
    simp [Task.attempt]
  rw [run_eq, if_neg someWorker, nobodyCancels, List.map_map]
  rfl

/-- Chunks, shape and number of workers leave the merged references as they are. The order of the files
shows in nothing but the order of the diagnostics. -/
theorem Schedule.merge_independent (unit : Candidate → Except (Option String) Outcome)
    (files : List Candidate) :
    (∀ schedule : Schedule Candidate, schedule.items = files →
      schedule.merge (fun file => (Task.attempt unit file).contribution false) =
        References.sequential unit files) ∧
    (∀ pool : Pool, 1 ≤ pool.jobs →
      pool.run false (files.map (Task.attempt unit)) = .ok (References.sequential unit files)) ∧
    ∀ schedule : Schedule Candidate, schedule.items.Perm files →
      References.Agrees
        (schedule.merge fun file => (Task.attempt unit file).contribution false)
        (References.sequential unit files) := by
  refine ⟨?_, fun pool workers => pool.run_attempt unit workers files, ?_⟩
  · rintro schedule rfl
    exact merge_attempt unit schedule
  · intro schedule shuffled
    rw [merge_attempt]
    exact References.sequential_agrees unit shuffled

/-- A unit that breaks down on one file, and finds that file in every other one. -/
def brittleUnit (file : Candidate) : Except (Option String) Outcome :=
  if file.path = "/b.ts" then .error (some "index out of bounds")
  else .ok ⟨file.key, 1, ["/b.ts"], none⟩

theorem Schedule.merge_independent_brittleUnit :
    let files : List Candidate := [⟨"/a.ts"⟩, ⟨"/b.ts"⟩, ⟨"/c.ts"⟩]
    let contribution := fun file => (Task.attempt brittleUnit file).contribution false
    (join (chunk [⟨"/a.ts"⟩]) (join idle (chunk [⟨"/b.ts"⟩, ⟨"/c.ts"⟩]))).merge contribution =
      References.sequential brittleUnit files ∧
    Pool.run ⟨3, 0⟩ false (files.map (Task.attempt brittleUnit)) =
      .ok (References.sequential brittleUnit files) ∧
    References.Agrees ((join (chunk [⟨"/b.ts"⟩, ⟨"/a.ts"⟩]) (chunk [⟨"/c.ts"⟩])).merge contribution)
      (References.sequential brittleUnit files) ∧
    (References.sequential brittleUnit files).referenced = ["/b.ts"] ∧
    (References.sequential brittleUnit files).diagnostics.length = 1 := by
  intro files contribution
  obtain ⟨cut, spread, shuffled⟩ := merge_independent brittleUnit files
  refine ⟨cut _ rfl, spread _ (by decide), shuffled _ (.swap _ _ _), ?_, ?_⟩ <;> decide +kernel

end Orphans
