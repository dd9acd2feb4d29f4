import Mathlib.Logic.Relation
import Orphans.Proofs.Schedule

/-! Workers that share a cancellation token.

Any number of workers take files in any order. A worker reads the token once for each file, right after
taking it, and skips the file if the token is set; the token is read once more after everything has been
merged. It may be set at any moment, from outside or by a unit, and it is never reset. So a file that was
skipped is seen by the last reading, and a run either is cancelled or is complete.
-/

set_option autoImplicit false

namespace Orphans.Execution

open Relation (ReflTransGen)

/-- How far the work on a file has come. A file is running from the reading of the token on. -/
inductive Phase where
  | waiting
  | taken (worker : Nat)
  | running (worker : Nat)
  | skipped
  | done (outcome : Outcome)

namespace Phase

def worker? : Phase → Option Nat
  | .taken worker | .running worker => some worker
  | .waiting | .skipped | .done _ => none

def remaining : Phase → Nat
  | .waiting => 3
  | .taken _ => 2
  | .running _ => 1
  | .skipped | .done _ => 0

end Phase

structure Slot where
  task : Task
  phase : Phase

def Slot.contribution (slot : Slot) : Option Outcome :=
  match slot.phase with
  | .done outcome => some outcome
  | _ => none

structure State where
  /-- Whether the token is set. -/
  cancelled : Bool
  /-- One slot for each file, in the order of the files. -/
  slots : List Slot

namespace State

def start (cancelled : Bool) (tasks : List Task) : State :=
  ⟨cancelled, tasks.map fun task => ⟨task, .waiting⟩⟩

def IsFree (state : State) (worker : Nat) : Prop :=
  ∀ slot ∈ state.slots, slot.phase.worker? ≠ some worker

def IsSettled (state : State) : Prop := ∀ slot ∈ state.slots, slot.phase.remaining = 0

end State

/-- What the worker at a file does next, with the token before and after it. -/
inductive Action (task : Task) : Bool → Phase → Bool → Phase → Prop where
  | skip (worker : Nat) : Action task true (.taken worker) true .skipped
  | start (worker : Nat) : Action task false (.taken worker) false (.running worker)
  /-- A unit that asks for the run to be cancelled has done so when it is over. -/
  | finish (token : Bool) (worker : Nat) :
    Action task token (.running worker) (token || task.cancels) (.done task.outcome)

inductive Work (workers : Nat) : State → State → Prop where
  | take {token : Bool} {front back : List Slot} {task : Task} {worker : Nat} (hired : worker < workers)
    (free : State.IsFree ⟨token, front ++ ⟨task, .waiting⟩ :: back⟩ worker) :
    Work workers ⟨token, front ++ ⟨task, .waiting⟩ :: back⟩
      ⟨token, front ++ ⟨task, .taken worker⟩ :: back⟩
  | act {token after : Bool} {front back : List Slot} {task : Task} {phase next : Phase}
    (action : Action task token phase after next) :
    Work workers ⟨token, front ++ ⟨task, phase⟩ :: back⟩ ⟨after, front ++ ⟨task, next⟩ :: back⟩

inductive Step (workers : Nat) : State → State → Prop where
  | work {state next : State} (step : Work workers state next) : Step workers state next
  | cancel (state : State) : Step workers state { state with cancelled := true }

/-- The results with which a state ends the run. What the files contributed is merged along some schedule,
and the token is read after that. -/
inductive Concludes (state : State) : Except Failure References → Prop where
  | cancelled (settled : state.IsSettled) (token : state.cancelled = true) :
    Concludes state (.error .cancelled)
  | merged (settled : state.IsSettled) (token : state.cancelled = false) (schedule : Schedule Slot)
    (covers : schedule.items = state.slots) :
    Concludes state (.ok (schedule.merge Slot.contribution))

/-! ### What a run keeps -/

/-- A skipped file tells that the token is set; a finished one contributes its own outcome, and tells that
the token is set if its unit asked for that. -/
def Slot.Sound (token : Bool) (slot : Slot) : Prop :=
  match slot.phase with
  | .skipped => token = true
  | .done outcome => outcome = slot.task.outcome ∧ (slot.task.cancels = true → token = true)
  | .waiting | .taken _ | .running _ => True

theorem Slot.Sound.mono {token after : Bool} {slot : Slot} (sound : slot.Sound token)
    (kept : token = true → after = true) : slot.Sound after := by
  obtain ⟨task, phase⟩ := slot
  cases phase with
  | waiting => trivial
  | taken worker => trivial
  | running worker => trivial
  | skipped => exact kept sound
  | done outcome => exact ⟨sound.1, fun cancels => kept (sound.2 cancels)⟩

structure State.Sound (initial : Bool) (tasks : List Task) (state : State) : Prop where
  tasks : state.slots.map Slot.task = tasks
  token : initial = true → state.cancelled = true
  slots : ∀ slot ∈ state.slots, slot.Sound state.cancelled

theorem State.sound_start (initial : Bool) (tasks : List Task) : (start initial tasks).Sound initial tasks where
  tasks := by
    rw [start, List.map_map]
    exact List.map_id tasks
  token := id
  slots slot member := by
    obtain ⟨task, -, rfl⟩ := List.mem_map.mp member
    trivial

section Preservation
variable {workers : Nat} {initial : Bool} {tasks : List Task} {state next : State}

theorem Action.token_kept {task : Task} {token after : Bool} {phase next : Phase}
    (action : Action task token phase after next) (set : token = true) : after = true := by
  cases action with
  | skip worker => rfl
  | start worker => exact set
  | finish token worker => rw [set, Bool.true_or]

theorem Action.sound {task : Task} {token after : Bool} {phase next : Phase}
    (action : Action task token phase after next) : Slot.Sound after ⟨task, next⟩ := by
  cases action with
  | skip worker => exact rfl
  | start worker => trivial
  | finish token worker => exact ⟨rfl, fun cancels => by rw [cancels, Bool.or_true]⟩

theorem State.Sound.replace {token after : Bool} {front back : List Slot} {task : Task}
    {phase next : Phase}
    (sound : State.Sound initial tasks ⟨token, front ++ ⟨task, phase⟩ :: back⟩)
    (kept : token = true → after = true) (slot : Slot.Sound after ⟨task, next⟩) :
    State.Sound initial tasks ⟨after, front ++ ⟨task, next⟩ :: back⟩ where
  tasks := by simpa using sound.tasks
  token set := kept (sound.token set)
  slots other member := by
    rcases List.mem_append.mp member with inFront | inRest
    · exact (sound.slots other (List.mem_append_left _ inFront)).mono kept
    · rcases List.mem_cons.mp inRest with rfl | inBack
      · exact slot
      · exact (sound.slots other (List.mem_append_right _ (List.mem_cons_of_mem _ inBack))).mono kept

theorem State.Sound.task_mem {token : Bool} {front back : List Slot} {task : Task} {phase : Phase}
    (sound : State.Sound initial tasks ⟨token, front ++ ⟨task, phase⟩ :: back⟩) : task ∈ tasks := by
  rw [← sound.tasks]
  simp

theorem State.Sound.work (sound : state.Sound initial tasks) (step : Work workers state next) :
    next.Sound initial tasks := by
  cases step with
  | take hired free => exact sound.replace id trivial
  | act action => exact sound.replace action.token_kept action.sound

theorem State.Sound.step (sound : state.Sound initial tasks) (step : Step workers state next) :
    next.Sound initial tasks := by
  cases step with
  | work step => exact sound.work step
  | cancel =>
    exact ⟨sound.tasks, fun _ => rfl, fun slot member => (sound.slots slot member).mono fun _ => rfl⟩

theorem State.Sound.run (sound : state.Sound initial tasks)
    (run : ReflTransGen (Step workers) state next) : next.Sound initial tasks := by
  induction run with
  | refl => exact sound
  | tail _ step ih => exact ih.step step

end Preservation

/-! ### How a run ends -/

section Ending
variable {workers : Nat} {initial : Bool} {tasks : List Task} {state : State}

/-- With the token unset at the end, a settled file was neither skipped nor run by a unit that cancels. -/
theorem Slot.Sound.complete {slot : Slot} (sound : slot.Sound false) (settled : slot.phase.remaining = 0) :
    slot.phase ≠ .skipped ∧ slot.contribution = some slot.task.outcome ∧ slot.task.cancels = false := by
  obtain ⟨task, phase⟩ := slot
  cases phase with
  | waiting => cases settled
  | taken worker => cases settled
  | running worker => cases settled
  | skipped => cases sound
  | done outcome =>
    obtain ⟨own, silent⟩ := sound
    refine ⟨Phase.noConfusion, congrArg some own, ?_⟩
    exact Bool.eq_false_iff.mpr fun cancels => Bool.false_ne_true (silent cancels)

theorem State.Sound.contributions (sound : state.Sound initial tasks) (settled : state.IsSettled)
    (token : state.cancelled = false) :
    state.slots.filterMap Slot.contribution = tasks.map Task.outcome := by
  have own : ∀ slot ∈ state.slots, slot.contribution = some slot.task.outcome := fun slot member =>
    (token ▸ sound.slots slot member).complete (settled slot member) |>.2.1
  rw [List.filterMap_congr own, ← sound.tasks, List.map_map]
  exact congrFun List.filterMap_eq_map state.slots

theorem State.Sound.nobody_cancels (sound : state.Sound initial tasks) (settled : state.IsSettled)
    (token : state.cancelled = false) : (initial || tasks.any Task.cancels) = false := by
  have unset : initial = false := Bool.eq_false_iff.mpr fun set => by
    rw [sound.token set] at token
    cases token
  rw [unset, Bool.false_or, ← sound.tasks, List.any_map, List.any_eq_false]
  intro slot member
  have silent := (token ▸ sound.slots slot member).complete (settled slot member) |>.2.2
  simp [silent]

theorem State.Sound.merged (sound : state.Sound initial tasks) (settled : state.IsSettled)
    (token : state.cancelled = false) {schedule : Schedule Slot} (covers : schedule.items = state.slots) :
    schedule.merge Slot.contribution = .ofOutcomes (tasks.map Task.outcome) := by
  rw [Schedule.merge_eq_ofOutcomes, covers, sound.contributions settled token]

end Ending

/-! ### Runs come to an end -/

def State.remaining (state : State) : Nat := (state.slots.map fun slot => slot.phase.remaining).sum

theorem State.remaining_replace {token after : Bool} {front back : List Slot} {task : Task}
    {phase next : Phase} (fewer : next.remaining < phase.remaining) :
    remaining ⟨after, front ++ ⟨task, next⟩ :: back⟩ <
      remaining ⟨token, front ++ ⟨task, phase⟩ :: back⟩ := by
  simp only [remaining, List.map_append, List.map_cons, List.sum_append, List.sum_cons]
  exact Nat.add_lt_add_left (Nat.add_lt_add_right fewer _) _

theorem Action.exists_of_worker (task : Task) (token : Bool) {phase : Phase} {worker : Nat}
    (busy : phase.worker? = some worker) :
    ∃ after next, Action task token phase after next ∧ next.remaining < phase.remaining := by
  cases phase with
  | waiting => cases busy
  | taken worker =>
    cases token with
    | false => exact ⟨false, _, .start worker, Nat.one_lt_two⟩
    | true => exact ⟨true, _, .skip worker, Nat.two_pos⟩
  | running worker => exact ⟨_, _, .finish token worker, Nat.one_pos⟩
  | skipped => cases busy
  | done outcome => cases busy

theorem Work.exists_of_not_settled {workers : Nat} (hired : 0 < workers) {state : State}
    (unsettled : ¬ state.IsSettled) : ∃ next, Work workers state next ∧ next.remaining < state.remaining := by
  obtain ⟨token, slots⟩ := state
  by_cases busy : ∃ slot ∈ slots, ∃ worker, slot.phase.worker? = some worker
  · obtain ⟨⟨task, phase⟩, member, worker, atWork⟩ := busy
    obtain ⟨front, back, rfl⟩ := List.append_of_mem member
    obtain ⟨after, next, action, fewer⟩ := Action.exists_of_worker task token atWork
    exact ⟨_, .act action, State.remaining_replace fewer⟩
  · -- Nobody is at a file, so the file that is left waits, and the first worker is free to take it.
    simp only [State.IsSettled, not_forall] at unsettled
    obtain ⟨⟨task, phase⟩, member, left⟩ := unsettled
    have idle : ∀ slot ∈ slots, ∀ worker, slot.phase.worker? ≠ some worker :=
      fun slot inside worker atWork => busy ⟨slot, inside, worker, atWork⟩
    have waits : phase = .waiting := by
      cases phase with
      | waiting => rfl
      | taken worker => exact absurd rfl (idle _ member worker)
      | running worker => exact absurd rfl (idle _ member worker)
      | skipped => exact absurd rfl left
      | done outcome => exact absurd rfl left
    subst waits
    obtain ⟨front, back, rfl⟩ := List.append_of_mem member
    exact ⟨_, .take hired fun slot inside => idle slot inside 0,
      State.remaining_replace (Nat.lt_succ_self 2)⟩

theorem exists_settled {workers : Nat} (hired : 0 < workers) (state : State) :
    ∃ final, ReflTransGen (Work workers) state final ∧ final.IsSettled := by
  -- Every step that is made here leaves fewer actions, so the induction is on their number.
  induction size : state.remaining using Nat.strong_induction_on generalizing state with
  | _ size ih =>
    by_cases settled : state.IsSettled
    · exact ⟨state, .refl, settled⟩
    · obtain ⟨next, step, fewer⟩ := Work.exists_of_not_settled hired settled
      obtain ⟨final, run, finalSettled⟩ := ih next.remaining (by omega) next rfl
      exact ⟨final, .head step run, finalSettled⟩

theorem State.IsSettled.concludes {state : State} (settled : state.IsSettled) :
    ∃ result, Concludes state result := by
  cases token : state.cancelled with
  | false => exact ⟨_, .merged settled token (.chunk state.slots) rfl⟩
  | true => exact ⟨_, .cancelled settled token⟩

/-- Without a cancellation from outside, the token is set only if it was set before or a unit sets it. -/
theorem Work.token_cause {workers : Nat} {initial : Bool} {tasks : List Task} {state : State}
    (run : ReflTransGen (Work workers) (.start initial tasks) state) :
    state.Sound initial tasks ∧ (state.cancelled = true → (initial || tasks.any Task.cancels) = true) := by
  induction run with
  | refl => exact ⟨State.sound_start initial tasks, fun set => by rw [show initial = true from set]; rfl⟩
  | tail _ step ih =>
    obtain ⟨sound, cause⟩ := ih
    refine ⟨sound.work step, ?_⟩
    cases step with
    | take hired free => exact cause
    | act action =>
      cases action with
      | skip worker => exact cause
      | start worker => exact cause
      | finish token worker =>
        intro set
        -- The token was set before, or this very unit has set it.
        rcases Bool.or_eq_true_iff.mp set with before | cancels
        · exact cause before
        · rw [Bool.or_eq_true_iff, List.any_eq_true]
          exact .inr ⟨_, sound.task_mem, cancels⟩

/-- Left alone, workers in any number come to the one result that the pool gives. -/
theorem concludes_run (pool : Pool) (jobs : 1 ≤ pool.jobs) {workers : Nat} {initial : Bool}
    {tasks : List Task} {state : State}
    (run : ReflTransGen (Work workers) (.start initial tasks) state)
    {result : Except Failure References} (concludes : Concludes state result) :
    result = pool.run initial tasks := by
  have someJob : pool.jobs ≠ 0 := by omega
  obtain ⟨sound, cause⟩ := Work.token_cause run
  rw [Pool.run_eq, if_neg someJob]
  cases concludes with
  | cancelled settled token => rw [if_pos (cause token)]
  | merged settled token schedule covers =>
    rw [sound.nobody_cancels settled token, sound.merged settled token covers]
    rfl

/-- Whatever the order of the workers' steps, and whenever the token is set, a run ends cancelled, or it
ends with what the units of all files have returned. From every state that it passes through it can come to an end. -/
theorem cancelled_or_complete (pool : Pool) (jobs : 1 ≤ pool.jobs) (workers : Nat) (initial : Bool)
    (tasks : List Task) {state : State} (run : ReflTransGen (Step workers) (.start initial tasks) state) :
    (∀ result, Concludes state result → result = .error .cancelled ∨
      ∃ references, result = .ok references ∧ (∀ slot ∈ state.slots, slot.phase ≠ .skipped) ∧
        references.units = tasks.length ∧ references.Complete tasks ∧
        references = .ofOutcomes (tasks.map Task.outcome) ∧ pool.run initial tasks = .ok references) ∧
    (0 < workers → ∃ final result, ReflTransGen (Step workers) state final ∧ Concludes final result) := by
  have someJob : pool.jobs ≠ 0 := by omega
  have sound := (State.sound_start initial tasks).run run
  constructor
  · intro result concludes
    cases concludes with
    | cancelled settled token => exact .inl rfl
    | merged settled token schedule covers =>
      -- The last reading found the token unset, so no earlier one found it set.
      have merged := sound.merged settled token covers
      have complete := References.complete_ofOutcomes tasks
      rw [← merged] at complete
      refine .inr ⟨_, rfl, ?_, complete.units, complete, merged, ?_⟩
      · exact fun slot member => (token ▸ sound.slots slot member).complete (settled slot member) |>.1
      · rw [Pool.run_eq, if_neg someJob, sound.nobody_cancels settled token, merged]
        rfl
  · intro hired
    obtain ⟨final, work, settled⟩ := exists_settled hired state
    obtain ⟨result, concludes⟩ := settled.concludes
    exact ⟨final, result, ReflTransGen.mono (fun _ _ step => Step.work step) _ _ work, concludes⟩

def brittleReferences : References where
  referenced := ["/b.ts"]
  edges := [⟨"/a.ts", "/b.ts"⟩]
  diagnostics := [⟨.workerFailure, some "/b.ts", "Worker failed on /b.ts: index out of bounds"⟩]
  units := 2
  specifiers := 1

/-- Two workers that are left alone come to the references of both files. If the token is set after the first of
them has read it and before the second one does, they are cancelled. -/
theorem cancelled_or_complete_brittleUnit :
    let first := Task.attempt brittleUnit ⟨"/a.ts"⟩
    let second := Task.attempt brittleUnit ⟨"/b.ts"⟩
    (∃ state, ReflTransGen (Step 2) (.start false [first, second]) state ∧
      state.slots = [⟨first, .done first.outcome⟩, ⟨second, .done second.outcome⟩] ∧
      (∀ result, Concludes state result ↔ result = .ok brittleReferences) ∧
      brittleReferences.Complete [first, second]) ∧
    ∃ state, ReflTransGen (Step 2) (.start false [first, second]) state ∧
      state.slots = [⟨first, .done first.outcome⟩, ⟨second, .skipped⟩] ∧
      ∀ result, Concludes state result ↔ result = .error .cancelled := by
  intro first second
  have takes := @Work.take 2 false [] [⟨second, .waiting⟩] first 0 (by decide)
    (by simp [State.IsFree, Phase.worker?])
  have starts := @Work.act 2 false false [] [⟨second, .waiting⟩] first _ _ (.start 0)
  have begun : ReflTransGen (Step 2) (.start false [first, second])
      ⟨false, [⟨first, .running 0⟩, ⟨second, .waiting⟩]⟩ := .head (.work takes) <| .single (.work starts)
  constructor
  · have follows := @Work.take 2 false [⟨first, .running 0⟩] [] second 1 (by decide)
      (by simp [State.IsFree, Phase.worker?])
    have goesOn := @Work.act 2 false false [⟨first, .running 0⟩] [] second _ _ (.start 1)
    have breaks := @Work.act 2 false false [⟨first, .running 0⟩] [] second _ _ (.finish false 1)
    have finishes := @Work.act 2 false false [] [⟨second, .done second.outcome⟩] first _ _ (.finish false 0)
    let final : State := ⟨false, [⟨first, .done first.outcome⟩, ⟨second, .done second.outcome⟩]⟩
    have run : ReflTransGen (Step 2) _ final := begun.trans <| .head (.work follows) <| .head (.work goesOn) <|
      .head (.work breaks) <| .single (.work finishes)
    have computed : References.ofOutcomes ([first, second].map Task.outcome) = brittleReferences := by decide +kernel
    have only : ∀ result, Concludes final result → result = .ok brittleReferences ∧
        brittleReferences.Complete [first, second] := by
      intro result concludes
      rcases (cancelled_or_complete ⟨2, 1⟩ (by decide) 2 false _ run).1 result concludes with
        rfl | ⟨references, rfl, -, -, complete, merged, -⟩
      · cases concludes with
        | cancelled _ token => cases token
      · obtain rfl := merged.trans computed
        exact ⟨rfl, complete⟩
    have settled : final.IsSettled := by simp [final, State.IsSettled, Phase.remaining]
    have ends := Concludes.merged settled rfl (.chunk final.slots) rfl
    obtain ⟨same, complete⟩ := only _ ends
    refine ⟨final, run, rfl, fun result => ⟨fun concludes => (only result concludes).1, ?_⟩, complete⟩
    rintro rfl
    rwa [same] at ends
  · have cancels := @Step.cancel 2 ⟨false, [⟨first, .running 0⟩, ⟨second, .waiting⟩]⟩
    have follows := @Work.take 2 true [⟨first, .running 0⟩] [] second 1 (by decide)
      (by simp [State.IsFree, Phase.worker?])
    have skips := @Work.act 2 true true [⟨first, .running 0⟩] [] second _ _ (.skip 1)
    have finishes := @Work.act 2 true true [] [⟨second, .skipped⟩] first _ _ (.finish true 0)
    have run := begun.trans <| .head cancels <| .head (.work follows) <| .head (.work skips) <|
      .single (.work finishes)
    refine ⟨_, run, rfl, fun result => ⟨fun concludes => ?_, ?_⟩⟩
    · rcases (cancelled_or_complete ⟨2, 1⟩ (by decide) 2 false _ run).1 result concludes with
        cancelled | ⟨references, -, complete, -⟩
      · exact cancelled
      · exact absurd rfl (complete ⟨second, .skipped⟩ (by simp))
    · rintro rfl
      exact .cancelled (by simp [State.IsSettled, Phase.remaining]) rfl

end Orphans.Execution
