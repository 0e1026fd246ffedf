import Mathlib.Data.List.Range
import Mathlib.Logic.Function.Basic
import MonkeyOS.Lib.RoundRobin

/-!
# The executor

`crates/executor/src/executor.rs` and `crates/executor/src/thread.rs` on one hart.
What the poll of a future does to the executor is arbitrary: it may spawn tasks, and
it leaves the future or is done with it. Page tables are changed elsewhere and wakers
do nothing, so `before_run` and the context of a poll are left out.
-/

set_option autoImplicit false

namespace MonkeyOS.Runtime

open Lib List

variable {φ : Type}

structure AsyncTaskItem (φ : Type) where
  task : Nat
  future : φ

structure Executor (φ : Type) where
  /-- Tasks with an entry in `TASK_MAP`. -/
  taskMap : Nat → Bool
  taskQueue : List (AsyncTaskItem φ)
  /-- The task on the core. -/
  core : Option Nat

/-- A poll: what it spawns, in order, and the future unless it is ready. -/
structure Polled (φ : Type) where
  spawned : List (AsyncTaskItem φ)
  future : Option φ

def tid2task (taskMap alive : Nat → Bool) (tid : Nat) : Option Nat :=
  if taskMap tid && alive tid then some tid else none

namespace Executor

def new : Executor φ := { taskMap := fun _ => false, taskQueue := [], core := none }

def spawn (executor : Executor φ) (item : AsyncTaskItem φ) : Executor φ :=
  { executor with
    taskMap := Function.update executor.taskMap item.task true
    taskQueue := executor.taskQueue ++ [item] }

def releaseTask (executor : Executor φ) (tid : Nat) : Executor φ :=
  { executor with taskMap := Function.update executor.taskMap tid false }

def runReadyTask (executor : Executor φ) (polled : Polled φ) : Executor φ :=
  match executor.taskQueue with
  | [] => executor
  | item :: taskQueue =>
    let executor := polled.spawned.foldl spawn { executor with taskQueue, core := some item.task }
    match polled.future with
    | none => executor
    | some future => { executor with taskQueue := executor.taskQueue ++ [{ item with future }] }

theorem taskQueue_spawns (items : List (AsyncTaskItem φ)) (executor : Executor φ) :
    (items.foldl spawn executor).taskQueue = executor.taskQueue ++ items := by
  induction items generalizing executor with
  | nil => exact (append_nil _).symm
  | cons _ items ih => rw [foldl_cons, ih, spawn, append_assoc, singleton_append]

theorem taskQueue_runReadyTask {executor : Executor φ} {item : AsyncTaskItem φ} {rest : List (AsyncTaskItem φ)}
    (first : executor.taskQueue = item :: rest) (polled : Polled φ) :
    (executor.runReadyTask polled).taskQueue =
      rest ++ polled.spawned ++ (polled.future.map fun future => { item with future }).toList := by
  unfold runReadyTask
  rw [first]
  cases future : polled.future with
  | none => simp [taskQueue_spawns]
  | some future => simp [taskQueue_spawns]

end Executor

/-- The executor with the tasks spawned so far, in order, and for each entry of its
queue the position there. Nothing depends on the two lists. -/
structure Numbered (φ : Type) where
  executor : Executor φ
  spawned : List Nat
  numbers : List Nat

namespace Numbered

def boot : Numbered φ := { executor := .new, spawned := [], numbers := [] }

/-- The step of `run`, or a task spawned before. The task polled is named by its
number, and so are those it spawns. -/
inductive Step : Numbered φ → Serving Nat → Numbered φ → Prop where
  | spawn {executor spawned numbers again} (item : AsyncTaskItem φ) :
      Step ⟨executor, spawned, numbers⟩ ⟨none, [spawned.length], again⟩
        ⟨executor.spawn item, spawned ++ [item.task], numbers ++ [spawned.length]⟩
  | idle {executor spawned again} (polled : Polled φ) (empty : executor.taskQueue = []) :
      Step ⟨executor, spawned, []⟩ ⟨none, [], again⟩ ⟨executor.runReadyTask polled, spawned, []⟩
  | poll {executor spawned number numbers} (polled : Polled φ) (ready : executor.taskQueue ≠ []) :
      Step ⟨executor, spawned, number :: numbers⟩
        ⟨some number, List.range' spawned.length polled.spawned.length, polled.future.isSome⟩
        ⟨executor.runReadyTask polled, spawned ++ polled.spawned.map AsyncTaskItem.task,
          numbers ++ List.range' spawned.length polled.spawned.length ++
            if polled.future.isSome then [number] else []⟩
  | release {executor spawned numbers again} (tid : Nat) :
      Step ⟨executor, spawned, numbers⟩ ⟨none, [], again⟩ ⟨executor.releaseTask tid, spawned, numbers⟩

variable {before middle after finish : Numbered φ} {serving first second : Serving Nat}
  {servings between : List (Serving Nat)}

theorem Step.serves (step : Step before serving after) : Serving.Serves before.numbers serving after.numbers := by
  cases step with
  | spawn | idle => exact .idle
  | poll => exact .turn
  | @release _ _ numbers again =>
    have idle : Serving.Serves numbers ⟨none, [], again⟩ (numbers ++ []) := .idle
    rwa [append_nil] at idle

theorem Step.arrived (step : Step before serving after) :
    List.range before.spawned.length ++ serving.arrived = List.range after.spawned.length := by
  cases step with
  | spawn =>
    rw [length_append]
    exact range_succ.symm
  | idle | release => exact append_nil _
  | @poll _ spawned _ _ polled =>
    have joined := @range'_append_1 0 spawned.length polled.spawned.length
    rw [zero_add] at joined
    rw [length_append, length_map, range_eq_range', range_eq_range']
    exact joined

def Aligned (state : Numbered φ) : Prop :=
  state.numbers.map (fun number => state.spawned[number]?) = state.executor.taskQueue.map fun item => some item.task

theorem aligned_append {numbers spawned : List Nat} {items : List (AsyncTaskItem φ)}
    (aligned : numbers.map (fun number => spawned[number]?) = items.map fun item => some item.task)
    (later : List Nat) :
    numbers.map (fun number => (spawned ++ later)[number]?) = items.map fun item => some item.task := by
  refine (map_congr_left fun number member => ?_).trans aligned
  have listed : spawned[number]? ∈ items.map fun item => some item.task :=
    aligned ▸ mem_map_of_mem member
  obtain ⟨item, -, found⟩ := mem_map.mp listed
  exact List.getElem?_append_left (List.getElem?_eq_some_iff.mp found.symm).1

theorem aligned_new (spawned : List Nat) (items : List (AsyncTaskItem φ)) :
    (List.range' spawned.length items.length).map
        (fun number => (spawned ++ items.map AsyncTaskItem.task)[number]?) =
      items.map fun item => some item.task := by
  induction items generalizing spawned with
  | nil => rfl
  | cons item items ih =>
    have later := ih (spawned ++ [item.task])
    rw [append_assoc, singleton_append, length_append, length_singleton] at later
    rw [length_cons, range'_succ, map_cons, map_cons, later, map_cons,
      getElem?_append_right (Nat.le_refl _), Nat.sub_self]
    rfl

theorem Step.aligned (step : Step before serving after) (aligned : before.Aligned) : after.Aligned := by
  cases step with
  | @spawn _ spawned _ _ item =>
    rw [Aligned, Executor.spawn, map_append, map_append, aligned_append aligned]
    simp
  | idle polled empty =>
    rw [Aligned, Executor.runReadyTask, empty]
    exact aligned.trans (by rw [empty])
  | @poll _ spawned number numbers polled ready =>
    obtain ⟨item, rest, queue⟩ := exists_cons_of_ne_nil ready
    have entries : (number :: numbers).map (fun number => spawned[number]?) =
        (item :: rest).map fun item => some item.task := aligned.trans (by rw [queue])
    have later := aligned_append entries (polled.spawned.map AsyncTaskItem.task)
    obtain ⟨same, others⟩ := List.cons.inj later
    rw [Aligned, Executor.taskQueue_runReadyTask queue, map_append, map_append, map_append,
      map_append, others, aligned_new]
    cases polled.future with
    | none => rfl
    | some future => exact congrArg (_ ++ [·]) same
  | release => exact aligned

def completed (servings : List (Serving Nat)) : List Nat := servings.filterMap Serving.done

def polls (servings : List (Serving Nat)) : List Nat := servings.filterMap Serving.served

theorem boot_aligned : (boot : Numbered φ).Aligned := rfl

theorem arrived_run (run : Run Step before servings after) :
    List.range before.spawned.length ++ servings.flatMap Serving.arrived = List.range after.spawned.length := by
  induction run with
  | refl => exact append_nil _
  | cons step _ ih => rw [flatMap_cons, ← append_assoc, step.arrived, ih]

/-- From the start on each number is in the queue once, until its task is done. -/
theorem count_numbers (run : Run Step (boot : Numbered φ) servings before) (number : Nat) :
    before.numbers.count number =
      if number < before.spawned.length ∧ number ∉ completed servings then 1 else 0 := by
  have served : Run Serving.Serves [] servings before.numbers := run.image numbers fun step => step.serves
  have law := Serving.count_arrived served number
  have numbered : servings.flatMap Serving.arrived = List.range before.spawned.length := arrived_run run
  rw [numbered, nodup_range.count, count_nil, zero_add] at law
  have done : 0 < (servings.filterMap Serving.done).count number ↔ number ∈ completed servings :=
    count_pos_iff
  by_cases spawned : number < before.spawned.length
  · rw [if_pos (mem_range.mpr spawned)] at law
    by_cases gone : number ∈ completed servings
    · rw [if_neg fun both => both.2 gone]
      have := done.mpr gone
      omega
    · rw [if_pos ⟨spawned, gone⟩]
      have := mt done.mp gone
      omega
  · rw [if_neg fun both => spawned both.1]
    rw [if_neg fun listed => spawned (mem_range.mp listed)] at law
    omega

/-- Between steps the queue holds every task that was spawned and is not done once,
and between two polls of a task everyone who was in the queue at the first of them is
polled once. -/
theorem round_robin (run : Run Step (boot : Numbered φ) servings before) :
    (before.Aligned ∧ ∀ number, before.numbers.count number =
      if number < before.spawned.length ∧ number ∉ completed servings then 1 else 0) ∧
    ∀ {first between middle second after finish number},
      Step before first middle → Run Step middle between after → Step after second finish →
      first.served = some number → number ∉ polls between → second.served = some number →
      ∀ other ∈ before.numbers, other ≠ number → (polls between).count other = 1 := by
  refine ⟨⟨run.preserves (fun aligned step => step.aligned aligned) boot_aligned, count_numbers run⟩, ?_⟩
  intro first between middle second after finish number poll meanwhile again isFirst absent isSecond other
    waiting different
  have reached := run.append (.cons poll .refl)
  have single (name : Nat) : middle.numbers.count name ≤ 1 := by
    rw [count_numbers reached]
    split <;> omega
  obtain ⟨rest, queue, queued⟩ := poll.serves.first isFirst
  obtain ⟨_, queuedAgain, _⟩ := again.serves.first isSecond
  -- A task that is polled again was not done at the first poll.
  have stays : first.again = true := by
    by_contra isDone
    have counted := count_numbers (reached.append meanwhile) number
    have gone : number ∈ completed ((servings ++ [first]) ++ between) := by
      simp [completed, filterMap_append, Serving.done, isDone, isFirst]
    rw [queuedAgain, if_neg fun both => both.2 gone] at counted
    simp at counted
  rw [if_pos stays] at queued
  have fresh : number ∉ rest ++ first.arrived := by
    intro member
    have counted := single number
    rw [queued, count_append, count_singleton_self] at counted
    have := count_pos_iff.mpr member
    omega
  have served : Run Serving.Serves (rest ++ first.arrived ++ [number]) between after.numbers :=
    queued ▸ meanwhile.image numbers fun step => step.serves
  have order : polls between = rest ++ first.arrived :=
    Serving.served_until fresh served absent again.serves isSecond
  have ahead : other ∈ rest := by
    rw [queue] at waiting
    exact (mem_cons.mp waiting).resolve_left different
  have counted := single other
  rw [queued, count_append] at counted
  have positive : 0 < (rest ++ first.arrived).count other :=
    count_pos_iff.mpr (mem_append_left _ ahead)
  rw [order]
  omega

def item (task : Nat) : AsyncTaskItem Unit := { task, future := () }

def twoTasks : Numbered Unit :=
  { executor := (Executor.new.spawn (item 7)).spawn (item 8), spawned := [7, 8], numbers := [0, 1] }

/-- The second task spawns a third one between two polls of the first. -/
theorem round_robin_two_tasks :
    (twoTasks.Aligned ∧ ∀ number, twoTasks.numbers.count number =
      if number < twoTasks.spawned.length ∧ number ∉ completed [⟨none, [0], false⟩, ⟨none, [1], false⟩] then 1
      else 0) ∧
    (polls [⟨some 1, [2], true⟩]).count 1 = 1 := by
  have spawned : Run Step boot [⟨none, [0], false⟩, ⟨none, [1], false⟩] twoTasks :=
    .cons (.spawn (item 7)) (.cons (.spawn (item 8)) .refl)
  obtain ⟨census, fair⟩ := round_robin spawned
  refine ⟨census, fair (.poll ⟨[], some ()⟩ ?_) (.cons (.poll ⟨[item 9], some ()⟩ ?_) .refl)
    (.poll ⟨[], some ()⟩ ?_) rfl ?_ rfl 1 ?_ ?_⟩
  · nofun
  · nofun
  · nofun
  · decide
  · decide
  · decide

end Numbered

end MonkeyOS.Runtime
