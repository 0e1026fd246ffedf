import MonkeyOS.Runtime.Executor
import MonkeyOS.User.RealTimeSignals

/-!
# Three ways to send a signal

`sys_kill` looks its target up in `TASK_MAP` and only sets the pending bit;
`sys_tkill` and `sys_tgkill` look among the threads of the process and queue a
real-time signal that already pends.
-/

set_option autoImplicit false

namespace MonkeyOS.User

open Lib Tasks UserTask SignalFlags
open MonkeyOS.Runtime (tid2task)

/-- The call of a thread of this process, or of any other, seen from this thread. -/
def UserTask.sysKill (around : Surroundings) (taskMap : Nat → Bool) (task : UserTask) (pid signum : Nat) :
    Except Errno Nat × UserTask :=
  match tid2task taskMap around.alive pid with
  | none => (.error .ESRCH, task)
  | some target =>
    (.ok 0, if target = task.taskId then task.addSignal (.fromNum signum) else task)

def UserTask.signals (task : UserTask) : SignalList × Vector Nat 33 := (task.signal, task.signalQueue)

structure UserTask.Reachable (around : Surroundings) (task : UserTask) (caller : Nat) : Prop where
  leads : task.taskId = task.space.process.processId
  thread : task.taskId = caller ∨ task.taskId ∈ task.space.process.pcb.threads
  alive : around.alive task.taskId

variable {around : Surroundings} {taskMap : Nat → Bool} {task after : UserTask} {caller signum index : Nat}

private theorem find_self {threads : List Nat} {test : Nat → Bool} {tid : Nat} (member : tid ∈ threads)
    (passes : test tid) (only : ∀ other, test other → other = tid) : threads.find? test = some tid := by
  obtain ⟨found, is⟩ := Option.isSome_iff_exists.mp (List.find?_isSome.mpr ⟨tid, member, passes⟩)
  rw [is, only found (List.find?_some is)]

namespace UserTask.Reachable

variable (reachable : task.Reachable around caller)
include reachable

theorem tkillTarget : task.tkillTarget around caller task.taskId = some task.taskId := by
  unfold UserTask.tkillTarget
  split
  · next same => rw [same]
  · next other =>
    refine find_self (reachable.thread.resolve_left other) ?_ fun thread passes => ?_
    · simp [reachable.alive]
    · simpa using (Bool.and_eq_true_iff.mp passes).2

theorem tgkillTarget : task.tgkillTarget around caller task.taskId task.taskId = some task.taskId := by
  unfold UserTask.tgkillTarget
  split
  · next same => rw [same.1]
  · next other =>
    have apart : task.taskId ≠ caller := fun same => other ⟨same, reachable.leads⟩
    refine find_self (reachable.thread.resolve_left apart) ?_ fun thread passes => ?_
    · simp [reachable.alive, ← reachable.leads]
    · simpa using (Bool.and_eq_true_iff.mp (Bool.and_eq_true_iff.mp passes).2).1

theorem sends (signum : Nat) :
    ∃ after, task.sendSignal signum = some after ∧
      task.sysTkill around caller task.taskId signum = some (.ok 0, after) ∧
      task.sysTgkill around caller task.taskId task.taskId signum = some (.ok 0, after) := by
  obtain ⟨after, sent⟩ := Option.isSome_iff_exists.mp (sendSignal_isSome task signum)
  refine ⟨after, sent, ?_, ?_⟩
  · simp [sysTkill, reachable.tkillTarget, sendTo, sent]
  · simp [sysTgkill, reachable.tgkillTarget, sendTo, sent]

theorem sysKill (signum : Nat) :
    (task.sysKill around taskMap task.taskId signum).2 =
      if taskMap task.taskId then task.addSignal (.fromNum signum) else task := by
  cases registered : taskMap task.taskId with
  | false => simp [UserTask.sysKill, tid2task, registered]
  | true => simp [UserTask.sysKill, tid2task, registered, reachable.alive]

end UserTask.Reachable

/-- The three calls leave the target alike exactly if a signal that already pends is
not a real-time one, and one that does not pend finds the target in `TASK_MAP`. -/
theorem send_paths_agree_iff (reachable : task.Reachable around caller) (range : 1 ≤ signum ∧ signum ≤ 64) :
    (some (task.sysKill around taskMap task.taskId signum).2.signals =
          (task.sysTkill around caller task.taskId signum).map (fun sent => sent.2.signals) ∧
        (task.sysTkill around caller task.taskId signum).map (fun sent => sent.2.signals) =
          (task.sysTgkill around caller task.taskId task.taskId signum).map fun sent => sent.2.signals) ↔
      if task.signal.hasSig (.fromNum signum) then (fromNum signum).realTimeIndex = none
      else taskMap task.taskId = true := by
  obtain ⟨after, sent, tkill, tgkill⟩ := reachable.sends signum
  have low : signum - 1 < 64 := by omega
  have raised : (task.addSignal (.fromNum signum)).signals =
      (task.signal.addSignal (.fromNum signum), task.signalQueue) :=
    Prod.ext (signal_withSignal ..) rfl
  rw [tkill, tgkill, reachable.sysKill]
  simp only [Option.map_some, Option.some.injEq, and_true]
  rcases sendSignal_cases sent with ⟨clear, rfl⟩ | ⟨pending, single, same⟩ |
    ⟨pending, slot, queued, realTime, found, rfl⟩
  · rw [clear, if_neg Bool.false_ne_true]
    cases taskMap task.taskId with
    | true => simp
    | false =>
      refine ⟨fun same => ?_, fun absurd => nomatch absurd⟩
      have bits := congrArg (fun signals => signals.1.hasSig (.fromNum signum)) (same.trans raised)
      rw [fromNum_eq range] at bits clear
      simp [signals, clear, SignalList.hasSig_addSignal _ _ low, getLsbD_bit low] at bits
  · rw [pending, if_pos rfl, single, same]
    have merged : (task.addSignal (.fromNum signum)).signals = task.signals := by
      rw [raised]
      rw [fromNum_eq range] at pending ⊢
      rw [SignalList.addSignal_pending low pending]
      rfl
    cases taskMap task.taskId with
    | true => simpa using merged
    | false => simp
  · rw [pending, if_pos rfl, realTime]
    have unqueued : (if taskMap task.taskId then task.addSignal (.fromNum signum) else task).signalQueue =
        task.signalQueue := by
      split <;> rfl
    refine ⟨fun same => ?_, fun absurd => nomatch absurd⟩
    have queues := (congrArg Prod.snd same).symm.trans unqueued
    have bumped := congrArg (fun queue => queue[slot]?) queues
    have inside : slot < 33 := (Vector.getElem?_eq_some_iff.mp found).1
    simp only [signals, found, Vector.getElem?_setIfInBounds_self_of_lt inside, Option.some.injEq] at bumped
    omega

theorem send_paths_agree_once :
    lone.signal.hasSig (.fromNum 34) = false ∧
      some (lone.sysKill .alone (fun _ => true) 1 34).2.signals =
        (lone.sysTkill .alone 1 1 34).map fun sent => sent.2.signals := by
  refine ⟨by decide +kernel, ((@send_paths_agree_iff .alone (fun _ => true) lone 1 34
    ⟨rfl, .inl rfl, rfl⟩ (by decide)).mpr ?_).1⟩
  rw [if_neg (by decide +kernel)]

/-- A real-time signal that already pends is queued by `sys_tkill` and merged by `sys_kill`. -/
theorem sys_kill_merges :
    let pending := lone.addSignal (.fromNum 34)
    (pending.sysKill .alone (fun _ => true) 1 34).2.signalQueue[2]? = some 0 ∧
      (pending.sysTkill .alone 1 1 34).bind (fun sent => sent.2.signalQueue[2]?) = some 1 ∧
      (pending.sysTgkill .alone 1 1 1 34).bind (fun sent => sent.2.signalQueue[2]?) = some 1 := by
  decide +kernel

end MonkeyOS.User
