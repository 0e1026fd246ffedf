import MonkeyOS.Lib.OrderedMap
import MonkeyOS.Lib.Run
import MonkeyOS.Machine.Memory

/-!
# Futexes

`sys_futex` of `kernel/src/syscall/task.rs` with the table operations and the
wait future of `kernel/src/tasks/async_ops.rs`. The address and the value found
there come with the call; whether a signal is pending and whether the deadline
has passed come with each poll.
-/

set_option autoImplicit false

namespace MonkeyOS.Tasks

open Lib Function

/-- Waiting task ids by user address, oldest first. -/
abbrev FutexTable := OrderedMap Nat (List Nat)

def inFutex (table : FutexTable) (taskId : Nat) : Bool :=
  table.values.any fun queue => queue.contains taskId

def futexWake (table : FutexTable) (uaddr wakeCount : Nat) : Nat × FutexTable :=
  let queSize := ((table.get uaddr).map List.length).getD 0
  if queSize = 0 then (0, table)
  else
    let woken := min wakeCount queSize
    (woken, table.modify uaddr fun queue => queue.drop woken)

/-- `none` is the panic of draining more than the queue holds. -/
def futexRequeue (table : FutexTable) (uaddr wakeCount uaddr2 requeCount : Nat) : Option (Nat × FutexTable) :=
  match table.get uaddr with
  | none => some (0, table)
  | some queue =>
    let rest := queue.drop wakeCount
    if wakeCount ≤ queue.length ∧ requeCount ≤ rest.length then
      let drained := table.modify uaddr fun _ => rest.drop requeCount
      let ready :=
        if (drained.get uaddr2).isNone then drained.insert uaddr2 [] else drained
      some (wakeCount, ready.modify uaddr2 fun queue => queue ++ rest.take requeCount)
    else none

/-- `WaitFutex::poll`; `none` is `Poll::Pending`. -/
def waitFutexPoll (table : FutexTable) (taskId : Nat) (hasSignal : Bool) : Option (Except Errno Nat) × FutexTable :=
  if inFutex table taskId then
    if hasSignal then
      let removed :=
        match table.findKey fun queue => queue.contains taskId with
        | some uaddr => table.modify uaddr fun queue => queue.filter fun other => other != taskId
        | none => table
      (some (.error .EINTR), removed)
    else (none, table)
  else (some (.ok 0), table)

structure FutexCall where
  uaddr : Nat
  valid : Bool
  /-- The 32 bits at the address. -/
  current : Nat
  op : Nat
  value : Nat
  value2 : Nat
  uaddr2 : Nat

inductive FutexAction where
  | wait (uaddr : Nat) (timed : Bool)
  | wake (uaddr count : Nat)
  | requeue (uaddr wakeCount uaddr2 requeCount : Nat)

/-- What a call asks for. Unknown operations up to ten count as wakes. -/
def FutexCall.decode (call : FutexCall) : Except Errno FutexAction :=
  let op := if call.op ≥ 0x80 then call.op - 0x80 else call.op
  if ¬ call.valid then .error .EFAULT
  else
    match op with
    | 0 =>
      if call.current = call.value % 2 ^ 32 then .ok (.wait call.uaddr (call.value2 ≠ 0))
      else .error .EAGAIN
    | 1 => .ok (.wake call.uaddr call.value)
    | 3 => .ok (.requeue call.uaddr call.value call.uaddr2 call.value2)
    | _ => if op ≤ 10 then .ok (.wake call.uaddr call.value) else .error .ENOSYS

structure FutexState where
  table : FutexTable
  /-- Tasks suspended in a wait, and whether the wait has a deadline. -/
  waiting : Nat → Option Bool

inductive FutexOutcome where
  | returned (result : Except Errno Nat)
  | suspended

namespace FutexState

def boot : FutexState := { table := .empty, waiting := fun _ => none }

def sysFutex (state : FutexState) (tid : Nat) (call : FutexCall) : Option (FutexOutcome × FutexState) :=
  match call.decode with
  | .error errno => some (.returned (.error errno), state)
  | .ok (.wait uaddr timed) =>
    let table :=
      match state.table.get uaddr with
      | some _ => state.table.modify uaddr fun queue => queue ++ [tid]
      | none => state.table.insert uaddr [tid]
    some (.suspended, { table, waiting := update state.waiting tid (some timed) })
  | .ok (.wake uaddr count) =>
    let (woken, table) := futexWake state.table uaddr count
    some (.returned (.ok woken), { state with table })
  | .ok (.requeue uaddr wakeCount uaddr2 requeCount) =>
    (futexRequeue state.table uaddr wakeCount uaddr2 requeCount).map fun (woken, table) =>
      (.returned (.ok woken), { state with table })

/-- One poll of a suspended wait: the futex first, then the deadline. -/
def pollWait (state : FutexState) (tid : Nat) (hasSignal expired : Bool) : FutexOutcome × FutexState :=
  match waitFutexPoll state.table tid hasSignal with
  | (some result, table) =>
    (.returned result, { table, waiting := update state.waiting tid none })
  | (none, table) =>
    if expired then
      (.returned (.error .ETIMEDOUT), { table, waiting := update state.waiting tid none })
    else (.suspended, { state with table })

end FutexState

inductive FutexEvent where
  | call (tid : Nat) (call : FutexCall)
  | poll (tid : Nat) (hasSignal expired : Bool)

/-- Only a task that is not suspended calls, only a suspended one is polled, and
only a wait with a deadline expires. -/
def FutexState.apply (state : FutexState) : FutexEvent → Option (FutexOutcome × FutexState)
  | .call tid call => if state.waiting tid = none then state.sysFutex tid call else none
  | .poll tid hasSignal expired =>
    match state.waiting tid with
    | none => none
    | some timed => if expired && !timed then none else some (state.pollWait tid hasSignal expired)

/-! ## Who is blocked -/

/-- The tasks blocked at each address, oldest first: what the table is to hold. -/
abbrev Blocked := Nat → List Nat

def Blocked.apply (blocked : Blocked) : FutexEvent → Blocked
  | .call tid call =>
    match call.decode with
    | .error _ => blocked
    | .ok (.wait uaddr _) => update blocked uaddr (blocked uaddr ++ [tid])
    | .ok (.wake uaddr count) => update blocked uaddr ((blocked uaddr).drop count)
    | .ok (.requeue uaddr wakeCount uaddr2 requeCount) =>
      let rest := (blocked uaddr).drop wakeCount
      let drained := update blocked uaddr (rest.drop requeCount)
      update drained uaddr2 (drained uaddr2 ++ rest.take requeCount)
  | .poll tid hasSignal expired =>
    if hasSignal || expired then fun uaddr => (blocked uaddr).filter fun other => other != tid
    else blocked

/-- The futex state beside the tasks that are blocked. -/
structure FutexSystem where
  state : FutexState
  blocked : Blocked

namespace FutexSystem

def boot : FutexSystem := { state := .boot, blocked := fun _ => [] }

def Step (system : FutexSystem) (event : FutexEvent) (next : FutexSystem) : Prop :=
  ∃ outcome, system.state.apply event = some (outcome, next.state) ∧ next.blocked = system.blocked.apply event

/-- The wait is still queued, without a signal, when its deadline passes. -/
def TimesOut (system : FutexSystem) : FutexEvent → Prop
  | .call _ _ => False
  | .poll tid hasSignal expired => expired ∧ ¬ hasSignal ∧ inFutex system.state.table tid

def UntimedStep (system : FutexSystem) (event : FutexEvent) (next : FutexSystem) : Prop :=
  system.Step event next ∧ ¬ system.TimesOut event

end FutexSystem

end MonkeyOS.Tasks
