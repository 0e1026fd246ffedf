import MonkeyOS.Tasks.Futex

/-! The futex table against the tasks that are blocked. -/

set_option autoImplicit false

namespace MonkeyOS.Tasks

open Lib Function List OrderedMap

namespace Blocked

structure Distinct (blocked : Blocked) : Prop where
  each : ∀ uaddr, (blocked uaddr).Nodup
  place : ∀ first second tid, tid ∈ blocked first → tid ∈ blocked second → first = second

variable {blocked : Blocked}

theorem Distinct.shrink (distinct : blocked.Distinct) {next : Blocked}
    (fewer : ∀ uaddr, (next uaddr).Sublist (blocked uaddr)) : next.Distinct where
  each uaddr := (distinct.each uaddr).sublist (fewer uaddr)
  place first second tid inFirst inSecond :=
    distinct.place first second tid ((fewer first).subset inFirst) ((fewer second).subset inSecond)

theorem Distinct.extend (distinct : blocked.Distinct) (uaddr : Nat) {added : List Nat}
    (once : added.Nodup) (fresh : ∀ tid ∈ added, ∀ other, tid ∉ blocked other) :
    Distinct (update blocked uaddr (blocked uaddr ++ added)) where
  each other := by
    rcases eq_or_ne other uaddr with rfl | different
    · simp only [update_self]
      exact (distinct.each other).append once fun tid old new => fresh tid new other old
    · simpa [different] using distinct.each other
  place first second tid := by
    have apart := distinct.place first second tid
    simp only [update_apply]
    intro inFirst inSecond
    split at inFirst <;> split at inSecond <;> grind

end Blocked

def FutexTable.queue (table : FutexTable) : Blocked := fun uaddr => (table.get uaddr).getD []

namespace FutexTable

variable {table : FutexTable} {tid uaddr : Nat} {list : List Nat}

theorem queue_absent (absent : table.get uaddr = none) : table.queue uaddr = [] := by simp [queue, absent]

theorem queue_present (present : table.get uaddr = some list) : table.queue uaddr = list := by
  simp [queue, present]

theorem inFutex_iff : inFutex table tid ↔ ∃ uaddr, tid ∈ table.queue uaddr := by
  simp only [inFutex, any_eq_true, contains_iff_mem, queue]
  constructor
  · rintro ⟨list, member, found⟩
    obtain ⟨uaddr, present⟩ := mem_values_iff.mp member
    exact ⟨uaddr, by simpa [present] using found⟩
  · rintro ⟨uaddr, found⟩
    cases present : table.get uaddr with
    | none => simp [present] at found
    | some list =>
      exact ⟨list, mem_values_iff.mpr ⟨uaddr, present⟩, by simpa [present] using found⟩

theorem queue_modify (uaddr : Nat) (update : List Nat → List Nat) (empty : update [] = []) :
    queue (table.modify uaddr update) = Function.update table.queue uaddr (update (table.queue uaddr)) := by
  funext other
  simp only [queue, get_modify, Function.update_apply]
  split
  · cases table.get uaddr <;> simp [empty]
  · rfl

theorem queue_futexWake (uaddr count : Nat) :
    queue (futexWake table uaddr count).2 =
        update table.queue uaddr ((table.queue uaddr).drop count) ∧
      (futexWake table uaddr count).1 = min count (table.queue uaddr).length := by
  have size : ((table.get uaddr).map List.length).getD 0 = (table.queue uaddr).length := by
    simp only [queue]
    cases table.get uaddr <;> rfl
  simp only [futexWake, size]
  split
  · next idle =>
    have none : table.queue uaddr = [] := length_eq_zero_iff.mp idle
    refine ⟨?_, by omega⟩
    rw [none, drop_nil, ← none, update_eq_self]
  · refine ⟨?_, rfl⟩
    rw [queue_modify _ _ (drop_nil ..)]
    congr 1
    rcases le_total count (table.queue uaddr).length with few | many
    · rw [min_eq_left few]
    · rw [min_eq_right many, drop_eq_nil_of_le (le_refl _), drop_eq_nil_of_le many]

private theorem queue_modify_present (present : table.get uaddr = some list) (update : List Nat → List Nat) :
    queue (table.modify uaddr update) = Function.update table.queue uaddr (update list) := by
  funext other
  simp only [queue, get_modify, update_apply, present, Option.map_some]
  split <;> rfl

private theorem queue_insert (uaddr : Nat) (list : List Nat) :
    queue (table.insert uaddr list) = update table.queue uaddr list := by
  funext other
  simp only [queue, get_insert, update_apply]
  split <;> rfl

private theorem queue_append (uaddr : Nat) (added : List Nat) :
    queue ((if (table.get uaddr).isNone then table.insert uaddr [] else table).modify uaddr
        fun list => list ++ added) =
      Function.update table.queue uaddr (table.queue uaddr ++ added) := by
  cases present : table.get uaddr with
  | none =>
    have created : (table.insert uaddr []).get uaddr = some [] := by
      rw [get_insert, if_pos rfl]
    simp only [Option.isNone_none, if_true]
    rw [queue_modify_present created, queue_insert, Function.update_idem, queue_absent present]
  | some _ => rw [if_neg (by simp), queue_modify_present present, queue_present present]

theorem queue_wait (uaddr tid : Nat) :
    queue (match table.get uaddr with
      | some _ => table.modify uaddr fun list => list ++ [tid]
      | none => table.insert uaddr [tid]) =
      Function.update table.queue uaddr (table.queue uaddr ++ [tid]) := by
  cases present : table.get uaddr with
  | none => simp only [queue_insert, queue_absent present, nil_append]
  | some _ => simp only [queue_modify_present present, queue_present present]

section Requeue

variable {wakeCount uaddr2 requeCount woken : Nat} {next : FutexTable}

structure Requeued (table : FutexTable) (uaddr wakeCount uaddr2 requeCount woken : Nat) (next : FutexTable) :
    Prop where
  count : woken = min wakeCount (table.queue uaddr).length
  source : next.queue uaddr =
    ((table.queue uaddr).drop woken).drop (min requeCount ((table.queue uaddr).length - woken))
  target : next.queue uaddr2 = table.queue uaddr2 ++
    ((table.queue uaddr).drop woken).take (min requeCount ((table.queue uaddr).length - woken))
  others : ∀ other, other ≠ uaddr → other ≠ uaddr2 → next.get other = table.get other

theorem futexRequeue_isSome : (futexRequeue table uaddr wakeCount uaddr2 requeCount).isSome ↔
    table.get uaddr = none ∨
      wakeCount ≤ (table.queue uaddr).length ∧ requeCount ≤ (table.queue uaddr).length - wakeCount := by
  cases present : table.get uaddr with
  | none => simp [futexRequeue, present]
  | some _ =>
    simp only [futexRequeue, present, queue_present present, length_drop, reduceCtorEq, false_or]
    split <;> simp_all

variable (requeued : futexRequeue table uaddr wakeCount uaddr2 requeCount = some (woken, next))
include requeued

theorem futexRequeue_cases :
    table.get uaddr = none ∧ woken = 0 ∧ next = table ∨
      ∃ drained : FutexTable, woken = wakeCount ∧ wakeCount ≤ (table.queue uaddr).length ∧
        drained.queue = update table.queue uaddr (((table.queue uaddr).drop wakeCount).drop requeCount) ∧
        (∀ other ≠ uaddr, drained.get other = table.get other) ∧
        next = (if (drained.get uaddr2).isNone then drained.insert uaddr2 [] else drained).modify uaddr2
          fun list => list ++ ((table.queue uaddr).drop wakeCount).take requeCount := by
  cases present : table.get uaddr with
  | none =>
    simp only [futexRequeue, present, Option.some.injEq, Prod.mk.injEq] at requeued
    exact .inl ⟨rfl, requeued.1.symm, requeued.2.symm⟩
  | some _ =>
    simp only [futexRequeue, present] at requeued
    split at requeued
    · next fits =>
      simp only [Option.some.injEq, Prod.mk.injEq] at requeued
      rw [queue_present present]
      refine .inr ⟨_, requeued.1.symm, fits.1, queue_modify_present present _, fun _ different => ?_, requeued.2.symm⟩
      rw [get_modify, if_neg different]
    · cases requeued

theorem queue_futexRequeue :
    next.queue =
      (let rest := (table.queue uaddr).drop wakeCount
       let drained := update table.queue uaddr (rest.drop requeCount)
       update drained uaddr2 (drained uaddr2 ++ rest.take requeCount)) := by
  rcases futexRequeue_cases requeued with ⟨absent, -, rfl⟩ | ⟨_, -, -, queues, -, rfl⟩
  · -- No queue, nothing to move: both updates leave the queues as they are.
    have empty := queue_absent absent
    simp only [empty, drop_nil, take_nil, append_nil, update_eq_self]
    rw [← empty, update_eq_self]
  · rw [queue_append, queues]

/-- A requeue that returns has not had to cut its counts down. -/
theorem futexRequeue_woken :
    woken = min wakeCount (table.queue uaddr).length ∧
      min requeCount ((table.queue uaddr).length - woken) =
        min requeCount ((table.queue uaddr).length - wakeCount) := by
  rcases futexRequeue_cases requeued with ⟨absent, rfl, -⟩ | ⟨_, rfl, _, -⟩
  · simp [queue_absent absent]
  · omega

theorem futexRequeue_others {other : Nat} (first : other ≠ uaddr) (second : other ≠ uaddr2) :
    next.get other = table.get other := by
  rcases futexRequeue_cases requeued with ⟨-, -, rfl⟩ | ⟨_, -, -, -, kept, rfl⟩
  · rfl
  · rw [get_modify, if_neg second, ← kept other first]
    split
    · rw [get_insert, if_neg second]
    · rfl

theorem Requeued.of_futexRequeue (different : uaddr ≠ uaddr2) :
    Requeued table uaddr wakeCount uaddr2 requeCount woken next := by
  obtain ⟨wakes, moves⟩ := futexRequeue_woken requeued
  have queues := queue_futexRequeue requeued
  have dropped : (table.queue uaddr).drop woken = (table.queue uaddr).drop wakeCount := by
    rw [wakes, ← drop_eq_drop_min]
  have length : (table.queue uaddr).length - wakeCount = ((table.queue uaddr).drop wakeCount).length :=
    length_drop.symm
  refine ⟨wakes, ?_, ?_, fun _ => futexRequeue_others requeued⟩
  · rw [queues, dropped, moves, length, ← drop_eq_drop_min]
    simp [different]
  · rw [queues, dropped, moves, length, ← take_eq_take_min]
    simp [different.symm]

omit requeued

/-- A requeue does what it is to do if and only if neither count exceeds the waiters
that are left for it; otherwise it panics. -/
theorem requeue_conserves_iff (different : uaddr ≠ uaddr2) :
    (∃ woken next, futexRequeue table uaddr wakeCount uaddr2 requeCount = some (woken, next) ∧
        Requeued table uaddr wakeCount uaddr2 requeCount woken next) ↔
      table.get uaddr = none ∨
        wakeCount ≤ (table.queue uaddr).length ∧ requeCount ≤ (table.queue uaddr).length - wakeCount := by
  rw [← futexRequeue_isSome, Option.isSome_iff_exists]
  constructor
  · rintro ⟨woken, next, requeued, _⟩
    exact ⟨_, requeued⟩
  · rintro ⟨⟨woken, next⟩, requeued⟩
    exact ⟨woken, next, requeued, .of_futexRequeue requeued different⟩

def twoWaiters : FutexTable := empty.insert 0x10 [1, 2]

theorem requeue_conserves_one : ∃ woken next, futexRequeue twoWaiters 0x10 1 0x20 1 = some (woken, next) ∧
    Requeued twoWaiters 0x10 1 0x20 1 woken next :=
  (requeue_conserves_iff (by decide)).mpr (.inr (by decide))

/-- `pthread_cond_broadcast` wakes one task and moves as many as there may be. -/
theorem broadcast_panics : futexRequeue twoWaiters 0x10 1 0x20 (2 ^ 31 - 1) = none := by decide

end Requeue

theorem queue_interrupted (distinct : table.queue.Distinct) (found : inFutex table tid) :
    queue (waitFutexPoll table tid true).2 = fun uaddr => (table.queue uaddr).filter fun other => other != tid := by
  obtain ⟨place, member⟩ := inFutex_iff.mp found
  simp only [waitFutexPoll, found, if_true]
  split
  · next uaddr searched =>
    obtain ⟨list, present, contains⟩ := findKey_some searched
    have whole := queue_present present
    have inside : tid ∈ table.queue uaddr := by rw [whole]; simpa using contains
    rw [queue_modify_present present, whole.symm]
    funext other
    rcases eq_or_ne other uaddr with rfl | different
    · simp
    · rw [update_of_ne different, eq_comm, filter_eq_self]
      intro sleeper asleep
      have notHere : tid ∉ table.queue other :=
        fun here => different (distinct.place _ _ _ here inside)
      simpa using fun same : sleeper = tid => notHere (same ▸ asleep)
  · next searched =>
    cases present : table.get place with
    | none => simp [queue, present] at member
    | some list =>
      have absent := findKey_none searched present
      simp [queue, present] at member
      simp [member] at absent

end FutexTable

namespace FutexSystem

/-- The table holds the blocked tasks, each once, and all of them are suspended. -/
structure Exact (system : FutexSystem) : Prop where
  queues : system.state.table.queue = system.blocked
  distinct : system.blocked.Distinct
  suspended : ∀ uaddr, ∀ tid ∈ system.blocked uaddr, system.state.waiting tid ≠ none

theorem boot_exact : boot.Exact where
  queues := rfl
  distinct := ⟨fun _ => .nil, fun _ _ _ found => absurd found not_mem_nil⟩
  suspended := fun _ _ found => absurd found not_mem_nil

variable {system next : FutexSystem}

private theorem Exact.lose (exact : system.Exact) (queues : next.state.table.queue = next.blocked)
    (fewer : ∀ uaddr, (next.blocked uaddr).Sublist (system.blocked uaddr))
    (waiting : next.state.waiting = system.state.waiting) : next.Exact where
  queues := queues
  distinct := exact.distinct.shrink fewer
  suspended uaddr tid member := waiting ▸ exact.suspended uaddr tid ((fewer uaddr).subset member)

private theorem drop_sublist (blocked : Blocked) (uaddr count other : Nat) :
    (update blocked uaddr ((blocked uaddr).drop count) other).Sublist (blocked other) := by
  rcases eq_or_ne other uaddr with rfl | different
  · simpa using List.drop_sublist count (blocked other)
  · simp [different]

private theorem Exact.requeue (exact : system.Exact) (uaddr wakeCount uaddr2 requeCount : Nat) :
    let rest := (system.blocked uaddr).drop wakeCount
    let drained : Blocked := update system.blocked uaddr (rest.drop requeCount)
    let moved : Blocked := update drained uaddr2 (drained uaddr2 ++ rest.take requeCount)
    moved.Distinct ∧ ∀ other, ∀ tid ∈ moved other, ∃ place, tid ∈ system.blocked place := by
  intro rest drained moved
  have restOnce : rest.Nodup := (exact.distinct.each uaddr).sublist (List.drop_sublist ..)
  have fewer : ∀ other, (drained other).Sublist (system.blocked other) := by
    intro other
    rcases eq_or_ne other uaddr with rfl | different
    · simpa [drained, rest, drop_drop] using List.drop_sublist (wakeCount + requeCount) (system.blocked other)
    · simp [drained, different]
  have taken : ∀ tid ∈ rest.take requeCount, tid ∈ system.blocked uaddr := fun tid member =>
    mem_of_mem_drop (mem_of_mem_take member)
  constructor
  · refine (exact.distinct.shrink fewer).extend uaddr2 (restOnce.sublist (take_sublist ..)) ?_
    intro tid member other found
    have place := exact.distinct.place other uaddr tid ((fewer other).subset found) (taken tid member)
    subst place
    simp only [drained, update_self] at found
    exact disjoint_take_drop restOnce (le_refl _) member found
  · intro other tid member
    simp only [moved, update_apply] at member
    split at member
    · rcases mem_append.mp member with old | new
      · exact ⟨uaddr2, (fewer uaddr2).subset old⟩
      · exact ⟨uaddr, taken tid new⟩
    · exact ⟨other, (fewer other).subset member⟩

private theorem Exact.call (exact : system.Exact) {tid : Nat} {call : FutexCall}
    (step : system.Step (.call tid call) next) : next.Exact := by
  obtain ⟨_, applied, blocked⟩ := step
  simp only [FutexState.apply] at applied
  split at applied
  · next awake =>
    simp only [FutexState.sysFutex] at applied
    simp only [Blocked.apply] at blocked
    cases decoded : call.decode with
    | error _ =>
      simp only [decoded, Option.some.injEq, Prod.mk.injEq] at applied blocked
      exact ⟨by rw [← applied.2, blocked, exact.queues], blocked ▸ exact.distinct,
        by rw [← applied.2, blocked]; exact exact.suspended⟩
    | ok action =>
      cases action with
      | wait uaddr _ =>
        simp only [decoded, Option.some.injEq, Prod.mk.injEq] at applied blocked
        have fresh : ∀ other, tid ∉ system.blocked other := fun other member =>
          exact.suspended other tid member awake
        refine ⟨?_, ?_, ?_⟩
        · rw [← applied.2, blocked, ← exact.queues]
          exact FutexTable.queue_wait uaddr tid
        · rw [blocked]
          exact exact.distinct.extend uaddr (nodup_singleton tid) (by simpa using fresh)
        · intro other sleeper member
          rw [← applied.2]
          simp only [blocked, update_apply] at member ⊢
          split at member <;> split <;> grind [exact.suspended]
      | wake uaddr count =>
        simp only [decoded, Option.some.injEq, Prod.mk.injEq] at applied blocked
        refine exact.lose ?_ ?_ (by rw [← applied.2])
        · rw [← applied.2, blocked, ← exact.queues]
          exact (FutexTable.queue_futexWake uaddr count).1
        · intro other
          rw [blocked]
          exact drop_sublist system.blocked uaddr count other
      | requeue uaddr wakeCount uaddr2 requeCount =>
        simp only [decoded] at applied blocked
        obtain ⟨⟨_, _⟩, requeued, same⟩ := Option.map_eq_some_iff.mp applied
        simp only [Prod.mk.injEq] at same
        obtain ⟨distinct, old⟩ := exact.requeue uaddr wakeCount uaddr2 requeCount
        refine ⟨?_, blocked ▸ distinct, ?_⟩
        · rw [← same.2, blocked, ← exact.queues]
          exact FutexTable.queue_futexRequeue requeued
        · intro other sleeper member
          rw [blocked] at member
          obtain ⟨place, found⟩ := old other sleeper member
          rw [← same.2]
          exact exact.suspended place sleeper found
  · cases applied

variable {tid count uaddr : Nat} {event : FutexEvent}

private theorem filter_absent {blocked : Blocked} (absent : ∀ uaddr, tid ∉ blocked uaddr) :
    (fun uaddr => (blocked uaddr).filter fun other => other != tid) = blocked := by
  funext uaddr
  refine filter_eq_self.mpr fun sleeper member => ?_
  simpa using fun same : sleeper = tid => absent uaddr (same ▸ member)

variable (exact : system.Exact)
include exact

private theorem Exact.leave (queues : next.state.table.queue = next.blocked)
    (filtered : next.blocked = fun uaddr => (system.blocked uaddr).filter fun other => other != tid)
    (waiting : next.state.waiting = update system.state.waiting tid none) : next.Exact where
  queues := queues
  distinct := filtered ▸ exact.distinct.shrink fun _ => filter_sublist
  suspended uaddr sleeper member := by
    simp only [filtered, mem_filter, bne_iff_ne] at member
    rw [waiting, update_of_ne member.2]
    exact exact.suspended uaddr sleeper member.1

private theorem Exact.poll {tid : Nat} {hasSignal expired : Bool}
    (step : system.Step (.poll tid hasSignal expired) next) (timely : ¬ system.TimesOut (.poll tid hasSignal expired)) :
    next.Exact := by
  obtain ⟨_, applied, blocked⟩ := step
  have queues := exact.queues
  have polled : next.state = (system.state.pollWait tid hasSignal expired).2 := by
    simp only [FutexState.apply] at applied
    split at applied
    · cases applied
    · split at applied
      · cases applied
      · rw [Option.some.inj applied]
  simp only [Blocked.apply] at blocked
  cases queued : inFutex system.state.table tid with
  | false =>
    -- Woken earlier: the wait returns, and there is no entry to remove.
    have absent : ∀ uaddr, tid ∉ system.blocked uaddr := fun uaddr member =>
      Bool.eq_false_iff.mp queued (FutexTable.inFutex_iff.mpr ⟨uaddr, queues ▸ member⟩)
    have same : next.blocked = system.blocked := by
      rw [blocked, filter_absent absent]
      split <;> rfl
    have left : next.state = { system.state with
        waiting := update system.state.waiting tid none } := by
      rw [polled]
      simp [FutexState.pollWait, waitFutexPoll, queued]
    exact exact.leave (by rw [left, same, ← queues]) (by rw [same, filter_absent absent]) (by rw [left])
  | true =>
    cases hasSignal with
    | true =>
      have left : next.state =
          { table := (waitFutexPoll system.state.table tid true).2
            waiting := update system.state.waiting tid none } := by
        rw [polled]
        simp [FutexState.pollWait, waitFutexPoll, queued]
      have removed := FutexTable.queue_interrupted (queues ▸ exact.distinct) queued
      exact exact.leave (by rw [left, blocked, ← queues]; exact removed) blocked (by rw [left])
    | false =>
      cases expired with
      | true => exact absurd ⟨rfl, Bool.false_ne_true, queued⟩ timely
      | false =>
        have same : next.state = system.state := by
          rw [polled]
          simp [FutexState.pollWait, waitFutexPoll, queued]
        simp only [Bool.or_self, Bool.false_eq_true, if_false] at blocked
        exact ⟨by rw [same, blocked, queues], blocked ▸ exact.distinct, by rw [same, blocked]; exact exact.suspended⟩

theorem Exact.step (step : system.UntimedStep event next) : next.Exact := by
  cases event with
  | call tid call => exact exact.call step.1
  | poll tid _ _ => exact exact.poll step.1 step.2

private theorem Exact.table_nodup : system.state.table.values.flatten.Nodup := by
  have whole : ∀ key list, system.state.table.get key = some list → system.blocked key = list := by
    intro key list present
    rw [← exact.queues, FutexTable.queue_present present]
  refine nodup_flatten ?_ ?_
  · intro key list present
    exact whole key list present ▸ exact.distinct.each key
  · intro first second _ _ different inLeft inRight tid member found
    exact different (exact.distinct.place first second tid (whole _ _ inLeft ▸ member) (whole _ _ inRight ▸ found))

private theorem Exact.table_suspended (member : tid ∈ system.state.table.values.flatten) :
    system.state.waiting tid ≠ none := by
  obtain ⟨_, inValues, found⟩ := mem_flatten.mp member
  obtain ⟨key, present⟩ := mem_values_iff.mp inValues
  refine exact.suspended key tid ?_
  rw [← exact.queues]
  simpa [FutexTable.queue, present] using found

private theorem Exact.wake_removes (oldest : tid ∈ (system.blocked uaddr).take count) :
    inFutex (futexWake system.state.table uaddr count).2 tid = false := by
  refine Bool.eq_false_iff.mpr fun found => ?_
  obtain ⟨other, member⟩ := FutexTable.inFutex_iff.mp found
  rw [(FutexTable.queue_futexWake uaddr count).1, exact.queues] at member
  have here := mem_of_mem_take oldest
  have place := exact.distinct.place other uaddr tid
    ((drop_sublist system.blocked uaddr count other).subset member) here
  subst place
  rw [update_self] at member
  exact disjoint_take_drop (exact.distinct.each other) (le_refl _) oldest member

private theorem Exact.wake_keeps {other : Nat} (member : tid ∈ system.blocked other)
    (younger : other ≠ uaddr ∨ tid ∈ (system.blocked uaddr).drop count) :
    inFutex (futexWake system.state.table uaddr count).2 tid = true := by
  refine FutexTable.inFutex_iff.mpr ?_
  rw [(FutexTable.queue_futexWake uaddr count).1, exact.queues]
  rcases younger with elsewhere | _
  · exact ⟨other, by rwa [update_of_ne elsewhere]⟩
  · exact ⟨uaddr, by rwa [update_self]⟩

omit exact

/-- While no wait times out, the table holds the blocked tasks, each once and
only while suspended in its wait, and a wake takes out exactly the oldest of the
tasks blocked at its address. -/
theorem table_exact {events : List FutexEvent} {system : FutexSystem} (run : Run UntimedStep boot events system) :
    system.state.table.queue = system.blocked ∧
    system.state.table.values.flatten.Nodup ∧
    (∀ tid ∈ system.state.table.values.flatten, system.state.waiting tid ≠ none) ∧
    ∀ uaddr count,
      let wake := futexWake system.state.table uaddr count
      wake.1 = min count (system.blocked uaddr).length ∧
      (∀ tid ∈ (system.blocked uaddr).take count, inFutex wake.2 tid = false) ∧
      ∀ other, ∀ tid ∈ system.blocked other,
        other ≠ uaddr ∨ tid ∈ (system.blocked uaddr).drop count → inFutex wake.2 tid = true := by
  have exact : system.Exact := run.preserves (fun held step => held.step step) boot_exact
  refine ⟨exact.queues, exact.table_nodup, fun tid member => exact.table_suspended member, ?_⟩
  intro uaddr count
  refine ⟨?_, fun tid oldest => exact.wake_removes oldest,
    fun other tid member younger => exact.wake_keeps member younger⟩
  rw [← exact.queues]
  exact (FutexTable.queue_futexWake uaddr count).2

theorem Step.of_apply {outcome : FutexOutcome} {state : FutexState}
    (applied : system.state.apply event = some (outcome, state)) :
    system.Step event { state, blocked := system.blocked.apply event } := ⟨outcome, applied, rfl⟩

def waitCall (value2 : Nat) : FutexCall :=
  { uaddr := 0x10, valid := true, current := 5, op := 0x80, value := 5, value2, uaddr2 := 0 }

theorem table_exact_two_waiters :
    ∃ system, Run UntimedStep boot [.call 1 (waitCall 0), .call 2 (waitCall 0)] system ∧
      (futexWake system.state.table 0x10 1).1 = 1 ∧
      inFutex (futexWake system.state.table 0x10 1).2 1 = false ∧
      inFutex (futexWake system.state.table 0x10 1).2 2 = true := by
  have run : Run UntimedStep boot [.call 1 (waitCall 0), .call 2 (waitCall 0)] _ :=
    .cons ⟨.of_apply rfl, id⟩ (.cons ⟨.of_apply rfl, id⟩ .refl)
  obtain ⟨_, _, _, wake⟩ := table_exact run
  obtain ⟨count, removed, kept⟩ := wake 0x10 1
  refine ⟨_, run, ?_⟩
  exact ⟨count, removed 1 (by decide), kept 0x10 2 (by decide) (.inr (by decide))⟩

/-- A wait that timed out stays in the table and swallows the next wake. -/
theorem stale_entry_after_timeout :
    ∃ system, Run Step boot
        [.call 1 (waitCall 8), .poll 1 false true, .call 2 (waitCall 0)] system ∧
      1 ∈ system.state.table.values.flatten ∧ system.state.waiting 1 = none ∧
      system.blocked 0x10 = [2] ∧
      (futexWake system.state.table 0x10 1).1 = 1 ∧
      inFutex (futexWake system.state.table 0x10 1).2 2 = true := by
  refine ⟨_, .cons (.of_apply rfl) (.cons (.of_apply rfl) (.cons (.of_apply rfl) .refl)), ?_⟩
  decide

end FutexSystem

end MonkeyOS.Tasks
