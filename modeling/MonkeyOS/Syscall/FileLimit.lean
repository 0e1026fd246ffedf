import MonkeyOS.Tasks.FileTable
import MonkeyOS.Tasks.TaskProperties

/-!
# Limits on files

`sys_prlimit64` of `kernel/src/syscall/sys.rs`. `get_fd` and `set_fd` compare an
index with the limit and then use it on the table, so they answer for every index
as long as the limit is not above the length of the table. A process starts with
both at `FILE_MAX`; a fork copies the table and starts over with the limit.
-/

set_option autoImplicit false

namespace MonkeyOS.Syscall

open Lib Tasks Function Process Finset

structure Rlimit where
  curr : Nat
  max : Nat

/-- A process with the limits its record leaves out, `rlimits[3]` and `rlimits[4]`. -/
structure Limited where
  process : Process
  stack : Nat
  core : Nat

namespace Limited

def new (process : Process) : Limited :=
  { process, stack := 0, core := usizeBound - 1 }

def report (oldLimit : Bool) (limit : Nat) : Option Rlimit :=
  if oldLimit then some { curr := limit, max := limit } else none

/-- The old limit is read after the new one is set; `pid` is not looked at. -/
def sysPrlimit64 (task : Limited) (resource : Nat) (newLimit : Option Rlimit) (oldLimit : Bool) :
    Option Rlimit × Limited :=
  match resource with
  | 3 =>
    let stack := newLimit.elim task.stack Rlimit.max
    (report oldLimit stack, { task with stack })
  | 4 =>
    let core := newLimit.elim task.core Rlimit.max
    (report oldLimit core, { task with core })
  | 7 =>
    let fileLimit := newLimit.elim task.process.pcb.fileLimit Rlimit.max
    (report oldLimit fileLimit,
      { task with process := { task.process with pcb := { task.process.pcb with fileLimit } } })
  | _ => (none, task)

end Limited

abbrev Processes := Nat → Option Limited

inductive TableCall where
  | prlimit64 (resource : Nat) (newLimit : Option Rlimit) (oldLimit : Bool)
  | allocFd
  | setFd (fd : Nat) (value : Inode)
  | clearFd (fd : Nat)
  | fork (taskId childId : Nat)

namespace Processes

def boot (taskId : Nat) (tty : Inode) : Processes :=
  update (fun _ => none) taskId (some (.new (.new taskId (fileTable tty))))

/-- Calls by the id of the process that makes them. Descriptors are taken, filled and
cleared one access to the table at a time. -/
inductive Step : Processes → Nat × TableCall → Processes → Prop where
  | prlimit64 {processes pid task resource newLimit oldLimit} (present : processes pid = some task) :
      Step processes (pid, .prlimit64 resource newLimit oldLimit)
        (update processes pid (some (task.sysPrlimit64 resource newLimit oldLimit).2))
  | allocFd {processes pid task fd after} (present : processes pid = some task)
      (done : task.process.allocFd = (fd, after)) :
      Step processes (pid, .allocFd) (update processes pid (some { task with process := after }))
  | setFd {processes pid task fd value after} (present : processes pid = some task)
      (done : task.process.setFd fd value = some after) :
      Step processes (pid, .setFd fd value) (update processes pid (some { task with process := after }))
  | clearFd {processes pid task fd} (present : processes pid = some task) :
      Step processes (pid, .clearFd fd) (update processes pid (some { task with process := task.process.clearFd fd }))
  | fork {processes pid task taskId childId parent child} (present : processes pid = some task)
      (fresh : processes childId = none) (done : task.process.cowFork taskId childId = some (parent, child)) :
      Step processes (pid, .fork taskId childId)
        (update (update processes pid (some { task with process := parent })) childId (some (.new child)))

def Every (property : Limited → Prop) (processes : Processes) : Prop :=
  ∀ pid task, processes pid = some task → property task

end Processes

namespace Limited

def InBounds (task : Limited) : Prop :=
  ∀ index value, (task.process.getFd index).isSome ∧ (task.process.setFd index value).isSome

def Roomy (task : Limited) : Prop := fileMax ≤ task.process.pcb.fdTable.length

end Limited

/-- A new limit on files is not above the length of the table. -/
def TableCall.WithinTable (processes : Processes) : Nat × TableCall → Prop
  | (pid, .prlimit64 resource newLimit _) => resource = 7 → ∀ limit task, newLimit = some limit →
      processes pid = some task → limit.max ≤ task.process.pcb.fdTable.length
  | _ => True

/-! ## One process -/

theorem Limited.inBounds_iff {task : Limited} :
    task.InBounds ↔ task.process.pcb.fileLimit ≤ task.process.pcb.fdTable.length := by
  constructor
  · intro answers
    by_contra above
    have present := (answers task.process.pcb.fdTable.length 0).1
    rw [getFd, if_neg (by omega), List.getElem?_eq_none (le_refl _)] at present
    cases present
  · intro _ index _
    unfold getFd setFd
    by_cases past : index ≥ task.process.pcb.fileLimit
    · simp [past]
    · have inside : index < task.process.pcb.fdTable.length := by omega
      simp [past, inside]

theorem sysPrlimit64_table (task : Limited) (resource : Nat) (newLimit : Option Rlimit) (oldLimit : Bool) :
    (task.sysPrlimit64 resource newLimit oldLimit).2.process.pcb.fdTable = task.process.pcb.fdTable := by
  unfold Limited.sysPrlimit64
  split <;> rfl

theorem sysPrlimit64_limit (task : Limited) (resource : Nat) (newLimit : Option Rlimit) (oldLimit : Bool) :
    (task.sysPrlimit64 resource newLimit oldLimit).2.process.pcb.fileLimit =
      if resource = 7 then newLimit.elim task.process.pcb.fileLimit Rlimit.max
      else task.process.pcb.fileLimit := by
  unfold Limited.sysPrlimit64
  split
  · rfl
  · rfl
  · rfl
  · next other => rw [if_neg other]

variable {after process : Process} {fd : Option Nat}

theorem allocFd_same (bounded : process.pcb.fileLimit ≤ process.pcb.fdTable.length)
    (done : process.allocFd = (fd, after)) :
    after = process := by
  cases allocFd_allocated done with
  | reused | full => rfl
  | grown _ => omega

theorem allocFd_length (done : process.allocFd = (fd, after)) :
    process.pcb.fdTable.length ≤ after.pcb.fdTable.length := by
  cases allocFd_allocated done with
  | reused | full => exact le_refl _
  | grown => simp

theorem setFd_shape {fd : Nat} {value : Inode} (done : process.setFd fd value = some after) :
    after.pcb.fileLimit = process.pcb.fileLimit ∧ after.pcb.fdTable.length = process.pcb.fdTable.length := by
  unfold setFd at done
  split at done
  · cases done
    exact ⟨rfl, rfl⟩
  · split at done
    · cases done
      exact ⟨rfl, List.length_set⟩
    · cases done

theorem clearFd_shape {fd : Nat} :
    (process.clearFd fd).pcb.fileLimit = process.pcb.fileLimit ∧
      (process.clearFd fd).pcb.fdTable.length = process.pcb.fdTable.length := by
  unfold clearFd
  split
  · exact ⟨rfl, rfl⟩
  · exact ⟨rfl, List.length_set⟩

/-! ## All processes -/

namespace Processes

variable {before after processes : Processes} {label : Nat × TableCall} {property : Limited → Prop}

theorem every_update {pid : Nat} {changed : Limited} (others : processes.Every property) :
    Every property (update processes pid (some changed)) ↔ property changed := by
  constructor
  · intro every
    exact every pid changed (update_self pid _ processes)
  · intro here other task present
    by_cases same : other = pid
    · subst same
      rw [update_self, Option.some.injEq] at present
      exact present ▸ here
    · rw [update_of_ne same] at present
      exact others other task present

theorem step_roomy (roomy : before.Every Limited.Roomy) (step : Step before label after) :
    after.Every Limited.Roomy := by
  cases step with
  | prlimit64 present =>
    refine (every_update roomy).mpr ?_
    rw [Limited.Roomy, sysPrlimit64_table]
    exact roomy _ _ present
  | allocFd present done => exact (every_update roomy).mpr ((roomy _ _ present).trans (allocFd_length done))
  | setFd present done =>
    refine (every_update roomy).mpr ?_
    rw [Limited.Roomy, (setFd_shape done).2]
    exact roomy _ _ present
  | clearFd present =>
    refine (every_update roomy).mpr ?_
    rw [Limited.Roomy, clearFd_shape.2]
    exact roomy _ _ present
  | @fork pid task _ _ parent _ present _ done =>
    have room : task.Roomy := roomy pid task present
    have kept : Limited.Roomy { task with process := parent } := by
      rw [Limited.Roomy, (cowFork_outcome done).1]
      exact room
    refine (every_update ((every_update roomy).mpr kept)).mpr ?_
    rw [Limited.Roomy, Limited.new, (cowFork_files done).1]
    exact room

theorem step_inBounds_iff (roomy : before.Every Limited.Roomy) (inBounds : before.Every Limited.InBounds)
    (step : Step before label after) : after.Every Limited.InBounds ↔ TableCall.WithinTable before label := by
  cases step with
  | @prlimit64 pid task resource newLimit _ present =>
    have bounded := Limited.inBounds_iff.mp (inBounds pid task present)
    rw [every_update inBounds, Limited.inBounds_iff, sysPrlimit64_table, sysPrlimit64_limit]
    cases newLimit with
    | none => simpa [TableCall.WithinTable] using bounded
    | some limit =>
      by_cases files : resource = 7
      · simp [TableCall.WithinTable, files, present]
      · simpa [TableCall.WithinTable, files] using bounded
  | allocFd present done =>
    have bounded := Limited.inBounds_iff.mp (inBounds _ _ present)
    rw [every_update inBounds, allocFd_same bounded done]
    exact iff_of_true (inBounds _ _ present) trivial
  | setFd present done =>
    have bounded := Limited.inBounds_iff.mp (inBounds _ _ present)
    rw [every_update inBounds, Limited.inBounds_iff, (setFd_shape done).1, (setFd_shape done).2]
    exact iff_of_true bounded trivial
  | clearFd present =>
    have bounded := Limited.inBounds_iff.mp (inBounds _ _ present)
    rw [every_update inBounds, Limited.inBounds_iff, clearFd_shape.1, clearFd_shape.2]
    exact iff_of_true bounded trivial
  | @fork pid task _ _ parent _ present _ done =>
    obtain ⟨table, limit⟩ := cowFork_files done
    have bounded := Limited.inBounds_iff.mp (inBounds pid task present)
    have kept : Limited.InBounds { task with process := parent } := by
      rw [Limited.inBounds_iff, (cowFork_outcome done).1]
      exact bounded
    rw [every_update ((every_update inBounds).mpr kept), Limited.inBounds_iff, Limited.new, table, limit]
    exact iff_of_true (roomy pid task present) trivial

theorem length_fileTable (tty : Inode) : (fileTable tty).length = fileMax := by
  rw [fileTable, List.length_append, List.length_replicate, List.length_replicate]
  rfl

theorem boot_every (taskId : Nat) (tty : Inode)
    (new : property (.new (.new taskId (fileTable tty)))) : (boot taskId tty).Every property :=
  (every_update (fun _ _ absent => by cases absent)).mpr new

/-- All accesses stay in bounds exactly as long as no process raises its limit on files
above the length of its table. -/
theorem accesses_in_bounds_iff {taskId : Nat} {tty : Inode} {labels : List (Nat × TableCall)} {processes : Processes} :
    Run (fun before label after => Step before label after ∧ after.Every Limited.InBounds)
        (boot taskId tty) labels processes ↔
      Run (fun before label after => Step before label after ∧ TableCall.WithinTable before label)
        (boot taskId tty) labels processes := by
  have initial : (boot taskId tty).Every Limited.Roomy ∧ (boot taskId tty).Every Limited.InBounds :=
    ⟨boot_every taskId tty (length_fileTable tty).ge,
      boot_every taskId tty (Limited.inBounds_iff.mpr (length_fileTable tty).ge)⟩
  constructor
  · intro run
    refine (@Run.assuming _ _ _ (fun processes => Every Limited.Roomy processes ∧ Every Limited.InBounds processes)
      ?_ _ _ _ run initial).mono ?_
    · rintro before label after ⟨roomy, -⟩ ⟨step, inBounds⟩
      exact ⟨step_roomy roomy step, inBounds⟩
    · rintro before label after ⟨⟨step, inBounds⟩, roomy, bounded⟩
      exact ⟨step, (step_inBounds_iff roomy bounded step).mp inBounds⟩
  · intro run
    refine (@Run.assuming _ _ _ (fun processes => Every Limited.Roomy processes ∧ Every Limited.InBounds processes)
      ?_ _ _ _ run initial).mono ?_
    · rintro before label after ⟨roomy, bounded⟩ ⟨step, within⟩
      exact ⟨step_roomy roomy step, (step_inBounds_iff roomy bounded step).mpr within⟩
    · rintro before label after ⟨⟨step, within⟩, roomy, bounded⟩
      exact ⟨step, (step_inBounds_iff roomy bounded step).mpr within⟩

theorem raised_limit_panics :
    ∃ processes task, Run Step (boot 1 0) [(1, .prlimit64 7 (some { curr := 300, max := 300 }) false)] processes ∧
      processes 1 = some task ∧ task.process.getFd 255 = none ∧ (task.process.setFd 255 0).isNone := by
  refine ⟨_, _, .cons (.prlimit64 (update_self 1 _ _)) .refl, update_self 1 _ _, ?_, ?_⟩ <;> decide +kernel

end Processes

/-! ## The lowest free descriptor -/

/-- What changes the descriptors of a process: `alloc_fd` with `set_fd` of the result,
`clear_fd`, and a new limit on files. -/
inductive FdOperation where
  | openFd (value : Inode)
  | clearFd (fd : Nat)
  | limit (newLimit : Rlimit)

namespace Limited

def perform (task : Limited) : FdOperation → Option (Option Nat × Limited)
  | .openFd value =>
    match task.process.allocFd with
    | (none, process) => some (none, { task with process })
    | (some fd, process) => (process.setFd fd value).map fun process => (some fd, { task with process })
  | .clearFd fd => some (none, { task with process := task.process.clearFd fd })
  | .limit newLimit => some (none, (task.sysPrlimit64 7 (some newLimit) false).2)

def Step (before : Limited) (label : FdOperation × Option Nat) (after : Limited) : Prop :=
  before.perform label.1 = some (label.2, after)

/-- The descriptors below the limit whose slot is empty or lies past the end of the table. -/
def vacant (process : Process) : Set Nat :=
  { fd | fd < process.pcb.fileLimit ∧ (process.pcb.fdTable[fd]? = some none ∨ process.pcb.fdTable.length ≤ fd) }

/-- `alloc_fd` answers the lowest vacant descriptor, if there is one, and leaves every
slot as it is. -/
structure AllocatesLowest (process : Process) : Prop where
  lowest : ∀ fd, process.allocFd.1 = some fd → IsLeast (vacant process) fd
  none_iff : process.allocFd.1 = none ↔ vacant process = ∅
  kept : ∀ slot < process.pcb.fdTable.length, process.allocFd.2.pcb.fdTable[slot]? = process.pcb.fdTable[slot]?

theorem mem_vacant_iff {fd : Nat} : fd ∈ vacant process ↔ process.freeFd fd := by
  rw [freeFd_iff, vacant, Set.mem_ofPred_eq, file]
  refine and_congr_right fun _ => ?_
  by_cases inside : fd < process.pcb.fdTable.length
  · simp [List.getElem?_eq_getElem inside, not_le.mpr inside]
  · simp [Nat.le_of_not_lt inside]

theorem vacant_eq_empty_iff : vacant process = ∅ ↔ process.lowerFree process.pcb.fileLimit = ∅ := by
  rw [Set.eq_empty_iff_forall_notMem, eq_empty_iff_forall_notMem]
  refine forall_congr' fun _ => not_congr ?_
  rw [mem_vacant_iff, lowerFree, mem_filter, mem_range]
  exact ⟨fun free => ⟨(freeFd_iff.mp free).1, free⟩, And.right⟩

theorem allocatesLowest (process : Process) : AllocatesLowest process := by
  rcases allocated : process.allocFd with ⟨answer, _⟩
  have isLeast {fd : Nat} (found : answer = some fd) : IsLeast (vacant process) fd := by
    subst found
    obtain ⟨free, lowest⟩ := allocFd_lowest allocated
    refine ⟨mem_vacant_iff.mpr free, fun other unused => ?_⟩
    by_contra lower
    have member : other ∈ process.lowerFree fd :=
      mem_filter.mpr ⟨mem_range.mpr (Nat.lt_of_not_le lower), mem_vacant_iff.mp unused⟩
    rw [lowest] at member
    exact notMem_empty other member
  constructor
  · rw [allocated]
    exact fun fd found => isLeast found
  · rw [allocated]
    cases answer with
    | none => exact iff_of_true rfl (vacant_eq_empty_iff.mpr (allocFd_none allocated))
    | some fd => exact iff_of_false nofun (Set.nonempty_iff_ne_empty.mp ⟨fd, (isLeast rfl).1⟩)
  · rw [allocated]
    intro _ inside
    cases allocFd_allocated allocated with
    | reused | full => rfl
    | grown => exact List.getElem?_append_left inside

theorem perform_total (task : Limited) (operation : FdOperation) :
    ∃ answer after, task.perform operation = some (answer, after) := by
  cases operation with
  | openFd value =>
    simp only [perform]
    split
    · exact ⟨_, _, rfl⟩
    next allocated =>
      obtain ⟨_, set⟩ := setFd_allocated allocated value
      exact ⟨_, _, by rw [set]; rfl⟩
  | clearFd _ => exact ⟨_, _, rfl⟩
  | limit _ => exact ⟨_, _, rfl⟩

/-- Whatever a process does with its descriptors, it can go on, and `alloc_fd` follows
the rule in every state on the way. -/
theorem allocations_lowest (task : Limited) (operations : List FdOperation) :
    ∃ labels finish, labels.map Prod.fst = operations ∧
      Run (fun before label after => Step before label after ∧ AllocatesLowest before.process) task labels finish := by
  induction operations generalizing task with
  | nil => exact ⟨[], task, rfl, .refl⟩
  | cons operation operations ih =>
    obtain ⟨answer, after, done⟩ := task.perform_total operation
    obtain ⟨labels, finish, performed, run⟩ := ih after
    exact ⟨(operation, answer) :: labels, finish, congrArg (operation :: ·) performed,
      .cons ⟨done, allocatesLowest task.process⟩ run⟩

end Limited

end MonkeyOS.Syscall
