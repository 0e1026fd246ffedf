import MonkeyOS.Tasks.Task

/-!
# Descriptor tables

`alloc_fd`, `set_fd` and `clear_fd` of `kernel/src/tasks/task.rs`. What they do is
said through the file behind each descriptor: `alloc_fd` finds the first number
without a file and leaves every file where it is.
-/

set_option autoImplicit false

namespace MonkeyOS.Tasks.Process

open Function List Option Nat

/-- The first free slot below the limit, or a new one at the end. -/
def allocFd (process : Process) : Option Nat × Process :=
  let table := process.pcb.fdTable
  match table.zipIdx.find? fun entry => entry.1.isNone && entry.2 < process.pcb.fileLimit with
  | some entry => (some entry.2, process)
  | none =>
    if table.length < process.pcb.fileLimit then
      (some table.length, { process with pcb := { process.pcb with fdTable := table ++ [none] } })
    else (none, process)

/-- No answer if the index panics. -/
def setFd (process : Process) (index : Nat) (value : Inode) : Option Process :=
  if index ≥ process.pcb.fileLimit then some process
  else if index < process.pcb.fdTable.length then
    some { process with pcb := { process.pcb with fdTable := process.pcb.fdTable.set index (some value) } }
  else none

def clearFd (process : Process) (index : Nat) : Process :=
  if index ≥ process.pcb.fdTable.length then process
  else { process with pcb := { process.pcb with fdTable := process.pcb.fdTable.set index none } }

def file (process : Process) (fd : Nat) : Option Inode := process.pcb.fdTable[fd]?.join

def freeFd (process : Process) (fd : Nat) : Bool := fd < process.pcb.fileLimit && (process.file fd).isNone

def lowerFree (process : Process) (fd : Nat) : Finset Nat := (Finset.range fd).filter (process.freeFd ·)

variable {process after : Process} {fd : Nat} {value : Inode}

theorem getFd_eq_some (bound : fd < process.pcb.fileLimit) (present : process.file fd = some value) :
    process.getFd fd = some (some value) := by
  rw [getFd, if_neg (by omega)]
  exact join_eq_some_iff.mp present

theorem getFd_file (present : process.getFd fd = some (some value)) :
    fd < process.pcb.fileLimit ∧ process.file fd = some value := by
  unfold getFd at present
  split at present
  · cases present
  · exact ⟨by omega, by rw [file, present, join_some]⟩

theorem getFd_eq_none_iff : process.getFd fd = none ↔ fd < process.pcb.fileLimit ∧ process.pcb.fdTable.length ≤ fd := by
  unfold getFd
  split
  next past => simp [past]
  next bound => simp [Nat.lt_of_not_le bound]

theorem freeFd_iff : process.freeFd fd ↔ fd < process.pcb.fileLimit ∧ process.file fd = none := by
  simp [freeFd]

theorem file_eq_getElem (inside : fd < process.pcb.fdTable.length) : process.file fd = process.pcb.fdTable[fd] := by
  rw [file, getElem?_eq_getElem inside, join_some]

theorem lowerFree_eq_empty (used : ∀ other < fd, other < process.pcb.fileLimit → process.file other ≠ none) :
    process.lowerFree fd = ∅ := by
  refine Finset.filter_eq_empty_iff.mpr fun other lower free => ?_
  obtain ⟨bound, none⟩ := freeFd_iff.mp free
  exact used other (Finset.mem_range.mp lower) bound none

theorem lowerFree_mono {other : Nat} (order : fd ≤ other) : process.lowerFree fd ⊆ process.lowerFree other :=
  Finset.filter_subset_filter _ (Finset.range_subset_range.mpr order)

theorem lowerFree_subset_limit (fd : Nat) : process.lowerFree fd ⊆ process.lowerFree process.pcb.fileLimit := by
  intro _ member
  have free := (Finset.mem_filter.mp member).2
  exact Finset.mem_filter.mpr ⟨Finset.mem_range.mpr (freeFd_iff.mp free).1, free⟩

theorem lowerFree_congr (limit : after.pcb.fileLimit = process.pcb.fileLimit) (same : after.file = process.file) :
    after.lowerFree fd = process.lowerFree fd := by
  have free : after.freeFd = process.freeFd := by
    funext other
    rw [freeFd, freeFd, limit, same]
  rw [lowerFree, free]
  rfl

/-- What `alloc_fd` does: it answers a free slot of the table, or adds one, or there is
neither a slot nor room for one below the limit. -/
inductive Allocated (process : Process) : Option Nat → Process → Prop where
  | reused {fd : Nat} (bound : fd < process.pcb.fileLimit) (inside : fd < process.pcb.fdTable.length)
      (unused : process.file fd = none) (lowest : ∀ other < fd, process.file other ≠ none) :
      Allocated process (some fd) process
  | grown (room : process.pcb.fdTable.length < process.pcb.fileLimit)
      (used : ∀ other < process.pcb.fdTable.length, process.file other ≠ none) :
      Allocated process (some process.pcb.fdTable.length)
        { process with pcb := { process.pcb with fdTable := process.pcb.fdTable ++ [none] } }
  | full (bound : process.pcb.fileLimit ≤ process.pcb.fdTable.length)
      (used : ∀ other < process.pcb.fileLimit, process.file other ≠ none) : Allocated process none process

theorem allocFd_allocated {answer : Option Nat} (done : process.allocFd = (answer, after)) :
    Allocated process answer after := by
  unfold allocFd at done
  dsimp only at done
  split at done
  next _ found =>
    cases done
    obtain ⟨free, _, inside, is, earlier⟩ := find?_eq_some_iff_getElem.mp found
    rw [getElem_zipIdx, zero_add] at is
    subst is
    rw [length_zipIdx] at inside
    rw [Bool.and_eq_true, isNone_iff_eq_none, decide_eq_true_eq] at free
    refine .reused free.2 inside ((file_eq_getElem inside).trans free.1) fun other lower none => ?_
    rw [file_eq_getElem (lower.trans inside)] at none
    have used := earlier other lower
    simp [none, lower.trans free.2] at used
  next absent =>
    have used {other : Nat} (inside : other < process.pcb.fdTable.length) (bound : other < process.pcb.fileLimit) :
        process.file other ≠ none := by
      have slot := find?_eq_none.mp absent (process.pcb.fdTable[other], other)
        (mem_zipIdx_iff_getElem?.mpr (getElem?_eq_getElem inside))
      rw [file_eq_getElem inside]
      intro none
      simp [none, bound] at slot
    split at done
    next room =>
      cases done
      exact .grown room fun other inside => used inside (inside.trans room)
    next full =>
      cases done
      exact .full (Nat.le_of_not_lt full) fun other bound => used (bound.trans_le (Nat.le_of_not_lt full)) bound

theorem file_grown : file { process with pcb := { process.pcb with fdTable := process.pcb.fdTable ++ [none] } } =
    process.file := by
  funext other
  by_cases inside : other < process.pcb.fdTable.length
  · simp [file, getElem?_append_left inside]
  · have beyond : process.pcb.fdTable.length ≤ other := Nat.le_of_not_lt inside
    simp only [file, getElem?_append_right beyond, getElem?_eq_none beyond]
    cases other - process.pcb.fdTable.length <;> rfl

theorem allocFd_frame {index : Option Nat} (done : process.allocFd = (index, after)) :
    after.pcb.fileLimit = process.pcb.fileLimit ∧ after.file = process.file := by
  cases allocFd_allocated done with
  | reused | full => exact ⟨rfl, rfl⟩
  | grown => exact ⟨rfl, file_grown⟩

theorem allocFd_lowest (done : process.allocFd = (some fd, after)) : process.freeFd fd ∧ process.lowerFree fd = ∅ := by
  cases allocFd_allocated done with
  | reused bound _ unused lowest =>
    exact ⟨freeFd_iff.mpr ⟨bound, unused⟩, lowerFree_eq_empty fun other lower _ => lowest other lower⟩
  | grown room used =>
    have unused : process.file process.pcb.fdTable.length = none := by simp [file]
    exact ⟨freeFd_iff.mpr ⟨room, unused⟩, lowerFree_eq_empty fun other lower _ => used other lower⟩

theorem allocFd_none (done : process.allocFd = (none, after)) : process.lowerFree process.pcb.fileLimit = ∅ := by
  cases allocFd_allocated done with
  | full _ used => exact lowerFree_eq_empty fun other _ bound => used other bound

theorem setFd_allocated (done : process.allocFd = (some fd, after)) (value : Inode) :
    ∃ filled, after.setFd fd value = some filled := by
  have inside : fd < after.pcb.fileLimit ∧ fd < after.pcb.fdTable.length := by
    cases allocFd_allocated done with
    | reused bound inside => exact ⟨bound, inside⟩
    | grown room => exact ⟨room, by simp⟩
  exact ⟨_, by rw [setFd, if_neg (by omega), if_pos inside.2]⟩

theorem setFd_spec (bound : fd < process.pcb.fileLimit) (done : process.setFd fd value = some after) :
    after.pcb.fileLimit = process.pcb.fileLimit ∧ after.file = update process.file fd (some value) := by
  unfold setFd at done
  rw [if_neg (by omega)] at done
  split at done
  next inside =>
    cases done
    refine ⟨rfl, funext fun other => ?_⟩
    by_cases same : other = fd
    · subst same
      simp [file, inside]
    · simp [file, same, getElem?_set_ne (Ne.symm same)]
  · cases done

theorem clearFd_spec : (process.clearFd fd).pcb.fileLimit = process.pcb.fileLimit ∧
    (process.clearFd fd).file = update process.file fd none := by
  unfold clearFd
  split
  next outside =>
    refine ⟨rfl, (update_eq_self_iff.mpr ?_).symm⟩
    simp [file, getElem?_eq_none outside]
  next inside =>
    refine ⟨rfl, funext fun other => ?_⟩
    by_cases same : other = fd
    · subst same
      simp [file, Nat.lt_of_not_le inside]
    · simp [file, same, getElem?_set_ne (Ne.symm same)]

/-- Files are put where there was none, each at the lowest free descriptor of its time. -/
structure Filled (before after : Process) (fds : List Nat) : Prop where
  limit : after.pcb.fileLimit = before.pcb.fileLimit
  nodup : fds.Nodup
  free : ∀ fd ∈ fds, before.freeFd fd
  occupied : ∀ fd ∈ fds, after.file fd ≠ none
  same : ∀ fd ∉ fds, after.file fd = before.file fd
  lower : ∀ fd ∈ fds, (before.lowerFree fd).card < fds.length

namespace Filled

variable {before middle last : Process} {fds more : List Nat}

theorem of_same (limit : after.pcb.fileLimit = before.pcb.fileLimit) (same : after.file = before.file) :
    Filled before after [] where
  limit := limit
  nodup := .nil
  free := nofun
  occupied := nofun
  same fd _ := congrFun same fd
  lower := nofun

theorem of_allocFd (allocated : before.allocFd = (some fd, middle)) (set : middle.setFd fd value = some after) :
    Filled before after [fd] := by
  obtain ⟨limit, same⟩ := allocFd_frame allocated
  obtain ⟨free, lowest⟩ := allocFd_lowest allocated
  obtain ⟨limitAfter, files⟩ := setFd_spec (limit ▸ (freeFd_iff.mp free).1) set
  have only {other : Nat} (member : other ∈ [fd]) : other = fd := mem_singleton.mp member
  constructor
  · exact limitAfter.trans limit
  · exact nodup_singleton fd
  · exact fun other member => only member ▸ free
  · intro other member
    rw [only member, files, update_self]
    exact some_ne_none value
  · intro other absent
    rw [files, update_of_ne (ne_of_not_mem_cons absent), same]
  · intro other member
    rw [only member, lowest]
    exact one_pos

theorem freeFd_of_freeFd (filled : Filled before middle fds) (free : middle.freeFd fd) :
    fd ∉ fds ∧ before.freeFd fd := by
  obtain ⟨bound, none⟩ := freeFd_iff.mp free
  have absent : fd ∉ fds := fun member => filled.occupied fd member none
  exact ⟨absent, freeFd_iff.mpr ⟨filled.limit ▸ bound, filled.same fd absent ▸ none⟩⟩

theorem card_lowerFree_le (filled : Filled before middle fds) (fd : Nat) :
    (before.lowerFree fd).card ≤ fds.length + (middle.lowerFree fd).card := by
  have covered : before.lowerFree fd ⊆ fds.toFinset ∪ middle.lowerFree fd := by
    intro other member
    obtain ⟨lower, free⟩ := Finset.mem_filter.mp member
    rw [Finset.mem_union, List.mem_toFinset]
    by_cases used : other ∈ fds
    · exact .inl used
    · obtain ⟨bound, none⟩ := freeFd_iff.mp free
      refine .inr (Finset.mem_filter.mpr ⟨lower, freeFd_iff.mpr ⟨filled.limit.symm ▸ bound, ?_⟩⟩)
      rw [filled.same other used, none]
  calc (before.lowerFree fd).card
      ≤ (fds.toFinset ∪ middle.lowerFree fd).card := Finset.card_le_card covered
    _ ≤ fds.toFinset.card + (middle.lowerFree fd).card := Finset.card_union_le _ _
    _ ≤ fds.length + (middle.lowerFree fd).card := Nat.add_le_add_right fds.toFinset_card_le _

theorem card_lowerFree_limit (filled : Filled before middle [fd]) :
    (before.lowerFree before.pcb.fileLimit).card = (middle.lowerFree middle.pcb.fileLimit).card + 1 := by
  have free := filled.free fd mem_cons_self
  have member : fd ∈ before.lowerFree before.pcb.fileLimit :=
    Finset.mem_filter.mpr ⟨Finset.mem_range.mpr (freeFd_iff.mp free).1, free⟩
  have erased : middle.lowerFree middle.pcb.fileLimit = (before.lowerFree before.pcb.fileLimit).erase fd := by
    ext other
    simp only [lowerFree, Finset.mem_erase, Finset.mem_filter, Finset.mem_range, filled.limit]
    constructor
    · rintro ⟨bound, unused⟩
      obtain ⟨absent, unused⟩ := filled.freeFd_of_freeFd unused
      exact ⟨ne_of_not_mem_cons absent, bound, unused⟩
    · rintro ⟨different, bound, unused⟩
      refine ⟨bound, freeFd_iff.mpr ⟨filled.limit.symm ▸ bound, ?_⟩⟩
      rw [filled.same other (by simpa using different)]
      exact (freeFd_iff.mp unused).2
  rw [erased, Finset.card_erase_add_one member]

theorem trans (first : Filled before middle fds) (second : Filled middle last more) :
    Filled before last (fds ++ more) where
  limit := second.limit.trans first.limit
  nodup := by
    refine nodup_append.mpr ⟨first.nodup, second.nodup, fun fd early other late same => ?_⟩
    exact (first.freeFd_of_freeFd (second.free other late)).1 (same ▸ early)
  free fd member := by
    rcases mem_append.mp member with early | late
    · exact first.free fd early
    · exact (first.freeFd_of_freeFd (second.free fd late)).2
  occupied fd member := by
    by_cases late : fd ∈ more
    · exact second.occupied fd late
    · rw [second.same fd late]
      exact first.occupied fd ((mem_append.mp member).resolve_right late)
  same fd absent := by
    rw [mem_append, not_or] at absent
    rw [second.same fd absent.2, first.same fd absent.1]
  lower fd member := by
    rw [length_append]
    rcases mem_append.mp member with early | late
    · have := first.lower fd early
      omega
    · have := second.lower fd late
      have := first.card_lowerFree_le fd
      omega

end Filled

end MonkeyOS.Tasks.Process
