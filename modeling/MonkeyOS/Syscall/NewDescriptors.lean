import MonkeyOS.Syscall.Descriptors

/-!
# Duplicates and pairs

`sys_dup`, `sys_dup3`, `sys_fcntl` and `sys_pipe2` of `kernel/src/syscall/fd.rs` and
`sys_socket_pair` of `kernel/src/syscall/socket.rs`, for one thread. The values of a
table are open files, by number, so that two descriptors have the same value exactly if
they share a file.
-/

set_option autoImplicit false

namespace MonkeyOS.Syscall

open Tasks User Function Process Option Finset

inductive FcntlCmd where
  | DUPFD | GETFD | SETFD | GETFL | SETFL | GETLK | SETLK | SETLKW | DUPFDCLOEXEC
  deriving DecidableEq, Repr

def FcntlCmd.fromUsize : Nat → Option FcntlCmd
  | 0 => some .DUPFD
  | 1 => some .GETFD
  | 2 => some .SETFD
  | 3 => some .GETFL
  | 4 => some .SETFL
  | 5 => some .GETLK
  | 6 => some .SETLK
  | 7 => some .SETLKW
  | 0x406 => some .DUPFDCLOEXEC
  | _ => none

/-- The bits of `OpenFlags` that have a name. -/
def openFlags : Nat := 0x7fffc3

structure OpenTable where
  process : Process
  flags : Inode → Nat

/-- No answer if a descriptor below the limit lies past the end of the table. -/
def sysFcntl (table : OpenTable) (fd cmd arg : Nat) : Option (Except Errno Nat × OpenTable) :=
  match FcntlCmd.fromUsize cmd with
  | none => some (.error .EINVAL, table)
  | some cmd =>
    match table.process.getFd fd with
    | none => none
    | some none => some (.error .EBADF, table)
    | some (some file) =>
      match cmd with
      | .DUPFD | .DUPFDCLOEXEC =>
        (sysDup table.process fd).map fun done => (done.1, { table with process := done.2 })
      | .GETFD => some (.ok 1, table)
      | .GETFL => some (.ok (table.flags file), table)
      | .SETFL =>
        (table.process.setFd fd file).map fun process =>
          (.ok 0, { process, flags := update table.flags file (arg &&& openFlags) })
      | _ => some (.ok 0, table)

/-! ## Duplicates -/

inductive DupCall where
  | dup
  | dup3 (target : Nat)
  | fcntl (minimum : Nat)

namespace DupCall

def run (table : OpenTable) (source : Nat) : DupCall → Option (Except Errno Nat × OpenTable)
  | dup => (sysDup table.process source).map fun done => (done.1, { table with process := done.2 })
  | dup3 target => (sysDup3 table.process source target).map fun done => (done.1, { table with process := done.2 })
  | fcntl minimum => sysFcntl table source 0 minimum

def Asks (fd : Nat) : DupCall → Prop
  | dup => True
  | dup3 target => fd = target
  | fcntl minimum => minimum ≤ fd

/-- The call answers, with a descriptor that is asked for and has the file of the source
from then on, while all others stay as they are, or with an error and nothing changed. -/
def Duplicates (table : OpenTable) (source : Nat) (call : DupCall) : Prop :=
  match call.run table source with
  | none => False
  | some (.ok fd, after) => call.Asks fd ∧ ∃ file, table.process.file source = some file ∧
      after.process.file = update table.process.file fd (some file)
  | some (.error _, after) => after.process.file = table.process.file

/-- The source is not taken from past the end of the table. A target lies in the table
and below the limit, unless it has the file already; and no descriptor below the minimum
is free. -/
def Fits (process : Process) (source : Nat) : DupCall → Prop
  | dup => ∀ fd, process.allocFd.1 = some fd → source < process.pcb.fileLimit →
      source < process.pcb.fdTable.length ∨ source = fd
  | dup3 target => process.getFd source ≠ none ∧ ∀ file, process.getFd source = some (some file) →
      if target < process.pcb.fileLimit then target < process.pcb.fdTable.length else process.file target = some file
  | fcntl minimum => process.getFd source ≠ none ∧ ∀ file, process.getFd source = some (some file) →
      process.lowerFree minimum = ∅

end DupCall

section

variable {process middle after : Process} {source fd : Nat} {file : Inode}

theorem lowerFree_eq_empty_iff {minimum : Nat} :
    process.lowerFree minimum = ∅ ↔ ∀ fd, process.allocFd.1 = some fd → minimum ≤ fd := by
  rcases allocated : process.allocFd with ⟨_ | fd, middle⟩
  · have full := (lowerFree_subset_limit minimum).trans (allocFd_none allocated).subset
    exact iff_of_true (subset_empty.mp full) nofun
  · obtain ⟨free, lowest⟩ := allocFd_lowest allocated
    simp only [Option.some.injEq, forall_eq']
    constructor
    · intro none
      by_contra below
      have member : fd ∈ process.lowerFree minimum := mem_filter.mpr ⟨mem_range.mpr (by omega), free⟩
      simp [none] at member
    · exact fun order => subset_empty.mp (lowest ▸ lowerFree_mono order)

inductive Dupped (process : Process) (source : Nat) : Option (Except Errno Nat × Process) → Prop where
  | panics {fd : Nat} (allocated : process.allocFd.1 = some fd) (bound : source < process.pcb.fileLimit)
      (outside : process.pcb.fdTable.length ≤ source) (other : source ≠ fd) : Dupped process source none
  | full {after : Process} (full : process.allocFd.1 = none) (same : after.file = process.file) :
      Dupped process source (some (.error .EMFILE, after))
  | closed {fd : Nat} {after : Process} (allocated : process.allocFd.1 = some fd)
      (closed : ∀ file, process.getFd source ≠ some (some file))
      (inside : source < process.pcb.fileLimit → source < process.pcb.fdTable.length ∨ source = fd)
      (same : after.file = process.file) : Dupped process source (some (.error .EBADF, after))
  | dupped {fd : Nat} {file : Inode} {after : Process} (allocated : process.allocFd.1 = some fd)
      (present : process.getFd source = some (some file))
      (files : after.file = update process.file fd (some file)) :
      Dupped process source (some (.ok fd, after))

theorem getFd_allocated (allocated : process.allocFd = (some fd, middle)) :
    middle.getFd source = none ↔
      source < process.pcb.fileLimit ∧ process.pcb.fdTable.length ≤ source ∧ source ≠ fd := by
  rw [getFd_eq_none_iff]
  cases allocFd_allocated allocated with
  | reused _ _ =>
    refine and_congr_right fun _ => ⟨fun outside => ⟨outside, by omega⟩, And.left⟩
  | grown =>
    simp only [List.length_append, List.length_singleton]
    omega

theorem sysDup_dupped (process : Process) (source : Nat) : Dupped process source (sysDup process source) := by
  unfold sysDup
  rcases allocated : process.allocFd with ⟨answer, middle⟩
  obtain ⟨limit, same⟩ := allocFd_frame allocated
  have answered : process.allocFd.1 = answer := congrArg Prod.fst allocated
  cases answer with
  | none => exact .full answered same
  | some fd =>
    have panics := @getFd_allocated process middle source fd allocated
    simp only [sysDup3]
    cases found : middle.getFd source with
    | none =>
      obtain ⟨bound, outside, other⟩ := panics.mp found
      exact .panics answered bound outside other
    | some slot =>
      cases slot with
      | none =>
        refine .closed answered ?_ ?_ same
        · intro file present
          obtain ⟨bound, open_⟩ := getFd_file present
          rw [getFd_eq_some (limit ▸ bound) (same ▸ open_)] at found
          cases found
        · intro bound
          by_contra outside
          rw [not_or, not_lt] at outside
          rw [panics.mpr ⟨bound, outside⟩] at found
          cases found
      | some file =>
        obtain ⟨bound, open_⟩ := getFd_file found
        obtain ⟨_, set⟩ := setFd_allocated allocated file
        have free := (freeFd_iff.mp (allocFd_lowest allocated).1).1
        obtain ⟨-, files⟩ := setFd_spec (limit ▸ free) set
        dsimp only
        rw [set]
        exact .dupped answered (getFd_eq_some (limit ▸ bound) (same ▸ open_)) (same ▸ files)

end

namespace DupCall

variable {table : OpenTable} {source : Nat}

theorem dup_duplicates_iff : dup.Duplicates table source ↔ dup.Fits table.process source := by
  have outcome := sysDup_dupped table.process source
  simp only [Duplicates, run, Fits, Asks]
  generalize sysDup table.process source = result at outcome
  cases outcome with
  | panics allocated bound _ other =>
    refine iff_of_false id fun fits => ?_
    rcases fits _ allocated bound with inside | same
    · omega
    · exact other same
  | full full same =>
    refine iff_of_true same fun fd allocated => ?_
    rw [full] at allocated
    cases allocated
  | closed allocated _ inside same =>
    refine iff_of_true same fun fd again => ?_
    rw [allocated, Option.some.injEq] at again
    exact again ▸ inside
  | dupped allocated present files =>
    refine iff_of_true ⟨trivial, _, (getFd_file present).2, files⟩ fun fd _ bound => .inl ?_
    have answers : table.process.getFd source ≠ none := by simp [present]
    rw [Ne, getFd_eq_none_iff] at answers
    omega

theorem dup3_duplicates_iff {target : Nat} :
    (dup3 target).Duplicates table source ↔ (dup3 target).Fits table.process source := by
  simp only [Duplicates, run, Fits, Asks, sysDup3]
  cases found : table.process.getFd source with
  | none => simp
  | some slot =>
    cases slot with
    | none => simp
    | some file =>
      have present := (getFd_file found).2
      simp only [present, Option.some.injEq, exists_eq_left', forall_eq', ne_eq, reduceCtorEq,
        not_false_eq_true, true_and]
      by_cases bound : target < table.process.pcb.fileLimit
      · rw [if_pos bound]
        by_cases inside : target < table.process.pcb.fdTable.length
        · obtain ⟨after, set⟩ : ∃ after, table.process.setFd target file = some after :=
            ⟨_, by rw [setFd, if_neg (by omega), if_pos inside]⟩
          rw [set]
          exact iff_of_true ⟨rfl, (setFd_spec bound set).2⟩ inside
        · rw [setFd, if_neg (by omega), if_neg inside]
          exact iff_of_false id inside
      · rw [if_neg bound, setFd, if_pos (Nat.le_of_not_lt bound)]
        simp only [map_some, true_and]
        rw [eq_comm, update_eq_self_iff, eq_comm]

theorem fcntl_duplicates_iff {minimum : Nat} :
    (fcntl minimum).Duplicates table source ↔ (fcntl minimum).Fits table.process source := by
  simp only [Duplicates, run, Fits, Asks, sysFcntl, FcntlCmd.fromUsize]
  cases found : table.process.getFd source with
  | none => simp
  | some slot =>
    cases slot with
    | none => simp
    | some file =>
      have outcome := sysDup_dupped table.process source
      generalize sysDup table.process source = result at outcome
      cases outcome with
      | panics _ bound outside =>
        rw [getFd_eq_none_iff.mpr ⟨bound, outside⟩] at found
        cases found
      | full full same => exact iff_of_true same ⟨nofun, fun _ _ => lowerFree_eq_empty_iff.mpr (by simp [full])⟩
      | closed _ closed => exact absurd found (closed file)
      | dupped allocated present files =>
        have shares := (getFd_file present).2
        simp [shares, files, allocated, lowerFree_eq_empty_iff]

/-- A call duplicates exactly if its arguments fit the table. -/
theorem duplicates_iff (call : DupCall) (table : OpenTable) (source : Nat) :
    call.Duplicates table source ↔ call.Fits table.process source := by
  cases call with
  | dup => exact dup_duplicates_iff
  | dup3 target => exact dup3_duplicates_iff
  | fcntl minimum => exact fcntl_duplicates_iff

def started : OpenTable where
  process := .new 1 (fileTable 0)
  flags _ := 0

/-- A target above the limit is answered, and has no file; the minimum is not looked at. -/
theorem dup3_fills_nothing :
    (∃ after, (dup3 300).run started 0 = some (.ok 300, after) ∧ after.process.file 300 = none) ∧
      ((fcntl 100).run started 0).map (fun done => done.1.toOption) = some (some 3) := by
  refine ⟨⟨started, rfl, ?_⟩, ?_⟩
  all_goals decide +kernel

end DupCall

/-! ## Pairs -/

inductive PairCall where
  | pipe2 (rx tx : Inode)
  | socketPair (socket : Inode)

def openFds (process : Process) : Set Nat := { fd | process.file fd ≠ none }

/-- What the user finds: both descriptors `as u32`. -/
def userArray (fds : Nat × Nat) : Nat × Nat := (fds.1 % 2 ^ 32, fds.2 % 2 ^ 32)

namespace PairCall

def run (process : Process) : PairCall → Option (Except Errno (Nat × Nat) × Process)
  | pipe2 rx tx => sysPipe2 process rx tx
  | socketPair socket => sysSocketPair process socket

/-- The call answers, with two descriptors that were not open and that the user finds, or
with an error and the same descriptors open. -/
def AllOrNothing (process : Process) (call : PairCall) : Prop :=
  match call.run process with
  | none => False
  | some (.ok fds, after) =>
    (userArray fds).1 ∉ openFds process ∧ (userArray fds).2 ∉ openFds process ∧
      (userArray fds).1 ≠ (userArray fds).2 ∧
      openFds after = openFds process ∪ {(userArray fds).1, (userArray fds).2}
  | some (.error _, after) => openFds after = openFds process

variable {process middle after : Process} {rx tx : Inode} {fds : List Nat}

inductive Paired (process : Process) : Option (Except Errno (Nat × Nat) × Process) → Prop where
  | none {after : Process} (full : process.lowerFree process.pcb.fileLimit = ∅)
      (filled : process.Filled after []) : Paired process (some (.error .ENFILE, after))
  | one {fd : Nat} {after : Process} (filled : process.Filled after [fd])
      (full : after.lowerFree after.pcb.fileLimit = ∅) : Paired process (some (.error .ENFILE, after))
  | both {rxFd txFd : Nat} {after : Process} (filled : process.Filled after [rxFd, txFd]) :
      Paired process (some (.ok (rxFd, txFd), after))

theorem sysPipe2_paired (process : Process) (rx tx : Inode) : Paired process (sysPipe2 process rx tx) := by
  unfold sysPipe2
  rcases first : process.allocFd with ⟨answer, _⟩
  cases answer with
  | none =>
    obtain ⟨limit, same⟩ := allocFd_frame first
    exact .none (allocFd_none first) (.of_same limit same)
  | some _ =>
    obtain ⟨filled, set⟩ := setFd_allocated first rx
    have takes := Process.Filled.of_allocFd first set
    simp only [set, bind_eq_bind, bind_some]
    rcases second : filled.allocFd with ⟨answer, _⟩
    cases answer with
    | none =>
      obtain ⟨limit, same⟩ := allocFd_frame second
      refine .one (takes.trans (.of_same limit same)) ?_
      rw [lowerFree_congr limit same, limit]
      exact allocFd_none second
    | some _ =>
      obtain ⟨_, set⟩ := setFd_allocated second tx
      simp only [set, bind_some]
      exact .both (takes.trans (.of_allocFd second set))

theorem openFds_filled (filled : process.Filled after fds) : openFds after = openFds process ∪ { fd | fd ∈ fds } := by
  ext fd
  simp only [openFds, Set.mem_ofPred_eq, Set.mem_union]
  by_cases member : fd ∈ fds
  · exact iff_of_true (filled.occupied fd member) (.inr member)
  · rw [filled.same fd member]
    simp [member]

theorem run_paired (call : PairCall) (process : Process) : Paired process (call.run process) := by
  cases call with
  | pipe2 rx tx => exact sysPipe2_paired process rx tx
  | socketPair socket =>
    exact sysPipe2_paired process socket socket

theorem not_open_of_filled {fd : Nat} (filled : process.Filled after fds) (member : fd ∈ fds) :
    fd ∉ openFds process := fun opened => opened (freeFd_iff.mp (filled.free fd member)).2

theorem below_iff_of_filled {rxFd txFd bound : Nat} (filled : process.Filled after [rxFd, txFd]) :
    rxFd < bound ∧ txFd < bound ↔ 2 ≤ (process.lowerFree bound).card := by
  have different : rxFd ≠ txFd := fun same => by simpa [same] using filled.nodup
  constructor
  · rintro ⟨rxBelow, txBelow⟩
    have free : {rxFd, txFd} ⊆ process.lowerFree bound := by
      intro fd member
      rw [mem_insert, mem_singleton] at member
      refine mem_filter.mpr ⟨mem_range.mpr ?_, filled.free fd (by simpa using member)⟩
      rcases member with rfl | rfl
      · exact rxBelow
      · exact txBelow
    rw [← card_pair different]
    exact card_le_card free
  · intro _
    have below {fd : Nat} (member : fd ∈ [rxFd, txFd]) : fd < bound := by
      by_contra above
      have few := filled.lower fd member
      have fewer := card_le_card (@lowerFree_mono process _ _ (Nat.le_of_not_lt above))
      simp only [List.length_cons, List.length_nil] at few
      omega
    exact ⟨below (by simp), below (by simp)⟩

/-- A pair is made or nothing exactly if no descriptor is free, or two are that fit the
array of the user. -/
theorem all_or_nothing_iff (call : PairCall) (process : Process) :
    call.AllOrNothing process ↔
      process.lowerFree process.pcb.fileLimit = ∅ ∨ 2 ≤ (process.lowerFree (2 ^ 32)).card := by
  have outcome := call.run_paired process
  unfold AllOrNothing
  generalize call.run process = result at outcome
  cases outcome with
  | none full filled =>
    refine iff_of_true ?_ (.inl full)
    simp [openFds_filled filled]
  | @one fd after filled full =>
    have free := filled.free fd List.mem_cons_self
    refine iff_of_false (fun same => ?_) ?_
    · refine not_open_of_filled filled List.mem_cons_self (?_ : fd ∈ openFds process)
      rw [← same]
      exact filled.occupied fd List.mem_cons_self
    · rintro (none | two)
      · have member : fd ∈ process.lowerFree process.pcb.fileLimit :=
          mem_filter.mpr ⟨mem_range.mpr (freeFd_iff.mp free).1, free⟩
        simp [none] at member
      · have left := filled.card_lowerFree_le (2 ^ 32)
        have within := card_le_card (after.lowerFree_subset_limit (2 ^ 32))
        rw [full, card_empty] at within
        rw [List.length_singleton] at left
        omega
  | @both rxFd txFd after filled =>
    have occupied : process.lowerFree process.pcb.fileLimit ≠ ∅ := by
      have free := filled.free rxFd List.mem_cons_self
      exact ne_empty_of_mem (mem_filter.mpr ⟨mem_range.mpr (freeFd_iff.mp free).1, free⟩)
    have opened := openFds_filled filled
    rw [or_iff_right occupied, ← below_iff_of_filled filled]
    dsimp only [userArray]
    constructor
    · rintro ⟨-, -, -, same⟩
      -- What is open now and was not is in the array, whose entries have 32 bits.
      have listed {fd : Nat} (member : fd ∈ [rxFd, txFd]) : fd < 2 ^ 32 := by
        have now : fd ∈ openFds process ∪ {rxFd % 2 ^ 32, txFd % 2 ^ 32} := by
          rw [← same, opened]
          exact .inr member
        rcases now with old | rfl | rfl
        · exact absurd old (not_open_of_filled filled member)
        · exact Nat.mod_lt _ (by decide)
        · exact Nat.mod_lt _ (by decide)
      exact ⟨listed (by simp), listed (by simp)⟩
    · rintro ⟨rxBelow, txBelow⟩
      rw [Nat.mod_eq_of_lt rxBelow, Nat.mod_eq_of_lt txBelow]
      refine ⟨not_open_of_filled filled (by simp), not_open_of_filled filled (by simp), ?_, ?_⟩
      · exact fun same => by simpa [same] using filled.nodup
      · rw [opened]
        congr 1
        ext fd
        simp

def oneLeft : Process :=
  let process := new 1 [some 0, some 0]
  { process with pcb := { process.pcb with fileLimit := 3 } }

/-- With one descriptor left, the call fails and the descriptor is taken. -/
theorem failed_pipe_takes_descriptor :
    ∃ after, (pipe2 7 8).run oneLeft = some (.error .ENFILE, after) ∧ oneLeft.file 2 = none ∧ after.file 2 = some 7 :=
  ⟨_, rfl, rfl, rfl⟩

end PairCall

end MonkeyOS.Syscall
