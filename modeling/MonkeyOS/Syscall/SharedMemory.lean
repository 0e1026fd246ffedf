import MonkeyOS.Runtime.FrameProperties
import MonkeyOS.Tasks.Task

/-!
# Shared-memory segments

`SharedMemory` and `MapedSharedMemory` of `kernel/src/tasks/shm.rs`, the calls on them
of `kernel/src/syscall/shm.rs`, and what forks and the end of a process do to
attachments. A segment lives behind an `Arc`: the references to it are the entries of
`SHARED_MEMORY` and the attachments of all processes. The mapping of its pages is part
of the address space and does not matter here.
-/

set_option autoImplicit false

namespace MonkeyOS.Syscall

open Lib Tasks List Option OrderedMap
open MonkeyOS.Runtime

/-- The key to look for. A private object gets a number above all others. -/
def actualKey {β : Type} (base : Nat) (table : OrderedMap Nat β) (key : Nat) : Nat :=
  if key = 0 then wrapAdd (table.keys.max?.getD base) 1 else key

/-- `sys_shmget`, `sys_semget` and `sys_msgget`: find an object or make it. Without an
answer the kernel panics. -/
def getObject {β σ : Type} (base : Nat) (create : Bool) (make : Nat → σ → Option (β × σ))
    (table : OrderedMap Nat β) (state : σ) (key : Nat) : Option (Except Errno Nat × OrderedMap Nat β × σ) :=
  let key := actualKey base table key
  if (table.get key).isSome then some (.ok key, table, state)
  else if create then
    (make key state).map fun made => (.ok key, table.insert key made.1, made.2)
  else some (.error .ENOENT, table, state)

structure SharedMemory where
  trackers : List Nat
  deleted : Bool
  deriving DecidableEq, Repr

structure Attachment where
  pid : Nat
  key : Nat
  /-- The segment, by number. -/
  mem : Nat
  start : Nat
  size : Nat
  deriving DecidableEq, Repr

structure Segments where
  /-- `SHARED_MEMORY` -/
  table : OrderedMap Nat Nat
  /-- The segments made so far; `none` once the last reference is gone. -/
  segments : List (Option SharedMemory)
  processes : List Nat
  /-- The `shms` of all processes, each in order. -/
  attached : List Attachment
  machine : Machine

namespace Segments

def boot (pid : Nat) (machine : Machine) : Segments :=
  { table := .empty, segments := [], processes := [pid], attached := [], machine }

def segment (shm : Segments) (mem : Nat) : Option SharedMemory := shm.segments[mem]?.join

def strongCount (shm : Segments) (mem : Nat) : Nat :=
  shm.table.values.count mem + (shm.attached.map Attachment.mem).count mem

def release (shm : Segments) (mem : Nat) : Segments :=
  match shm.segment mem with
  | none => shm
  | some segment =>
    if shm.strongCount mem = 0 then
      { shm with
        segments := shm.segments.set mem none
        machine := segment.trackers.foldl Machine.dropFrame shm.machine }
    else shm

def remove (shm : Segments) (key : Nat) : Segments :=
  match shm.table.get key with
  | none => shm
  | some mem => { shm with table := shm.table.erase key }.release mem

/-- `Drop` of a `MapedSharedMemory`, which still counts as a reference while it runs. -/
def dropAttachment (shm : Segments) (attachment : Attachment) : Segments :=
  let shm :=
    if shm.strongCount attachment.mem = 1 ∧ (shm.segment attachment.mem).any SharedMemory.deleted then
      shm.remove attachment.key
    else shm
  { shm with attached := shm.attached.erase attachment }.release attachment.mem

/-- Note that `01000` is a decimal number in the source. -/
def sysShmget (shm : Segments) (key size shmflg : Nat) : Option (Except Errno Nat × Segments) :=
  let make (_ : Nat) (state : List (Option SharedMemory) × Machine) :=
    (state.2.frameAllocMuch (divCeil size pageSize)).map fun allocated =>
      (state.1.length, (state.1 ++ [some { trackers := allocated.1, deleted := false }], allocated.2))
  (getObject 0 (shmflg &&& 1000 > 0) make shm.table (shm.segments, shm.machine) key).map fun found =>
    (found.1, { shm with table := found.2.1, segments := found.2.2.1, machine := found.2.2.2 })

/-- Attach at an address; which one is decided by the address space. -/
def sysShmat (shm : Segments) (pid shmid vaddr : Nat) : Except Errno Nat × Segments :=
  match shm.table.get shmid with
  | none => (.error .ENOENT, shm)
  | some mem =>
    let pages := ((shm.segment mem).map fun segment => segment.trackers.length).getD 0
    (.ok vaddr, { shm with
      attached := shm.attached ++ [{ pid, key := shmid, mem, start := vaddr, size := wrapMul pages pageSize }] })

def mark (shm : Segments) (mem : Nat) : Segments :=
  { shm with segments := shm.segments.modify mem (Option.map fun segment => { segment with deleted := true }) }

def sysShmctl (shm : Segments) (shmid cmd : Nat) : Except Errno Nat × Segments :=
  if cmd = 0 then
    (.ok 0,
      match shm.table.get shmid with
      | none => shm
      | some mem => shm.mark mem)
  else (.error .EPERM, shm)

def cowFork (shm : Segments) (parent child : Nat) : Segments :=
  { shm with
    processes := child :: shm.processes
    attached := shm.attached ++ (shm.attached.filter fun attachment => attachment.pid = parent).map
      fun attachment => { attachment with pid := child } }

def terminate (shm : Segments) (pid : Nat) : Segments :=
  let shm := (shm.attached.filter fun attachment => attachment.pid = pid).foldl dropAttachment shm
  { shm with processes := shm.processes.erase pid }

end Segments

inductive ShmCall where
  | shmget (key size shmflg : Nat)
  | shmat (pid shmid vaddr : Nat)
  | shmctl (shmid cmd : Nat)
  | fork (parent child : Nat)
  | exit (pid : Nat)

/-- A segment is known by its key, a machine word. -/
inductive Segments.Step : Segments → ShmCall × Except Errno Nat → Segments → Prop where
  | shmget {shm key size shmflg answer after} (word : key < usizeBound)
      (done : shm.sysShmget key size shmflg = some (answer, after)) :
      Step shm (.shmget key size shmflg, answer) after
  | shmat {shm pid shmid vaddr} (runs : pid ∈ shm.processes) :
      Step shm (.shmat pid shmid vaddr, (shm.sysShmat pid shmid vaddr).1) (shm.sysShmat pid shmid vaddr).2
  | shmctl {shm shmid cmd} : Step shm (.shmctl shmid cmd, (shm.sysShmctl shmid cmd).1) (shm.sysShmctl shmid cmd).2
  | fork {shm parent child} (runs : parent ∈ shm.processes) (fresh : child ∉ shm.processes) :
      Step shm (.fork parent child, .ok child) (shm.cowFork parent child)
  | exit {shm pid} (runs : pid ∈ shm.processes) : Step shm (.exit pid, .ok 0) (shm.terminate pid)

/-! ## Finding and making objects -/

section Objects

variable {β σ : Type} {base key : Nat} {create : Bool} {make : Nat → σ → Option (β × σ)}
  {table after : OrderedMap Nat β} {state stateAfter : σ} {answer : Except Errno Nat}

theorem getObject_cases (done : getObject base create make table state key = some (answer, after, stateAfter)) :
    (actualKey base table key ∈ table.keys ∧ answer = .ok (actualKey base table key) ∧ after = table ∧
        stateAfter = state) ∨
      (actualKey base table key ∉ table.keys ∧ answer = .ok (actualKey base table key) ∧
        ∃ object, make (actualKey base table key) state = some (object, stateAfter) ∧
          after = table.insert (actualKey base table key) object) ∨
      (actualKey base table key ∉ table.keys ∧ answer = .error .ENOENT ∧ after = table ∧ stateAfter = state) := by
  unfold getObject at done
  extract_lets actual at done
  rw [mem_keys_iff]
  split at done
  next present =>
    cases done
    exact .inl ⟨present, rfl, rfl, rfl⟩
  next absent =>
    split at done
    · obtain ⟨⟨object, _⟩, made, ⟨⟩⟩ := map_eq_some_iff.mp done
      exact .inr (.inl ⟨absent, rfl, object, made, rfl⟩)
    · cases done
      exact .inr (.inr ⟨absent, rfl, rfl, rfl⟩)

end Objects

namespace Segments

variable {shm after : Segments} {call : ShmCall} {answer : Except Errno Nat}

structure Kept (shm : Segments) : Prop where
  alive : ∀ key mem, shm.table.get key = some mem → (shm.segment mem).isSome
  tabled : ∀ mem, (shm.segment mem).isSome → ∃ key, shm.table.get key = some mem
  attached : ∀ attachment ∈ shm.attached, shm.table.get attachment.key = some attachment.mem

theorem boot_kept (pid : Nat) (machine : Machine) : (boot pid machine).Kept :=
  ⟨nofun, nofun, nofun⟩

variable {key mem : Nat} {attachment : Attachment} {attachments : List Attachment} {label : ShmCall × Except Errno Nat}

theorem count_of_get (found : shm.table.get key = some mem) : 0 < shm.table.values.count mem :=
  count_pos_iff.mpr (mem_values_iff.mpr ⟨key, found⟩)

theorem release_of_tabled (tabled : 0 < shm.table.values.count mem) : shm.release mem = shm := by
  unfold release
  split
  · rfl
  · rw [if_neg]
    unfold strongCount
    omega

/-- The entry in the table is a reference of its own, so no attachment is ever the last. -/
theorem Kept.dropAttachment (kept : shm.Kept) (member : attachment ∈ shm.attached) :
    shm.dropAttachment attachment = { shm with attached := shm.attached.erase attachment } := by
  have tabled := count_of_get (kept.attached attachment member)
  have attached : 0 < (shm.attached.map Attachment.mem).count attachment.mem :=
    count_pos_iff.mpr (mem_map_of_mem member)
  have shared : ¬ (shm.strongCount attachment.mem = 1 ∧ (shm.segment attachment.mem).any SharedMemory.deleted) := by
    unfold strongCount
    omega
  unfold Segments.dropAttachment
  rw [if_neg shared]
  exact release_of_tabled tabled

theorem Kept.erase (kept : shm.Kept) (attachment : Attachment) :
    Kept { shm with attached := shm.attached.erase attachment } :=
  ⟨kept.alive, kept.tabled, fun other member => kept.attached other (mem_of_mem_erase member)⟩

theorem Kept.dropAttachments (kept : shm.Kept)
    (listed : ∀ attachment, attachments.count attachment ≤ shm.attached.count attachment) :
    attachments.foldl Segments.dropAttachment shm = { shm with attached := shm.attached.diff attachments } := by
  induction attachments generalizing shm with
  | nil => rfl
  | cons attachment attachments ih =>
    have member : attachment ∈ shm.attached := by
      refine count_pos_iff.mp (lt_of_lt_of_le ?_ (listed attachment))
      simp
    rw [foldl_cons, kept.dropAttachment member, ih (kept.erase attachment), diff_cons]
    intro other
    have bound := listed other
    rw [count_cons] at bound
    simp only [count_erase]
    split at bound <;> simp_all
    omega

theorem Kept.terminate (kept : shm.Kept) (pid : Nat) :
    shm.terminate pid = { shm with
      processes := shm.processes.erase pid
      attached := shm.attached.diff (shm.attached.filter fun attachment => attachment.pid = pid) } := by
  unfold Segments.terminate
  rw [kept.dropAttachments fun attachment => filter_sublist.count_le attachment]

theorem mem_diff_filter {pid : Nat} :
    attachment ∈ attachments.diff (attachments.filter fun other => other.pid = pid) ↔
      attachment ∈ attachments ∧ attachment.pid ≠ pid := by
  rw [← count_pos_iff, count_diff, ← count_pos_iff]
  by_cases own : attachment.pid = pid
  · simp [own]
  · have absent : attachment ∉ attachments.filter fun other => other.pid = pid := by simp [own]
    rw [count_eq_zero.mpr absent]
    simp [own]

def Marks (shm : Segments) (call : ShmCall) (mem : Nat) : Prop :=
  ∃ shmid, call = .shmctl shmid 0 ∧ shm.table.get shmid = some mem

/-- What a step can do: segments and their keys only come, marks stay, and attachments
go with their process. -/
structure Advances (before : Segments) (call : ShmCall) (after : Segments) : Prop where
  kept : after.Kept
  table : ∀ key mem, before.table.get key = some mem → after.table.get key = some mem
  segment : ∀ mem, (before.segment mem).isSome → (after.segment mem).isSome
  marked : ∀ mem later, after.segment mem = some later → later.deleted →
    ∃ segment, before.segment mem = some segment ∧ (segment.deleted ∨ before.Marks call mem)
  attached : ∀ attachment ∈ before.attached, (∀ pid, call = .exit pid → attachment.pid ≠ pid) →
    attachment ∈ after.attached

private theorem segment_push (shm : Segments) (table : OrderedMap Nat Nat) (machine : Machine)
    (pushed : SharedMemory) (mem : Nat) :
    segment { shm with table, machine, segments := shm.segments ++ [some pushed] } mem =
      if mem = shm.segments.length then some pushed else shm.segment mem := by
  simp only [segment, getElem?_append]
  split
  · rw [if_neg (by omega)]
  · split
    next last => simp [last]
    · rw [getElem?_eq_none (by simp; omega), getElem?_eq_none (by omega)]

theorem Kept.push (kept : shm.Kept) (absent : key ∉ shm.table.keys) (pushed : SharedMemory) (machine : Machine) :
    Kept { shm with
      table := shm.table.insert key shm.segments.length, machine
      segments := shm.segments ++ [some pushed] } := by
  have none : shm.table.get key = none := by simpa [mem_keys_iff] using absent
  refine ⟨fun other mem found => ?_, fun mem alive => ?_, fun attachment member => ?_⟩
  · rw [segment_push]
    rw [get_insert] at found
    split at found
    · cases found
      rw [if_pos rfl]
      rfl
    · split
      · rfl
      · exact kept.alive other mem found
  · rw [segment_push] at alive
    simp only [get_insert]
    split at alive
    next last => exact ⟨key, by rw [if_pos rfl, last]⟩
    · obtain ⟨other, found⟩ := kept.tabled mem alive
      refine ⟨other, ?_⟩
      rw [if_neg fun same => by rw [same, none] at found; cases found]
      exact found
  · have found := kept.attached attachment member
    rw [get_insert, if_neg fun same => by rw [same, none] at found; cases found]
    exact found

theorem Advances.refl (kept : shm.Kept) : shm.Advances call shm where
  kept := kept
  table _ _ found := found
  segment _ alive := alive
  marked _ later found deleted := ⟨later, found, .inl deleted⟩
  attached _ member _ := member

theorem sysShmget_advances (kept : shm.Kept) {size shmflg : Nat}
    (done : shm.sysShmget key size shmflg = some (answer, after)) :
    shm.Advances (.shmget key size shmflg) after := by
  obtain ⟨⟨found, table, _, _⟩, got, ⟨⟩⟩ := map_eq_some_iff.mp done
  rcases getObject_cases got with ⟨_, _, rfl, state⟩ | ⟨absent, _, _, made, rfl⟩ | ⟨_, _, rfl, state⟩
  · cases state
    exact .refl kept
  · obtain ⟨_, _, ⟨⟩⟩ := map_eq_some_iff.mp made
    have none : shm.table.get (actualKey 0 shm.table key) = none := by
      simpa [mem_keys_iff] using absent
    refine ⟨kept.push absent _ _, fun _ mem found => ?_, fun mem alive => ?_, fun mem later found deleted => ?_,
      fun _ member _ => member⟩
    · rw [get_insert, if_neg fun same => by rw [same, none] at found; cases found]
      exact found
    · rw [segment_push]
      split
      · rfl
      · exact alive
    · rw [segment_push] at found
      split at found
      · cases found
        cases deleted
      · exact ⟨later, found, .inl deleted⟩
  · cases state
    exact .refl kept

theorem sysShmat_advances (kept : shm.Kept) (pid shmid vaddr : Nat) :
    shm.Advances (.shmat pid shmid vaddr) (shm.sysShmat pid shmid vaddr).2 := by
  unfold sysShmat
  split
  · exact .refl kept
  next _ found =>
    refine ⟨⟨kept.alive, kept.tabled, fun attachment member => ?_⟩, fun _ _ found => found, fun _ alive => alive,
      fun _ later found deleted => ⟨later, found, .inl deleted⟩, fun _ member _ => mem_append_left _ member⟩
    rcases mem_append.mp member with old | new
    · exact kept.attached attachment old
    · cases mem_singleton.mp new
      exact found

theorem segment_mark (shm : Segments) (target mem : Nat) :
    (shm.mark target).segment mem =
      if target = mem then (shm.segment mem).map fun segment => { segment with deleted := true }
      else shm.segment mem := by
  simp only [segment, mark, getElem?_modify]
  split
  · cases shm.segments[mem]? with
    | none => rfl
    | some _ => rfl
  · simp

theorem segment_mark_isSome (shm : Segments) (target mem : Nat) :
    ((shm.mark target).segment mem).isSome = (shm.segment mem).isSome := by
  rw [segment_mark]
  split
  · rw [isSome_map]
  · rfl

theorem sysShmctl_advances (kept : shm.Kept) (shmid cmd : Nat) :
    shm.Advances (.shmctl shmid cmd) (shm.sysShmctl shmid cmd).2 := by
  unfold sysShmctl
  split
  next remove =>
    split
    · exact .refl kept
    next _ found =>
      refine ⟨⟨fun key mem found => ?_, fun mem alive => kept.tabled mem ?_, kept.attached⟩,
        fun _ _ found => found, fun mem alive => ?_, fun mem later found' deleted => ?_, fun _ member _ => member⟩
      · rw [segment_mark_isSome]
        exact kept.alive key mem found
      · rwa [segment_mark_isSome] at alive
      · rwa [segment_mark_isSome]
      · rw [segment_mark] at found'
        split at found'
        next same =>
          obtain ⟨segment, before, _⟩ := map_eq_some_iff.mp found'
          exact ⟨segment, before, .inr ⟨shmid, by rw [remove], same ▸ found⟩⟩
        · exact ⟨later, found', .inl deleted⟩
  · exact .refl kept

theorem cowFork_advances (kept : shm.Kept) (parent child : Nat) :
    shm.Advances (.fork parent child) (shm.cowFork parent child) := by
  refine ⟨⟨kept.alive, kept.tabled, fun attachment member => ?_⟩, fun _ _ found => found, fun _ alive => alive,
    fun _ later found deleted => ⟨later, found, .inl deleted⟩, fun _ member _ => mem_append_left _ member⟩
  rcases mem_append.mp member with old | new
  · exact kept.attached attachment old
  · obtain ⟨original, listed, rfl⟩ := mem_map.mp new
    exact kept.attached original (mem_filter.mp listed).1

theorem terminate_advances (kept : shm.Kept) (pid : Nat) : shm.Advances (.exit pid) (shm.terminate pid) := by
  rw [kept.terminate]
  refine ⟨⟨kept.alive, kept.tabled, fun attachment member => kept.attached attachment (mem_diff_filter.mp member).1⟩,
    fun _ _ found => found, fun _ alive => alive, fun _ later found deleted => ⟨later, found, .inl deleted⟩,
    fun _ member stays => mem_diff_filter.mpr ⟨member, stays pid rfl⟩⟩

theorem Step.advances (step : Step shm label after) (kept : shm.Kept) : shm.Advances label.1 after := by
  cases step with
  | shmget _ done => exact sysShmget_advances kept done
  | shmat => exact sysShmat_advances kept ..
  | shmctl => exact sysShmctl_advances kept ..
  | fork => exact cowFork_advances kept ..
  | exit => exact terminate_advances kept ..

theorem Step.table_eq (step : Step shm label after) (kept : shm.Kept)
    (other : ∀ key size shmflg, label.1 ≠ .shmget key size shmflg) : after.table = shm.table := by
  cases step with
  | shmget => exact absurd rfl (other _ _ _)
  | shmat =>
    unfold sysShmat
    split <;> rfl
  | shmctl =>
    unfold sysShmctl
    split
    · split <;> rfl
    · rfl
  | fork => rfl
  | exit => rw [kept.terminate]

/-! ## Reclamation -/

/-- The segments, with those of which an attachment has been dropped. -/
structure Traced where
  shm : Segments
  dropped : List Nat

def drops (shm : Segments) : ShmCall → List Attachment
  | .exit pid => shm.attached.filter fun attachment => attachment.pid = pid
  | _ => []

theorem exit_of_drops (goes : attachment ∈ shm.drops call) : attachment ∈ shm.attached ∧ ∃ pid, call = .exit pid := by
  cases call with
  | exit pid => exact ⟨(mem_filter.mp goes).1, pid, rfl⟩
  | _ => cases goes

theorem Step.remains (step : Step shm label after) (kept : shm.Kept)
    (attachesNothing : (∃ pid, label.1 = .exit pid) ∨ ∃ shmid cmd, label.1 = .shmctl shmid cmd)
    (member : attachment ∈ after.attached) :
    attachment ∈ shm.attached ∧ attachment ∉ shm.drops label.1 := by
  cases step with
  | shmget | shmat | fork => simp at attachesNothing
  | @shmctl _ _ =>
    refine ⟨?_, nofun⟩
    unfold sysShmctl at member
    split at member
    · split at member
      · exact member
      · exact member
    · exact member
  | exit =>
    rw [kept.terminate] at member
    obtain ⟨old, other⟩ := mem_diff_filter.mp member
    exact ⟨old, fun goes => other (by simpa using (mem_filter.mp goes).2)⟩

def TracedStep (before : Traced) (label : ShmCall × Except Errno Nat) (after : Traced) : Prop :=
  Step before.shm label after.shm ∧ after.dropped = (before.shm.drops label.1).map Attachment.mem ++ before.dropped

/-- A segment that is marked and has lost its last attachment is out of the table, and
its frames are free. -/
def Traced.Reclaims (before : Traced) (call : ShmCall) (after : Traced) : Prop :=
  ∀ mem segment, before.shm.segment mem = some segment → segment.deleted ∨ before.shm.Marks call mem →
    mem ∈ after.dropped → (∀ attachment ∈ after.shm.attached, attachment.mem ≠ mem) →
    mem ∉ after.shm.table.values ∧ ∀ frame ∈ segment.trackers, FrameAllocator.Free after.shm.machine.frames frame

/-- No process ends with the last attachment of a marked segment, and no segment is
marked after its last attachment has been dropped. -/
def Traced.Retains (before : Traced) (call : ShmCall) : Prop :=
  (∀ attachment ∈ before.shm.drops call, (before.shm.segment attachment.mem).any SharedMemory.deleted →
      ∃ other ∈ before.shm.attached, other.mem = attachment.mem ∧ other ∉ before.shm.drops call) ∧
    ∀ mem ∈ before.dropped, before.shm.Marks call mem → ∃ attachment ∈ before.shm.attached, attachment.mem = mem

structure Traced.Retained (traced : Traced) : Prop where
  kept : traced.shm.Kept
  known : ∀ mem ∈ traced.dropped, (traced.shm.segment mem).isSome
  held : ∀ mem segment, traced.shm.segment mem = some segment → segment.deleted → mem ∈ traced.dropped →
    ∃ attachment ∈ traced.shm.attached, attachment.mem = mem

variable {before later : Traced} {label : ShmCall × Except Errno Nat}

variable (step : TracedStep before label later) (holds : before.Retained)
include step holds

theorem TracedStep.attached (retains : before.Retains label.1) {segment : SharedMemory}
    (found : before.shm.segment mem = some segment)
    (marked : segment.deleted ∨ before.shm.Marks label.1 mem) (dropped : mem ∈ later.dropped) :
    ∃ attachment ∈ later.shm.attached, attachment.mem = mem := by
  have advances := step.1.advances holds.kept
  -- An attachment that is not dropped by the call is still there.
  have stays {other : Attachment} (member : other ∈ before.shm.attached) (alive : other ∉ before.shm.drops label.1) :
      other ∈ later.shm.attached := by
    refine advances.attached other member fun _ is own => alive ?_
    rw [is]
    exact mem_filter.mpr ⟨member, by simpa using own⟩
  -- One that is dropped has another beside it.
  have replaced {attachment : Attachment} (member : attachment ∈ before.shm.attached)
      (same : attachment.mem = mem) (deleted : segment.deleted) :
      ∃ other ∈ later.shm.attached, other.mem = mem := by
    by_cases goes : attachment ∈ before.shm.drops label.1
    · obtain ⟨other, listed, sameMem, alive⟩ := retains.1 attachment goes (by simp [same, found, deleted])
      exact ⟨other, stays listed alive, sameMem.trans same⟩
    · exact ⟨attachment, stays member goes, same⟩
  rcases marked with deleted | marks
  · rw [step.2] at dropped
    rcases mem_append.mp dropped with now | earlier
    · obtain ⟨attachment, goes, same⟩ := mem_map.mp now
      exact replaced (exit_of_drops goes).1 same deleted
    · obtain ⟨attachment, member, same⟩ := holds.held mem segment found deleted earlier
      exact replaced member same deleted
  · obtain ⟨_, is, _⟩ := id marks
    rw [step.2, is] at dropped
    obtain ⟨attachment, member, same⟩ := retains.2 mem dropped marks
    exact ⟨attachment, stays member (by rw [is]; nofun), same⟩

theorem TracedStep.retained (retains : before.Retains label.1) : later.Retained := by
  have advances := step.1.advances holds.kept
  refine ⟨advances.kept, fun mem dropped => ?_, fun mem segment found deleted dropped => ?_⟩
  · rw [step.2] at dropped
    refine advances.segment mem ?_
    rcases mem_append.mp dropped with now | earlier
    · obtain ⟨attachment, goes, rfl⟩ := mem_map.mp now
      exact holds.kept.alive _ _ (holds.kept.attached attachment (exit_of_drops goes).1)
    · exact holds.known mem earlier
  · obtain ⟨_, present, marked⟩ := advances.marked mem segment found deleted
    exact step.attached holds retains present marked dropped

theorem TracedStep.reclaims_iff : before.Reclaims label.1 later ↔ before.Retains label.1 := by
  -- No segment leaves the table.
  have tabled {key mem : Nat} (entry : before.shm.table.get key = some mem) (gone : mem ∉ later.shm.table.values) :
      False :=
    gone (mem_values_iff.mpr ⟨key, (step.1.advances holds.kept).table key mem entry⟩)
  constructor
  · intro reclaims
    refine ⟨fun attachment goes deleted => ?_, fun mem dropped marks => ?_⟩
    · obtain ⟨member, ends⟩ := exit_of_drops goes
      have entry := holds.kept.attached attachment member
      obtain ⟨segment, found⟩ := isSome_iff_exists.mp (holds.kept.alive _ _ entry)
      rw [found] at deleted
      by_contra alone
      refine tabled entry (reclaims _ segment found (.inl deleted) ?_ fun other listed same => ?_).1
      · rw [step.2]
        exact mem_append_left _ (mem_map_of_mem goes)
      · obtain ⟨old, stays⟩ := step.1.remains holds.kept (.inl ends) listed
        exact alone ⟨other, old, same, stays⟩
    · obtain ⟨shmid, is, entry⟩ := id marks
      obtain ⟨segment, found⟩ := isSome_iff_exists.mp (holds.known mem dropped)
      by_contra alone
      refine tabled entry (reclaims mem segment found (.inr marks) ?_ fun other listed same => ?_).1
      · rw [step.2]
        exact mem_append_right _ dropped
      · exact alone ⟨other, (step.1.remains holds.kept (.inr ⟨shmid, 0, is⟩) listed).1, same⟩
  · intro retains mem segment found marked dropped unattached
    obtain ⟨attachment, member, same⟩ := step.attached holds retains found marked dropped
    exact absurd same (unattached attachment member)

omit step holds

def Traced.boot (pid : Nat) (machine : Machine) : Traced := ⟨.boot pid machine, []⟩

theorem Traced.boot_retained (pid : Nat) (machine : Machine) : (Traced.boot pid machine).Retained :=
  ⟨boot_kept pid machine, nofun, nofun⟩

/-- Marked segments are reclaimed with their last attachment if and only if there are
none to reclaim: every one that has lost attachments still has some. -/
theorem segments_reclaimed_iff {pid : Nat} {machine : Machine} {labels : List (ShmCall × Except Errno Nat)}
    {finish : Traced} :
    Run (fun before label after => TracedStep before label after ∧ before.Reclaims label.1 after)
        (.boot pid machine) labels finish ↔
      Run (fun before label after => TracedStep before label after ∧ before.Retains label.1)
        (.boot pid machine) labels finish := by
  have initial := Traced.boot_retained pid machine
  constructor
  · intro run
    refine (run.assuming (fun retained step => ?_) initial).mono fun step => ⟨step.1.1, ?_⟩
    · exact step.1.retained retained ((step.1.reclaims_iff retained).mp step.2)
    · exact (step.1.1.reclaims_iff step.2).mp step.1.2
  · intro run
    refine (run.assuming (fun retained step => step.1.retained retained step.2) initial).mono fun step => ⟨step.1.1, ?_⟩
    exact (step.1.1.reclaims_iff step.2).mpr step.1.2

theorem TracedStep.next {dropped : List Nat} (step : Step shm label after) :
    TracedStep ⟨shm, dropped⟩ label ⟨after, (shm.drops label.1).map Attachment.mem ++ dropped⟩ := ⟨step, rfl⟩

def oneFrame : Machine := { frames := [.new 0x1000 0x2000], mem := fun _ => 0 }

def noFrame : Machine :=
  { frames := [{ bits := [BitVec.allOnes 64], paddr := 0x1000, paddrEnd := 0x2000 }], mem := fun _ => 0 }

/-- The only process attaches the only segment, marks it and ends: the segment stays in
the table, and its frame is never free again. -/
theorem marked_segment_stays :
    ∃ finish, Run TracedStep (.boot 7 oneFrame)
        [(.shmget 1 4096 0o1000, .ok 1), (.shmat 7 1 0x40000000, .ok 0x40000000), (.shmctl 1 0, .ok 0),
          (.exit 7, .ok 0)] finish ∧
      finish.dropped = [0] ∧ finish.shm.attached = [] ∧
      finish.shm.segment 0 = some { trackers := [0x1000], deleted := true } ∧
      finish.shm.table.get 1 = some 0 ∧ finish.shm.machine.frames.getFreePageCount = 0 := by
  have granted : oneFrame.frames.allocMuch (divCeil 4096 pageSize) = some ([0x1000], noFrame.frames) := by
    decide +kernel
  have made : (boot 7 oneFrame).sysShmget 1 4096 0o1000 = some (.ok 1, { boot 7 noFrame with
      table := empty.insert 1 0, segments := [some { trackers := [0x1000], deleted := false }] }) := by
    simp only [sysShmget, getObject, boot, Machine.frameAllocMuch, granted]
    rfl
  refine ⟨_, .cons (.next (.shmget (by decide) made)) (.cons (.next (.shmat (by decide)))
    (.cons (.next .shmctl) (.cons (.next (.exit (by decide))) .refl))), ?_⟩
  decide +kernel

end Segments

end MonkeyOS.Syscall
