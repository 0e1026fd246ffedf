import MonkeyOS.Syscall.MessageQueue
import MonkeyOS.Syscall.SharedMemory

/-!
# The tables of System V IPC

`sys_semget`, `sys_semctl`, `sys_msgget` and `sys_msgctl` of `kernel/src/syscall/shm.rs`
beside the calls on segments. Keys chosen by users and the numbers of private objects
share one table for each kind.
-/

set_option autoImplicit false

namespace MonkeyOS.Syscall

open Lib Tasks Option OrderedMap

structure Semaphore where
  key : Nat
  nsems : Nat
  values : List Int32
  deriving DecidableEq, Repr

def Semaphore.new (key nsems : Nat) : Semaphore := { key, nsems, values := List.replicate nsems 0 }

def IPC_CREAT (flags : Nat) : Bool := flags.testBit 9

/-- No answer if the values are too many for a vector. -/
def sysSemget (sems : OrderedMap Nat Semaphore) (key nsems semflg : Nat) :
    Option (Except Errno Nat × OrderedMap Nat Semaphore) :=
  let make (key : Nat) (state : Unit) := if 2 ^ 61 ≤ nsems then none else some (Semaphore.new key nsems, state)
  (getObject 0 (IPC_CREAT semflg) make sems () key).map fun found => (found.1, found.2.1)

/-- `as usize` -/
def toUsize (value : Int32) : Nat := value.toInt64.toUInt64.toNat

def sysSemctl (sems : OrderedMap Nat Semaphore) (semid semnum cmd arg : Nat) :
    Except Errno Nat × OrderedMap Nat Semaphore :=
  match sems.get semid with
  | none => (.error .EINVAL, sems)
  | some sem =>
    match cmd with
    | 16 =>
      if semnum < sem.nsems then
        (.ok 0, sems.modify semid fun sem => { sem with values := sem.values.set semnum (Int32.ofNat arg) })
      else (.error .EINVAL, sems)
    | 12 =>
      if semnum < sem.nsems then (.ok (toUsize (sem.values.getD semnum 0)), sems) else (.error .EINVAL, sems)
    | 0 => (.ok 0, sems.erase semid)
    | _ => (.ok 0, sems)

def sysMsgget (queues : OrderedMap Nat MessageQueue) (key msgflg : Nat) :
    Option (Except Errno Nat × OrderedMap Nat MessageQueue) :=
  let make (key : Nat) (state : Unit) := some (MessageQueue.new key, state)
  (getObject 1000 (IPC_CREAT msgflg) make queues () key).map fun found => (found.1, found.2.1)

def sysMsgctl (queues : OrderedMap Nat MessageQueue) (msqid cmd : Nat) :
    Except Errno Nat × OrderedMap Nat MessageQueue :=
  match queues.get msqid with
  | none => (.error .EINVAL, queues)
  | some _ =>
    match cmd with
    | 0 => (.ok 0, queues.erase msqid)
    | _ => (.ok 0, queues)

structure Ipc where
  shm : Segments
  semaphores : OrderedMap Nat Semaphore
  messageQueues : OrderedMap Nat MessageQueue

inductive IpcKind where
  | shm | sem | msg
  deriving DecidableEq, Repr

def Ipc.identifiers (ipc : Ipc) : IpcKind → List Nat
  | .shm => ipc.shm.table.keys
  | .sem => ipc.semaphores.keys
  | .msg => ipc.messageQueues.keys

inductive IpcCall where
  | shm (call : ShmCall)
  | semget (key nsems semflg : Nat)
  | semctl (semid semnum cmd arg : Nat)
  | msgget (key msgflg : Nat)
  | msgctl (msqid cmd : Nat)

def IpcCall.get? : IpcCall → Option (IpcKind × Nat)
  | .shm (.shmget key _ _) => some (.shm, key)
  | .semget key _ _ => some (.sem, key)
  | .msgget key _ => some (.msg, key)
  | _ => none

namespace Ipc

inductive Step : Ipc → IpcCall × Except Errno Nat → Ipc → Prop where
  | shm {ipc call answer after} (step : Segments.Step ipc.shm (call, answer) after) :
      Step ipc (.shm call, answer) { ipc with shm := after }
  | semget {ipc key nsems semflg answer after} (word : key < usizeBound)
      (done : sysSemget ipc.semaphores key nsems semflg = some (answer, after)) :
      Step ipc (.semget key nsems semflg, answer) { ipc with semaphores := after }
  | semctl {ipc semid semnum cmd arg} :
      Step ipc (.semctl semid semnum cmd arg, (sysSemctl ipc.semaphores semid semnum cmd arg).1)
        { ipc with semaphores := (sysSemctl ipc.semaphores semid semnum cmd arg).2 }
  | msgget {ipc key msgflg answer after} (word : key < usizeBound)
      (done : sysMsgget ipc.messageQueues key msgflg = some (answer, after)) :
      Step ipc (.msgget key msgflg, answer) { ipc with messageQueues := after }
  | msgctl {ipc msqid cmd} :
      Step ipc (.msgctl msqid cmd, (sysMsgctl ipc.messageQueues msqid cmd).1)
        { ipc with messageQueues := (sysMsgctl ipc.messageQueues msqid cmd).2 }

end Ipc

/-! ## Identifiers in use -/

inductive Finds (ids : List Nat) (id : Nat) : Except Errno Nat → List Nat → Prop where
  | found (present : id ∈ ids) : Finds ids id (.ok id) ids
  | made {after} (absent : id ∉ ids) (added : ∀ other, other ∈ after ↔ other = id ∨ other ∈ ids) :
      Finds ids id (.ok id) after
  | missing (absent : id ∉ ids) : Finds ids id (.error .ENOENT) ids

variable {after ids : List Nat} {answer : Except Errno Nat} {id cmd : Nat}

theorem Finds.of_ok {other : Nat} (finds : Finds ids id answer after) (ok : answer = .ok other) : other = id := by
  cases finds with
  | found | made => exact (Except.ok.inj ok).symm
  | missing => cases ok

theorem Finds.of_present (finds : Finds ids id answer after) (present : id ∈ ids) : answer = .ok id := by
  cases finds with
  | found => rfl
  | made absent | missing absent => exact absurd present absent

theorem getObject_finds {β σ : Type} {base key : Nat} {create : Bool} {make : Nat → σ → Option (β × σ)}
    {table after : OrderedMap Nat β} {state stateAfter : σ}
    (done : getObject base create make table state key = some (answer, after, stateAfter)) :
    Finds table.keys (actualKey base table key) answer after.keys := by
  rcases getObject_cases done with ⟨present, rfl, rfl, _⟩ | ⟨absent, rfl, _, _, rfl⟩ | ⟨absent, rfl, rfl, _⟩
  · exact .found present
  · exact .made absent fun _ => mem_keys_insert
  · exact .missing absent

theorem mem_keys_sysSemctl {sems : OrderedMap Nat Semaphore} {semid semnum arg : Nat}
    (used : id ∈ (sysSemctl sems semid semnum cmd arg).2.keys) : id ∈ sems.keys := by
  unfold sysSemctl at used
  split at used
  · exact used
  · split at used
    · split at used
      · exact mem_keys_modify.mp used
      · exact used
    · split at used
      · exact used
      · exact used
    · exact (mem_keys_erase.mp used).2
    · exact used

theorem mem_keys_sysMsgctl {queues : OrderedMap Nat MessageQueue} {msqid : Nat}
    (used : id ∈ (sysMsgctl queues msqid cmd).2.keys) : id ∈ queues.keys := by
  unfold sysMsgctl at used
  split at used
  · exact used
  · split at used
    · exact (mem_keys_erase.mp used).2
    · exact used

theorem private_number_used_iff {base : Nat} (words : ∀ id ∈ ids, id < usizeBound) :
    wrapAdd (ids.max?.getD base) 1 ∈ ids ↔ usizeBound - 1 ∈ ids ∧ 0 ∈ ids := by
  cases largest : ids.max? with
  | none =>
    rw [List.max?_eq_none_iff.mp largest]
    simp
  | some last =>
    obtain ⟨member, above⟩ := List.max?_eq_some_iff.mp largest
    rw [getD_some]
    by_cases wraps : last = usizeBound - 1
    · rw [wraps] at member ⊢
      exact ⟨fun zero => ⟨member, zero⟩, fun both => both.2⟩
    · have word := words last member
      rw [wrapAdd_eq (by omega)]
      constructor
      · intro used
        have := above _ used
        omega
      · rintro ⟨top, _⟩
        have := above _ top
        omega

namespace Ipc

def base : IpcKind → Nat
  | .shm | .sem => 0
  | .msg => 1000

def sought (ipc : Ipc) (kind : IpcKind) (key : Nat) : Nat :=
  if key = 0 then wrapAdd ((ipc.identifiers kind).max?.getD (base kind)) 1 else key

variable {ipc after : Ipc} {label : IpcCall × Except Errno Nat} {kind : IpcKind} {key : Nat}

theorem Step.finds (step : Step ipc label after) (gets : label.1.get? = some (kind, key)) :
    key < usizeBound ∧ Finds (ipc.identifiers kind) (ipc.sought kind key) label.2 (after.identifiers kind) ∧
      ∀ other ≠ kind, after.identifiers other = ipc.identifiers other := by
  cases step with
  | shm step =>
    cases step with
    | shmget word done =>
      cases gets
      obtain ⟨found, got, ⟨⟩⟩ := map_eq_some_iff.mp done
      refine ⟨word, getObject_finds got, fun other different => ?_⟩
      cases other with
      | shm => exact absurd rfl different
      | sem | msg => rfl
    | shmat | shmctl | fork | exit => cases gets
  | semget word done =>
    cases gets
    obtain ⟨found, got, ⟨⟩⟩ := map_eq_some_iff.mp done
    refine ⟨word, getObject_finds got, fun other different => ?_⟩
    cases other with
    | shm | msg => rfl
    | sem => exact absurd rfl different
  | semctl | msgctl => cases gets
  | msgget word done =>
    cases gets
    obtain ⟨found, got, ⟨⟩⟩ := map_eq_some_iff.mp done
    refine ⟨word, getObject_finds got, fun other different => ?_⟩
    cases other with
    | shm | sem => rfl
    | msg => exact absurd rfl different

theorem Step.subset (step : Step ipc label after) (kept : ipc.shm.Kept) (gets : label.1.get? = none)
    (used : id ∈ after.identifiers kind) : id ∈ ipc.identifiers kind := by
  cases step with
  | @shm call _ shm step =>
    cases kind with
    | shm =>
      have table := step.table_eq kept fun key size shmflg is => by
        obtain rfl : call = .shmget key size shmflg := is
        cases gets
      simpa only [identifiers, table] using used
    | sem | msg => exact used
  | semget | msgget => cases gets
  | semctl =>
    cases kind with
    | shm | msg => exact used
    | sem => exact mem_keys_sysSemctl used
  | msgctl =>
    cases kind with
    | shm | sem => exact used
    | msg => exact mem_keys_sysMsgctl used

theorem Step.kept (step : Step ipc label after) (kept : ipc.shm.Kept) : after.shm.Kept := by
  cases step with
  | shm step => exact (step.advances kept).kept
  | semget | semctl | msgget | msgctl => exact kept

/-! ## Private objects -/

/-- The tables, with the identifiers of the private objects in use. -/
structure Known where
  ipc : Ipc
  privates : IpcKind → List Nat

def issued (label : IpcCall × Except Errno Nat) (kind : IpcKind) : List Nat :=
  match label.1.get?, label.2 with
  | some (other, 0), .ok id => if other = kind then [id] else []
  | _, _ => []

def KnownStep (before : Known) (label : IpcCall × Except Errno Nat) (after : Known) : Prop :=
  Step before.ipc label after.ipc ∧ ∀ kind, after.privates kind =
    (issued label kind ++ before.privates kind).filter (· ∈ after.ipc.identifiers kind)

/-- A private object gets an identifier that is not in use, and a key finds no private
object. -/
def Known.Private (before : Known) (label : IpcCall × Except Errno Nat) : Prop :=
  ∀ kind key id, label.1.get? = some (kind, key) → label.2 = .ok id →
    if key = 0 then id ∉ before.ipc.identifiers kind else id ∉ before.privates kind

/-- No private object is asked for while both the largest number and zero are in use,
and no key is the identifier of a private object. -/
def Known.Apart (before : Known) (call : IpcCall) : Prop :=
  ∀ kind key, call.get? = some (kind, key) →
    if key = 0 then ¬ (usizeBound - 1 ∈ before.ipc.identifiers kind ∧ 0 ∈ before.ipc.identifiers kind)
    else key ∉ before.privates kind

structure Known.Sound (known : Known) : Prop where
  kept : known.ipc.shm.Kept
  words : ∀ kind, ∀ id ∈ known.ipc.identifiers kind, id < usizeBound
  inUse : ∀ kind, ∀ id ∈ known.privates kind, id ∈ known.ipc.identifiers kind

variable {before later : Known}

theorem sought_lt (word : key < usizeBound) : ipc.sought kind key < usizeBound := by
  unfold sought
  split
  · exact Nat.mod_lt _ (by decide)
  · exact word

theorem KnownStep.sound (step : KnownStep before label later) (sound : before.Sound) : later.Sound := by
  refine ⟨step.1.kept sound.kept, fun kind id used => ?_, fun kind id known => ?_⟩
  · cases gets : label.1.get? with
    | none => exact sound.words kind id (step.1.subset sound.kept gets used)
    | some got =>
      obtain ⟨other, _⟩ := got
      obtain ⟨word, finds, rest⟩ := step.1.finds gets
      by_cases same : kind = other
      · rw [same] at used
        generalize label.2 = answer, later.ipc.identifiers other = ids at finds used
        cases finds with
        | found | missing => exact sound.words other id used
        | made _ added =>
          rcases (added id).mp used with rfl | old
          · exact sought_lt word
          · exact sound.words other id old
      · rw [rest kind same] at used
        exact sound.words kind id used
  · rw [step.2] at known
    simpa using (List.mem_filter.mp known).2

theorem KnownStep.private_iff (step : KnownStep before label later) (sound : before.Sound) :
    before.Private label ↔ before.Apart label.1 := by
  have fresh (kind : IpcKind) : before.ipc.sought kind 0 ∈ before.ipc.identifiers kind ↔
      usizeBound - 1 ∈ before.ipc.identifiers kind ∧ 0 ∈ before.ipc.identifiers kind := by
    exact private_number_used_iff (sound.words kind)
  constructor
  · intro isolated kind key gets
    have finds := (step.1.finds gets).2.1
    split
    next zero =>
      rw [zero] at gets finds
      rw [← fresh]
      intro used
      exact isolated kind 0 _ gets (finds.of_present used) used
    next nonzero =>
      rw [sought, if_neg nonzero] at finds
      intro known
      have answer := finds.of_present (sound.inUse kind key known)
      have unknown := isolated kind key key gets answer
      rw [if_neg nonzero] at unknown
      exact unknown known
  · intro apart kind key _ gets answer
    have condition := apart kind key gets
    have finds := (step.1.finds gets).2.1
    split
    next zero =>
      rw [zero] at finds
      rw [if_pos zero, ← fresh] at condition
      rw [finds.of_ok answer]
      exact condition
    next nonzero =>
      rw [sought, if_neg nonzero] at finds
      rw [if_neg nonzero] at condition
      rw [finds.of_ok answer]
      exact condition

def Known.boot (pid : Nat) (machine : Machine) : Known :=
  { ipc := { shm := .boot pid machine, semaphores := .empty, messageQueues := .empty }, privates := fun _ => [] }

theorem Known.boot_sound (pid : Nat) (machine : Machine) : (Known.boot pid machine).Sound where
  kept := Segments.boot_kept pid machine
  words kind id used := by cases kind <;> cases used
  inUse _ _ known := nomatch known

/-- Private objects stay private if and only if no key is the identifier of one, and
none is asked for when the numbers have run out. -/
theorem private_objects_apart_iff {pid : Nat} {machine : Machine} {labels : List (IpcCall × Except Errno Nat)}
    {finish : Known} :
    Run (fun before label after => KnownStep before label after ∧ before.Private label)
        (.boot pid machine) labels finish ↔
      Run (fun before label after => KnownStep before label after ∧ before.Apart label.1)
        (.boot pid machine) labels finish := by
  have initial := Known.boot_sound pid machine
  constructor
  · intro run
    refine (run.assuming (fun sound step => step.1.sound sound) initial).mono fun step => ⟨step.1.1, ?_⟩
    exact (step.1.1.private_iff step.2).mp step.1.2
  · intro run
    refine (run.assuming (fun sound step => step.1.sound sound) initial).mono fun step => ⟨step.1.1, ?_⟩
    exact (step.1.1.private_iff step.2).mpr step.1.2

theorem KnownStep.next {privates : IpcKind → List Nat} (step : Step ipc label after) :
    KnownStep ⟨ipc, privates⟩ label ⟨after, fun kind =>
      (issued label kind ++ privates kind).filter (· ∈ after.identifiers kind)⟩ := ⟨step, fun _ => rfl⟩

/-- The number of a private semaphore finds it, without the flag that would make one. -/
theorem private_semaphore_found :
    ∃ middle finish, Run KnownStep (.boot 7 Segments.oneFrame) [(.semget 0 1 0o1000, .ok 1)] middle ∧
      middle.privates .sem = [1] ∧ KnownStep middle (.semget 1 1 0, .ok 1) finish := by
  refine ⟨_, _, .cons (.next (.semget (by decide) rfl)) .refl, ?_, .next (.semget (by decide) rfl)⟩
  decide +kernel

end Ipc

end MonkeyOS.Syscall
