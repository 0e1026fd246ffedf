import MonkeyOS.Fs.Blocking
import MonkeyOS.Lib.Selection
import MonkeyOS.Tasks.FileTable

/-!
# Socket pairs

`kernel/src/user/socket_pair.rs`, and `sys_socket_pair` of
`kernel/src/syscall/socket.rs`. Descriptors are known by the inode of their file;
`poll` changes nothing and is left out.
-/

set_option autoImplicit false

namespace MonkeyOS.User

open Lib Tasks Fs Function Process List

structure SocketPair where
  inner : List UInt8
  deriving DecidableEq, Repr

namespace SocketPair

def writeat (pair : SocketPair) (_offset : Nat) (buffer : List UInt8) : Except Errno Nat × SocketPair :=
  if pair.inner.length > 0x50000 then (.error EWOULDBLOCK, pair)
  else (.ok buffer.length, { inner := pair.inner ++ buffer })

def readat (pair : SocketPair) (_offset len : Nat) : Except Errno (List UInt8) × SocketPair :=
  let rlen := min pair.inner.length len
  let rest : SocketPair := { inner := pair.inner.drop rlen }
  if rlen = 0 then (.error EWOULDBLOCK, rest) else (.ok (pair.inner.take rlen), rest)

end SocketPair

def createSocketPair : SocketPair := { inner := [] }

/-- `socket` is the inode of the pair made for the call. -/
def sysSocketPair (process : Process) (socket : Inode) : Option (Except Errno (Nat × Nat) × Process) :=
  match process.allocFd with
  | (none, process) => some (.error .ENFILE, process)
  | (some rxFd, process) => do
      let process ← process.setFd rxFd socket
      match process.allocFd with
      | (none, process) => some (.error .ENFILE, process)
      | (some txFd, process) => do
          let process ← process.setFd txFd socket
          some (.ok (rxFd, txFd), process)

/-! ## The two ends -/

abbrev SocketPairs := Inode → SocketPair

def pairInode (socket : Inode) : INode SocketPairs UInt8 where
  readat pairs offset len :=
    let (answer, pair) := (pairs socket).readat offset len
    (answer, update pairs socket pair)
  writeat pairs offset buffer :=
    let (answer, pair) := (pairs socket).writeat offset buffer
    (answer, update pairs socket pair)

def descriptorInode (process : Process) (fd : Nat) : INode SocketPairs UInt8 :=
  match process.getFd fd with
  | some (some socket) => pairInode socket
  | _ =>
    { readat := fun pairs _ _ => (.error .EBADF, pairs)
      writeat := fun pairs _ _ => (.error .EBADF, pairs) }

inductive End where
  | first
  | second
  deriving DecidableEq, Repr

def End.other : End → End
  | .first => .second
  | .second => .first

def descriptor (fds : Nat × Nat) : End → Nat
  | .first => fds.1
  | .second => fds.2

abbrev SocketEvent := Fs.Event End Empty UInt8

/-- The callers of the two ends, and beside each queued byte the end it was
written on, which no call looks at. -/
structure Traced where
  system : Fs.System SocketPairs End UInt8
  origins : List End

def trace (origins : List End) (event : SocketEvent) : List End :=
  match event.outcome with
  | .wrote who buffer (.ok _) => origins ++ List.replicate buffer.length who
  | .got _ _ (.ok bytes) => origins.drop bytes.length
  | _ => origins

def SocketStep (process : Process) (fds : Nat × Nat) (before : Traced) (event : SocketEvent) (after : Traced) : Prop :=
  before.system.Step (fun who => descriptorInode process (descriptor fds who)) nofun event after.system ∧
    after.origins = trace before.origins event

def writtenOn (who : End) (event : SocketEvent) : List UInt8 :=
  match event.outcome with
  | .wrote writer buffer (.ok _) => if writer = who then buffer else []
  | _ => []

def returnedOn (who : End) (event : SocketEvent) : List UInt8 :=
  match event.outcome with
  | .got reader _ (.ok bytes) => if reader = who then bytes else []
  | _ => []

/-- No end reads back a byte it wrote. -/
def NotOwn (before : Traced) (event : SocketEvent) : Prop :=
  ∀ who len bytes, event.outcome = .got who len (.ok bytes) → who ∉ before.origins.take bytes.length

/-- Whoever reads finds none of its own bytes within the length it asks for. -/
def Directed (before : Traced) (event : SocketEvent) : Prop :=
  ∀ who len answer, event.outcome = .got who len answer → who ∉ before.origins.take len

/-! ## Both descriptors reach one pair -/

variable {fds : Nat × Nat} {process after : Process} {socket : Inode}
  (made : sysSocketPair process socket = some (.ok fds, after))
include made

theorem sysSocketPair_shares : fds.1 ≠ fds.2 ∧ ∀ who, after.getFd (descriptor fds who) = some (some socket) := by
  unfold sysSocketPair at made
  split at made
  · cases made
  · next rxFd first allocated =>
    obtain ⟨second, installed, made⟩ := Option.bind_eq_some_iff.mp made
    split at made
    · cases made
    · next txFd _ again =>
      obtain ⟨_, installedAgain, made⟩ := Option.bind_eq_some_iff.mp made
      cases made
      have rxLimit := (allocFd_frame allocated).1
      have rxBound := (freeFd_iff.mp (allocFd_lowest allocated).1).1
      obtain ⟨_, rxSet⟩ := setFd_spec (rxLimit ▸ rxBound) installed
      obtain ⟨txLimit, kept⟩ := allocFd_frame again
      obtain ⟨txBound, unused⟩ := freeFd_iff.mp (allocFd_lowest again).1
      obtain ⟨_, txSet⟩ := setFd_spec (txLimit ▸ txBound) installedAgain
      have different : rxFd ≠ txFd := by
        rintro rfl
        rw [rxSet, update_self] at unused
        cases unused
      refine ⟨different, fun who => ?_⟩
      cases who with
      | first =>
        refine getFd_eq_some (by simp only [descriptor]; omega) ?_
        simp only [descriptor]
        rw [txSet, update_of_ne different, kept, rxSet, update_self]
      | second =>
        refine getFd_eq_some (by simp only [descriptor]; omega) ?_
        simp only [descriptor]
        rw [txSet, update_self]

theorem descriptorInode_shared (who : End) : descriptorInode after (descriptor fds who) = pairInode socket := by
  rw [descriptorInode, (sysSocketPair_shares made).2 who]

omit made

/-! ## Steps -/

variable {socket : Inode} {pairs pairsAfter : SocketPairs} {offset len : Nat} {bytes buffer : List UInt8}
  {errno : Errno}

theorem pairInode_writeat_ok {count : Nat}
    (done : (pairInode socket).writeat pairs offset buffer = (.ok count, pairsAfter)) :
    (pairsAfter socket).inner = (pairs socket).inner ++ buffer := by
  simp only [pairInode, SocketPair.writeat] at done
  split at done
  · cases done
  · cases done
    rw [update_self]

theorem pairInode_writeat_error (done : (pairInode socket).writeat pairs offset buffer = (.error errno, pairsAfter)) :
    pairsAfter = pairs := by
  simp only [pairInode, SocketPair.writeat] at done
  split at done
  · cases done
    exact update_eq_self ..
  · cases done

theorem pairInode_readat_ok
    (done : (pairInode socket).readat pairs offset len = (.ok bytes, pairsAfter)) :
    (pairs socket).inner = bytes ++ (pairsAfter socket).inner ∧ bytes.length = min (pairs socket).inner.length len := by
  simp only [pairInode, SocketPair.readat] at done
  split at done
  · cases done
  · cases done
    rw [update_self]
    refine ⟨(take_append_drop ..).symm, ?_⟩
    rw [length_take]
    omega

theorem pairInode_readat_error (done : (pairInode socket).readat pairs offset len = (.error errno, pairsAfter)) :
    pairsAfter = pairs ∧ min (pairs socket).inner.length len = 0 := by
  simp only [pairInode, SocketPair.readat] at done
  split at done
  · next none =>
    cases done
    rw [none, drop_zero]
    exact ⟨update_eq_self .., rfl⟩
  · cases done

theorem pairInode_steady : (pairInode socket).Steady :=
  ⟨fun done => (pairInode_readat_error done).1, pairInode_writeat_error⟩

def queued (socket : Inode) (traced : Traced) : List UInt8 := (traced.system.state socket).inner

inductive SocketEffect (socket : Inode) (before : Traced) (after : Traced) :
    Outcome End Empty UInt8 → Prop where
  | wrote {who buffer count} : queued socket after = queued socket before ++ buffer →
      after.origins = before.origins ++ List.replicate buffer.length who →
      SocketEffect socket before after (.wrote who buffer (.ok count))
  | got {who len bytes} : queued socket before = bytes ++ queued socket after →
      bytes.length = min (queued socket before).length len →
      after.origins = before.origins.drop bytes.length →
      SocketEffect socket before after (.got who len (.ok bytes))
  | refusedWrite {who buffer errno} : queued socket after = queued socket before →
      after.origins = before.origins → SocketEffect socket before after (.wrote who buffer (.error errno))
  | refusedRead {who len errno} : queued socket after = queued socket before →
      after.origins = before.origins → min (queued socket before).length len = 0 →
      SocketEffect socket before after (.got who len (.error errno))
  | silent : queued socket after = queued socket before → after.origins = before.origins →
      SocketEffect socket before after .silent

variable {process made : Process} {fds : Nat × Nat} {before after : Traced} {event : SocketEvent}

theorem SocketStep.effect (shared : ∀ who, descriptorInode process (descriptor fds who) = pairInode socket)
    (step : SocketStep process fds before event after) : SocketEffect socket before after event.outcome := by
  obtain ⟨step, traced⟩ := step
  rw [funext shared] at step
  have explained := step.explained fun _ => pairInode_steady
  obtain ⟨_, outcome⟩ := event
  cases outcome with
  | silent => exact .silent (congrArg SocketPair.inner (congrFun explained socket)) traced
  | wrote who _ answer =>
    obtain ⟨offset, called⟩ := explained
    cases answer with
    | ok count => exact .wrote (pairInode_writeat_ok called) traced
    | error errno => exact .refusedWrite (by rw [queued, pairInode_writeat_error called, queued]) traced
  | got who _ answer =>
    obtain ⟨offset, called⟩ := explained
    cases answer with
    | ok _ =>
      obtain ⟨split, count⟩ := pairInode_readat_ok called
      exact .got split count traced
    | error errno =>
      obtain ⟨same, none⟩ := pairInode_readat_error called
      exact .refusedRead (by rw [queued, same, queued]) traced none
  | changed kind => exact kind.elim

def Aligned (socket : Inode) (traced : Traced) : Prop :=
  (queued socket traced).length = traced.origins.length

theorem SocketEffect.aligned {outcome : Outcome End Empty UInt8} (effect : SocketEffect socket before after outcome)
    (aligned : Aligned socket before) : Aligned socket after := by
  unfold Aligned at *
  cases effect with
  | wrote queue origins => rw [queue, origins, length_append, length_append, aligned, length_replicate]
  | got split _ origins =>
    rw [split, length_append] at aligned
    rw [origins, length_drop]
    omega
  | refusedWrite queue origins | refusedRead queue origins | silent queue origins => rw [queue, origins, aligned]

theorem SocketEffect.directed_iff (effect : SocketEffect socket before after event.outcome)
    (aligned : Aligned socket before) : NotOwn before event ↔ Directed before event := by
  unfold Aligned at aligned
  constructor
  · intro notOwn who len _ same
    have taken := notOwn who len
    rw [same] at effect
    cases effect with
    | @got _ _ bytes split count origins =>
      have whole : before.origins.take len = before.origins.take bytes.length :=
        take_eq_take_iff.mpr (by omega)
      rw [whole]
      exact taken _ same
    | refusedRead _ origins _ =>
      have empty : before.origins.take len = [] :=
        eq_nil_of_length_eq_zero (by rw [length_take]; omega)
      rw [empty]
      exact not_mem_nil
  · intro directed who len bytes same own
    rw [same] at effect
    cases effect with
    | got split count origins =>
      exact directed who len _ same ((take_prefix_take_left (by omega)).subset own)

variable {who : End}

private theorem End.eq_other {reader : End} (different : reader ≠ who) : reader = who.other := by
  cases reader <;> cases who <;> first | rfl | exact absurd rfl different

/-- What an end has read and what waits for it is what the other end has written. -/
theorem SocketEffect.flow (effect : SocketEffect socket before after event.outcome) (aligned : Aligned socket before)
    (directed : Directed before event) (who : End) :
    returnedOn who event ++ tagged who.other (queued socket after) after.origins =
      tagged who.other (queued socket before) before.origins ++ writtenOn who.other event := by
  unfold Aligned at aligned
  have notOwn := (effect.directed_iff aligned).mpr directed
  have still : queued socket after = queued socket before →
      after.origins = before.origins → returnedOn who event = [] → writtenOn who.other event = [] →
      returnedOn who event ++ tagged who.other (queued socket after) after.origins =
        tagged who.other (queued socket before) before.origins ++ writtenOn who.other event := by
    intro queue origins returned written
    rw [queue, origins, returned, written, append_nil, nil_append]
  obtain ⟨_, _⟩ := event
  cases effect with
  | @wrote _ _ count queue origins =>
    rw [queue, origins, tagged_append aligned]
    simp only [returnedOn, writtenOn, nil_append]
    congr 1
    split
    · next own =>
      exact tagged_of_all length_replicate.symm fun tag member =>
        (eq_of_mem_replicate member).trans own
    · next foreign =>
      exact tagged_of_none fun tag member same =>
        foreign ((eq_of_mem_replicate member).symm.trans same)
  | @got reader len bytes split count origins =>
    have foreign := notOwn reader len bytes rfl
    have sizes : bytes.length = (before.origins.take bytes.length).length := by
      rw [length_take]
      omega
    have whole : tagged who.other (queued socket before) before.origins =
        tagged who.other bytes (before.origins.take bytes.length) ++
          tagged who.other (queued socket after) (before.origins.drop bytes.length) := by
      rw [← tagged_append sizes, take_append_drop, ← split]
    rw [whole, origins]
    simp only [returnedOn, writtenOn, append_nil]
    congr 1
    split
    · next mine =>
      refine (tagged_of_all sizes fun tag member => End.eq_other ?_).symm
      rintro rfl
      exact foreign (mine ▸ member)
    · next others =>
      refine (tagged_of_none fun tag member same => ?_).symm
      exact foreign ((End.eq_other others).trans same.symm ▸ member)
  | refusedWrite queue origins | silent queue origins => exact still queue origins rfl rfl
  | refusedRead queue origins _ => exact still queue origins rfl rfl

variable {start finish : Traced} {events : List SocketEvent}

/-- In every run on the two ends of a new pair, no end reads its own bytes and each
reads a prefix of what the other end has written, exactly if nobody ever reads
where its own bytes are next. -/
theorem socket_pair_directed_iff (call : sysSocketPair process socket = some (.ok fds, made))
    (new : start.system.state socket = createSocketPair) (untouched : start.origins = []) :
    Run (fun before event after => SocketStep made fds before event after ∧ NotOwn before event)
          start events finish ∧
        (∀ who : End, events.flatMap (returnedOn who) <+: events.flatMap (writtenOn who.other)) ↔
      Run (fun before event after => SocketStep made fds before event after ∧ Directed before event)
        start events finish := by
  have shared := descriptorInode_shared call
  have empty : queued socket start = [] := congrArg SocketPair.inner new
  have aligned : Aligned socket start := by rw [Aligned, empty, untouched]; rfl
  have along : ∀ {fact : Traced → SocketEvent → Prop},
      Run (fun before event after => SocketStep made fds before event after ∧ fact before event)
        start events finish →
      Run (fun before event after =>
        (SocketStep made fds before event after ∧ fact before event) ∧ Aligned socket before)
        start events finish :=
    fun run => run.assuming (fun aligned step => (step.1.effect shared).aligned aligned) aligned
  constructor
  · rintro ⟨run, _⟩
    refine (along run).mono fun step => ⟨step.1.1, ?_⟩
    exact ((step.1.1.effect shared).directed_iff step.2).mp step.1.2
  · intro run
    have run := along run
    refine ⟨run.mono fun step => ⟨step.1.1, ((step.1.1.effect shared).directed_iff step.2).mpr step.1.2⟩, ?_⟩
    intro who
    have flow := @Run.flow _ _ _ _ (returnedOn who) (writtenOn who.other)
      (fun traced => tagged who.other (queued socket traced) traced.origins)
      (fun step => (step.1.1.effect shared).flow step.2 step.1.2 who) _ _ _ run
    rw [empty, untouched] at flow
    exact ⟨_, flow⟩

private theorem SocketStep.next {system : Fs.System SocketPairs End UInt8}
    (acted : before.system.Step (fun who => descriptorInode process (descriptor fds who)) nofun event system) :
    SocketStep process fds before event { system, origins := trace before.origins event } := ⟨acted, rfl⟩

def pairOwner : Process := new 1 [some 9, some 9]

private theorem pairOwner_made : sysSocketPair (new 1 []) 9 = some (.ok (0, 1), pairOwner) := rfl

def newPair : Traced :=
  { system := { state := fun _ => createSocketPair, futures := fun _ => none }, origins := [] }

def question : List SocketEvent :=
  [⟨.write .first 0 [1, 2], .wrote .first [1, 2] (.ok 2)⟩, ⟨.read .second 0 8, .got .second 8 (.ok [1, 2])⟩]

theorem socket_pair_directed_iff_question :
    sysSocketPair (new 1 []) 9 = some (.ok (0, 1), pairOwner) ∧
      ∃ finish, Run (SocketStep pairOwner (0, 1)) newPair question finish ∧
        ∀ who : End, question.flatMap (returnedOn who) <+: question.flatMap (writtenOn who.other) := by
  refine ⟨rfl, ?_⟩
  have run : ∃ finish, Run (fun before event after =>
      SocketStep pairOwner (0, 1) before event after ∧ Directed before event) newPair question finish := by
    refine ⟨_, .cons ⟨.next rfl, ?_⟩ (.cons ⟨.next rfl, ?_⟩ .refl)⟩
    · intro who len answer same
      cases same
    · intro who len answer same
      cases same
      decide
  obtain ⟨finish, run⟩ := run
  exact ⟨finish, run.mono And.left, ((socket_pair_directed_iff pairOwner_made rfl rfl).mpr run).2⟩

def echo : List SocketEvent :=
  [⟨.write .first 0 [7], .wrote .first [7] (.ok 1)⟩, ⟨.read .first 0 8, .got .first 8 (.ok [7])⟩]

/-- An end reads the byte it has just written. -/
theorem socket_end_reads_itself :
    sysSocketPair (new 1 []) 9 = some (.ok (0, 1), pairOwner) ∧
      (∃ finish, Run (SocketStep pairOwner (0, 1)) newPair echo finish) ∧
      ¬ echo.flatMap (returnedOn .first) <+: echo.flatMap (writtenOn .second) := by
  refine ⟨rfl, ⟨_, .cons (.next rfl) (.cons (.next rfl) .refl)⟩, ?_⟩
  decide

end MonkeyOS.User
