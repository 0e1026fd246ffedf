import MonkeyOS.User.SocketPair

/-!
# Descriptors of the threads of a process

The calls of `kernel/src/syscall/fd.rs` and `kernel/src/syscall/socket.rs` that return
new descriptors, made by threads that share a table. All but `sys_accept` and
`sys_accept4` run to their end in one poll; these two take their descriptor first and
then look for a connection, with a yield after each look. Descriptors are known by the
inode of their file.
-/

set_option autoImplicit false

namespace MonkeyOS.Syscall

open Lib Tasks Fs User Function Process Option Nat

/-- `opened` is what `fd_open` finds under the name. -/
def sysOpenat (process : Process) (opened : Except Errno Inode) : Option (Except Errno Nat × Process) :=
  match opened with
  | .error errno => some (.error errno, process)
  | .ok file =>
    match process.allocFd with
    | (none, process) => some (.error .EMFILE, process)
    | (some fd, process) => (process.setFd fd file).map (.ok fd, ·)

def sysDup3 (process : Process) (fdSrc fdDst : Nat) : Option (Except Errno Nat × Process) :=
  match process.getFd fdSrc with
  | none => none
  | some none => some (.error .EBADF, process)
  | some (some file) => (process.setFd fdDst file).map (.ok fdDst, ·)

def sysDup (process : Process) (fd : Nat) : Option (Except Errno Nat × Process) :=
  match process.allocFd with
  | (none, process) => some (.error .EMFILE, process)
  | (some fdDst, process) => sysDup3 process fd fdDst

/-- `rx` and `tx` are the inodes of the new pipe. -/
def sysPipe2 (process : Process) (rx tx : Inode) : Option (Except Errno (Nat × Nat) × Process) :=
  match process.allocFd with
  | (none, process) => some (.error .ENFILE, process)
  | (some rxFd, process) => do
      let process ← process.setFd rxFd rx
      match process.allocFd with
      | (none, process) => some (.error .ENFILE, process)
      | (some txFd, process) => do
          let process ← process.setFd txFd tx
          some (.ok (rxFd, txFd), process)

inductive NetType where
  | STEAM | DGRAME | RAW
  deriving DecidableEq, Repr

def NetType.fromUsize : Nat → Option NetType
  | 1 => some .STEAM
  | 2 => some .DGRAME
  | _ => none

/-- `socket` is the inode of the new socket. -/
def sysSocket (process : Process) (netType : Nat) (socket : Inode) : Option (Except Errno Nat × Process) :=
  match process.allocFd with
  | (none, process) => some (.error .EMFILE, process)
  | (some fd, process) =>
    match NetType.fromUsize netType with
    | none => some (.error .EINVAL, process)
    | some _ => (process.setFd fd socket).map (.ok fd, ·)

/-- What both accepting calls do before they look for a connection. -/
def acceptFd (process : Process) (isSocket : Inode → Bool) (socketFd : Nat) : Option (Except Errno Nat × Process) :=
  match process.getFd socketFd with
  | none => none
  | some none => some (.error .EINVAL, process)
  | some (some file) =>
    if isSocket file then
      match process.allocFd with
      | (none, process) => some (.error .EMFILE, process)
      | (some fd, process) => some (.ok fd, process)
    else some (.error .EINVAL, process)

inductive AcceptCall where
  | accept
  | accept4
  deriving DecidableEq, Repr

/-- What ends a call without a connection: a pending signal, or a listening socket
that is not to block. -/
def AcceptCall.refusal : AcceptCall → Errno
  | .accept => .EINTR
  | .accept4 => .EAGAIN

def AcceptCall.look (call : AcceptCall) (process : Process) (fd : Nat) (connection : Option Inode) (refused : Bool) :
    Option (Poll (Except Errno Nat) × Process) :=
  match connection with
  | some socket => (process.setFd fd socket).map (.ready (.ok fd), ·)
  | none => some (if refused then .ready (.error call.refusal) else .pending, process)

/-- The table of a process, and the descriptors that calls of its threads have taken
and not yet filled. -/
structure Descriptors where
  process : Process
  accepting : Nat → Option (AcceptCall × Nat)

inductive DescriptorCall where
  | openat (opened : Except Errno Inode)
  | dup (fd : Nat)
  | pipe2 (rx tx : Inode)
  | socket (netType : Nat) (socket : Inode)
  | socketPair (socket : Inode)
  | accept (call : AcceptCall) (thread socketFd : Nat)
  | poll (thread : Nat)
  | cancel (thread : Nat)
  | close (fd : Nat)

def DescriptorCall.allocations : DescriptorCall → Nat
  | .openat _ | .dup _ | .socket .. | .accept .. => 1
  | .pipe2 .. | .socketPair _ => 2
  | .poll _ | .cancel _ | .close _ => 0

def DescriptorCall.closes : DescriptorCall → Option Nat
  | .close fd => some fd
  | _ => none

def returned : Except Errno Nat → List Nat
  | .ok fd => [fd]
  | .error _ => []

def returnedPair : Except Errno (Nat × Nat) → List Nat
  | .ok fds => [fds.1, fds.2]
  | .error _ => []

def returnedBy : Poll (Except Errno Nat) → List Nat
  | .ready answer => returned answer
  | .pending => []

namespace Descriptors

def release (table : Descriptors) (thread : Nat) : Descriptors :=
  { table with accepting := update table.accepting thread none }

def take (table : Descriptors) (thread : Nat) (call : AcceptCall) (fd : Nat) : Descriptors :=
  { table with accepting := update table.accepting thread (some (call, fd)) }

def settle (table : Descriptors) (thread : Nat) (call : AcceptCall) (fd : Nat) : Poll (Except Errno Nat) → Descriptors
  | .pending => table.take thread call fd
  | .ready _ => table.release thread

/-- `isSocket` tells the files that are sockets. Labels carry the descriptors returned. -/
inductive Step (isSocket : Inode → Bool) : Descriptors → DescriptorCall × List Nat → Descriptors → Prop where
  | openat {table opened answer after} (done : sysOpenat table.process opened = some (answer, after)) :
      Step isSocket table (.openat opened, returned answer) { table with process := after }
  | dup {table fd answer after} (done : sysDup table.process fd = some (answer, after)) :
      Step isSocket table (.dup fd, returned answer) { table with process := after }
  | pipe2 {table rx tx answer after} (done : sysPipe2 table.process rx tx = some (answer, after)) :
      Step isSocket table (.pipe2 rx tx, returnedPair answer) { table with process := after }
  | socket {table netType socket answer after} (done : sysSocket table.process netType socket = some (answer, after)) :
      Step isSocket table (.socket netType socket, returned answer) { table with process := after }
  | socketPair {table socket answer after} (done : sysSocketPair table.process socket = some (answer, after)) :
      Step isSocket table (.socketPair socket, returnedPair answer) { table with process := after }
  | refused {table call thread socketFd errno after} (free : table.accepting thread = none)
      (done : acceptFd table.process isSocket socketFd = some (.error errno, after)) :
      Step isSocket table (.accept call thread socketFd, []) { table with process := after }
  | accept {table call thread socketFd fd process connection refused reply after} (free : table.accepting thread = none)
      (taken : acceptFd table.process isSocket socketFd = some (.ok fd, process))
      (looks : call.look process fd connection refused = some (reply, after)) :
      Step isSocket table (.accept call thread socketFd, returnedBy reply)
        (settle { table with process := after } thread call fd reply)
  | poll {table call thread fd connection refused reply after} (waits : table.accepting thread = some (call, fd))
      (looks : call.look table.process fd connection refused = some (reply, after)) :
      Step isSocket table (.poll thread, returnedBy reply) (settle { table with process := after } thread call fd reply)
  | cancel {table thread} : Step isSocket table (.cancel thread, []) (table.release thread)
  | close {table fd} : Step isSocket table (.close fd, []) { table with process := table.process.clearFd fd }

end Descriptors

/-! ## Files that calls have returned -/

/-- A table, with the file that each descriptor had when a call returned it, until the
descriptor is closed. -/
structure Opened where
  table : Descriptors
  opened : Nat → Option Inode

def Opened.boot (process : Process) : Opened where
  table := { process, accepting := fun _ => none }
  opened := fun _ => none

def Opened.Step (isSocket : Inode → Bool) (before : Opened) (label : DescriptorCall × List Nat)
    (after : Opened) : Prop :=
  Descriptors.Step isSocket before.table label after.table ∧ after.opened = fun fd =>
    if fd ∈ label.2 then after.table.process.file fd
    else if label.1.closes = some fd then none else before.opened fd

/-- Descriptors are returned that have no open file, and open files stay. -/
structure Opened.Fresh (before : Opened) (label : DescriptorCall × List Nat) (after : Opened) : Prop where
  nodup : label.2.Nodup
  unused : ∀ fd ∈ label.2, before.opened fd = none
  kept : ∀ fd file, before.opened fd = some file → label.1.closes ≠ some fd → after.table.process.file fd = some file

/-- As many descriptors as a call takes are free below each one that an unfinished
`accept` has taken. -/
def Descriptors.Apart (table : Descriptors) (call : DescriptorCall) : Prop :=
  ∀ thread kind fd, table.accepting thread = some (kind, fd) → call.allocations ≤ (table.process.lowerFree fd).card

/-! ## Calls that end at once -/

def Takes (before after : Process) (fds : List Nat) (count : Nat) : Prop :=
  ∃ filled, before.Filled after filled ∧ fds.Sublist filled ∧ filled.length ≤ count

section

variable {process middle after : Process} {fds : List Nat} {count : Nat}

theorem Takes.refl : Takes process process [] count := ⟨[], .of_same rfl rfl, .refl [], zero_le count⟩

theorem Takes.one {fd : Nat} {file : Inode} {answer : Except Errno Nat}
    (allocated : process.allocFd = (some fd, middle))
    (set : (middle.setFd fd file).map (.ok fd, ·) = some (answer, after)) :
    Takes process after (returned answer) 1 := by
  obtain ⟨_, installed, ⟨⟩⟩ := map_eq_some_iff.mp set
  exact ⟨[fd], .of_allocFd allocated installed, .refl [fd], le_refl 1⟩

theorem Takes.none {fd : Option Nat} (allocated : process.allocFd = (fd, after)) : Takes process after [] count := by
  obtain ⟨limit, same⟩ := allocFd_frame allocated
  exact ⟨[], .of_same limit same, .refl [], zero_le count⟩

variable {answer : Except Errno Nat} {socket : Inode}

theorem sysOpenat_takes {opened : Except Errno Inode} (done : sysOpenat process opened = some (answer, after)) :
    Takes process after (returned answer) 1 := by
  unfold sysOpenat at done
  split at done
  · cases done
    exact .refl
  · split at done
    next allocated =>
      cases done
      exact .none allocated
    next allocated => exact .one allocated done

theorem sysDup_takes {fd : Nat} (done : sysDup process fd = some (answer, after)) :
    Takes process after (returned answer) 1 := by
  unfold sysDup at done
  split at done
  next allocated =>
    cases done
    exact .none allocated
  next allocated =>
    unfold sysDup3 at done
    split at done
    · cases done
    · cases done
      exact .none allocated
    · exact .one allocated done

theorem sysSocket_takes {netType : Nat}
    (done : sysSocket process netType socket = some (answer, after)) : Takes process after (returned answer) 1 := by
  unfold sysSocket at done
  split at done
  next allocated =>
    cases done
    exact .none allocated
  next allocated =>
    split at done
    · cases done
      exact .none allocated
    · exact .one allocated done

theorem sysPipe2_takes {rx tx : Inode} {answer : Except Errno (Nat × Nat)}
    (done : sysPipe2 process rx tx = some (answer, after)) : Takes process after (returnedPair answer) 2 := by
  unfold sysPipe2 at done
  split at done
  next allocated =>
    cases done
    exact .none allocated
  next rxFd _ allocated =>
    obtain ⟨_, installed, done⟩ := bind_eq_some_iff.mp done
    have filled := Process.Filled.of_allocFd allocated installed
    split at done
    next again =>
      cases done
      obtain ⟨limit, same⟩ := allocFd_frame again
      exact ⟨[rxFd], filled.trans (.of_same limit same), List.nil_sublist _, le_succ 1⟩
    next txFd _ again =>
      obtain ⟨_, installedAgain, done⟩ := bind_eq_some_iff.mp done
      cases done
      exact ⟨[rxFd, txFd], filled.trans (.of_allocFd again installedAgain), .refl _, le_refl 2⟩

theorem sysSocketPair_eq : sysSocketPair process socket = sysPipe2 process socket socket := rfl

end

/-! ## One step -/

structure Descriptors.Held (table : Descriptors) : Prop where
  free : ∀ thread kind fd, table.accepting thread = some (kind, fd) → table.process.freeFd fd
  once : ∀ thread other kind kind' fd, table.accepting thread = some (kind, fd) →
    table.accepting other = some (kind', fd) → thread = other

structure Adds (before after : Process) (label : DescriptorCall × List Nat) : Prop where
  nodup : label.2.Nodup
  unused : ∀ fd ∈ label.2, before.file fd = none
  kept : ∀ fd file, before.file fd = some file → label.1.closes ≠ some fd → after.file fd = some file

section

variable {before after : Process} {call : DescriptorCall} {fds filled : List Nat} {table next : Descriptors}

theorem Adds.of_filled (fills : before.Filled after filled) (sublist : fds.Sublist filled) :
    Adds before after (call, fds) where
  nodup := fills.nodup.sublist sublist
  unused fd member := (freeFd_iff.mp (fills.free fd (sublist.subset member))).2
  kept fd file present _ := by
    have absent : fd ∉ filled := by
      intro member
      have unused := (freeFd_iff.mp (fills.free fd member)).2
      rw [present] at unused
      cases unused
    rw [fills.same fd absent, present]

theorem Adds.nothing (kept : after.file = before.file) : Adds before after (call, []) where
  nodup := .nil
  unused := nofun
  kept fd file present _ := by rw [kept, present]

namespace Descriptors

variable {thread fd : Nat} {kind : AcceptCall}

theorem Held.keep (held : table.Held) (limit : after.pcb.fileLimit = table.process.pcb.fileLimit)
    (unused : ∀ thread kind fd, table.accepting thread = some (kind, fd) →
      table.process.file fd = none → after.file fd = none) : Held { table with process := after } where
  free thread kind fd takes := by
    obtain ⟨bound, none⟩ := freeFd_iff.mp (held.free thread kind fd takes)
    exact freeFd_iff.mpr ⟨limit.symm ▸ bound, unused thread kind fd takes none⟩
  once := held.once

theorem Held.fill (held : table.Held) {taken : List Nat} (fills : table.process.Filled after taken)
    (apart : table.Apart call) (count : taken.length ≤ call.allocations) : Held { table with process := after } := by
  refine held.keep fills.limit fun thread kind fd takes unused => ?_
  have absent : fd ∉ taken := by
    intro member
    have few := fills.lower fd member
    have room := apart thread kind fd takes
    omega
  exact (fills.same fd absent).trans unused

variable {other socketFd : Nat} {taken : AcceptCall × Nat} {isSocket : Inode → Bool}

theorem accepting_release (takes : (table.release thread).accepting other = some taken) :
    other ≠ thread ∧ table.accepting other = some taken := by
  unfold release at takes
  by_cases same : other = thread
  · simp [same] at takes
  · exact ⟨same, by simpa [same] using takes⟩

theorem accepting_take (takes : (table.take thread kind fd).accepting other = some taken) :
    other = thread ∧ taken = (kind, fd) ∨ other ≠ thread ∧ table.accepting other = some taken := by
  unfold take at takes
  by_cases same : other = thread
  · exact .inl ⟨same, by simpa [same, eq_comm] using takes⟩
  · exact .inr ⟨same, by simpa [same] using takes⟩

theorem Held.release (held : table.Held) (thread : Nat) : (table.release thread).Held where
  free other kind fd takes := held.free other kind fd (accepting_release takes).2
  once other another kind kind' fd takes again :=
    held.once other another kind kind' fd (accepting_release takes).2 (accepting_release again).2

theorem Held.take (held : table.Held) (free : table.process.freeFd fd)
    (new : ∀ other kind, table.accepting other ≠ some (kind, fd)) : (table.take thread kind fd).Held where
  free other kind' fd' takes := by
    rcases accepting_take takes with ⟨_, same⟩ | ⟨_, old⟩
    · cases same
      exact free
    · exact held.free other kind' fd' old
  once other another kind' kind'' fd' takes again := by
    rcases accepting_take takes with ⟨own, same⟩ | ⟨_, old⟩
    · rcases accepting_take again with ⟨own', _⟩ | ⟨_, old'⟩
      · rw [own, own']
      · cases same
        exact absurd old' (new another kind'')
    · rcases accepting_take again with ⟨_, same⟩ | ⟨_, old'⟩
      · cases same
        exact absurd old (new other kind')
      · exact held.once other another kind' kind'' fd' old old'

@[simp] theorem settle_process (table : Descriptors) (thread : Nat) (call : AcceptCall) (fd : Nat)
    (reply : Poll (Except Errno Nat)) : (table.settle thread call fd reply).process = table.process := by
  cases reply <;> rfl

theorem look_cases {connection : Option Inode} {refused : Bool} {reply : Poll (Except Errno Nat)}
    (looks : kind.look before fd connection refused = some (reply, after)) :
    (∃ socket, before.setFd fd socket = some after ∧ reply = .ready (.ok fd)) ∨
      after = before ∧ (reply = .pending ∨ ∃ errno, reply = .ready (.error errno)) := by
  unfold AcceptCall.look at looks
  split at looks
  next socket =>
    obtain ⟨_, installed, ⟨⟩⟩ := map_eq_some_iff.mp looks
    exact .inl ⟨socket, installed, rfl⟩
  · cases looks
    cases refused with
    | true => exact .inr ⟨rfl, .inr ⟨kind.refusal, rfl⟩⟩
    | false => exact .inr ⟨rfl, .inl rfl⟩

theorem acceptFd_ok (done : acceptFd before isSocket socketFd = some (.ok fd, after)) :
    before.allocFd = (some fd, after) := by
  unfold acceptFd at done
  split at done
  · cases done
  · cases done
  · split at done
    · split at done
      · cases done
      next allocated =>
        cases done
        exact allocated
    · cases done

theorem acceptFd_error {errno : Errno} (done : acceptFd before isSocket socketFd = some (.error errno, after)) :
    Takes before after [] 1 := by
  unfold acceptFd at done
  split at done
  · cases done
  · cases done
    exact .refl
  · split at done
    · split at done
      next allocated =>
        cases done
        exact .none allocated
      · cases done
    · cases done
      exact .refl

theorem Held.takes (held : table.Held) (takes : Takes table.process after fds call.allocations)
    (apart : table.Apart call) :
    Adds table.process after (call, fds) ∧ Held { table with process := after } := by
  obtain ⟨_, fills, sublist, count⟩ := takes
  exact ⟨.of_filled fills sublist, held.fill fills apart count⟩

section Looks

variable {connection : Option Inode} {refused : Bool} {reply : Poll (Except Errno Nat)}

theorem Held.accepts {middle : Process} (held : table.Held) (apart : table.Apart (.accept kind thread socketFd))
    (allocated : table.process.allocFd = (some fd, middle))
    (looks : kind.look middle fd connection refused = some (reply, after)) :
    Adds table.process after (.accept kind thread socketFd, returnedBy reply) ∧
      (settle { table with process := after } thread kind fd reply).Held := by
  obtain ⟨unused, lowest⟩ := allocFd_lowest allocated
  obtain ⟨limit, same⟩ := allocFd_frame allocated
  have still := Process.Filled.of_same limit same
  rcases look_cases looks with ⟨_, installed, rfl⟩ | ⟨rfl, rfl | ⟨_, rfl⟩⟩
  · have fills := Process.Filled.of_allocFd allocated installed
    exact ⟨.of_filled fills (.refl _), (held.fill fills apart (le_refl 1)).release thread⟩
  · have new : ∀ other kind, table.accepting other ≠ some (kind, fd) := by
      intro other kind takes
      have room := apart other kind fd takes
      rw [lowest] at room
      exact not_succ_le_zero 0 room
    refine ⟨.of_filled still (.refl _), (held.fill still apart (zero_le _)).take ?_ new⟩
    rw [freeFd_iff] at unused ⊢
    rwa [limit, same]
  · exact ⟨.of_filled still (.refl _), (held.fill still apart (zero_le _)).release thread⟩

theorem Held.polls (held : table.Held) (waits : table.accepting thread = some (kind, fd))
    (looks : kind.look table.process fd connection refused = some (reply, after)) :
    Adds table.process after (.poll thread, returnedBy reply) ∧
      (settle { table with process := after } thread kind fd reply).Held := by
  obtain ⟨bound, unused⟩ := freeFd_iff.mp (held.free thread kind fd waits)
  rcases look_cases looks with ⟨_, installed, rfl⟩ | ⟨rfl, rfl | ⟨_, rfl⟩⟩
  · obtain ⟨limit, files⟩ := setFd_spec bound installed
    refine ⟨⟨List.nodup_singleton fd, ?_, ?_⟩, (held.release thread).keep limit ?_⟩
    · intro other member
      rwa [List.mem_singleton.mp member]
    · intro other _ present _
      have different : other ≠ fd := by
        rintro rfl
        rw [unused] at present
        cases present
      exact (congrFun files other).trans ((update_of_ne different _ _).trans present)
    · intro other kind' fd' takes none
      -- The descriptor is filled by the only call that has taken it.
      obtain ⟨different, old⟩ := accepting_release takes
      have apart : fd' ≠ fd := by
        rintro rfl
        exact different (held.once other thread kind' kind fd' old waits)
      rw [files, update_of_ne apart]
      exact none
  · have same : table.take thread kind fd = table := by
      unfold Descriptors.take
      rw [update_eq_self_iff.mpr waits.symm]
    refine ⟨.nothing rfl, ?_⟩
    show (table.take thread kind fd).Held
    rwa [same]
  · exact ⟨.nothing rfl, held.release thread⟩

end Looks

theorem Step.adds {label : DescriptorCall × List Nat} (step : Step isSocket table label next) (held : table.Held)
    (apart : table.Apart label.1) :
    Adds table.process next.process label ∧ next.Held := by
  cases step with
  | openat done => exact held.takes (sysOpenat_takes done) apart
  | dup done => exact held.takes (sysDup_takes done) apart
  | pipe2 done => exact held.takes (sysPipe2_takes done) apart
  | socket done => exact held.takes (sysSocket_takes done) apart
  | socketPair done => exact held.takes (sysPipe2_takes (sysSocketPair_eq ▸ done)) apart
  | refused free done => exact held.takes (acceptFd_error done) apart
  | accept free taken looks =>
    rw [settle_process]
    exact held.accepts apart (acceptFd_ok taken) looks
  | poll waits looks =>
    rw [settle_process]
    exact held.polls waits looks
  | cancel => exact ⟨.nothing rfl, held.release _⟩
  | @close fd =>
    obtain ⟨limit, files⟩ := clearFd_spec
    refine ⟨⟨.nil, nofun, fun other _ present stays => ?_⟩, held.keep limit fun _ _ other _ none => ?_⟩
    · have different : other ≠ fd := fun same => stays (congrArg some same.symm)
      rw [files, update_of_ne different, present]
    · rw [files, update_apply, none, ite_self]

end Descriptors

end

/-! ## Whole runs -/

namespace Opened

structure Sound (known : Opened) : Prop where
  held : known.table.Held
  present : ∀ fd file, known.opened fd = some file → known.table.process.file fd = some file

theorem boot_sound (process : Process) : (boot process).Sound where
  held := ⟨nofun, nofun⟩
  present := nofun

variable {label : DescriptorCall × List Nat} {isSocket : Inode → Bool}

theorem Step.fresh {known later : Opened} (step : Step isSocket known label later)
    (sound : known.Sound) (apart : known.table.Apart label.1) :
    known.Fresh label later ∧ later.Sound := by
  obtain ⟨adds, held⟩ := step.1.adds sound.held apart
  have kept : ∀ fd file, known.opened fd = some file → label.1.closes ≠ some fd →
      later.table.process.file fd = some file :=
    fun fd file open_ => adds.kept fd file (sound.present fd file open_)
  refine ⟨⟨adds.nodup, fun fd member => ?_, kept⟩, held, fun fd file open_ => ?_⟩
  · cases open_ : known.opened fd with
    | none => rfl
    | some file => cases (adds.unused fd member).symm.trans (sound.present fd file open_)
  · rw [step.2] at open_
    dsimp only at open_
    split_ifs at open_ with new closed
    · exact open_
    · exact kept fd file open_ closed

/-- In every run of the threads of a process, calls return descriptors that no open
file has, if no call reaches the descriptor of an unfinished `accept`. -/
theorem descriptors_fresh {isSocket : Inode → Bool} {process : Process} {labels : List (DescriptorCall × List Nat)}
    {finish : Opened}
    (run : Run (fun before label after => Step isSocket before label after ∧ before.table.Apart label.1)
      (boot process) labels finish) :
    Run (fun before label after => Step isSocket before label after ∧ before.Fresh label after)
      (boot process) labels finish := by
  refine (@Run.assuming _ _ _ Sound (fun sound step => (step.1.fresh sound step.2).2) _ _ _ run
    (boot_sound process)).mono ?_
  rintro before label after ⟨⟨step, apart⟩, sound⟩
  exact ⟨step, (step.fresh sound apart).1⟩

private theorem Step.next {known : Opened} {table : Descriptors}
    (step : Descriptors.Step isSocket known.table label table) :
    Step isSocket known label
      { table
        opened := fun fd =>
          if fd ∈ label.2 then table.process.file fd
          else if label.1.closes = some fd then none else known.opened fd } := ⟨step, rfl⟩

def listener : Process := new 1 [some 9]

def listening : Descriptors where
  process := new 1 [some 9, none]
  accepting := update (fun _ => none) 1 (some (.accept, 1))

private theorem listener_listens : Descriptors.Step (· = 9) (boot listener).table (.accept .accept 1 0, []) listening :=
  @Descriptors.Step.accept (· = 9) (boot listener).table .accept 1 0 1 _ none false .pending _ rfl rfl rfl

theorem descriptors_fresh_listening : ∃ finish,
    Run (fun before label after => Step (· = 9) before label after ∧ before.Fresh label after) (boot listener)
      [(.accept .accept 1 0, []), (.close 0, []), (.openat (.ok 7), [0]), (.poll 1, [1])] finish := by
  have opens : Descriptors.Step (· = 9) { listening with process := new 1 [none, none] }
      (.openat (.ok 7), [0]) { listening with process := new 1 [some 7, none] } :=
    @Descriptors.Step.openat (· = 9) _ (.ok 7) (.ok 0) _ rfl
  have connects : Descriptors.Step (· = 9) { listening with process := new 1 [some 7, none] } (.poll 1, [1])
      { process := new 1 [some 7, some 8], accepting := update listening.accepting 1 none } :=
    @Descriptors.Step.poll (· = 9) _ .accept 1 1 (some 8) false (.ready (.ok 1)) _ rfl rfl
  have only {thread fd : Nat} {kind : AcceptCall} (takes : listening.accepting thread = some (kind, fd)) : fd = 1 := by
    simp only [listening, update_apply] at takes
    split at takes
    · cases takes
      rfl
    · cases takes
  refine ⟨_, descriptors_fresh (.cons ⟨.next listener_listens, nofun⟩ (.cons ⟨.next .close, ?_⟩
    (.cons ⟨.next opens, ?_⟩ (.cons ⟨.next connects, ?_⟩ .refl))))⟩
  · exact fun _ _ _ _ => zero_le _
  · intro thread kind fd takes
    rw [only takes]
    decide +kernel
  · exact fun _ _ _ _ => zero_le _

/-- A file is opened while another thread waits for a connection; the descriptor is
then given to the connection too. -/
theorem opened_file_replaced : ∃ before after,
    Run (Step (· = 9)) (boot listener) [(.accept .accept 1 0, []), (.openat (.ok 7), [1])] before ∧
      Step (· = 9) before (.poll 1, [1]) after ∧
      before.opened 1 = some 7 ∧ after.table.process.file 1 = some 8 := by
  have opens : Descriptors.Step (· = 9) listening (.openat (.ok 7), [1])
      { listening with process := new 1 [some 9, some 7] } :=
    @Descriptors.Step.openat (· = 9) listening (.ok 7) (.ok 1) _ rfl
  have connects : Descriptors.Step (· = 9) { listening with process := new 1 [some 9, some 7] } (.poll 1, [1])
      { process := new 1 [some 9, some 8], accepting := update listening.accepting 1 none } :=
    @Descriptors.Step.poll (· = 9) _ .accept 1 1 (some 8) false (.ready (.ok 1)) _ rfl rfl
  exact ⟨_, _, .cons (.next listener_listens) (.cons (.next opens) .refl), .next connects, rfl, rfl⟩

end Opened

end MonkeyOS.Syscall
