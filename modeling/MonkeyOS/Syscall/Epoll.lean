import MonkeyOS.Syscall.Descriptors

/-!
# Epoll

`EpollFile` of `kernel/src/syscall/types/poll.rs` and `sys_epoll_create1`,
`sys_epoll_ctl` and `sys_epoll_wait` of `kernel/src/syscall/fd.rs`, for the threads
of one process. Descriptors are known by their open file; an epoll file is one that
has an interest list. `sys_epoll_wait` looks its file up once and then scans the list
after every yield; time only decides whether a scan without events is the last one.
-/

set_option autoImplicit false

namespace MonkeyOS.Syscall

open Lib Tasks Fs Function Process List Option OrderedMap

structure EpollEvent where
  events : UInt32
  data : UInt64
  deriving DecidableEq, Repr

/-- `to_poll`, which keeps the flags of `PollEvent`. -/
def EpollEvent.toPoll (event : EpollEvent) : UInt16 := event.events.toUInt16 &&& 0x37ff

inductive EpollCtl where
  | ADD | DEL | MOD
  deriving DecidableEq, Repr

def EpollCtl.fromUsize : Nat → Option EpollCtl
  | 1 => some .ADD
  | 2 => some .DEL
  | 3 => some .MOD
  | _ => none

/-- The interest list of an epoll file, by descriptor. The source has a hash map: scans
go through it in any order. -/
abbrev EpollFile := OrderedMap Nat EpollEvent

def EpollFile.ctl (epfile : EpollFile) (ctl : EpollCtl) (fd : Nat) (event : EpollEvent) : EpollFile :=
  match ctl with
  | .ADD => epfile.insert fd event
  | .DEL => epfile.erase fd
  | .MOD => epfile.modify fd fun _ => event

def EpollCtl.replace {α : Type} (ctl : EpollCtl) (old : Option α) (new : α) : Option α :=
  match ctl with
  | .ADD => some new
  | .DEL => none
  | .MOD => old.map fun _ => new

theorem EpollCtl.map_replace {α β : Type} (ctl : EpollCtl) (f : α → β) (old : Option α) (new : α) :
    (ctl.replace old new).map f = ctl.replace (old.map f) (f new) := by
  cases ctl with
  | ADD | DEL => rfl
  | MOD => cases old <;> rfl

theorem EpollCtl.replace_eq_some {α : Type} {ctl : EpollCtl} {old : Option α} {new found : α}
    (replaced : ctl.replace old new = some found) : found = new := by
  cases ctl with
  | ADD => exact (Option.some.inj replaced).symm
  | DEL => cases replaced
  | MOD =>
    obtain ⟨_, _, same⟩ := map_eq_some_iff.mp replaced
    exact same.symm

theorem EpollFile.get_ctl (epfile : EpollFile) (ctl : EpollCtl) (fd number : Nat) (event : EpollEvent) :
    (epfile.ctl ctl fd event).get number =
      if number = fd then ctl.replace (epfile.get fd) event else epfile.get number := by
  cases ctl with
  | ADD => exact epfile.get_insert fd number event
  | DEL => exact epfile.get_erase fd number
  | MOD => exact epfile.get_modify fd number fun _ => event

/-- A call of `sys_epoll_wait` that has looked up its file. -/
structure EpollWait where
  epfile : Inode
  maxEvents : Nat

structure Epolls where
  process : Process
  /-- The interest lists, by open file. -/
  epfiles : Inode → Option EpollFile
  /-- The waiting calls, by thread. -/
  waits : Nat → Option EpollWait

structure Report where
  epfile : Inode
  fd : Nat
  event : EpollEvent
  file : Inode
  deriving DecidableEq, Repr

namespace Epolls

/-- `file` is the file made for the call. -/
def sysEpollCreate1 (state : Epolls) (file : Inode) : Option (Except Errno Nat × Epolls) :=
  match state.process.allocFd with
  | (none, process) => some (.error .EMFILE, { state with process })
  | (some fd, process) => do
      let process ← process.setFd fd file
      some (.ok fd, { state with process, epfiles := update state.epfiles file (some .empty) })

def lookup (state : Epolls) (epfd : Nat) : Option (Except Errno (Inode × EpollFile)) :=
  match state.process.getFd epfd with
  | none => none
  | some none => some (.error .EBADF)
  | some (some file) =>
    match state.epfiles file with
    | none => some (.error .EINVAL)
    | some epfile => some (.ok (file, epfile))

def sysEpollCtl (state : Epolls) (epfd op fd : Nat) (event : EpollEvent) : Option (Except Errno Nat × Epolls) :=
  match EpollCtl.fromUsize op with
  | none => some (.error .EINVAL, state)
  | some ctl =>
    match state.lookup epfd with
    | none => none
    | some (.error errno) => some (.error errno, state)
    | some (.ok (file, epfile)) =>
      match state.process.getFd fd with
      | none => none
      | some none => some (.error .EBADF, state)
      | some (some _) =>
        some (.ok 0, { state with epfiles := update state.epfiles file (some (epfile.ctl ctl fd event)) })

/-- One pass over the entries; `polls` tells which files have one of the events. No
answer if there is no room for an event. -/
def scan (process : Process) (polls : Inode → UInt16 → Bool) (wait : EpollWait) (entries : List (Nat × EpollEvent)) :
    Option (List Report) :=
  entries.foldlM (fun reports (fd, event) =>
    match process.getFd fd with
    | none => none
    | some none => some reports
    | some (some file) =>
      if polls file event.toPoll then
        if reports.length < wait.maxEvents then some (reports ++ [{ epfile := wait.epfile, fd, event, file }])
        else none
      else some reports) []

def Live (state : Epolls) (file : Inode) : Prop :=
  (∃ fd, state.process.file fd = some file) ∨ ∃ thread wait, state.waits thread = some wait ∧ wait.epfile = file

end Epolls

inductive EpollCall where
  | openat (opened : Except Errno Inode)
  | dup (fd : Nat)
  | dup3 (fdSrc fdDst : Nat)
  | close (fd : Nat)
  | create1 (file : Inode)
  | ctl (epfd op fd : Nat) (event : EpollEvent)
  | wait (thread epfd maxEvents : Nat)
  | scan (thread : Nat)
  | cancel (thread : Nat)

def EpollCall.fills (process : Process) : EpollCall → Option (Nat × Inode)
  | .openat (.ok file) => process.allocFd.1.map fun fd => (fd, file)
  | .create1 file => process.allocFd.1.map fun fd => (fd, file)
  | .dup fdSrc => process.allocFd.1.bind fun fd => (process.getFd fdSrc).join.map fun file => (fd, file)
  | .dup3 fdSrc fdDst => (process.getFd fdSrc).join.map fun file => (fdDst, file)
  | _ => none

namespace Epolls

/-- Labels carry the events returned. What `openat` opens is not an epoll file. -/
inductive Step : Epolls → EpollCall × List Report → Epolls → Prop where
  | openat {state opened answer process} (plain : ∀ file, opened = .ok file → state.epfiles file = none)
      (done : sysOpenat state.process opened = some (answer, process)) :
      Step state (.openat opened, []) { state with process }
  | dup {state fd answer process} (done : sysDup state.process fd = some (answer, process)) :
      Step state (.dup fd, []) { state with process }
  | dup3 {state fdSrc fdDst answer process} (done : sysDup3 state.process fdSrc fdDst = some (answer, process)) :
      Step state (.dup3 fdSrc fdDst, []) { state with process }
  | close {state fd} : Step state (.close fd, []) { state with process := state.process.clearFd fd }
  | create1 {state file answer after} (fresh : state.epfiles file = none) (unused : ¬ state.Live file)
      (done : state.sysEpollCreate1 file = some (answer, after)) : Step state (.create1 file, []) after
  | ctl {state epfd op fd event answer after} (done : state.sysEpollCtl epfd op fd event = some (answer, after)) :
      Step state (.ctl epfd op fd event, []) after
  | refused {state thread epfd maxEvents errno} (idle : state.waits thread = none)
      (looked : state.lookup epfd = some (.error errno)) : Step state (.wait thread epfd maxEvents, []) state
  | wait {state thread epfd maxEvents file epfile} (idle : state.waits thread = none)
      (looked : state.lookup epfd = some (.ok (file, epfile))) :
      Step state (.wait thread epfd maxEvents, [])
        { state with waits := update state.waits thread (some { epfile := file, maxEvents }) }
  | pending {state thread wait epfile polls entries} (waits : state.waits thread = some wait)
      (listed : state.epfiles wait.epfile = some epfile) (order : entries.Perm epfile.entries)
      (scanned : scan state.process polls wait entries = some []) : Step state (.scan thread, []) state
  | ready {state thread wait epfile polls entries reports} (waits : state.waits thread = some wait)
      (listed : state.epfiles wait.epfile = some epfile) (order : entries.Perm epfile.entries)
      (scanned : scan state.process polls wait entries = some reports) :
      Step state (.scan thread, reports) { state with waits := update state.waits thread none }
  | cancel {state thread} : Step state (.cancel thread, []) { state with waits := update state.waits thread none }

end Epolls

/-! ## What was registered -/

/-- The kernel, with the open file and the event of the last `epoll_ctl` for every entry. -/
structure Registrations where
  state : Epolls
  registered : Inode → Nat → Option (Inode × EpollEvent)

namespace Registrations

def registers (before : Registrations) : EpollCall → Inode → Nat → Option (Inode × EpollEvent)
  | .ctl epfd op fd event, epfile, entry =>
    match EpollCtl.fromUsize op, before.state.lookup epfd, before.state.process.getFd fd with
    | some ctl, some (.ok (target, _)), some (some file) =>
      if epfile = target ∧ entry = fd then ctl.replace (before.registered target fd) (file, event)
      else before.registered epfile entry
    | _, _, _ => before.registered epfile entry
  | _, epfile, entry => before.registered epfile entry

def Step (before : Registrations) (label : EpollCall × List Report) (after : Registrations) : Prop :=
  Epolls.Step before.state label after.state ∧ after.registered = before.registers label.1

def boot (process : Process) : Registrations where
  state := { process, epfiles := fun _ => none, waits := fun _ => none }
  registered := fun _ _ => none

/-- A descriptor is filled only if no epoll file that is open or waited for has an entry
under its number for another file. -/
def Unclaimed (before : Registrations) (call : EpollCall) : Prop :=
  ∀ fd file, call.fills before.state.process = some (fd, file) →
    ∀ epfile, before.state.Live epfile → ∀ other event, before.registered epfile fd = some (other, event) → other = file

/-- The events returned are those registered, each for the file that is ready. -/
def Faithful (before : Registrations) (label : EpollCall × List Report) : Prop :=
  ∀ report ∈ label.2, before.registered report.epfile report.fd = some (report.file, report.event)

end Registrations

/-! ## Calls that fill a descriptor -/

variable {process after : Process}

def Puts (process after : Process) (filled : Option (Nat × Inode)) : Prop :=
  after.file = process.file ∨ ∃ fd file, filled = some (fd, file) ∧ after.file = update process.file fd (some file)

theorem setFd_puts {fd : Nat} {file : Inode} (done : process.setFd fd file = some after) :
    Puts process after (some (fd, file)) := by
  by_cases bound : fd < process.pcb.fileLimit
  · exact .inr ⟨fd, file, rfl, (setFd_spec bound done).2⟩
  · rw [setFd, if_pos (by omega), Option.some.injEq] at done
    exact .inl (done ▸ rfl)

theorem Puts.after_allocFd {middle : Process} {index : Option Nat} {filled : Option (Nat × Inode)}
    (allocated : process.allocFd = (index, middle)) (puts : Puts middle after filled) : Puts process after filled := by
  rw [Puts, (allocFd_frame allocated).2] at puts
  exact puts

variable {answer : Except Errno Nat}

theorem sysOpenat_puts {opened : Except Errno Inode} (done : sysOpenat process opened = some (answer, after)) :
    Puts process after (EpollCall.fills process (.openat opened)) := by
  unfold sysOpenat at done
  split at done
  · cases done
    exact .inl rfl
  · cases allocated : process.allocFd with
    | mk index _ =>
      rw [allocated] at done
      cases index with
      | none =>
        cases done
        exact .inl (allocFd_frame allocated).2
      | some _ =>
        obtain ⟨_, set, ⟨⟩⟩ := map_eq_some_iff.mp done
        rw [EpollCall.fills, allocated]
        exact (setFd_puts set).after_allocFd allocated

theorem sysDup3_puts {fdSrc fdDst : Nat} (done : sysDup3 process fdSrc fdDst = some (answer, after)) :
    Puts process after (EpollCall.fills process (.dup3 fdSrc fdDst)) := by
  unfold sysDup3 at done
  split at done
  · cases done
  · cases done
    exact .inl rfl
  · next _ found =>
    obtain ⟨_, set, ⟨⟩⟩ := map_eq_some_iff.mp done
    rw [EpollCall.fills, found]
    exact setFd_puts set

theorem sysDup_puts {fdSrc : Nat} (done : sysDup process fdSrc = some (answer, after)) :
    Puts process after (EpollCall.fills process (.dup fdSrc)) := by
  unfold sysDup at done
  cases allocated : process.allocFd with
  | mk index _ =>
    rw [allocated] at done
    obtain ⟨limit, files⟩ := allocFd_frame allocated
    cases index with
    | none =>
      cases done
      exact .inl files
    | some _ =>
      rcases sysDup3_puts done with same | ⟨fdDst, file, filled, put⟩
      · exact .inl (same.trans files)
      · refine .inr ⟨fdDst, file, ?_, files ▸ put⟩
        obtain ⟨_, found, same⟩ := map_eq_some_iff.mp filled
        obtain ⟨bound, present⟩ := getFd_file (join_eq_some_iff.mp found)
        cases same
        have before : process.getFd fdSrc = some (some file) :=
          getFd_eq_some (limit ▸ bound) (files ▸ present)
        simp [EpollCall.fills, allocated, before]

/-! ## Entries and registrations -/

namespace Epolls

variable {state next : Epolls}

def entry (state : Epolls) (epfile : Inode) (fd : Nat) : Option EpollEvent :=
  (state.epfiles epfile).bind fun list => list.get fd

variable {file : Inode} {answer : Except Errno Nat}

theorem Live.of_update {thread : Nat} {entry : Option EpollWait}
    (live : Live { state with waits := update state.waits thread entry } file) :
    state.Live file ∨ ∃ wait, entry = some wait ∧ wait.epfile = file := by
  rcases live with opened | ⟨number, wait, waiting, target⟩
  · exact .inl (.inl opened)
  · simp only [update_apply] at waiting
    split at waiting
    · exact .inr ⟨wait, waiting, target⟩
    · exact .inl (.inr ⟨number, wait, waiting, target⟩)

theorem sysEpollCreate1_cases (fresh : state.epfiles file = none)
    (done : state.sysEpollCreate1 file = some (answer, next)) :
    Puts state.process next.process (EpollCall.fills state.process (.create1 file)) ∧
      next.entry = state.entry ∧ next.waits = state.waits := by
  unfold sysEpollCreate1 at done
  cases allocated : state.process.allocFd with
  | mk index _ =>
    rw [allocated] at done
    cases index with
    | none =>
      cases done
      exact ⟨.inl (allocFd_frame allocated).2, rfl, rfl⟩
    | some fd =>
      simp only [bind_eq_some] at done
      obtain ⟨process, set, ⟨⟩⟩ := done
      refine ⟨?_, ?_, rfl⟩
      · rw [EpollCall.fills, allocated]
        exact (setFd_puts set).after_allocFd allocated
      · funext epfile fd
        by_cases same : epfile = file
        · subst same
          simp [entry, fresh, OrderedMap.empty, OrderedMap.get]
        · simp [entry, update_of_ne same]

theorem lookup_ok {epfd : Nat} {epfile : EpollFile} (looked : state.lookup epfd = some (.ok (file, epfile))) :
    state.epfiles file = some epfile ∧ state.process.file epfd = some file := by
  unfold lookup at looked
  split at looked
  · cases looked
  · cases looked
  · next found =>
    split at looked
    · cases looked
    · next listed =>
      cases looked
      exact ⟨listed, (getFd_file found).2⟩

theorem sysEpollCtl_cases {epfd op fd : Nat} {event : EpollEvent}
    (done : state.sysEpollCtl epfd op fd event = some (answer, next)) :
    (next = state ∧ ∀ ctl target file, EpollCtl.fromUsize op = some ctl →
        state.lookup epfd = some (.ok target) → state.process.getFd fd ≠ some (some file)) ∨
      ∃ ctl target epfile file, EpollCtl.fromUsize op = some ctl ∧ state.lookup epfd = some (.ok (target, epfile)) ∧
        state.process.getFd fd = some (some file) ∧
        next = { state with epfiles := update state.epfiles target (some (epfile.ctl ctl fd event)) } := by
  unfold sysEpollCtl at done
  split at done
  · next invalid =>
    cases done
    exact .inl ⟨rfl, fun ctl target file valid => by rw [invalid] at valid; cases valid⟩
  · next ctl valid =>
    split at done
    · cases done
    · next failed =>
      cases done
      exact .inl ⟨rfl, fun ctl target file _ looked => by rw [failed] at looked; cases looked⟩
    · next target epfile looked =>
      split at done
      · cases done
      · next absent =>
        cases done
        exact .inl ⟨rfl, fun ctl target file _ _ present => by rw [absent] at present; cases present⟩
      · next file present =>
        cases done
        exact .inr ⟨ctl, target, epfile, file, valid, looked, present, rfl⟩

section Scan

variable {polls : Inode → UInt16 → Bool} {wait : EpollWait} {entries : List (Nat × EpollEvent)} {reports : List Report}

def report (process : Process) (polls : Inode → UInt16 → Bool) (wait : EpollWait) (entry : Nat × EpollEvent) :
    Option Report :=
  ((process.getFd entry.1).join.filter (polls · entry.2.toPoll)).map fun file =>
    { epfile := wait.epfile, fd := entry.1, event := entry.2, file }

theorem report_eq_some {entry : Nat × EpollEvent} {made : Report} :
    report process polls wait entry = some made ↔
      ∃ file, process.getFd entry.1 = some (some file) ∧ polls file entry.2.toPoll ∧
        { epfile := wait.epfile, fd := entry.1, event := entry.2, file } = made := by
  simp only [report, map_eq_some_iff, filter_eq_some_iff, join_eq_some_iff, and_assoc]

theorem scan_eq_some :
    scan process polls wait entries = some reports ↔
      (∀ entry ∈ entries, (process.getFd entry.1).isSome) ∧
        reports = entries.filterMap (report process polls wait) ∧ reports.length ≤ wait.maxEvents := by
  -- Entries are scanned from the left: induct from the right, with the reports so far.
  induction entries using List.reverseRecOn generalizing reports with
  | nil =>
    constructor
    · rintro ⟨⟩
      simp
    · rintro ⟨-, rfl, -⟩
      rfl
  | append_singleton entries entry earlier =>
    obtain ⟨fd, event⟩ := entry
    rw [scan, foldlM_append, bind_eq_some, ← scan]
    simp only [earlier, foldlM_cons, foldlM_nil, Option.bind_eq_bind, Option.pure_def,
      bind_fun_some, forall_mem_append, filterMap_append, forall_mem_singleton]
    rcases looked : process.getFd fd with _ | _ | file
    · simp
    · have made : [(fd, event)].filterMap (report process polls wait) = [] := by simp [report, looked]
      grind
    · by_cases polled : polls file event.toPoll
      · have made : [(fd, event)].filterMap (report process polls wait) =
            [{ epfile := wait.epfile, fd, event, file }] := by simp [report, looked, polled]
        grind
      · have made : [(fd, event)].filterMap (report process polls wait) = [] := by simp [report, looked, polled]
        grind

theorem mem_scan (scanned : scan process polls wait entries = some reports) :
    ∀ report ∈ reports, report.epfile = wait.epfile ∧ (report.fd, report.event) ∈ entries ∧
      process.file report.fd = some report.file := by
  obtain ⟨-, rfl, -⟩ := scan_eq_some.mp scanned
  intro _ listed
  obtain ⟨_, entered, made⟩ := mem_filterMap.mp listed
  obtain ⟨_, found, -, rfl⟩ := report_eq_some.mp made
  exact ⟨rfl, entered, (getFd_file found).2⟩

end Scan

end Epolls

namespace Registrations

variable {before after : Registrations} {label : EpollCall × List Report}

structure Sound (r : Registrations) : Prop where
  recorded : ∀ epfile fd, (r.registered epfile fd).map Prod.snd = r.state.entry epfile fd
  current : ∀ epfile, r.state.Live epfile → ∀ fd file event, r.registered epfile fd = some (file, event) →
    ∀ other, r.state.process.file fd = some other → other = file

theorem boot_sound (process : Process) : (boot process).Sound where
  recorded _ _ := rfl
  current _ _ _ _ _ absent := nomatch absent

variable (sound : before.Sound) (same : after.registered = before.registered)
  (entries : after.state.entry = before.state.entry)
include sound same entries

theorem Sound.shrink (live : ∀ file, after.state.Live file → before.state.Live file)
    (files : ∀ fd file, after.state.process.file fd = some file → before.state.process.file fd = some file) :
    after.Sound where
  recorded epfile fd := by rw [same, entries, sound.recorded]
  current epfile alive fd file event listed other present :=
    sound.current epfile (live epfile alive) fd file event (same ▸ listed) other (files fd other present)

theorem Sound.put {call : EpollCall} (waits : after.state.waits = before.state.waits)
    (puts : Puts before.state.process after.state.process (call.fills before.state.process))
    (source : ∀ fd file, call.fills before.state.process = some (fd, file) →
      before.state.Live file ∨ before.state.epfiles file = none)
    (unclaimed : before.Unclaimed call) : after.Sound := by
  rcases puts with unmoved | ⟨number, moved, filled, put⟩
  · exact sound.shrink same entries (fun file => by simp only [Epolls.Live, unmoved, waits, imp_self])
      (fun fd file => by rw [unmoved]; exact id)
  refine ⟨fun epfile fd => by rw [same, entries, sound.recorded], ?_⟩
  intro epfile alive fd file event listed other present
  rw [same] at listed
  have aliveBefore : before.state.Live epfile := by
    rcases alive with ⟨number', opened⟩ | ⟨thread, wait, waiting, target⟩
    · rw [put, update_apply] at opened
      split at opened
      · -- An epoll file in use for the first time has an empty list.
        cases opened
        refine (source number moved filled).resolve_right fun unlisted => ?_
        have recorded := sound.recorded moved fd
        rw [listed, Epolls.entry, unlisted] at recorded
        cases recorded
      · exact .inl ⟨number', opened⟩
    · exact .inr ⟨thread, wait, waits ▸ waiting, target⟩
  rw [put, update_apply] at present
  split at present
  · next here =>
    cases present
    exact (unclaimed number moved filled epfile aliveBefore file event (here ▸ listed)).symm
  · exact sound.current epfile aliveBefore fd file event listed other present

omit sound same entries

variable {fd epfd op : Nat} {event : EpollEvent}

theorem source_of_join {fdSrc fdDst : Nat} {file : Inode}
    (filled : ((process.getFd fdSrc).join.map fun file => (fdDst, file)) = some (fd, file)) :
    process.file fdSrc = some file := by
  obtain ⟨_, found, ⟨⟩⟩ := map_eq_some_iff.mp filled
  exact (getFd_file (join_eq_some_iff.mp found)).2

theorem registers_refused (refused : ∀ ctl target file, EpollCtl.fromUsize op = some ctl →
      before.state.lookup epfd = some (.ok target) → before.state.process.getFd fd ≠ some (some file)) :
    before.registers (.ctl epfd op fd event) = before.registered := by
  funext epfile entry
  rw [registers]
  split
  · next ctl _ _ file valid looked present => exact absurd present (refused ctl _ file valid looked)
  · rfl

theorem Sound.ctl {ctl : EpollCtl} {target file : Inode} {epfile : EpollFile}
    (sound : before.Sound) (valid : EpollCtl.fromUsize op = some ctl)
    (looked : before.state.lookup epfd = some (.ok (target, epfile)))
    (present : before.state.process.getFd fd = some (some file))
    (registered : after.registered = before.registers (.ctl epfd op fd event))
    (done : after.state =
      { before.state with epfiles := update before.state.epfiles target (some (epfile.ctl ctl fd event)) }) :
    after.Sound := by
  have list := (Epolls.lookup_ok looked).1
  have entries (other : Inode) (number : Nat) : after.state.entry other number =
      if other = target ∧ number = fd then ctl.replace (before.state.entry target fd) event
      else before.state.entry other number := by
    rw [done, Epolls.entry]
    by_cases here : other = target
    · subst here
      simp only [update_self, bind_some, Epolls.entry, list, true_and, EpollFile.get_ctl]
    · simp only [update_of_ne here, here, false_and, if_false, Epolls.entry]
  have registrations (other : Inode) (number : Nat) : after.registered other number =
      if other = target ∧ number = fd then ctl.replace (before.registered target fd) (file, event)
      else before.registered other number := by
    simp only [registered, registers, valid, looked, present]
  constructor
  · intro other number
    rw [entries, registrations, ← sound.recorded, ← sound.recorded]
    split
    · exact ctl.map_replace Prod.snd _ _
    · rfl
  · intro other alive number opened noted listed found there
    have aliveBefore : before.state.Live other := by
      rw [done] at alive
      exact alive
    rw [done] at there
    rw [registrations] at listed
    split at listed
    · next here =>
      -- The entry is for the file the descriptor has now.
      have replaced := EpollCtl.replace_eq_some listed
      have now := (getFd_file present).2
      rw [← here.2, there, Option.some.injEq] at now
      rw [now, (Prod.mk.inj replaced).1]
    · exact sound.current other aliveBefore number opened noted listed found there

theorem Sound.step (sound : before.Sound) (step : Step before label after) (unclaimed : before.Unclaimed label.1) :
    after.Sound := by
  obtain ⟨step, registered⟩ := step
  obtain ⟨state, _⟩ := after
  cases step with
  | openat plain done =>
    refine sound.put registered rfl rfl (sysOpenat_puts done) (fun fd file filled => ?_) unclaimed
    rename_i opened answer process
    cases opened with
    | error _ => cases filled
    | ok opened =>
      obtain ⟨number, _, placed⟩ := map_eq_some_iff.mp filled
      cases placed
      exact .inr (plain _ rfl)
  | dup done =>
    refine sound.put registered rfl rfl (sysDup_puts done) (fun fd file filled => ?_) unclaimed
    obtain ⟨number, _, mapped⟩ := bind_eq_some_iff.mp filled
    exact .inl (.inl ⟨_, source_of_join mapped⟩)
  | dup3 done =>
    refine sound.put registered rfl rfl (sysDup3_puts done) (fun fd file filled => ?_) unclaimed
    exact .inl (.inl ⟨_, source_of_join filled⟩)
  | @close fd =>
    have files : ∀ number file, (before.state.process.clearFd fd).file number = some file →
        before.state.process.file number = some file := by
      intro number file present
      rw [clearFd_spec.2, update_apply] at present
      split at present
      · cases present
      · exact present
    refine sound.shrink registered rfl (fun file => ?_) files
    exact Or.imp_left fun ⟨number, present⟩ => ⟨number, files number file present⟩
  | create1 fresh _ done =>
    obtain ⟨puts, entries, waits⟩ := Epolls.sysEpollCreate1_cases fresh done
    refine sound.put registered entries waits puts (fun fd file filled => ?_) unclaimed
    obtain ⟨number, _, placed⟩ := map_eq_some_iff.mp filled
    cases placed
    exact .inr fresh
  | ctl done =>
    rcases Epolls.sysEpollCtl_cases done with
      ⟨rfl, refused⟩ | ⟨ctl, target, epfile, file, valid, looked, present, done⟩
    · exact sound.shrink (registered.trans (registers_refused refused)) rfl (fun _ => id) (fun _ _ => id)
    · exact sound.ctl valid looked present registered done
  | refused | pending => exact sound.shrink registered rfl (fun _ => id) (fun _ _ => id)
  | @wait _ epfd _ file epfile _ looked =>
    refine sound.shrink registered rfl (fun _ alive => ?_) (fun _ _ => id)
    rcases alive.of_update with old | ⟨_, ⟨⟩, target⟩
    · exact old
    · exact .inl ⟨epfd, target ▸ (Epolls.lookup_ok looked).2⟩
  | ready | cancel =>
    exact sound.shrink registered rfl (fun _ alive => alive.of_update.resolve_right nofun) (fun _ _ => id)

theorem Sound.faithful (sound : before.Sound) (step : Step before label after) : before.Faithful label := by
  obtain ⟨step, -⟩ := step
  obtain ⟨state, _⟩ := after
  cases step with
  | @ready thread wait epfile _ _ _ waits listed order scanned =>
    intro report reported
    obtain ⟨target, entered, present⟩ := Epolls.mem_scan scanned report reported
    have entry : before.state.entry report.epfile report.fd = some report.event := by
      rw [Epolls.entry, target, listed, bind_some, get_eq_some_iff]
      exact order.mem_iff.mp entered
    rw [← sound.recorded] at entry
    obtain ⟨⟨file, event⟩, registered, same⟩ := map_eq_some_iff.mp entry
    have live : before.state.Live report.epfile := .inr ⟨thread, wait, waits, target.symm⟩
    rw [sound.current report.epfile live report.fd file event registered report.file present, registered, ← same]
  | _ => exact fun report reported => nomatch reported

/-- Over runs that never fill a descriptor an epoll file has another file's entry for,
every event is for the file that was registered. -/
theorem events_are_for_registered_files {labels : List (EpollCall × List Report)} {process : Process}
    {finish : Registrations}
    (run : Run (fun before label after => Step before label after ∧ before.Unclaimed label.1) (boot process) labels
      finish) :
    Run (fun before label after => Step before label after ∧ before.Faithful label) (boot process) labels finish := by
  refine (@Run.assuming _ _ _ Sound ?_ _ _ _ run (boot_sound process)).mono ?_
  · rintro before label after sound ⟨step, unclaimed⟩
    exact sound.step step unclaimed
  · rintro before label after ⟨⟨step, -⟩, sound⟩
    exact ⟨step, sound.faithful step⟩

/-- An epoll file 5 behind descriptor 0, with `EPOLLIN` on file 7 behind descriptor 1. -/
def sevenRegistered (fdTable : List (Option Inode)) (waits : Nat → Option EpollWait) : Registrations where
  state :=
    { process := new 1 fdTable
      epfiles := update (update (fun _ => none) 5 (some .empty)) 5
        (some (EpollFile.ctl .empty .ADD 1 { events := 1, data := 0 }))
      waits }
  registered := fun epfile fd => if epfile = 5 ∧ fd = 1 then some (7, { events := 1, data := 0 }) else none

def registerSeven : List (EpollCall × List Report) :=
  [(.create1 5, []), (.openat (.ok 7), []), (.ctl 0 1 1 { events := 1, data := 0 }, [])]

theorem registerSeven_runs :
    Run (fun before label after => Step before label after ∧ before.Unclaimed label.1)
      (boot (new 1 [none, none, none])) registerSeven
      (sevenRegistered [some 5, some 7, none] fun _ => none) := by
  let created : Registrations :=
    { state :=
        { process := new 1 [some 5, none, none]
          epfiles := update (fun _ => none) 5 (some .empty), waits := fun _ => none }
      registered := fun _ _ => none }
  let opened : Registrations :=
    { created with state := { created.state with process := new 1 [some 5, some 7, none] } }
  have unused : ¬ (boot (new 1 [none, none, none])).state.Live 5 := by
    rintro (⟨_ | _ | _ | _, present⟩ | ⟨_, _, waiting, -⟩)
    · cases present
    · cases present
    · cases present
    · cases present
    · cases waiting
  have create : Step (boot (new 1 [none, none, none])) (.create1 5, []) created :=
    ⟨.create1 rfl unused rfl, rfl⟩
  have openSeven : Step created (.openat (.ok 7), []) opened := ⟨.openat (fun _ same => by cases same; rfl) rfl, rfl⟩
  have add : Step opened (.ctl 0 1 1 { events := 1, data := 0 }, [])
      (sevenRegistered [some 5, some 7, none] fun _ => none) := ⟨.ctl rfl, rfl⟩
  exact .cons ⟨create, fun _ _ _ _ _ _ _ absent => nomatch absent⟩
    (.cons ⟨openSeven, fun _ _ _ _ _ _ _ absent => nomatch absent⟩
      (.cons ⟨add, fun _ _ filled => nomatch filled⟩ .refl))

theorem events_are_for_registered_files_seven : ∃ finish,
    Run (fun before label after => Step before label after ∧ before.Faithful label) (boot (new 1 [none, none, none]))
      (registerSeven ++ [(.wait 0 0 4, []),
        (.scan 0, [{ epfile := 5, fd := 1, event := { events := 1, data := 0 }, file := 7 }])]) finish := by
  let waits : Nat → Option EpollWait := update (fun _ => none) 0 (some { epfile := 5, maxEvents := 4 })
  have wait : Step (sevenRegistered [some 5, some 7, none] fun _ => none) (.wait 0 0 4, [])
      (sevenRegistered [some 5, some 7, none] waits) := ⟨.wait rfl rfl, rfl⟩
  have scanned : Epolls.scan (new 1 [some 5, some 7, none]) (fun _ _ => true) { epfile := 5, maxEvents := 4 }
      [(1, { events := 1, data := 0 })] =
        some [{ epfile := 5, fd := 1, event := { events := 1, data := 0 }, file := 7 }] := by decide +kernel
  have report : Step (sevenRegistered [some 5, some 7, none] waits)
      (.scan 0, [{ epfile := 5, fd := 1, event := { events := 1, data := 0 }, file := 7 }])
      (sevenRegistered [some 5, some 7, none] (update waits 0 none)) := ⟨.ready rfl rfl (.refl _) scanned, rfl⟩
  exact ⟨_, events_are_for_registered_files (registerSeven_runs.append
    (.cons ⟨wait, fun _ _ filled => nomatch filled⟩ (.cons ⟨report, fun _ _ filled => nomatch filled⟩ .refl)))⟩

/-- The number of file 7 is reused for file 8, and an event of 8 is reported. -/
theorem reused_number_reports :
    ∃ before after, Run Step (boot (new 1 [none, none, none]))
        (registerSeven ++ [(.close 1, []), (.openat (.ok 8), []), (.wait 0 0 4, [])]) before ∧
      Step before (.scan 0, [{ epfile := 5, fd := 1, event := { events := 1, data := 0 }, file := 8 }]) after ∧
      before.registered 5 1 = some (7, { events := 1, data := 0 }) := by
  let idle : Nat → Option EpollWait := fun _ => none
  let waits : Nat → Option EpollWait := update idle 0 (some { epfile := 5, maxEvents := 4 })
  have close : Step (sevenRegistered [some 5, some 7, none] idle) (.close 1, [])
      (sevenRegistered [some 5, none, none] idle) := ⟨.close, rfl⟩
  have openEight : Step (sevenRegistered [some 5, none, none] idle) (.openat (.ok 8), [])
      (sevenRegistered [some 5, some 8, none] idle) := ⟨.openat (fun file same => by cases same; rfl) rfl, rfl⟩
  have wait : Step (sevenRegistered [some 5, some 8, none] idle) (.wait 0 0 4, [])
      (sevenRegistered [some 5, some 8, none] waits) := ⟨.wait rfl rfl, rfl⟩
  have scanned : Epolls.scan (new 1 [some 5, some 8, none]) (fun _ _ => true) { epfile := 5, maxEvents := 4 }
      [(1, { events := 1, data := 0 })] =
        some [{ epfile := 5, fd := 1, event := { events := 1, data := 0 }, file := 8 }] := by decide +kernel
  refine ⟨_, sevenRegistered [some 5, some 8, none] (update waits 0 none),
    (registerSeven_runs.mono And.left).append (.cons close (.cons openEight (.cons wait .refl))),
    ⟨.ready rfl rfl (.refl _) scanned, rfl⟩, rfl⟩

end Registrations

/-! ## What a wait returns -/

section Output

variable (process : Process) (answers : Inode → UInt16 → Except Errno UInt16) (wait : EpollWait) (epfile : EpollFile)

/-- `answers` are those of `poll`; no event is the same as an error. -/
def ready (file : Inode) (events : UInt16) : Bool :=
  match answers file events with
  | .ok pevent => pevent ≠ 0
  | .error _ => false

variable {process answers wait epfile}

end Output

end MonkeyOS.Syscall
