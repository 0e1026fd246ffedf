import MonkeyOS.Tasks.Signal
import MonkeyOS.Tasks.TaskProperties
import MonkeyOS.Tasks.Wait

/-!
# Taking an ended child

What `sys_wait4` returns to a caller that does not want to wait, and the status word
that both of its modes store for the child they take.
-/

set_option autoImplicit false

namespace MonkeyOS.Tasks

open Lib Fs

namespace Family

variable {family : Family} {thread process child options : Nat} {pid : Int}

/-! ## Without waiting -/

structure Prompt (family : Family) (process : Nat) (pid : Int) (reply : Poll (Except Errno Nat) × Family) :
    Prop where
  returns : reply.1 ≠ .pending
  zero_iff : reply.1 = .ready (.ok 0) ↔
    ∀ child ∈ family.children process, matchesPid pid child → family.exitCode child = none
  reaps : (∃ child ∈ family.children process, matchesPid pid child ∧ (family.exitCode child).isSome) →
    ∃ child ∈ family.children process, matchesPid pid child ∧ (family.exitCode child).isSome ∧
      reply.1 = .ready (.ok child) ∧ reply.2.children = (family.retain process child).children

theorem exited_eq_none : family.exited process pid = none ↔
    ∀ child ∈ family.children process, matchesPid pid child → family.exitCode child = none := by
  simp [exited, List.find?_eq_none]

theorem exited_spec (found : family.exited process pid = some child) :
    child ∈ family.children process ∧ matchesPid pid child ∧ (family.exitCode child).isSome := by
  have fits := List.find?_some found
  simp only [Bool.and_eq_true] at fits
  exact ⟨List.mem_of_find?_eq_some found, fits⟩

variable (has : family.HasChild process pid)
include has

theorem firstChild_cases :
    ∃ child, family.firstChild process pid = some child ∧
      if (family.exitCode child).isSome then family.exited process pid = some child
      else family.exited process pid ≠ some child := by
  obtain ⟨some, member, fits⟩ := has
  obtain ⟨child, found⟩ := Option.isSome_iff_exists.mp (List.find?_isSome.mpr ⟨some, member, fits⟩)
  refine ⟨child, found, ?_⟩
  split
  · next ended =>
    obtain ⟨first, front, back, split, _⟩ := List.find?_eq_some_iff_append.mp found
    refine List.find?_eq_some_iff_append.mpr ⟨by simp [first, ended], front, back, split, ?_⟩
    intro _ _
    simp_all
  · next running => exact fun same => running (exited_spec same).2.2

theorem sysWait4_first (found : family.firstChild process pid = some child) :
    family.sysWait4 thread process pid 1 =
      if (family.exitCode child).isSome then (.ready (.ok child), family.retain process child)
      else (.ready (.ok 0), family) := by
  obtain ⟨_, member, fits⟩ := has
  obtain ⟨nonempty, listed⟩ := checks_of_matches member fits
  rw [sysWait4, if_neg nonempty, if_neg listed, if_neg (by decide), if_pos rfl, found]

theorem sysWait4_unsupported (polls : ¬ blocks options) (other : options ≠ 1) :
    family.sysWait4 thread process pid options = (.ready (.error .EPERM), family) := by
  obtain ⟨_, member, fits⟩ := has
  obtain ⟨nonempty, listed⟩ := checks_of_matches member fits
  rw [sysWait4, if_neg nonempty, if_neg listed, if_neg polls, if_neg other]

omit has

variable {reply : Poll (Except Errno Nat) × Family}

theorem Prompt.of_exited (found : family.exited process pid = some child) (named : child ≠ 0)
    (answers : reply.1 = .ready (.ok child)) (leaves : reply.2.children = (family.retain process child).children) :
    family.Prompt process pid reply := by
  obtain ⟨member, fits, ended⟩ := exited_spec found
  refine ⟨by simp [answers], ?_, fun _ => ⟨child, member, fits, ended, answers, leaves⟩⟩
  rw [← exited_eq_none, found, answers]
  simpa using named

theorem Prompt.of_none (none : family.exited process pid = none) (answers : reply.1 = .ready (.ok 0)) :
    family.Prompt process pid reply := by
  have running := exited_eq_none.mp none
  refine ⟨by simp [answers], by simpa [answers] using running, ?_⟩
  rintro ⟨child, member, fits, ended⟩
  rw [running child member fits] at ended
  cases ended

theorem Prompt.named (prompt : family.Prompt process pid reply) (found : family.exited process pid = some child) :
    reply.1 ≠ .ready (.ok 0) := by
  rw [Ne, prompt.zero_iff, ← exited_eq_none, found]
  exact nofun

/-- A call with `WNOHANG` does what it is to do if and only if no other option is set
and the first child that was asked for has ended or none has, or the call polls, which
options with the value three do, and one has ended. -/
theorem wnohang_iff (wnohang : options.testBit 0) (has : family.HasChild process pid) :
    family.Prompt process pid (family.sysWait4 thread process pid options) ↔
      match family.exited process pid with
      | none => options = 1
      | some child => child ≠ 0 ∧ (options = 3 ∨ options = 1 ∧ family.firstChild process pid = some child) := by
  by_cases polls : blocks options
  · have three : options = 3 := by
      simp only [blocks, Bool.or_eq_true, beq_iff_eq] at polls
      rcases polls with ((rfl | rfl) | rfl) | rfl <;> first | rfl | cases wnohang
    rw [sysWait4_blocks has polls]
    cases found : family.exited process pid with
    | none =>
      rw [pollWait_pending found]
      simp only [three, Nat.reduceEqDiff, iff_false]
      exact fun prompt => prompt.returns rfl
    | some child =>
      rw [pollWait_ready found]
      refine ⟨fun prompt => ⟨?_, .inl three⟩, fun named => .of_exited found named.1 rfl rfl⟩
      rintro rfl
      exact prompt.named found rfl
  · by_cases single : options = 1
    · subst single
      obtain ⟨first, isFirst, ended⟩ := firstChild_cases has
      rw [sysWait4_first has isFirst]
      split
      · next isEnded =>
        rw [if_pos isEnded] at ended
        rw [ended]
        refine ⟨fun prompt => ⟨?_, .inr ⟨rfl, isFirst⟩⟩, fun named => .of_exited ended named.1 rfl rfl⟩
        rintro rfl
        exact prompt.named ended rfl
      · next running =>
        rw [if_neg running] at ended
        cases found : family.exited process pid with
        | none => exact ⟨fun _ => rfl, fun _ => .of_none found rfl⟩
        | some child =>
          refine ⟨fun prompt => absurd rfl (prompt.named found), ?_⟩
          rintro ⟨-, three | ⟨-, same⟩⟩
          · cases three
          · rw [isFirst, Option.some.injEq] at same
            exact absurd (same ▸ found) ended
    · rw [sysWait4_unsupported has polls single]
      have other : options ≠ 3 := fun three => polls (by simp [blocks, three])
      cases found : family.exited process pid with
      | none =>
        simp only [single, iff_false]
        exact fun prompt => nomatch prompt.zero_iff.mpr (exited_eq_none.mp found)
      | some child =>
        simp only [other, single, false_and, or_self, and_false, iff_false]
        intro prompt
        obtain ⟨_, _, _, _, answers, _⟩ := prompt.reaps ⟨child, exited_spec found⟩
        cases answers

def twoChildren (ended : Nat) : Family := (((init 1).cowFork 1 2).cowFork 1 3).exit ended ended 0

theorem wnohang_first_ended : (twoChildren 2).Prompt 1 (-1) ((twoChildren 2).sysWait4 1 1 (-1) 1) :=
  (wnohang_iff (by decide) ⟨2, by decide, by decide⟩).mpr ⟨by decide, .inr ⟨rfl, rfl⟩⟩

/-- The second child has ended, and a caller that may take any is told that none has. -/
theorem second_child_overlooked :
    Run Step (init 1) [.fork 1 2, .fork 1 3, .exit 3 3 0] (twoChildren 3) ∧
      3 ∈ (twoChildren 3).children 1 ∧ (twoChildren 3).exitCode 3 = some 0 ∧
      (twoChildren 3).sysWait4 1 1 (-1) 1 = (.ready (.ok 0), twoChildren 3) :=
  ⟨.cons (.fork (by decide)) (.cons (.fork (by decide)) (.cons (.exit (by decide)) .refl)), by decide, rfl, rfl⟩

end Family

/-! ## The status word -/

/-- The status of a child; `code` is the exit code as the mode has read it. -/
def waitStatus (pcb : ProcessControlBlock) (code : Nat) : BitVec 32 :=
  match pcb.exitSignal with
  | some signal => if pcb.coreDumped then .ofNat 32 signal ||| 0x80#32 else .ofNat 32 signal
  | none => BitVec.ofNat 32 code <<< 8

def blockingStatus (pcb : ProcessControlBlock) : BitVec 32 := waitStatus pcb (pcb.exitCode.getD 0)

/-- Nothing is stored for a child that has not ended. -/
def nohangStatus (pcb : ProcessControlBlock) : Option (BitVec 32) := pcb.exitCode.map (waitStatus pcb)

/-- The word that `sys_wait4` stores for the child it takes. -/
def storedStatus (options : Nat) (pcb : ProcessControlBlock) : Option (BitVec 32) :=
  if Family.blocks options then some (blockingStatus pcb)
  else if options = 1 then nohangStatus pcb
  else none

/-! The macros of C libraries. -/

def wtermsig (status : BitVec 32) : Nat := status.toNat % 128

abbrev wifexited (status : BitVec 32) : Prop := wtermsig status = 0

def wexitstatus (status : BitVec 32) : Nat := status.toNat / 256 % 256

abbrev wifsignaled (status : BitVec 32) : Prop := 0 < wtermsig status ∧ wtermsig status < 127

def wcoredump (status : BitVec 32) : Bool := status.getLsbD 7

open SignalFlags in
/-- The signals whose default action dumps core. -/
def coreSignals : List SignalFlags := [SIGQUIT, SIGILL, SIGTRAP, SIGABRT, SIGBUS, SIGFPE, SIGSEGV]

inductive Ending where
  | exit (code : Nat)
  | exitWithSignal (signal : Nat)
  deriving DecidableEq, Repr

namespace Ending

def InRange : Ending → Prop
  | .exit _ => True
  | .exitWithSignal signal => 1 ≤ signal ∧ signal ≤ 64

def apply (ending : Ending) (process : Process) (mem : PhysMem) (alive : Nat → Bool) (strongCount : Nat → Nat)
    (taskId : Nat) : Process.Ended :=
  match ending with
  | .exit code => process.exit mem alive strongCount taskId code
  | .exitWithSignal signal => process.exitWithSignal mem alive strongCount taskId signal

def Decodes (status : BitVec 32) : Ending → Prop
  | .exit code => wifexited status ∧ wexitstatus status = code % 256
  | .exitWithSignal signal => wifsignaled status ∧ wtermsig status = signal ∧
      (wcoredump status = true ↔ signal ∈ coreSignals.map SignalFlags.num)

end Ending

section Status

variable {process : Process} {mem : PhysMem} {alive : Nat → Bool} {strongCount : Nat → Nat}
  {taskId options : Nat} {ending : Ending}

theorem Process.exit_marks (process : Process) (code : Nat) :
    (process.exit mem alive strongCount taskId code).process.pcb.exitCode = some code ∧
      (process.exit mem alive strongCount taskId code).process.pcb.exitSignal = process.pcb.exitSignal ∧
      (process.exit mem alive strongCount taskId code).process.pcb.coreDumped = process.pcb.coreDumped := by
  obtain ⟨_, cleared⟩ := process.clearChildTid_fst mem taskId
  simp only [exit, leaveThreads, cleared]
  split <;> exact ⟨rfl, rfl, rfl⟩

variable {pcb : ProcessControlBlock}

theorem storedStatus_eq {code : Nat} (mode : Family.blocks options ∨ options = 1) (ended : pcb.exitCode = some code) :
    storedStatus options pcb = some (waitStatus pcb code) := by
  unfold storedStatus
  split
  · simp [blockingStatus, ended]
  · next single => simp [mode.resolve_left single, nohangStatus, ended]

theorem waitStatus_exited (unkilled : pcb.exitSignal = none) (code : Nat) :
    (Ending.exit code).Decodes (waitStatus pcb code) := by
  have word : (waitStatus pcb code).toNat = code % 2 ^ 32 * 2 ^ 8 % 2 ^ 32 := by
    simp only [waitStatus, unkilled, BitVec.toNat_shiftLeft, BitVec.toNat_ofNat, Nat.shiftLeft_eq]
  simp only [Ending.Decodes, wifexited, wtermsig, wexitstatus, word]
  omega

theorem waitStatus_killed {signal : Nat} (code : Nat) (killed : pcb.exitSignal = some signal)
    (dumped : pcb.coreDumped = Process.shouldDumpCore signal) (range : 1 ≤ signal ∧ signal ≤ 64) :
    (Ending.exitWithSignal signal).Decodes (waitStatus pcb code) ↔
      signal ≠ SignalFlags.SIGBUS.num ∧ signal ≠ SignalFlags.SIGUSR1.num := by
  have all : ∀ signal : Fin 65, 1 ≤ signal.val →
      let status : BitVec 32 :=
        if Process.shouldDumpCore signal then .ofNat 32 signal ||| 0x80#32 else .ofNat 32 signal
      (wifsignaled status ∧ wtermsig status = signal ∧
          (wcoredump status = true ↔ signal.val ∈ coreSignals.map SignalFlags.num)) ↔
        signal.val ≠ SignalFlags.SIGBUS.num ∧ signal.val ≠ SignalFlags.SIGUSR1.num := by
    decide +kernel
  simp only [Ending.Decodes, waitStatus, killed, dumped]
  exact all ⟨signal, by omega⟩ range.1

/-- The parent reads from the status how its child ended if and only if this was neither
by `SIGBUS`, for which no core dump is noted, nor by `SIGUSR1`, for which one is. -/
theorem wait_status_decodes_iff (unkilled : process.pcb.exitSignal = none) (range : ending.InRange)
    (mode : Family.blocks options ∨ options = 1) :
    (∃ status, storedStatus options (ending.apply process mem alive strongCount taskId).process.pcb = some status ∧
        ending.Decodes status) ↔
      ending ≠ .exitWithSignal SignalFlags.SIGBUS.num ∧ ending ≠ .exitWithSignal SignalFlags.SIGUSR1.num := by
  cases ending with
  | exit code =>
    obtain ⟨ended, signal, -⟩ := @process.exit_marks mem alive strongCount taskId code
    refine ⟨fun _ => ⟨nofun, nofun⟩, fun _ => ⟨_, storedStatus_eq mode ended, ?_⟩⟩
    exact waitStatus_exited (signal.trans unkilled) code
  | exitWithSignal signal =>
    obtain ⟨ended, killed, dumped⟩ := @(process.markKilled signal).exit_marks mem alive strongCount taskId 0
    have decodes := waitStatus_killed 0 killed dumped range
    have stored := storedStatus_eq mode ended
    simp only [Ending.apply, Process.exitWithSignal, stored, Option.some.injEq, exists_eq_left', decodes,
      ne_eq, Ending.exitWithSignal.injEq]

def Ending.alone (ending : Ending) : ProcessControlBlock :=
  (ending.apply (.new 2 []) (fun _ => 0) (fun _ => true) (fun _ => 0) 2).process.pcb

theorem wait_status_decodes_kill : ∃ status,
    storedStatus 0 (Ending.exitWithSignal 9).alone = some status ∧ (Ending.exitWithSignal 9).Decodes status := by
  have range : (Ending.exitWithSignal 9).InRange := ⟨by decide, by decide⟩
  exact (wait_status_decodes_iff rfl range (.inl (by decide))).mpr ⟨by decide, by decide⟩

/-- A bus error leaves no mark of a core dump, and the first user signal does. -/
theorem bus_error_undumped :
    SignalFlags.SIGBUS.num = 7 ∧ SignalFlags.SIGUSR1.num = 10 ∧
      storedStatus 0 (Ending.exitWithSignal 7).alone = some 7#32 ∧
      storedStatus 1 (Ending.exitWithSignal 7).alone = some 7#32 ∧
      storedStatus 0 (Ending.exitWithSignal 10).alone = some 0x8a#32 ∧
      wcoredump 7#32 = false ∧ wcoredump 0x8a#32 = true := by
  decide +kernel

end Status

end MonkeyOS.Tasks
