import MonkeyOS.Fs.Blocking

/-!
# Waiting for children

`WaitPid` of `kernel/src/tasks/async_ops.rs`, `sys_wait4` and `sys_setsid` of
`kernel/src/syscall/task.rs`, and the lists of children and threads that forks and
exits change. Each call and each poll is one step, and any thread of any process may
act between two polls of a call. The status word that `sys_wait4` stores in user
memory is left out.
-/

set_option autoImplicit false

namespace MonkeyOS.Tasks

open Lib Fs Function

def asUsize (pid : Int) : Nat := (pid % usizeBound).toNat

/-- Processes by the id of their main thread. -/
structure Family where
  children : Nat → List Nat
  threads : Nat → List Nat
  /-- The process behind the `parent` of a thread. -/
  parent : Nat → Option Nat
  exitCode : Nat → Option Nat
  /-- Threads blocked in `WaitPid`, with their process and the pid they wait for. -/
  waiting : Nat → Option (Nat × Int)

def matchesPid (pid : Int) (child : Nat) : Bool := pid == -1 || child == asUsize pid

namespace Family

variable (family : Family)

def setWaiting (thread : Nat) (call : Option (Nat × Int)) : Family :=
  { family with waiting := update family.waiting thread call }

def setChildren (process : Nat) (children : List Nat) : Family :=
  { family with children := update family.children process children }

def setExitCode (process code : Nat) : Family :=
  { family with exitCode := update family.exitCode process (some code) }

/-- `children.retain(|x| x.task_id != child)` -/
def retain (process child : Nat) : Family :=
  family.setChildren process ((family.children process).filter (· ≠ child))

/-- The child that `WaitPid::poll` finds. -/
def exited (process : Nat) (pid : Int) : Option Nat :=
  (family.children process).find? fun child => matchesPid pid child && (family.exitCode child).isSome

/-- A poll of `WaitPid`, with what `sys_wait4` does once it is ready. -/
def pollWait (thread process : Nat) (pid : Int) : Poll (Except Errno Nat) × Family :=
  match family.exited process pid with
  | some child => (.ready (.ok child), (family.retain process child).setWaiting thread none)
  | none => (.pending, family.setWaiting thread (some (process, pid)))

def blocks (options : Nat) : Bool := options == 0 || options == 2 || options == 3 || options == 10

/-- The child that a call with `WNOHANG` looks at. -/
def firstChild (process : Nat) (pid : Int) : Option Nat :=
  (family.children process).find? (matchesPid pid)

def sysWait4 (thread process : Nat) (pid : Int) (options : Nat) : Poll (Except Errno Nat) × Family :=
  if (family.children process).length = 0 then (.ready (.error .ECHILD), family)
  else if pid ≠ -1 ∧ asUsize pid ∉ family.children process then (.ready (.error .ECHILD), family)
  else if blocks options then family.pollWait thread process pid
  else if options = 1 then
    match family.firstChild process pid with
    | none => (.ready (.ok 0), family)
    | some child =>
      if (family.exitCode child).isSome then (.ready (.ok child), family.retain process child)
      else (.ready (.ok 0), family)
  else (.ready (.error .EPERM), family)

/-- A parent that is gone cannot be upgraded. -/
def sysSetsid (thread : Nat) (upgrades : Bool) : Family :=
  match family.parent thread with
  | none => family
  | some process =>
    if upgrades then
      { family.retain process thread with parent := update family.parent thread none }
    else family

def cowFork (process child : Nat) : Family :=
  { (family.setChildren child []).setChildren process (family.children process ++ [child]) with
    threads := update family.threads child [child]
    parent := update family.parent child (some process)
    exitCode := update family.exitCode child none }

def threadClone (thread process new : Nat) : Family :=
  { family with
    threads := update family.threads process (family.threads process ++ [new])
    parent := update family.parent new (family.parent thread) }

/-- A thread that exits is not polled again. -/
def leave (thread process : Nat) : Family :=
  { family.setWaiting thread none with
    threads := update family.threads process ((family.threads process).filter (· ≠ thread)) }

/-- The main thread cleans up if it is the last one. -/
def threadExit (thread process code : Nat) : Family :=
  let left := family.leave thread process
  if thread = process ∧ left.threads process = [] then (left.setChildren process []).setExitCode process code
  else left

def exit (thread process code : Nat) : Family := (family.setExitCode process code).threadExit thread process code

end Family

inductive FamilyEvent where
  | wait4 (thread process : Nat) (pid : Int) (options : Nat)
  | poll (thread : Nat)
  | cancel (thread : Nat)
  | setsid (thread : Nat) (upgrades : Bool)
  | fork (process child : Nat)
  | threadClone (thread process new : Nat)
  | threadExit (thread process code : Nat)
  | exit (thread process code : Nat)

/-- The thread whose own call an event may start, resume or end. -/
def FamilyEvent.caller : FamilyEvent → Option Nat
  | .wait4 thread .. | .poll thread | .cancel thread | .threadExit thread .. | .exit thread .. => some thread
  | .setsid .. | .fork .. | .threadClone .. => none

namespace Family

inductive Step : Family → FamilyEvent → Family → Prop where
  | wait4 {family thread process pid options} (runs : thread ∈ family.threads process)
      (free : family.waiting thread = none) :
      Step family (.wait4 thread process pid options) (family.sysWait4 thread process pid options).2
  | poll {family thread process pid} (waits : family.waiting thread = some (process, pid)) :
      Step family (.poll thread) (family.pollWait thread process pid).2
  | cancel {family thread} : Step family (.cancel thread) (family.setWaiting thread none)
  | setsid {family thread upgrades} : Step family (.setsid thread upgrades) (family.sysSetsid thread upgrades)
  | fork {family process child} (unused : family.threads child = []) :
      Step family (.fork process child) (family.cowFork process child)
  | threadClone {family thread process new} :
      Step family (.threadClone thread process new) (family.threadClone thread process new)
  | threadExit {family thread process code} (runs : thread ∈ family.threads process) :
      Step family (.threadExit thread process code) (family.threadExit thread process code)
  | exit {family thread process code} (runs : thread ∈ family.threads process) :
      Step family (.exit thread process code) (family.exit thread process code)

def HasChild (family : Family) (process : Nat) (pid : Int) : Prop :=
  ∃ child ∈ family.children process, matchesPid pid child

/-- A call that stays blocked at a poll has a child to wait for, and one that has none
ends with `ECHILD`. -/
structure Hopeful (family : Family) : Prop where
  child : ∀ thread process pid, family.waiting thread = some (process, pid) →
    (family.pollWait thread process pid).1 = .pending → family.HasChild process pid
  gone : ∀ thread process pid, family.waiting thread = some (process, pid) →
    ¬ family.HasChild process pid → (family.pollWait thread process pid).1 = .ready (.error .ECHILD)

/-- Events that take `child` off the list of `process`. -/
inductive Removes (family : Family) : FamilyEvent → Nat → Nat → Prop where
  | wait4 {thread process pid options child} (waits : blocks options) (found : family.exited process pid = some child) :
      Removes family (.wait4 thread process pid options) process child
  | nohang {thread process pid child} (found : family.firstChild process pid = some child)
      (ended : (family.exitCode child).isSome) : Removes family (.wait4 thread process pid 1) process child
  | poll {thread process pid child} (waits : family.waiting thread = some (process, pid))
      (found : family.exited process pid = some child) : Removes family (.poll thread) process child
  | setsid {thread process} (parent : family.parent thread = some process) :
      Removes family (.setsid thread true) process thread

/-- A child that is taken off the list leaves another one to every other call that is
blocked in the same process. -/
def Spares (family : Family) (event : FamilyEvent) : Prop :=
  ∀ process child, family.Removes event process child →
    ∀ thread pid, event.caller ≠ some thread → family.waiting thread = some (process, pid) →
      ∃ other ∈ family.children process, other ≠ child ∧ matchesPid pid other

/-! ## Polls of blocked calls -/

section

variable {family after : Family} {event : FamilyEvent} {thread process child : Nat} {pid : Int}

theorem hasChild_of_exited (found : family.exited process pid = some child) : family.HasChild process pid := by
  have fits := List.find?_some found
  simp only [Bool.and_eq_true] at fits
  exact ⟨child, List.mem_of_find?_eq_some found, fits.1⟩

theorem hopeful_iff : family.Hopeful ↔
    ∀ thread process pid, family.waiting thread = some (process, pid) → family.HasChild process pid := by
  constructor
  · intro hopeful thread process pid waits
    by_contra none
    have ended := hopeful.gone thread process pid waits none
    unfold pollWait at ended
    split at ended
    next _ found => exact none (hasChild_of_exited found)
    · cases ended
  · intro has
    exact ⟨fun thread process pid waits _ => has thread process pid waits,
      fun thread process pid waits none => absurd (has thread process pid waits) none⟩

variable {other options code place : Nat} {call : Option (Nat × Int)}

theorem hasChild_retain_iff : (family.retain process child).HasChild other pid ↔
    ∃ kept ∈ family.children other, (other = process → kept ≠ child) ∧ matchesPid pid kept := by
  unfold HasChild retain setChildren
  by_cases same : other = process
  · subst same
    simp [and_assoc]
  · simp [same]

@[simp] theorem waiting_setWaiting_self : (family.setWaiting thread call).waiting thread = call := update_self _ _ _

theorem waiting_setWaiting (different : other ≠ thread) :
    (family.setWaiting thread call).waiting other = family.waiting other := update_of_ne different _ _

theorem hasChild_of_checks (some : (family.children process).length ≠ 0)
    (listed : ¬ (pid ≠ -1 ∧ asUsize pid ∉ family.children process)) : family.HasChild process pid := by
  by_cases any : pid = -1
  · obtain ⟨child, member⟩ := List.exists_mem_of_length_pos (pos_of_ne_zero some)
    exact ⟨child, member, by simp [matchesPid, any]⟩
  · have member : asUsize pid ∈ family.children process := by
      by_contra absent
      exact listed ⟨any, absent⟩
    exact ⟨_, member, by simp [matchesPid]⟩

theorem checks_of_matches (member : child ∈ family.children process) (fits : matchesPid pid child) :
    (family.children process).length ≠ 0 ∧ ¬ (pid ≠ -1 ∧ asUsize pid ∉ family.children process) := by
  refine ⟨List.length_pos_iff_exists_mem.mpr ⟨child, member⟩ |>.ne', ?_⟩
  rintro ⟨specific, absent⟩
  simp only [matchesPid, Bool.or_eq_true, beq_iff_eq, specific, false_or] at fits
  exact absent (fits ▸ member)

theorem sysWait4_cases (family : Family) (thread process : Nat) (pid : Int) (options : Nat) :
    (∃ reply, family.sysWait4 thread process pid options = (.ready reply, family)) ∨
      blocks options ∧ family.HasChild process pid ∧
        family.sysWait4 thread process pid options = family.pollWait thread process pid ∨
      options = 1 ∧ ∃ child, family.firstChild process pid = some child ∧ (family.exitCode child).isSome ∧
        family.sysWait4 thread process pid options = (.ready (.ok child), family.retain process child) := by
  unfold sysWait4
  split_ifs with empty unlisted waits nohang
  · exact .inl ⟨_, rfl⟩
  · exact .inl ⟨_, rfl⟩
  · exact .inr (.inl ⟨waits, hasChild_of_checks empty unlisted, rfl⟩)
  · cases found : family.firstChild process pid with
    | none => exact .inl ⟨_, rfl⟩
    | some child =>
      by_cases ended : (family.exitCode child).isSome
      · exact .inr (.inr ⟨nohang, child, rfl, ended, if_pos ended⟩)
      · exact .inl ⟨_, if_neg ended⟩
  · exact .inl ⟨_, rfl⟩

theorem sysSetsid_cases (family : Family) (thread : Nat) (upgrades : Bool) :
    family.sysSetsid thread upgrades = family ∨
      ∃ process, family.parent thread = some process ∧ upgrades = true ∧ family.sysSetsid thread upgrades =
        { family.retain process thread with parent := update family.parent thread none } := by
  unfold sysSetsid
  cases parent : family.parent thread with
  | none => exact .inl rfl
  | some process =>
    cases upgrades with
    | true => exact .inr ⟨process, rfl, rfl, rfl⟩
    | false => exact .inl rfl

/-! ## One step -/

def Placed (family : Family) : Prop :=
  ∀ thread process pid, family.waiting thread = some (process, pid) → thread ∈ family.threads process

theorem waiting_pollWait (different : other ≠ thread) :
    (family.pollWait thread process pid).2.waiting other = family.waiting other := by
  unfold pollWait
  split <;> exact waiting_setWaiting different

theorem waiting_sysWait4 (different : other ≠ thread) :
    (family.sysWait4 thread process pid options).2.waiting other = family.waiting other := by
  rcases family.sysWait4_cases thread process pid options with
    ⟨_, same⟩ | ⟨_, _, same⟩ | ⟨_, _, _, _, same⟩
  · rw [same]
  · rw [same]
    exact waiting_pollWait different
  · rw [same]
    rfl

theorem waiting_threadExit {other code : Nat} (different : other ≠ thread) :
    (family.threadExit thread process code).waiting other = family.waiting other := by
  unfold threadExit
  dsimp only
  split <;> exact waiting_setWaiting different

theorem Step.waiting_eq (step : Step family event after) (other : event.caller ≠ some thread) :
    after.waiting thread = family.waiting thread := by
  cases step with
  | wait4 => exact waiting_sysWait4 fun same => other (same ▸ rfl)
  | poll => exact waiting_pollWait fun same => other (same ▸ rfl)
  | cancel => exact waiting_setWaiting fun same => other (same ▸ rfl)
  | @setsid caller upgrades =>
    rcases family.sysSetsid_cases caller upgrades with same | ⟨_, _, _, same⟩ <;> rw [same]
    rfl
  | fork | threadClone => rfl
  | threadExit => exact waiting_threadExit fun same => other (same ▸ rfl)
  | @exit caller process code =>
    have different : thread ≠ caller := fun same => other (same ▸ rfl)
    exact @waiting_threadExit (family.setExitCode process code) _ _ _ _ different

theorem sysWait4_blocks (has : family.HasChild process pid) (waits : blocks options) :
    family.sysWait4 thread process pid options = family.pollWait thread process pid := by
  obtain ⟨_, member, fits⟩ := has
  obtain ⟨nonempty, listed⟩ := checks_of_matches member fits
  rw [sysWait4, if_neg nonempty, if_neg listed, if_pos waits]

theorem sysWait4_nohang (found : family.firstChild process pid = some child) (ended : (family.exitCode child).isSome) :
    family.sysWait4 thread process pid 1 = (.ready (.ok child), family.retain process child) := by
  obtain ⟨nonempty, listed⟩ := checks_of_matches (List.mem_of_find?_eq_some found) (List.find?_some found)
  rw [sysWait4, if_neg nonempty, if_neg listed, if_neg (by decide), if_pos rfl]
  simp only [found, ended, if_true]

theorem pollWait_ready (found : family.exited process pid = some child) :
    family.pollWait thread process pid =
      (.ready (.ok child), (family.retain process child).setWaiting thread none) := by
  unfold pollWait
  rw [found]

theorem pollWait_pending (none : family.exited process pid = none) :
    family.pollWait thread process pid = (.pending, family.setWaiting thread (some (process, pid))) := by
  unfold pollWait
  rw [none]

theorem Step.children_eq (step : Step family event after) (removes : family.Removes event process child) :
    after.children = (family.retain process child).children := by
  cases removes with
  | wait4 waits found =>
    cases step with
    | wait4 => rw [sysWait4_blocks (hasChild_of_exited found) waits, pollWait_ready found]; rfl
  | nohang found ended =>
    cases step with
    | wait4 => rw [sysWait4_nohang found ended]
  | poll waits found =>
    cases step with
    | poll waits' =>
      cases waits.symm.trans waits'
      rw [pollWait_ready found]
      rfl
  | setsid parent =>
    cases step with
    | setsid =>
      unfold sysSetsid
      rw [parent]
      rfl

theorem waiting_threadExit_self : (family.threadExit thread process code).waiting thread = none := by
  unfold threadExit
  dsimp only
  split <;> exact waiting_setWaiting_self

theorem threads_threadExit : (family.threadExit thread process code).threads =
    update family.threads process ((family.threads process).filter (· ≠ thread)) := by
  unfold threadExit
  dsimp only
  split <;> rfl

theorem Placed.threadExit {code : Nat} (placed : family.Placed) : (family.threadExit thread process code).Placed := by
  intro other place pid waits
  by_cases own : other = thread
  · rw [own, waiting_threadExit_self] at waits
    cases waits
  · rw [waiting_threadExit own] at waits
    have runs := placed other place pid waits
    rw [threads_threadExit]
    by_cases same : place = process
    · subst same
      simp [runs, own]
    · simp [same, runs]

theorem Placed.children_threadExit (placed : family.Placed)
    (waits : (family.threadExit thread process code).waiting other = some (place, pid)) :
    (family.threadExit thread process code).children place = family.children place := by
  have runs : other ∈ (family.leave thread process).threads place := by
    have runs := placed.threadExit other place pid waits
    rwa [threads_threadExit] at runs
  unfold Family.threadExit
  dsimp only
  split
  next cleanup =>
    refine update_of_ne ?_ _ _
    rintro rfl
    rw [cleanup.2] at runs
    cases runs
  · rfl

theorem waiting_pollWait_self {wanted : Int} :
    (family.pollWait thread process pid).2.waiting thread = some (place, wanted) ↔
      family.exited process pid = none ∧ place = process ∧ wanted = pid := by
  cases found : family.exited process pid with
  | none =>
    rw [pollWait_pending found, waiting_setWaiting_self]
    simp [eq_comm]
  | some _ =>
    rw [pollWait_ready found, waiting_setWaiting_self]
    simp

theorem Placed.pollWait (placed : family.Placed) (runs : thread ∈ family.threads process) :
    (family.pollWait thread process pid).2.Placed := by
  intro other place pid' waits
  have threads : (family.pollWait thread process pid).2.threads = family.threads := by
    unfold Family.pollWait
    split <;> rfl
  rw [threads]
  by_cases own : other = thread
  · rw [own, waiting_pollWait_self] at waits
    obtain ⟨_, rfl, rfl⟩ := waits
    rwa [own]
  · rw [waiting_pollWait own] at waits
    exact placed other place pid' waits

theorem Step.placed (step : Step family event after) (placed : family.Placed) : after.Placed := by
  cases step with
  | @wait4 thread process pid options runs =>
    rcases family.sysWait4_cases thread process pid options with
      ⟨_, same⟩ | ⟨_, _, same⟩ | ⟨_, _, _, _, same⟩
    · rwa [same]
    · rw [same]
      exact placed.pollWait runs
    · rw [same]
      exact placed
  | poll waits => exact placed.pollWait (placed _ _ _ waits)
  | @cancel thread =>
    intro other process pid waits
    by_cases own : other = thread
    · rw [own, waiting_setWaiting_self] at waits
      cases waits
    · rw [waiting_setWaiting own] at waits
      exact placed other process pid waits
  | @setsid caller upgrades =>
    rcases family.sysSetsid_cases caller upgrades with same | ⟨_, _, _, same⟩
    · rwa [same]
    · rw [same]
      exact placed
  | @fork process child unused =>
    intro thread other pid waits
    have runs := placed thread other pid waits
    have old : other ≠ child := by
      rintro rfl
      rw [unused] at runs
      cases runs
    have threads : (family.cowFork process child).threads other = family.threads other :=
      update_of_ne old _ _
    rwa [threads]
  | @threadClone thread process _ =>
    intro other place pid waits
    have runs := placed other place pid waits
    unfold Family.threadClone
    by_cases same : place = process
    · subst same
      simp [runs]
    · simp [same, runs]
  | threadExit => exact placed.threadExit
  | @exit thread process code =>
    have placed : (family.setExitCode process code).Placed := placed
    exact placed.threadExit

/-- Events that take no child off a list leave every blocked call its children. -/
theorem Step.removes_or_kept (step : Step family event after) (placed : family.Placed) :
    (∃ process child, family.Removes event process child) ∨
      ∀ thread process pid, family.waiting thread = some (process, pid) →
        after.waiting thread = some (process, pid) → family.children process ⊆ after.children process := by
  have unchanged {after : Family} {removes : Prop} (same : after.children = family.children) : removes ∨
      ∀ thread process pid, family.waiting thread = some (process, pid) →
        after.waiting thread = some (process, pid) → family.children process ⊆ after.children process :=
    .inr fun _ process _ _ _ => same ▸ List.Subset.refl _
  cases step with
  | @wait4 thread process pid options =>
    rcases family.sysWait4_cases thread process pid options with
      ⟨_, same⟩ | ⟨waits, _, same⟩ | ⟨rfl, child, found, ended, _⟩
    · rw [same]
      exact unchanged rfl
    · rw [same]
      cases found : family.exited process pid with
      | none =>
        rw [pollWait_pending found]
        exact unchanged rfl
      | some child => exact .inl ⟨process, child, .wait4 waits found⟩
    · exact .inl ⟨process, child, .nohang found ended⟩
  | @poll thread process pid waits =>
    cases found : family.exited process pid with
    | none =>
      rw [pollWait_pending found]
      exact unchanged rfl
    | some child => exact .inl ⟨process, child, .poll waits found⟩
  | cancel | threadClone => exact unchanged rfl
  | @setsid thread upgrades =>
    rcases family.sysSetsid_cases thread upgrades with same | ⟨process, parent, rfl, _⟩
    · rw [same]
      exact unchanged rfl
    · exact .inl ⟨process, thread, .setsid parent⟩
  | @fork process child unused =>
    refine .inr fun thread other pid waits _ => ?_
    have runs := placed thread other pid waits
    have old : other ≠ child := by
      rintro rfl
      rw [unused] at runs
      cases runs
    unfold cowFork setChildren
    by_cases same : other = process
    · subst same
      simp
    · simp [same, old]
  | threadExit => exact .inr fun _ _ _ _ waits => placed.children_threadExit waits ▸ List.Subset.refl _
  | @exit thread process code =>
    have placed : (family.setExitCode process code).Placed := placed
    exact .inr fun _ _ _ _ waits => placed.children_threadExit waits ▸ List.Subset.refl _

theorem Step.hasChild_of_caller (step : Step family event after) (hopeful : family.Hopeful)
    (own : event.caller = some thread) (waits : after.waiting thread = some (process, pid)) :
    after.HasChild process pid := by
  cases step with
  | @wait4 caller place wanted options _ free =>
    obtain rfl := Option.some.inj own
    rcases family.sysWait4_cases caller place wanted options with
      ⟨_, same⟩ | ⟨_, has, same⟩ | ⟨_, _, _, _, same⟩
    · rw [same] at waits
      exact nomatch free.symm.trans waits
    · rw [same] at waits ⊢
      obtain ⟨none, rfl, rfl⟩ := waiting_pollWait_self.mp waits
      rw [pollWait_pending none]
      exact has
    · rw [same] at waits
      exact nomatch free.symm.trans waits
  | poll waited =>
    cases own
    obtain ⟨none, rfl, rfl⟩ := waiting_pollWait_self.mp waits
    rw [pollWait_pending none]
    exact hopeful_iff.mp hopeful _ _ _ waited
  | cancel =>
    cases own
    rw [waiting_setWaiting_self] at waits
    cases waits
  | setsid | fork | threadClone => cases own
  | threadExit =>
    cases own
    rw [waiting_threadExit_self] at waits
    cases waits
  | exit =>
    cases own
    rw [Family.exit, waiting_threadExit_self] at waits
    cases waits

structure Sound (family : Family) : Prop where
  placed : family.Placed
  hopeful : family.Hopeful

theorem Step.hopeful_iff (step : Step family event after) (sound : family.Sound) :
    after.Hopeful ↔ family.Spares event := by
  constructor
  · intro kept process child removes thread pid other waits
    have has := Family.hopeful_iff.mp kept thread process pid ((step.waiting_eq other).trans waits)
    rw [HasChild, step.children_eq removes] at has
    obtain ⟨kept, member, differs, fits⟩ := hasChild_retain_iff.mp has
    exact ⟨kept, member, differs rfl, fits⟩
  · intro spares
    refine Family.hopeful_iff.mpr fun thread process pid waits => ?_
    by_cases own : event.caller = some thread
    · exact step.hasChild_of_caller sound.hopeful own waits
    · have waited := (step.waiting_eq own).symm.trans waits
      have has := Family.hopeful_iff.mp sound.hopeful thread process pid waited
      rcases step.removes_or_kept sound.placed with ⟨parent, child, removes⟩ | kept
      · rw [HasChild, step.children_eq removes]
        refine hasChild_retain_iff.mpr ?_
        by_cases same : process = parent
        · subst same
          obtain ⟨other, member, differs, fits⟩ := spares process child removes thread pid own waited
          exact ⟨other, member, fun _ => differs, fits⟩
        · obtain ⟨other, member, fits⟩ := has
          exact ⟨other, member, fun equal => absurd equal same, fits⟩
      · obtain ⟨child, member, fits⟩ := has
        exact ⟨child, kept thread process pid waited waits member, fits⟩

theorem Sound.hopeful_step (sound : family.Sound) (step : Step family event after ∧ after.Hopeful) : after.Sound :=
  ⟨step.1.placed sound.placed, step.2⟩

theorem Sound.spared_step (sound : family.Sound) (step : Step family event after ∧ family.Spares event) :
    after.Sound := ⟨step.1.placed sound.placed, (step.1.hopeful_iff sound).mpr step.2⟩

end

/-! ## Whole runs -/

def init (pid : Nat) : Family where
  children := fun _ => []
  threads := update (fun _ => []) pid [pid]
  parent := fun _ => none
  exitCode := fun _ => none
  waiting := fun _ => none

theorem init_sound (pid : Nat) : (init pid).Sound where
  placed _ _ _ waits := nomatch waits
  hopeful := hopeful_iff.mpr fun _ _ _ waits => nomatch waits

/-- Every blocked call has something to wait for if and only if no child is taken off a
list, by another thread that reaps it or by the child itself, while a call is blocked
that has no other. -/
theorem waiting_has_child_iff {pid : Nat} {events : List FamilyEvent} {finish : Family} :
    Run (fun before event after => Step before event after ∧ after.Hopeful) (init pid) events finish ↔
      Run (fun before event after => Step before event after ∧ before.Spares event) (init pid) events finish := by
  constructor
  · intro run
    refine (run.assuming (fun sound step => Sound.hopeful_step sound step) (init_sound pid)).mono ?_
    rintro before event after ⟨⟨step, hopeful⟩, sound⟩
    exact ⟨step, (step.hopeful_iff sound).mp hopeful⟩
  · intro run
    refine (run.assuming (fun sound step => Sound.spared_step sound step) (init_sound pid)).mono ?_
    rintro before event after ⟨⟨step, spares⟩, sound⟩
    exact ⟨step, (step.hopeful_iff sound).mpr spares⟩

/-- Two threads wait for the same child: the first reaps it, the second stays blocked. -/
theorem second_waiter_stuck : ∃ family, Run Step (init 1)
      [.threadClone 1 1 2, .fork 1 3, .wait4 1 1 (-1) 0, .wait4 2 1 (-1) 0, .exit 3 3 0, .poll 1] family ∧
    family.waiting 2 = some (1, -1) ∧ (family.pollWait 2 1 (-1)).1 = .pending ∧ family.children 1 = [] := by
  refine ⟨_, .cons .threadClone (.cons (.fork (by decide)) (.cons (.wait4 (by decide) (by decide))
    (.cons (.wait4 (by decide) (by decide)) (.cons (.exit (by decide)) (.cons (.poll rfl) .refl))))), rfl, rfl, rfl⟩

end Family

end MonkeyOS.Tasks
