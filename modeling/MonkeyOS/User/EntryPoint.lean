import MonkeyOS.User.Signal

/-!
# The kernel loop of a thread

`check_signal` and `entry_point` of `kernel/src/user/entry.rs`, one step for each
stretch between two points where the loop can be left: user code, the polls of a
system call and the rounds of `check_signal`. `future::or` polls the call of the
thread first and the arm that looks for signals second; it returns as soon as one
is ready and drops the other where it stands. The rest of the system acts between
any two steps, so the yield every fifty rounds is left out.
-/

set_option autoImplicit false

namespace MonkeyOS.User

open Lib Tasks
open MonkeyOS.Syscall (ProcessTimer)

inductive Checking where
  | look
  /-- In the loop of `handle_signal`; `waiting` inside a call of the handler. -/
  | handler (saved : Saved) (waiting : Bool)

def Checking.handler? : Checking → Option Saved
  | .look => none
  | .handler saved _ => some saved

inductive Turn where
  | first
  | second
  deriving DecidableEq, Repr

inductive Phase where
  /-- About to start a round of the loop. -/
  | top
  /-- In `check_signal`, before the race. -/
  | checking (check : Checking)
  /-- The race is made and neither arm polled yet. -/
  | enter
  /-- The first arm waits in its call, the second has come to `check`. -/
  | racing (turn : Turn) (check : Checking)
  | ended

def Phase.handler? : Phase → Option Saved
  | .checking check | .racing _ check => check.handler?
  | _ => none

structure EntryPoint where
  task : UserTask
  phase : Phase

inductive LoopEvent where
  | tkill (caller tid signum : Nat)
  | tgkill (caller tgid tid signum : Nat)
  /-- `add_signal` by anyone else: `sys_kill`, a fault, the end of a child. -/
  | raise (num : Nat)
  /-- `sys_sigaction` by another thread of the process. -/
  | sigaction (sig : Nat) (act : SigAction)
  /-- Memory, files, timers and exit codes change. -/
  | work (space : UserSpace) (leafTables : Nat → Bool) (contexts : Nat → SignalUserContext) (timer : ProcessTimer)
  | timer (now : Nat)
  /-- `check_signal` looks for a signal; `now` is read if the second arm goes on to sleep. -/
  | look (now : Nat)
  /-- The loop of `handle_signal` finds an exit code. -/
  | exited
  | user (run : UserRun)
  | poll (reply : Reply)

inductive Notice where
  | sent (signal : SignalFlags)
  /-- The trap frame points at a user handler. -/
  | redirected (saved : Saved)
  /-- User code ran, in the loop of `handle_signal` or in that of `entry_point`. -/
  | ran (handler : Option Saved)
  /-- A handler has called `rt_sigreturn` and what was saved is put back. -/
  | restored (saved : Saved)
  | completed (signal : SignalFlags)
  | returned

abbrev Label := LoopEvent × List Notice

def sends (notices : List Notice) : List SignalFlags :=
  notices.filterMap fun
    | .sent signal => some signal
    | _ => none

def completions (notices : List Notice) : List SignalFlags :=
  notices.filterMap fun
    | .completed signal => some signal
    | _ => none

/-- The signal `check_signal` takes next. -/
def UserTask.pending (task : UserTask) : Option SignalFlags := (task.signal.mask task.sigmask).tryGetSignal

/-- What other code leaves of a thread while the loop does not look: exit codes
stay once they are set, the frame and the signals are left alone. -/
structure UserTask.Keeps (task : UserTask) (space : UserSpace) : Prop where
  cx : (space.process.tcb task.taskId).cx = task.cx
  signal : (space.process.tcb task.taskId).signal = task.tcb.signal
  exitCode : task.exitCode.isSome → space.process.pcb.exitCode.isSome
  threadExitCode : task.tcb.threadExitCode.isSome → (space.process.tcb task.taskId).threadExitCode.isSome

/-- A send that finds this thread. -/
def sentTo (task : UserTask) (target : Option Nat) (signum : Nat) : List Notice :=
  if target = some task.taskId then [.sent (.fromNum signum)] else []

variable (around : Surroundings)

inductive Disturbs : UserTask → LoopEvent → List Notice → UserTask → Prop where
  | tkill {task caller tid signum reply after} (done : task.sysTkill around caller tid signum = some (reply, after)) :
      Disturbs task (.tkill caller tid signum) (sentTo task (task.tkillTarget around caller tid) signum) after
  | tgkill {task caller tgid tid signum reply after}
      (done : task.sysTgkill around caller tgid tid signum = some (reply, after)) :
      Disturbs task (.tgkill caller tgid tid signum)
        (sentTo task (task.tgkillTarget around caller tgid tid) signum) after
  | raise {task num} : Disturbs task (.raise num) [] (task.addSignal (.fromNum num))
  | sigaction {task sig act reply after} (done : task.sysSigaction sig (some act) false = some (reply, after)) :
      Disturbs task (.sigaction sig act) [] after
  | work {task space leafTables contexts timer} (kept : task.Keeps space) :
      Disturbs task (.work space leafTables contexts timer) [] { task with space, leafTables, contexts, timer }

inductive Next where
  | returned
  | runs (check : Checking)
  | suspends (check : Checking)

def Next.handler? : Next → Option Saved
  | .returned => none
  | .runs check | .suspends check => check.handler?

inductive Checks : UserTask → Checking → LoopEvent → List Notice → UserTask → Next → Prop where
  | nothing {task now} (none : task.pending = none) : Checks task .look (.look now) [.returned] task .returned
  | returned {task now signal handled after} (found : task.pending = some signal)
      (handles : task.handleSignal around signal = .returned handled)
      (completes : handled.completeSignal signal = some after) :
      Checks task .look (.look now) [.completed signal] after (.runs .look)
  | refused {task now signal handled saved after} (found : task.pending = some signal)
      (handles : task.handleSignal around signal = .refused handled saved)
      (completes : handled.completeSignal signal = some after) :
      Checks task .look (.look now) [.redirected saved, .completed signal] after (.runs .look)
  | entered {task now signal saved after} (found : task.pending = some signal)
      (handles : task.handleSignal around signal = .entered after saved) :
      Checks task .look (.look now) [.redirected saved] after (.runs (.handler saved false))
  | exited {task saved after} (stopped : task.exitCode.isSome)
      (completes : (task.leaveSignal saved).completeSignal saved.signal = some after) :
      Checks task (.handler saved false) .exited [.completed saved.signal] after (.runs .look)
  | continues {task saved run after} (alive : task.exitCode = none)
      (ran : task.handleSyscall run = some (.ready .Continue, after)) :
      Checks task (.handler saved false) (.user run) [.ran (some saved)] after (.runs (.handler saved false))
  | waits {task saved run after} (alive : task.exitCode = none)
      (ran : task.handleSyscall run = some (.pending, after)) :
      Checks task (.handler saved false) (.user run) [.ran (some saved)] after (.suspends (.handler saved true))
  | returns {task saved run left after} (alive : task.exitCode = none)
      (ran : task.handleSyscall run = some (.ready .Break, left))
      (completes : (left.leaveSignal saved).completeSignal saved.signal = some after) :
      Checks task (.handler saved false) (.user run)
        [.ran (some saved), .restored saved, .completed saved.signal] after (.runs .look)
  | still {task saved} : Checks task (.handler saved true) (.poll .pending) [] task (.suspends (.handler saved true))
  | resumes {task saved cx result flow after} (polled : task.pollSyscall (.ready cx result) = (.ready flow, after)) :
      Checks task (.handler saved true) (.poll (.ready cx result)) [] after (.runs (.handler saved false))

namespace EntryPoint

/-- The exit checks between two awaits. -/
def unlessExited (task : UserTask) (next : EntryPoint) : EntryPoint :=
  if task.checkThreadExit.isSome then ⟨task, .ended⟩ else next

def finish (task : UserTask) : UserTaskControlFlow → EntryPoint
  | .Break => ⟨task, .ended⟩
  | .Continue => unlessExited task ⟨task, .top⟩

inductive Step : EntryPoint → Label → EntryPoint → Prop where
  | disturbed {task phase event notices after} (disturbs : Disturbs around task event notices after) :
      Step ⟨task, phase⟩ (event, notices) ⟨after, phase⟩
  | timer {task now} : Step ⟨task, .top⟩ (.timer now, []) ⟨task.checkTimer now, .checking .look⟩
  | checks {task check event notices after next} (checks : Checks around task check event notices after (.runs next)) :
      Step ⟨task, .checking check⟩ (event, notices) ⟨after, .checking next⟩
  | sleeps {task check event notices after next}
      (checks : Checks around task check event notices after (.suspends next)) :
      Step ⟨task, .checking check⟩ (event, notices) ⟨after, .checking next⟩
  | checked {task check event notices after} (checks : Checks around task check event notices after .returned) :
      Step ⟨task, .checking check⟩ (event, notices) (unlessExited after ⟨after, .enter⟩)
  | ran {task run flow after} (ran : task.handleSyscall run = some (.ready flow, after)) :
      Step ⟨task, .enter⟩ (.user run, [.ran none]) (finish after flow)
  | blocks {task run after} (ran : task.handleSyscall run = some (.pending, after)) :
      Step ⟨task, .enter⟩ (.user run, [.ran none]) ⟨after, .racing .second .look⟩
  | pending {task check} : Step ⟨task, .racing .first check⟩ (.poll .pending, []) ⟨task, .racing .second check⟩
  | ready {task check cx result flow after} (polled : task.pollSyscall (.ready cx result) = (.ready flow, after)) :
      Step ⟨task, .racing .first check⟩ (.poll (.ready cx result), []) (finish after flow)
  | armRuns {task check event notices after next} (checks : Checks around task check event notices after (.runs next)) :
      Step ⟨task, .racing .second check⟩ (event, notices) ⟨after, .racing .second next⟩
  | armSleeps {task check event notices after next}
      (checks : Checks around task check event notices after (.suspends next)) :
      Step ⟨task, .racing .second check⟩ (event, notices) ⟨after, .racing .first next⟩
  | armReturns {task check now notices after} (checks : Checks around task check (.look now) notices after .returned) :
      Step ⟨task, .racing .second check⟩ (.look now, notices)
        (unlessExited after ⟨after.checkTimer now, .racing .first .look⟩)

end EntryPoint

end MonkeyOS.User
