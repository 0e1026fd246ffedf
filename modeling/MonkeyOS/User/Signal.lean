import MonkeyOS.Fs.Blocking
import MonkeyOS.Syscall.Time
import MonkeyOS.Tasks.Signal
import MonkeyOS.User.PageFault

/-!
# Signals of a thread

`handle_signal` of `kernel/src/user/signal.rs` in the two halves around its handler
loop, `handle_syscall` of `kernel/src/user/mod.rs`, and the calls on signals of
`kernel/src/syscall/signal.rs` and `kernel/src/syscall/task.rs`, as compiled for
riscv64. User code is arbitrary: a run of it gives the trap frame and the user
contexts it leaves. The trampoline, the `SigInfo` and the old values that the
kernel puts into user memory are read by user code only and are left out.
-/

set_option autoImplicit false

namespace MonkeyOS.User

open Lib Tasks Fs
open MonkeyOS.Syscall (TimeVal ITimerVal ProcessTimer currentTimeval)

/-- `SignalUserContext`; the program counter stands beside the registers. -/
structure SignalUserContext where
  sigMask : SigProcMask
  pc : Nat
  gregs : Vector Nat 32

namespace SignalUserContext

def storeCtx (context : SignalUserContext) (cx : TrapFrame) : SignalUserContext :=
  { context with gregs := cx.x, pc := cx.sepc }

def restoreCtx (context : SignalUserContext) (cx : TrapFrame) : TrapFrame :=
  { cx with x := context.gregs, sepc := context.pc }

end SignalUserContext

/-- A thread with what it shares with the other threads of its process. -/
structure UserTask where
  taskId : Nat
  space : UserSpace
  /-- The leaf tables of the page table, by the bits 21 to 38 of the addresses they are for. -/
  leafTables : Nat → Bool
  sigaction : Vector SigAction 65
  /-- `timer[0]` -/
  timer : ProcessTimer
  sigmask : SigProcMask
  /-- `[usize; REAL_TIME_SIGNAL_NUM]` -/
  signalQueue : Vector Nat 33
  /-- User memory, by address, as a user context. -/
  contexts : Nat → SignalUserContext

def UserTask.new (taskId : Nat) (space : UserSpace) (contexts : Nat → SignalUserContext) : UserTask :=
  { taskId, space, contexts
    leafTables := fun _ => false
    sigaction := Vector.replicate 65 .new
    timer := .zero
    sigmask := .new
    signalQueue := Vector.replicate 33 0 }

def UserTask.lone : UserTask :=
  .new 1
    { process := .new 1 []
      machine := { frames := [], mem := fun _ => 0 }
      tls := { lastAddr := 0, count := 0 } }
    fun _ => { sigMask := .new, pc := 0, gregs := Vector.replicate 32 0 }

def lowFrame : TrapFrame :=
  { TrapFrame.new with x := Vector.replicate 32 0x10000, sepc := 0x10000 }

inductive UserTaskControlFlow where
  | Continue
  | Break
  deriving DecidableEq, Repr

inductive EscapeReason where
  | SysCall
  /-- Faults and interrupts, which are over when user code has stopped. -/
  | other
  deriving DecidableEq, Repr

/-- A poll of a system call. A call that ends may have replaced the trap frame. -/
inductive Reply where
  | pending
  | ready (cx : TrapFrame) (result : Nat)

structure UserRun where
  cx : TrapFrame
  leafTables : Nat → Bool
  contexts : Nat → SignalUserContext
  escape : EscapeReason
  /-- The mask behind the second argument, unless that is null. -/
  set : Option SigProcMask
  /-- The action behind the second argument, unless that is null. -/
  act : Option SigAction
  /-- Whether the third argument is not null. -/
  oldact : Bool
  /-- The first poll of the call, where its effect is not given here. -/
  reply : Reply

/-- What `handle_signal` keeps while the handler runs. -/
structure Saved where
  signal : SignalFlags
  taskMask : SigProcMask
  storeCx : TrapFrame
  uctxSp : Nat

/-- How far `handle_signal` comes before its loop. -/
inductive Handled where
  | returned (task : UserTask)
  /-- It returns with the trap frame at a handler whose restorer it refuses. -/
  | refused (task : UserTask) (saved : Saved)
  | entered (task : UserTask) (saved : Saved)

def Handled.task : Handled → UserTask
  | .returned task | .refused task _ | .entered task _ => task

def Errno.intoRaw : Errno → Nat
  | .EPERM => 1 | .ENOENT => 2 | .ESRCH => 3 | .EINTR => 4 | .E2BIG => 7 | .EBADF => 9 | .ECHILD => 10
  | .EAGAIN => 11 | .ENOMEM => 12 | .EFAULT => 14 | .EEXIST => 17 | .ENOTDIR => 20 | .EINVAL => 22
  | .ENFILE => 23 | .EMFILE => 24 | .ENOSYS => 38 | .ENOMSG => 42 | .ETIMEDOUT => 110

def answer : Except Errno Nat → Nat
  | .ok value => value
  | .error error => wrapSub 0 (Errno.intoRaw error)

def rtSigaction : Nat := 134
def rtSigprocmask : Nat := 135
def rtSigreturn : Nat := 139

/-- User addresses a signal may send a thread to. -/
abbrev validPc (address : Nat) : Prop := within 0x10000 0x800000000000 address

/-- User addresses a signal frame may lie at. -/
abbrev validSp (address : Nat) : Prop := within 0x1000 0x800000000000 address

def executable (memset : MemSet) (address : Nat) : Bool :=
  memset.any fun area => area.contains address ∧ area.mtype ∈ [.Mmap, .Stack, .CodeSection]

def holdsFrame (memset : MemSet) (first last : Nat) : Bool :=
  memset.any fun area => (area.contains first ∧ area.contains last) ∧ area.mtype ∈ [.Stack, .Mmap]

/-- Signals that end the process if the restorer of their handler is refused. -/
def terminating : List SignalFlags :=
  [.SIGCANCEL, .SIGSEGV, .SIGILL, .SIGABRT, .SIGQUIT, .SIGTERM, .SIGHUP, .SIGINT, .SIGPIPE, .SIGALRM,
    .SIGFPE, .SIGBUS, .SIGTRAP, .SIGXCPU, .SIGXFSZ, .SIGVTALRM, .SIGPROF]

def sigInfoSize : Nat := 128
def signalUserContextSize : Nat := 968
def trampolineSize : Nat := 16

namespace UserTask

def tcb (task : UserTask) : ThreadControlBlock := task.space.process.tcb task.taskId

def withTcb (task : UserTask) (tcb : ThreadControlBlock) : UserTask :=
  { task with space := { task.space with process := { task.space.process with
      tcb := Function.update task.space.process.tcb task.taskId tcb } } }

/-- `force_cx_ref` -/
def cx (task : UserTask) : TrapFrame := task.tcb.cx

def withCx (task : UserTask) (cx : TrapFrame) : UserTask := task.withTcb { task.tcb with cx }

def setReg (task : UserTask) (register : TrapFrameArgs) (value : Nat) : UserTask :=
  task.withCx (task.cx.indexMut register value)

def signal (task : UserTask) : SignalList := ⟨.ofNat 64 task.tcb.signal⟩

def withSignal (task : UserTask) (list : SignalList) : UserTask :=
  task.withTcb { task.tcb with signal := list.signal.toNat }

def addSignal (task : UserTask) (signal : SignalFlags) : UserTask :=
  task.withSignal (task.signal.addSignal signal)

def exitCode (task : UserTask) : Option Nat := task.space.process.pcb.exitCode

def memset (task : UserTask) : MemSet := task.space.process.pcb.memset

/-- `translate` answers with the entry of the leaf table, also if that is empty: then the
kernel faults on the page, which is mapped meanwhile if the call ever goes on. -/
def mapped (task : UserTask) (address : Nat) : Bool := task.leafTables (address / 2 ^ 21 % 2 ^ 18)

def checkThreadExit (task : UserTask) : Option Nat := task.exitCode.or task.tcb.threadExitCode

/-- The clock of `check_timer` finds a deadline that has passed and not been seen yet. -/
abbrev timerExpired (task : UserTask) (nsec : Nat) : Prop :=
  task.timer.next > task.timer.last ∧ currentTimeval nsec ≥ task.timer.next

def checkTimer (task : UserTask) (nsec : Nat) : UserTask :=
  if task.timerExpired nsec then
    { task.addSignal .SIGALRM with timer := { task.timer with last := task.timer.next } }
  else task

variable (around : Surroundings)

def exitWithSignal (task : UserTask) (signal : Nat) : UserTask :=
  { task with space := task.space.exitWithSignal around task.taskId signal }

/-! ## Setting up a handler and leaving it -/

def action (task : UserTask) (signal : SignalFlags) : SigAction :=
  task.sigaction.get ⟨signal.num, signal.num_lt⟩

/-- The bottom of the signal frame: trampoline, `SigInfo` and user context, with 128
bytes to spare. -/
def frameSp (currentSp : Nat) : Nat :=
  wrapSub (wrapSub currentSp 128) (trampolineSize + sigInfoSize + signalUserContextSize) / 16 * 16

def siginfoSp (sp : Nat) : Nat := wrapAdd sp trampolineSize

def uctxSp (sp : Nat) : Nat := wrapAdd (siginfoSp sp) sigInfoSize

/-- The checks of the signal frame; `handle_signal` returns at the first that fails. -/
abbrev frameFits (task : UserTask) (sp : Nat) : Prop :=
  (sp < task.cx .SP ∧ wrapSub (task.cx .SP) sp ≤ 64 * 1024) ∧ validSp sp ∧
    holdsFrame task.memset (siginfoSp sp) (wrapAdd (uctxSp sp) signalUserContextSize) ∧
    task.mapped (siginfoSp sp) ∧ task.mapped (uctxSp sp)

/-- The return address of the handler: the trampoline if there is no usable restorer. -/
def returnAddress (task : UserTask) (restorer sp originalPc : Nat) : Nat :=
  if restorer < 0x1000 then (if task.mapped sp then sp else originalPc) else restorer

/-- The registers are saved on the user stack and the frame is sent to the handler. -/
def redirect (task : UserTask) (sigaction : SigAction) (sp : Nat) : UserTask :=
  let context := { (task.contexts (uctxSp sp)).storeCtx task.cx with sigMask := sigaction.mask }
  let task := { task with contexts := Function.update task.contexts (uctxSp sp) context }
  (task.setReg .SP sp).setReg .SEPC sigaction.handler

/-- A restorer outside executable memory is passed over for two signals only. -/
abbrev restorerRefused (task : UserTask) (signal : SignalFlags) (restorer : Nat) : Prop :=
  restorer ≠ 0 ∧ ¬ executable task.memset restorer ∧ signal ∉ [SignalFlags.SIGUSR1, .SIGUSR2]

/-- `handle_signal` once the handler has passed its checks. -/
def setUp (task : UserTask) (signal : SignalFlags) : Handled :=
  let sigaction := task.action signal
  let sp := frameSp (task.cx .SP)
  let saved : Saved := { signal, taskMask := task.sigmask, storeCx := task.cx, uctxSp := uctxSp sp }
  let masked := { task with sigmask := sigaction.mask }
  if ¬ masked.frameFits sp then .returned masked
  else
    let redirected := masked.redirect sigaction sp
    if redirected.restorerRefused signal sigaction.restorer then
      .refused (if signal ∈ terminating then redirected.exitWithSignal around signal.num else redirected) saved
    else
      let ra := redirected.returnAddress sigaction.restorer sp (task.cx .SEPC)
      .entered ((((redirected.setReg .RA ra).setReg .ARG0 signal.num).setReg .ARG1 (siginfoSp sp)).setReg
        .ARG2 (uctxSp sp)) saved

/-- `handle_signal` up to its loop. -/
def handleSignal (task : UserTask) (signal : SignalFlags) : Handled :=
  let task := if signal = .SIGKILL then task.exitWithSignal around signal.num else task
  let handler := (task.action signal).handler
  if handler = 0 then
    .returned (if signal ∈ terminating ++ [.SIGUSR1, .SIGUSR2] then task.exitWithSignal around signal.num else task)
  else if handler = 1 then .returned task
  else if ¬ validPc handler then .returned (task.exitWithSignal around signal.num)
  else if ¬ executable task.memset handler then .returned (task.exitWithSignal around signal.num)
  else if signal = .SIGTIMER ∨ signal = .SIGCHLD then .returned task
  else task.setUp around signal

/-- `handle_signal` after its loop. -/
def leaveSignal (task : UserTask) (saved : Saved) : UserTask :=
  let task := { task with sigmask := saved.taskMask }.withCx saved.storeCx
  if ¬ task.mapped saved.uctxSp then task
  else
    let context := task.contexts saved.uctxSp
    if ¬ validPc context.pc then task else task.withCx (context.restoreCtx task.cx)

/-- The rest of a round of `check_signal`, after `handle_signal`. An index out of
range panics. -/
def completeSignal (task : UserTask) (signal : SignalFlags) : Option UserTask :=
  let removed := task.withSignal (task.signal.removeSignal signal)
  match signal.realTimeIndex with
  | none => some removed
  | some index => do
      let queued ← task.signalQueue[index]?
      if queued > 0 then
        some { removed.addSignal signal with signalQueue := task.signalQueue.setIfInBounds index (queued - 1) }
      else some removed

/-! ## Calls -/

/-- The part `sys_tkill` and `sys_tgkill` share, on the block of the target. -/
def sendSignal (task : UserTask) (signum : Nat) : Option UserTask :=
  let signal := SignalFlags.fromNum signum
  if ¬ task.signal.hasSig signal then some (task.addSignal signal)
  else
    match signal.realTimeIndex with
    | none => some task
    | some index => do
        let queued ← task.signalQueue[index]?
        some { task with signalQueue := task.signalQueue.setIfInBounds index (queued + 1) }

def tkillTarget (task : UserTask) (caller tid : Nat) : Option Nat :=
  if tid = caller then some caller
  else task.space.process.pcb.threads.find? fun thread => around.alive thread && thread == tid

def tgkillTarget (task : UserTask) (caller tgid tid : Nat) : Option Nat :=
  if tid = caller ∧ tgid = task.space.process.processId then some caller
  else task.space.process.pcb.threads.find? fun thread =>
    around.alive thread && (thread == tid && task.space.process.processId == tgid)

def sendTo (task : UserTask) (target : Option Nat) (error : Errno) (signum : Nat) :
    Option (Except Errno Nat × UserTask) :=
  match target with
  | none => some (.error error, task)
  | some target =>
    if target = task.taskId then do
      let task ← task.sendSignal signum
      some (.ok 0, task)
    else some (.ok 0, task)

def sysTkill (task : UserTask) (caller tid signum : Nat) : Option (Except Errno Nat × UserTask) :=
  task.sendTo (task.tkillTarget around caller tid) .ECHILD signum

def sysTgkill (task : UserTask) (caller tgid tid signum : Nat) : Option (Except Errno Nat × UserTask) :=
  task.sendTo (task.tgkillTarget around caller tgid tid) .ESRCH signum

def returnContext (cx : TrapFrame) : Nat := wrapAdd (cx .SP) (trampolineSize + sigInfoSize)

def sysSigreturn (task : UserTask) : Except Errno Nat × UserTask :=
  if ¬ validSp (task.cx .SP) then (.error .EFAULT, task)
  else if ¬ task.mapped (returnContext task.cx) then (.error .EFAULT, task)
  else
    let context := task.contexts (returnContext task.cx)
    (.ok 0, { task with sigmask := context.sigMask }.withCx (context.restoreCtx task.cx))

def sysSigprocmask (task : UserTask) (how : Nat) (set : Option SigProcMask) : Except Errno Nat × UserTask :=
  match SigMaskHow.fromUsize how, set with
  | none, _ => (.error .EINVAL, task)
  | some _, none => (.ok 0, task)
  | some how, some set => (.ok 0, { task with sigmask := task.sigmask.handle how set })

/-- An index out of range panics. -/
def sysSigaction (task : UserTask) (sig : Nat) (act : Option SigAction) (oldact : Bool) :
    Option (Except Errno Nat × UserTask) :=
  if (oldact ∨ act.isSome) ∧ sig ≥ 65 then none
  else
    match act with
    | none => some (.ok 0, task)
    | some act => some (.ok 0, { task with sigaction := task.sigaction.setIfInBounds sig act })

/-! ## User code and its calls -/

def pollSyscall (task : UserTask) : Reply → Poll UserTaskControlFlow × UserTask
  | .pending => (.pending, task)
  | .ready cx result => (.ready .Continue, (task.withCx cx).setReg .RET result)

def runUserTask (task : UserTask) (run : UserRun) : UserTask :=
  { task.withCx run.cx with leafTables := run.leafTables, contexts := run.contexts }

/-- The first poll of a call by its number, and its result in the register. -/
def syscall (task : UserTask) (id : Nat) (run : UserRun) : Option (Poll UserTaskControlFlow × UserTask) :=
  if id = rtSigprocmask then
    let (result, task) := task.sysSigprocmask (task.cx .ARG0) run.set
    some (.ready .Continue, task.setReg .RET (answer result))
  else if id = rtSigaction then do
    let (result, task) ← task.sysSigaction (task.cx .ARG0) run.act run.oldact
    some (.ready .Continue, task.setReg .RET (answer result))
  else some (task.pollSyscall run.reply)

def handleSyscall (task : UserTask) (run : UserRun) : Option (Poll UserTaskControlFlow × UserTask) :=
  let task := task.runUserTask run
  match run.escape with
  | .other => some (.ready .Continue, task)
  | .SysCall =>
    if task.cx .SYSCALL = rtSigreturn then
      let (result, task) := task.sysSigreturn
      some (.ready .Break, task.setReg .RET (answer result))
    else (task.setReg .SEPC (wrapAdd (task.cx .SEPC) 4)).syscall (task.cx .SYSCALL) run

end UserTask

end MonkeyOS.User
