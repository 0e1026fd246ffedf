import MonkeyOS.User.EntryPoint
import MonkeyOS.User.Layout

/-! What the parts of the kernel loop leave alone: pending signals and their queues
change only by a send and at the end of a handling, and exit codes stay. -/

set_option autoImplicit false

namespace MonkeyOS.User

open Lib Tasks UserTask Option SignalFlags

namespace UserTask

variable {around : Surroundings} {task before middle after : UserTask}

@[simp] theorem tcb_withTcb (task : UserTask) (tcb : ThreadControlBlock) : (task.withTcb tcb).tcb = tcb :=
  Function.update_self ..

@[simp] theorem cx_withCx (task : UserTask) (cx : TrapFrame) : (task.withCx cx).cx = cx := by
  rw [UserTask.cx, withCx, tcb_withTcb]

@[simp] theorem signal_withCx (task : UserTask) (cx : TrapFrame) : (task.withCx cx).signal = task.signal := by
  rw [signal, withCx, tcb_withTcb, signal]

@[simp] theorem signal_withSignal (task : UserTask) (list : SignalList) : (task.withSignal list).signal = list := by
  rw [signal, withSignal, tcb_withTcb, BitVec.ofNat_toNat, BitVec.setWidth_eq]

@[simp] theorem cx_withSignal (task : UserTask) (list : SignalList) : (task.withSignal list).cx = task.cx := by
  rw [cx, withSignal, tcb_withTcb, cx]

@[simp] theorem checkThreadExit_withCx (task : UserTask) (cx : TrapFrame) :
    (task.withCx cx).checkThreadExit = task.checkThreadExit := by
  rw [checkThreadExit, withCx, tcb_withTcb]
  rfl

@[simp] theorem checkThreadExit_withSignal (task : UserTask) (list : SignalList) :
    (task.withSignal list).checkThreadExit = task.checkThreadExit := by
  rw [checkThreadExit, withSignal, tcb_withTcb]
  rfl

theorem exit_exitCode (space : UserSpace) (taskId code : Nat) :
    (space.exit around taskId code).process.pcb.exitCode = some code := by
  simp only [UserSpace.exit, Process.exit, Process.leaveThreads]
  split <;> rfl

@[simp] theorem tcb_exitWithSignal (task : UserTask) (signal : Nat) :
    (task.exitWithSignal around signal).tcb = task.tcb :=
  congrFun (exit_keeps ..).2.1 _

@[simp] theorem exitCode_checkTimer (task : UserTask) (now : Nat) : (task.checkTimer now).exitCode = task.exitCode := by
  unfold checkTimer
  split <;> rfl

@[simp] theorem exitCode_exitWithSignal (task : UserTask) (signal : Nat) :
    (task.exitWithSignal around signal).exitCode = some 0 :=
  exit_exitCode ..

/-- Neither signals nor queues change, and no exit code is taken back. -/
structure Quiet (before after : UserTask) : Prop where
  signal : after.signal = before.signal
  signalQueue : after.signalQueue = before.signalQueue
  exitCode : before.exitCode.isSome → after.exitCode.isSome
  checkThreadExit : before.checkThreadExit.isSome → after.checkThreadExit.isSome

namespace Quiet

theorem refl : Quiet task task := ⟨rfl, rfl, id, id⟩

theorem trans (left : Quiet before middle) (right : Quiet middle after) : Quiet before after where
  signal := right.signal.trans left.signal
  signalQueue := right.signalQueue.trans left.signalQueue
  exitCode := right.exitCode ∘ left.exitCode
  checkThreadExit := right.checkThreadExit ∘ left.checkThreadExit

variable (quiet : Quiet before task)
include quiet

theorem aside {leafTables : Nat → Bool} {sigaction : Vector SigAction 65} {sigmask : SigProcMask}
    {contexts : Nat → SignalUserContext} : Quiet before { task with leafTables, sigaction, sigmask, contexts } :=
  quiet.trans ⟨rfl, rfl, id, id⟩

theorem frame {cx : TrapFrame} : Quiet before (task.withCx cx) :=
  quiet.trans ⟨signal_withCx task cx, rfl, id, by rw [checkThreadExit_withCx]; exact id⟩

theorem register {register : TrapFrameArgs} {value : Nat} : Quiet before (task.setReg register value) := quiet.frame

theorem exit {signal : Nat} : Quiet before (task.exitWithSignal around signal) :=
  quiet.trans
    { signal := by rw [UserTask.signal, tcb_exitWithSignal, UserTask.signal]
      signalQueue := rfl
      exitCode := fun _ => by rw [exitCode_exitWithSignal]; rfl
      checkThreadExit := fun _ => by rw [UserTask.checkThreadExit, exitCode_exitWithSignal]; rfl }

theorem exitIf {condition : Prop} [Decidable condition] {signal : Nat} :
    Quiet before (if condition then task.exitWithSignal around signal else task) := by
  split
  · exact quiet.exit
  · exact quiet

end Quiet

open Quiet

theorem quiet_redirect (quiet : Quiet before task) (sigaction : SigAction) (sp : Nat) :
    Quiet before (task.redirect sigaction sp) := quiet.aside.register.register

theorem quiet_setUp (quiet : Quiet before task) (signal : SignalFlags) :
    Quiet before (task.setUp around signal).task := by
  unfold setUp
  extract_lets sigaction sp saved masked redirected
  have masks : Quiet before masked := quiet.aside
  have redirects : Quiet before redirected := quiet_redirect masks sigaction sp
  split
  · exact masks
  split
  · exact redirects.exitIf
  · exact redirects.register.register.register.register

variable {signal : SignalFlags} {progress : Fs.Poll UserTaskControlFlow} {saved : Saved} {handled : Handled}

theorem handleSignal_after
    (quiet : Quiet before (if signal = .SIGKILL then task.exitWithSignal around signal.num else task)) :
    Quiet before (task.handleSignal around signal).task := by
  unfold handleSignal
  extract_lets killed handler
  split
  · exact quiet.exitIf
  split
  · exact quiet
  split
  · exact quiet.exit
  split
  · exact quiet.exit
  split
  · exact quiet
  · exact quiet_setUp quiet signal

/-- A signal is kept pending until its handling is over, and `SIGKILL` sets an exit
code whatever action is installed for it. -/
theorem handleSignal_spec (handles : task.handleSignal around signal = handled) :
    Quiet task handled.task ∧ (signal = .SIGKILL → handled.task.exitCode.isSome) := by
  subst handles
  refine ⟨handleSignal_after refl.exitIf, fun kill => ?_⟩
  have quiet : Quiet (task.exitWithSignal around signal.num) (task.handleSignal around signal).task :=
    handleSignal_after (by rw [if_pos kill]; exact refl)
  exact quiet.exitCode (by rw [exitCode_exitWithSignal]; rfl)

theorem handleSignal_ignored (default : (task.action signal).handler = 0) (catchable : signal ≠ .SIGKILL)
    (harmless : signal ∉ terminating ++ [.SIGUSR1, .SIGUSR2]) :
    task.handleSignal around signal = .returned task := by
  simp only [handleSignal, catchable, default, harmless, if_true, if_false]

theorem quiet_leaveSignal (quiet : Quiet before task) (saved : Saved) : Quiet before (task.leaveSignal saved) := by
  unfold leaveSignal
  dsimp only
  split
  · exact quiet.aside.frame
  split
  · exact quiet.aside.frame
  · exact quiet.aside.frame.frame

theorem quiet_sysSigreturn (quiet : Quiet before task) : Quiet before task.sysSigreturn.2 := by
  unfold sysSigreturn
  split
  · exact quiet
  split
  · exact quiet
  · exact quiet.aside.frame

theorem quiet_sysSigprocmask (quiet : Quiet before task) (how : Nat) (set : Option SigProcMask) :
    Quiet before (task.sysSigprocmask how set).2 := by
  unfold sysSigprocmask
  split
  · exact quiet
  · exact quiet
  · exact quiet.aside

theorem quiet_sysSigaction {sig : Nat} {act : Option SigAction} {oldact : Bool} {reply : Except Errno Nat}
    (done : task.sysSigaction sig act oldact = some (reply, after)) (quiet : Quiet before task) :
    Quiet before after := by
  unfold sysSigaction at done
  split at done
  · cases done
  · split at done
    · cases done
      exact quiet
    · cases done
      exact quiet.aside

theorem quiet_pollSyscall (quiet : Quiet before task) (reply : Reply) : Quiet before (task.pollSyscall reply).2 := by
  cases reply with
  | pending => exact quiet
  | ready _ _ => exact quiet.frame.register

theorem quiet_polled {reply : Reply} (polled : task.pollSyscall reply = (progress, after)) : Quiet task after := by
  have quiet : Quiet task (task.pollSyscall reply).2 := quiet_pollSyscall refl reply
  rwa [polled] at quiet

theorem completeSignal_kept (completes : task.completeSignal signal = some after) :
    after.exitCode = task.exitCode ∧ after.checkThreadExit = task.checkThreadExit ∧
      after.sigmask = task.sigmask ∧ after.sigaction = task.sigaction ∧ after.cx = task.cx := by
  have removed (list : SignalList) : (task.withSignal list).checkThreadExit = task.checkThreadExit ∧
      (task.withSignal list).cx = task.cx :=
    ⟨checkThreadExit_withSignal task list, cx_withSignal task list⟩
  have added (list other : SignalList) :
      ((task.withSignal list).withSignal other).checkThreadExit = task.checkThreadExit ∧
        ((task.withSignal list).withSignal other).cx = task.cx :=
    ⟨(checkThreadExit_withSignal ..).trans (removed list).1, (cx_withSignal ..).trans (removed list).2⟩
  unfold completeSignal at completes
  cases realTime : signal.realTimeIndex with
  | none =>
    simp only [realTime] at completes
    cases completes
    exact ⟨rfl, (removed _).1, rfl, rfl, (removed _).2⟩
  | some _ =>
    simp only [realTime] at completes
    obtain ⟨_, -, rest⟩ := bind_eq_some_iff.mp completes
    split at rest
    · cases rest
      exact ⟨rfl, (added _ _).1, rfl, rfl, (added _ _).2⟩
    · cases rest
      exact ⟨rfl, (removed _).1, rfl, rfl, (removed _).2⟩

theorem completeSignal_plain (plain : signal.realTimeIndex = none) :
    task.completeSignal signal = some (task.withSignal (task.signal.removeSignal signal)) := by
  rw [completeSignal, plain]

inductive Called (task : UserTask) (run : UserRun) : Fs.Poll UserTaskControlFlow → UserTask → Prop where
  | none (escape : run.escape = .other) : Called task run (.ready .Continue) (task.runUserTask run)
  | sigreturn {value : Nat} (escape : run.escape = .SysCall) (number : run.cx .SYSCALL = rtSigreturn) :
      Called task run (.ready .Break) ((task.runUserTask run).sysSigreturn.2.setReg .RET value)
  | sigprocmask {pc value : Nat} (escape : run.escape = .SysCall) (number : run.cx .SYSCALL = rtSigprocmask) :
      Called task run (.ready .Continue)
        ((((task.runUserTask run).setReg .SEPC pc).sysSigprocmask (run.cx .ARG0) run.set).2.setReg .RET value)
  | sigaction {pc sig value : Nat} {reply : Except Errno Nat} {acted : UserTask}
      (escape : run.escape = .SysCall) (number : run.cx .SYSCALL = rtSigaction)
      (done : ((task.runUserTask run).setReg .SEPC pc).sysSigaction sig run.act run.oldact = some (reply, acted)) :
      Called task run (.ready .Continue) (acted.setReg .RET value)
  | polled {pc : Nat} (escape : run.escape = .SysCall) (number : run.cx .SYSCALL ≠ rtSigreturn) :
      Called task run (((task.runUserTask run).setReg .SEPC pc).pollSyscall run.reply).1
        (((task.runUserTask run).setReg .SEPC pc).pollSyscall run.reply).2

variable {run : UserRun} (ran : task.handleSyscall run = some (progress, after))
include ran

theorem handleSyscall_called : Called task run progress after := by
  have number : (task.runUserTask run).cx = run.cx := cx_withCx task run.cx
  have how (pc : Nat) : ((task.runUserTask run).setReg .SEPC pc).cx .ARG0 = run.cx .ARG0 := by
    rw [setReg, cx_withCx, number]
    rfl
  unfold handleSyscall at ran
  cases escape : run.escape with
  | other =>
    simp only [escape] at ran
    cases ran
    exact .none escape
  | SysCall =>
    simp only [escape, number, syscall] at ran
    split at ran
    next sigreturn =>
      cases ran
      exact .sigreturn escape sigreturn
    next other =>
    split at ran
    next sigprocmask =>
      rw [how] at ran
      cases ran
      exact .sigprocmask escape sigprocmask
    split at ran
    next sigaction =>
      obtain ⟨⟨_, _⟩, done, rest⟩ := bind_eq_some_iff.mp ran
      cases rest
      exact .sigaction escape sigaction done
    · obtain ⟨rfl, rfl⟩ := Prod.mk.inj (Option.some.inj ran)
      exact .polled escape other

theorem quiet_handleSyscall : Quiet task after := by
  have quiet : Quiet task (task.runUserTask run) := refl.frame.aside
  cases handleSyscall_called ran with
  | none => exact quiet
  | sigreturn => exact (quiet_sysSigreturn quiet).register
  | sigprocmask => exact (quiet_sysSigprocmask quiet.register ..).register
  | sigaction _ _ done => exact (quiet_sysSigaction done quiet.register).register
  | polled => exact quiet_pollSyscall quiet.register _

omit ran

theorem Keeps.quiet {space : UserSpace} (kept : task.Keeps space) (leafTables : Nat → Bool)
    (contexts : Nat → SignalUserContext) (timer : Syscall.ProcessTimer) :
    Quiet task { task with space, leafTables, contexts, timer } where
  signal := congrArg (fun bits => (⟨.ofNat 64 bits⟩ : SignalList)) kept.signal
  signalQueue := rfl
  exitCode := kept.exitCode
  checkThreadExit := by
    simp only [checkThreadExit, isSome_or, Bool.or_eq_true]
    exact Or.imp kept.exitCode kept.threadExitCode

/-! ## The signal taken next -/

theorem pending_eq_some (found : task.pending = some signal) :
    ∃ index < 64, signal = .bit index ∧ task.signal.hasSig (.bit index) ∧
      task.sigmask.blocks (.bit index) = false ∧
      ∀ lower < index, task.signal.hasSig (.bit lower) → task.sigmask.blocks (.bit lower) := by
  obtain ⟨index, low, rfl, holds, first⟩ := SignalList.tryGetSignal_eq_some found
  rw [SignalList.hasSig_mask _ _ low, Bool.and_eq_true] at holds
  refine ⟨index, low, rfl, holds.1, by simpa using holds.2, fun lower below held => ?_⟩
  have masked := first lower below
  rw [SignalList.hasSig_mask _ _ (below.trans low), held] at masked
  simpa using masked

theorem pending_eq_none {index : Nat} (none : task.pending = none) (low : index < 64)
    (held : task.signal.hasSig (.bit index)) : task.sigmask.blocks (.bit index) := by
  have masked := SignalList.tryGetSignal_eq_none none low
  rw [SignalList.hasSig_mask _ _ low, held] at masked
  simpa using masked

/-! ## Handlers in progress -/

/-- A handler in progress: its signal is still pending, and a killed process has its
exit code already. -/
structure Handling (task : UserTask) (saved : Saved) : Prop where
  single : ∃ index < 64, saved.signal = .bit index
  pending : task.signal.hasSig saved.signal
  killed : saved.signal = .SIGKILL → task.exitCode.isSome

theorem Quiet.handling (quiet : Quiet before after) (handling : Handling before saved) :
    Handling after saved where
  single := handling.single
  pending := by rw [quiet.signal]; exact handling.pending
  killed kill := quiet.exitCode (handling.killed kill)

theorem setUp_saved
    (handles : task.setUp around signal = .entered after saved ∨ task.setUp around signal = .refused after saved) :
    saved.signal = signal ∧ saved.taskMask = task.sigmask ∧ saved.storeCx = task.cx := by
  unfold setUp at handles
  extract_lets at handles
  split at handles
  · simp at handles
  split at handles
  all_goals
    simp only [reduceCtorEq, false_or, or_false, Handled.entered.injEq, Handled.refused.injEq] at handles
    rw [← handles.2]
    exact ⟨rfl, rfl, rfl⟩

structure Unnoticed (task after : UserTask) : Prop where
  sigmask : after.sigmask = task.sigmask
  cx : after.cx = task.cx

/-- `SIGKILL` ends the process before its action is looked at. -/
def killed (around : Surroundings) (task : UserTask) (signal : SignalFlags) : UserTask :=
  if signal = .SIGKILL then task.exitWithSignal around signal.num else task

/-- The action has a handler at an address where code may be, and the signal is not one
that is always dropped. -/
def HasHandler (task : UserTask) (signal : SignalFlags) : Prop :=
  ((task.action signal).handler ≠ 0 ∧ (task.action signal).handler ≠ 1) ∧ validPc (task.action signal).handler ∧
    executable task.memset (task.action signal).handler ∧ ¬ (signal = .SIGTIMER ∨ signal = .SIGCHLD)

theorem Unnoticed.refl (task : UserTask) : Unnoticed task task := ⟨rfl, rfl⟩

theorem Unnoticed.exit (unnoticed : Unnoticed task after) (signal : Nat) :
    Unnoticed task (after.exitWithSignal around signal) :=
  ⟨unnoticed.sigmask, by rw [UserTask.cx, tcb_exitWithSignal]; exact unnoticed.cx⟩

theorem Unnoticed.exitIf {condition : Prop} [Decidable condition] (unnoticed : Unnoticed task after) (signal : Nat) :
    Unnoticed task (if condition then after.exitWithSignal around signal else after) := by
  split
  · exact unnoticed.exit signal
  · exact unnoticed

theorem killed_unnoticed (task : UserTask) (signal : SignalFlags) : Unnoticed task (task.killed around signal) :=
  (Unnoticed.refl task).exitIf signal.num

theorem handleSignal_hasHandler (handler : (task.killed around signal).HasHandler signal) :
    task.handleSignal around signal = (task.killed around signal).setUp around signal := by
  obtain ⟨⟨nonzero, notOne⟩, valid, code, taken⟩ := handler
  exact (if_neg nonzero).trans ((if_neg notOne).trans ((if_neg (not_not.mpr valid)).trans
    ((if_neg (not_not.mpr code)).trans (if_neg taken))))

theorem handleSignal_noHandler (missing : ¬ (task.killed around signal).HasHandler signal) :
    ∃ after, task.handleSignal around signal = .returned after ∧ Unnoticed task after := by
  unfold handleSignal
  extract_lets ready handler
  have start : Unnoticed task ready := killed_unnoticed task signal
  split
  · exact ⟨_, rfl, start.exitIf _⟩
  split
  · exact ⟨_, rfl, start⟩
  split
  · exact ⟨_, rfl, start.exit _⟩
  split
  · exact ⟨_, rfl, start.exit _⟩
  split
  · exact ⟨_, rfl, start⟩
  · next nonzero notOne valid code taken =>
    exact absurd ⟨⟨nonzero, notOne⟩, not_not.mp valid, not_not.mp code, taken⟩ missing

theorem handleSignal_setUp (handles : task.handleSignal around signal = handled)
    (chosen : ∀ after, handled ≠ .returned after) :
    ∃ killed : UserTask, killed.setUp around signal = handled ∧ killed.sigmask = task.sigmask ∧
      killed.cx = task.cx := by
  by_cases handler : (task.killed around signal).HasHandler signal
  · have unnoticed : Unnoticed task (task.killed around signal) := killed_unnoticed task signal
    exact ⟨_, (handleSignal_hasHandler handler).symm.trans handles, unnoticed.sigmask, unnoticed.cx⟩
  · obtain ⟨after, returns, -⟩ := handleSignal_noHandler handler
    exact absurd (handles.symm.trans returns) (chosen after)

theorem handleSignal_saved
    (handles : task.handleSignal around signal = .entered after saved ∨
      task.handleSignal around signal = .refused after saved) :
    saved.signal = signal ∧ saved.taskMask = task.sigmask ∧ saved.storeCx = task.cx := by
  rcases handles with entered | refused
  · obtain ⟨killed, setUp, sigmask, cx⟩ := handleSignal_setUp entered (by simp)
    rw [← sigmask, ← cx]
    exact setUp_saved (.inl setUp)
  · obtain ⟨killed, setUp, sigmask, cx⟩ := handleSignal_setUp refused (by simp)
    rw [← sigmask, ← cx]
    exact setUp_saved (.inr setUp)

end UserTask

/-! ## What a step does to pending signals -/

inductive Effect (before : UserTask) (event : LoopEvent) (notices : List Notice) (after : UserTask) : Prop where
  | quiet (quiet : before.Quiet after) (sent : sends notices = []) (completed : completions notices = [])
  | sent {signum : Nat} (send : before.sendSignal signum = some after)
      (sent : sends notices = [.fromNum signum]) (completed : completions notices = [])
  | raised {signal : SignalFlags} (source : signal = .SIGALRM ∨ ∃ num, event = .raise num ∧ signal = .fromNum num)
      (raises : (before.addSignal signal).Quiet after) (sent : sends notices = [])
      (completed : completions notices = [])
  | completed {index : Nat} {handled : UserTask} (low : index < 64) (quiet : before.Quiet handled)
      (pending : before.signal.hasSig (.bit index))
      (killed : bit index = .SIGKILL → handled.exitCode.isSome)
      (completes : handled.completeSignal (.bit index) = some after)
      (sent : sends notices = []) (completed : completions notices = [.bit index])

variable {around : Surroundings} {task after : UserTask} {event : LoopEvent} {notices : List Notice}

variable {reply : Except Errno Nat} {signum : Nat} {before : UserTask}

variable {error : Errno} {target : Option Nat} (done : task.sendTo target error signum = some (reply, after))
include done

theorem sendTo_cases :
    (target = some task.taskId ∧ task.sendSignal signum = some after) ∨ (target ≠ some task.taskId ∧ after = task) := by
  unfold sendTo at done
  cases target with
  | none =>
    cases done
    exact .inr ⟨nofun, rfl⟩
  | some target =>
    by_cases own : target = task.taskId
    · simp only [own, if_pos] at done
      obtain ⟨_, send, rest⟩ := bind_eq_some_iff.mp done
      cases rest
      exact .inl ⟨congrArg some own, send⟩
    · simp only [own, if_neg, not_false_eq_true] at done
      cases done
      exact .inr ⟨fun same => own (Option.some.inj same), rfl⟩

private theorem sendTo_effect : Effect task event (sentTo task target signum) after := by
  rcases sendTo_cases done with ⟨own, send⟩ | ⟨foreign, rfl⟩
  · rw [sentTo, if_pos own]
    exact .sent send rfl rfl
  · rw [sentTo, if_neg foreign]
    exact .quiet .refl rfl rfl

omit done

theorem Disturbs.effect (disturbs : Disturbs around task event notices after) : Effect task event notices after := by
  cases disturbs with
  | tkill done | tgkill done => exact sendTo_effect done
  | @raise num => exact .raised (.inr ⟨num, rfl, rfl⟩) .refl rfl rfl
  | sigaction done => exact .quiet (quiet_sysSigaction done .refl) rfl rfl
  | work kept => exact .quiet (kept.quiet ..) rfl rfl

variable {check : Checking} {next : Next} (checks : Checks around task check event notices after next)
  (held : ∀ saved, check.handler? = some saved → task.Handling saved)

include checks held in
theorem Checks.effect : Effect task event notices after := by
  cases checks with
  | nothing | still => exact .quiet .refl rfl rfl
  | returned found handles completes | refused found handles completes =>
    obtain ⟨index, low, rfl, pending, -⟩ := pending_eq_some found
    obtain ⟨quiet, killed⟩ := handleSignal_spec handles
    exact .completed low quiet pending killed completes rfl rfl
  | entered _ handles => exact .quiet (handleSignal_spec handles).1 rfl rfl
  | @exited saved after stopped completes =>
    obtain ⟨⟨index, low, is⟩, pending, -⟩ := held saved rfl
    have quiet : task.Quiet (task.leaveSignal saved) := quiet_leaveSignal .refl saved
    rw [is] at pending completes
    exact .completed low quiet pending (fun _ => quiet.exitCode stopped) completes rfl (by rw [is]; rfl)
  | continues _ ran | waits _ ran => exact .quiet (quiet_handleSyscall ran) rfl rfl
  | @returns saved _ _ after _ ran completes =>
    obtain ⟨⟨index, low, is⟩, pending, killed⟩ := held saved rfl
    have quiet := quiet_leaveSignal (quiet_handleSyscall ran) saved
    rw [is] at pending completes killed
    exact .completed low quiet pending (fun kill => quiet.exitCode (killed kill)) completes rfl (by rw [is]; rfl)
  | resumes polled => exact .quiet (quiet_polled polled) rfl rfl

theorem checkTimer_effect (now : Nat) (sent : sends notices = []) (completed : completions notices = []) :
    Effect task event notices (task.checkTimer now) := by
  unfold checkTimer
  split
  · exact .raised (.inl rfl) ⟨rfl, rfl, id, id⟩ sent completed
  · exact .quiet .refl sent completed

theorem sendSignal_cases (send : task.sendSignal signum = some after) :
    (task.signal.hasSig (.fromNum signum) = false ∧ after = task.addSignal (.fromNum signum)) ∨
      (task.signal.hasSig (.fromNum signum) = true ∧ (fromNum signum).realTimeIndex = none ∧
        after = task) ∨
      (task.signal.hasSig (.fromNum signum) = true ∧
        ∃ index queued, (fromNum signum).realTimeIndex = some index ∧
          task.signalQueue[index]? = some queued ∧
          after = { task with signalQueue := task.signalQueue.setIfInBounds index (queued + 1) }) := by
  unfold sendSignal at send
  cases held : task.signal.hasSig (.fromNum signum) with
  | false =>
    simp only [held, Bool.false_eq_true, not_false_eq_true, if_pos, Option.some.injEq] at send
    exact .inl ⟨rfl, send.symm⟩
  | true =>
    simp only [held, not_true_eq_false, if_false] at send
    cases realTime : (fromNum signum).realTimeIndex with
    | none =>
      simp only [realTime, Option.some.injEq] at send
      exact .inr (.inl ⟨rfl, rfl, send.symm⟩)
    | some index =>
      simp only [realTime] at send
      obtain ⟨queued, found, rest⟩ := bind_eq_some_iff.mp send
      exact .inr (.inr ⟨rfl, index, queued, rfl, found, (Option.some.inj rest).symm⟩)

theorem addSignal_hasSig (task : UserTask) (signal : SignalFlags) {index : Nat} (low : index < 64) :
    (task.addSignal signal).signal.hasSig (.bit index) =
      (task.signal.hasSig (.bit index) || signal.bits.getLsbD index) := by
  rw [addSignal, signal_withSignal, SignalList.hasSig_addSignal _ _ low]

theorem Effect.handling {saved : Saved} (effect : Effect before event notices after)
    (uncompleted : completions notices = []) (handling : before.Handling saved) : after.Handling saved := by
  obtain ⟨⟨_, low, is⟩, pending, killed⟩ := id handling
  have added (signal : SignalFlags) : (before.addSignal signal).Handling saved :=
    { single := handling.single
      pending := by rw [is, addSignal_hasSig _ _ low, ← is, pending]; rfl
      killed := killed }
  cases effect with
  | quiet quiet => exact quiet.handling handling
  | sent send =>
    rcases sendSignal_cases send with ⟨-, rfl⟩ | ⟨-, -, rfl⟩ | ⟨-, _, _, -, -, rfl⟩
    · exact added _
    · exact handling
    · exact ⟨handling.single, pending, killed⟩
  | raised _ raises => exact raises.handling (added _)
  | completed _ _ _ _ _ _ completed =>
    rw [uncompleted] at completed
    cases completed

theorem Effect.exits (effect : Effect before event notices after) :
    (before.exitCode.isSome → after.exitCode.isSome) ∧
      (before.checkThreadExit.isSome → after.checkThreadExit.isSome) := by
  have added (signal : SignalFlags) : (before.addSignal signal).checkThreadExit = before.checkThreadExit :=
    checkThreadExit_withSignal ..
  cases effect with
  | quiet quiet => exact ⟨quiet.exitCode, quiet.checkThreadExit⟩
  | sent send =>
    rcases sendSignal_cases send with ⟨-, rfl⟩ | ⟨-, -, rfl⟩ | ⟨-, _, _, -, -, rfl⟩
    · exact ⟨id, by rw [added]; exact id⟩
    · exact ⟨id, id⟩
    · exact ⟨id, id⟩
  | raised _ raises =>
    refine ⟨raises.exitCode, fun exited => raises.checkThreadExit ?_⟩
    rw [added]
    exact exited
  | completed _ quiet _ _ completes =>
    obtain ⟨exitCode, checkThreadExit, -⟩ := completeSignal_kept completes
    rw [exitCode, checkThreadExit]
    exact ⟨quiet.exitCode, quiet.checkThreadExit⟩

theorem Disturbs.notice (disturbs : Disturbs around task event notices after) {notice : Notice}
    (listed : notice ∈ notices) : ∃ signal, notice = .sent signal := by
  have sentTo {target : Option Nat} {signum : Nat} (listed : notice ∈ sentTo task target signum) :
      ∃ signal, notice = .sent signal := by
    unfold User.sentTo at listed
    split at listed
    · exact ⟨_, List.mem_singleton.mp listed⟩
    · cases listed
  cases disturbs with
  | tkill | tgkill => exact sentTo listed
  | raise | sigaction | work => cases listed

theorem Disturbs.uncompleted (disturbs : Disturbs around task event notices after) : completions notices = [] := by
  refine List.filterMap_eq_nil_iff.mpr fun notice listed => ?_
  obtain ⟨_, rfl⟩ := disturbs.notice listed
  rfl

include checks held in
theorem Checks.handling : ∀ saved, next.handler? = some saved → after.Handling saved := by
  have effect := checks.effect held
  cases checks with
  | nothing | returned | refused | exited | returns => nofun
  | entered found handles =>
    intro saved is
    cases is
    obtain ⟨index, low, rfl, pending, -⟩ := pending_eq_some found
    obtain ⟨quiet, killed⟩ := handleSignal_spec handles
    obtain ⟨signal, -⟩ := handleSignal_saved (.inl handles)
    refine ⟨⟨index, low, signal⟩, ?_, fun kill => killed (signal.symm.trans kill)⟩
    rw [signal]
    exact (congrArg (fun list => list.hasSig (.bit index)) quiet.signal).trans pending
  | continues | waits | still | resumes => exact fun saved is => effect.handling rfl (held saved is)

namespace EntryPoint

variable {before after : EntryPoint} {label : Label}

theorem unlessExited_task (task : UserTask) (phase : Phase) : (unlessExited task ⟨task, phase⟩).task = task := by
  unfold unlessExited
  split <;> rfl

theorem unlessExited_handler {next : EntryPoint} (free : next.phase.handler? = none) :
    (unlessExited task next).phase.handler? = none := by
  unfold unlessExited
  split
  · rfl
  · exact free

theorem finish_task (task : UserTask) (flow : UserTaskControlFlow) : (finish task flow).task = task := by
  cases flow with
  | Break => rfl
  | Continue => exact unlessExited_task ..

theorem finish_handler (task : UserTask) (flow : UserTaskControlFlow) : (finish task flow).phase.handler? = none := by
  cases flow with
  | Break => rfl
  | Continue => exact unlessExited_handler rfl

def Sane (loop : EntryPoint) : Prop :=
  ∀ saved, loop.phase.handler? = some saved → loop.task.Handling saved

theorem Sane.of_free {loop : EntryPoint} (free : loop.phase.handler? = none) : loop.Sane := by
  intro _ is
  rw [free] at is
  cases is

theorem Step.effect (step : Step around before label after) (sane : before.Sane) :
    Effect before.task label.1 label.2 after.task := by
  cases step with
  | disturbed disturbs => exact disturbs.effect
  | timer => exact checkTimer_effect _ rfl rfl
  | checks checks | sleeps checks | armRuns checks | armSleeps checks => exact checks.effect sane
  | checked checks =>
    rw [unlessExited_task]
    exact checks.effect sane
  | ran ran =>
    rw [finish_task]
    exact .quiet (quiet_handleSyscall ran) rfl rfl
  | blocks ran => exact .quiet (quiet_handleSyscall ran) rfl rfl
  | pending => exact .quiet .refl rfl rfl
  | ready polled =>
    rw [finish_task]
    exact .quiet (quiet_polled polled) rfl rfl
  | armReturns checks =>
    cases checks with
    | nothing =>
      unfold unlessExited
      split
      · exact .quiet .refl rfl rfl
      · exact checkTimer_effect _ rfl rfl

theorem Step.sane (step : Step around before label after) (sane : before.Sane) : after.Sane := by
  cases step with
  | disturbed disturbs =>
    exact fun saved is => disturbs.effect.handling disturbs.uncompleted (sane saved is)
  | timer | blocks => exact .of_free rfl
  | checks checks | sleeps checks | armRuns checks | armSleeps checks => exact checks.handling sane
  | checked | armReturns => exact .of_free (unlessExited_handler rfl)
  | ran | ready => exact .of_free (finish_handler ..)
  | pending => exact sane

end EntryPoint

end MonkeyOS.User
