import MonkeyOS.User.SignalProperties

/-! How the kernel loop of a thread ends, and how it comes back from a handler. Both
go wrong at `rt_sigreturn`, which is a `Break` of whichever loop runs user code:
outside a handler it ends the thread, and a handler whose arm of the race has been
dropped never gets back to what was saved for it. -/

set_option autoImplicit false

namespace MonkeyOS.User

open Lib Tasks UserTask

variable {around : Surroundings} {task taskAfter : UserTask} {event : LoopEvent} {notices : List Notice}

variable {run : UserRun} {signal : SignalFlags} {started : List Saved} {saved : Saved}

/-- Only `rt_sigreturn` breaks a loop; it touches no exit code and no user memory. -/
theorem UserTask.handleSyscall_break (ran : task.handleSyscall run = some (.ready .Break, taskAfter)) :
    (run.escape = .SysCall ∧ run.cx .SYSCALL = rtSigreturn) ∧
      taskAfter.checkThreadExit = task.checkThreadExit ∧ taskAfter.contexts = run.contexts := by
  have arrived : (task.runUserTask run).checkThreadExit = task.checkThreadExit := checkThreadExit_withCx ..
  generalize progress : Fs.Poll.ready UserTaskControlFlow.Break = broken at ran
  cases handleSyscall_called ran with
  | none | sigprocmask | sigaction => cases progress
  | sigreturn escape number =>
    refine ⟨⟨escape, number⟩, ?_⟩
    unfold setReg sysSigreturn
    rw [checkThreadExit_withCx]
    split
    · exact ⟨arrived, rfl⟩
    split
    · exact ⟨arrived, rfl⟩
    · exact ⟨(checkThreadExit_withCx ..).trans arrived, rfl⟩
  | polled =>
    cases reply : run.reply with
    | pending | ready => rw [reply] at progress; cases progress

theorem UserTask.handleSyscall_returns (escape : run.escape = .SysCall) (number : run.cx .SYSCALL = rtSigreturn) :
    task.handleSyscall run = some (.ready .Break, (task.runUserTask run).sysSigreturn.2.setReg .RET
      (answer (task.runUserTask run).sysSigreturn.1)) := by
  have arrived : (task.runUserTask run).cx = run.cx := cx_withCx ..
  unfold handleSyscall
  simp only [escape, arrived, number, if_true]

theorem UserTask.handleSyscall_sigreturn {progress : Fs.Poll UserTaskControlFlow}
    (ran : task.handleSyscall run = some (progress, taskAfter)) (escape : run.escape = .SysCall)
    (number : run.cx .SYSCALL = rtSigreturn) : progress = .ready .Break := by
  cases handleSyscall_called ran with
  | none other => rw [escape] at other; cases other
  | sigreturn => rfl
  | sigprocmask _ other | sigaction _ other => rw [number] at other; cases other
  | polled _ other => exact absurd number other

namespace EntryPoint

variable {before after start finish : EntryPoint} {label : Label} {labels : List Label}

/-! ## The end of the loop -/

def Exited (loop : EntryPoint) : Prop := loop.phase = .ended → loop.task.checkThreadExit.isSome

/-- Outside handlers user code makes no `rt_sigreturn`, unless an exit code is set. -/
def ReturnsInside (loop : EntryPoint) (event : LoopEvent) : Prop :=
  loop.phase = .enter → ∀ run, event = .user run → run.escape = .SysCall →
    run.cx .SYSCALL = rtSigreturn → loop.task.checkThreadExit.isSome

theorem exited_unlessExited {next : EntryPoint} (running : next.phase ≠ .ended) : (unlessExited task next).Exited := by
  unfold unlessExited
  split
  next exited => exact fun _ => exited
  · exact fun ended => absurd ended running

theorem Step.exited_iff (step : Step around before label after) (exited : before.Exited) :
    after.Exited ↔ ReturnsInside before label.1 := by
  cases step with
  | disturbed disturbs =>
    refine iff_of_true (fun ended => disturbs.effect.exits.2 (exited ended)) fun _ run is => ?_
    cases is
    cases disturbs
  | timer | checks | sleeps | pending | armRuns | armSleeps => exact iff_of_true nofun nofun
  | checked | armReturns => exact iff_of_true (exited_unlessExited nofun) nofun
  | @ran _ run flow _ ran =>
    cases flow with
    | Break =>
      obtain ⟨⟨escape, number⟩, same, -⟩ := handleSyscall_break ran
      constructor
      · intro ends _ _ _ _ _
        rw [← same]
        exact ends rfl
      · intro inside _
        exact same ▸ inside rfl run rfl escape number
    | Continue =>
      refine iff_of_true (exited_unlessExited nofun) fun _ _ is escape number => ?_
      cases is
      cases handleSyscall_sigreturn ran escape number
  | blocks ran =>
    refine iff_of_true nofun fun _ _ is escape number => ?_
    cases is
    cases handleSyscall_sigreturn ran escape number
  | ready polled =>
    cases polled
    exact iff_of_true (exited_unlessExited nofun) nofun

/-- The loop ends only by an exit if and only if no user code outside a handler makes
an `rt_sigreturn` before there is an exit code. -/
theorem ends_by_exit_iff (begins : start.phase = .top) :
    Run (fun before label after => Step around before label after ∧ after.Exited) start labels finish ↔
      Run (fun before label after => Step around before label after ∧ ReturnsInside before label.1)
        start labels finish := by
  have initial : start.Exited := fun ended => by rw [begins] at ended; cases ended
  constructor
  · intro run
    refine (run.assuming (fun _ step => step.2) initial).mono fun step => ⟨step.1.1, ?_⟩
    exact (step.1.1.exited_iff step.2).mp step.1.2
  · intro run
    refine (run.assuming (fun exited step => (step.1.exited_iff exited).mpr step.2) initial).mono
      fun step => ⟨step.1.1, ?_⟩
    exact (step.1.1.exited_iff step.2).mpr step.1.2

def calling (number : Nat) (reply : Reply) : UserRun where
  cx := lowFrame.indexMut .SYSCALL number
  leafTables := fun _ => true
  contexts := lone.contexts
  escape := .SysCall
  set := none
  act := none
  oldact := false
  reply := reply

theorem ends_by_exit_iff_killed :
    ∃ finish, Run (fun before label after => Step .alone before label after ∧ after.Exited) ⟨.lone, .top⟩
        [(.raise 9, []), (.timer 0, []), (.look 0, [.completed .SIGKILL]), (.look 0, [.returned])] finish ∧
      finish.phase = .ended := by
  obtain ⟨finish, run, ended⟩ : ∃ finish,
      Run (fun before label after => Step .alone before label after ∧ ReturnsInside before label.1) ⟨.lone, .top⟩
        [(.raise 9, []), (.timer 0, []), (.look 0, [.completed .SIGKILL]), (.look 0, [.returned])] finish ∧
      finish.phase = .ended :=
    ⟨_, .cons ⟨.disturbed .raise, nofun⟩ (.cons ⟨.timer, nofun⟩
      (.cons ⟨.checks (.returned (by decide +kernel) rfl rfl), nofun⟩
        (.cons ⟨.checked (.nothing (by decide +kernel)), nofun⟩ .refl))), rfl⟩
  exact ⟨finish, (ends_by_exit_iff rfl).mpr run, ended⟩

/-- `rt_sigreturn` outside a handler ends the loop of a live thread. -/
theorem sigreturn_ends_thread :
    ∃ finish, Run (Step .alone) ⟨.lone, .top⟩
        [(.timer 0, []), (.look 0, [.returned]), (.user (calling rtSigreturn .pending), [.ran none])] finish ∧
      finish.phase = .ended ∧ finish.task.checkThreadExit = none := by
  refine ⟨_, .cons .timer (.cons (.checked (.nothing (by decide +kernel))) (.cons (.ran rfl) .refl)), rfl, ?_⟩
  decide +kernel

end EntryPoint

/-! ## The way back from a handler -/

/-- A handler that can be returned from: its restorer is accepted, or its refusal
ends the process. -/
def UserTask.Returnable (task : UserTask) (signal : SignalFlags) : Prop :=
  (task.action signal).handler ≤ 1 ∨ ¬ task.restorerRefused signal (task.action signal).restorer ∨ signal ∈ terminating

theorem UserTask.setUp_refused (handles : task.setUp around signal = .refused taskAfter saved) :
    task.restorerRefused signal (task.action signal).restorer ∧ (signal ∈ terminating → taskAfter.exitCode.isSome) := by
  unfold setUp at handles
  extract_lets sigaction sp saved masked redirected at handles
  split at handles
  · cases handles
  split at handles
  next refused =>
    refine ⟨refused, fun terminates => ?_⟩
    rw [← (Handled.refused.inj handles).1, if_pos terminates, exitCode_exitWithSignal]
    rfl
  · cases handles

theorem UserTask.handleSignal_refused (handles : task.handleSignal around signal = .refused taskAfter saved)
    (returnable : task.Returnable signal) : taskAfter.exitCode.isSome := by
  by_cases kill : signal = .SIGKILL
  · exact (handleSignal_spec handles).2 kill
  unfold handleSignal at handles
  simp only [kill, if_false] at handles
  split at handles
  · cases handles
  split at handles
  · cases handles
  split at handles
  · cases handles
  split at handles
  · cases handles
  split at handles
  · cases handles
  · obtain ⟨refused, terminates⟩ := setUp_refused handles
    rcases returnable with _ | accepted | terminating
    · omega
    · exact absurd refused accepted
    · exact terminates terminating

theorem UserTask.leaveSignal_restores (task : UserTask) (saved : Saved) :
    (task.leaveSignal saved).sigmask = saved.taskMask ∧
      ((task.leaveSignal saved).cx = saved.storeCx ∨
        (task.leaveSignal saved).cx = (task.contexts saved.uctxSp).restoreCtx saved.storeCx) := by
  unfold leaveSignal
  dsimp only
  split
  · exact ⟨rfl, .inl (cx_withCx ..)⟩
  split
  · exact ⟨rfl, .inl (cx_withCx ..)⟩
  · exact ⟨rfl, .inr (by rw [cx_withCx, cx_withCx]; rfl)⟩

theorem SignalUserContext.restoreCtx_storeCtx (context : SignalUserContext) (cx : TrapFrame) :
    (context.storeCtx cx).restoreCtx cx = cx := rfl

/-- Handlers that were started and not returned from, the last first. -/
def follow (started : List Saved) : Notice → List Saved
  | .redirected saved => saved :: started
  | .restored _ => started.tail
  | _ => started

/-- The handlers that were started are the one that the loop is in, unless the
process has an exit code. -/
def Watches (task : UserTask) (started : List Saved) (handler : Option Saved) : Prop :=
  started = handler.toList ∨ task.exitCode.isSome

/-- What a step has to do with the handlers that were started. -/
structure Faithful (task : UserTask) (started : List Saved) (event : LoopEvent) (notices : List Notice)
    (after : UserTask) : Prop where
  /-- The interrupted frame and mask are saved. -/
  saves : ∀ saved, .redirected saved ∈ notices → saved.storeCx = task.cx ∧ saved.taskMask = task.sigmask
  /-- The one handler that is in progress calls `rt_sigreturn`: the saved mask comes
  back, and the frame as it was saved or as the handler left it in its context. -/
  restores : ∀ saved, .restored saved ∈ notices → started = [saved] ∧ after.sigmask = saved.taskMask ∧
    ∃ run, event = .user run ∧ (run.escape = .SysCall ∧ run.cx .SYSCALL = rtSigreturn) ∧
      (after.cx = saved.storeCx ∨ after.cx = (run.contexts saved.uctxSp).restoreCtx saved.storeCx)
  /-- User code runs in the handler in progress, or in none if there is none. -/
  inside : ∀ handler, .ran handler ∈ notices → Watches task started handler

theorem Faithful.of_idle
    (idle : ∀ notice ∈ notices, (∃ signal, notice = .sent signal ∨ notice = .completed signal) ∨ notice = .returned) :
    Faithful task started event notices taskAfter := by
  have excluded {notice : Notice} (listed : notice ∈ notices) := idle notice listed
  constructor
  · intro saved listed
    simpa using excluded listed
  · intro saved listed
    simpa using excluded listed
  · intro _ listed
    simpa using excluded listed

theorem Faithful.ran {started : List Saved} {handler : Option Saved} (watches : Watches task started handler) :
    Faithful task started event [.ran handler] taskAfter := by
  refine ⟨by simp, by simp, fun other listed => ?_⟩
  obtain rfl : other = handler := by simpa using listed
  exact watches

theorem Checks.faithful {check : Checking} {next : Next}
    (checks : Checks around task check event notices taskAfter next)
    (watches : Watches task started check.handler?)
    (returnable : ∀ now, event = .look now → ∀ signal, task.pending = some signal → task.Returnable signal) :
    Watches taskAfter (notices.foldl follow started) next.handler? ∧ Faithful task started event notices taskAfter := by
  cases checks with
  | nothing | still => exact ⟨watches, .of_idle (by simp)⟩
  | returned _ handles completes =>
    refine ⟨watches.imp_right ?_, .of_idle (by simp)⟩
    rw [(completeSignal_kept completes).1]
    exact (handleSignal_spec handles).1.exitCode
  | refused found handles completes =>
    obtain ⟨-, taskMask, storeCx⟩ := handleSignal_saved (.inr handles)
    have exited := handleSignal_refused handles (returnable _ rfl _ found)
    rw [← (completeSignal_kept completes).1] at exited
    exact ⟨.inr exited, by simp [storeCx, taskMask], by simp, by simp⟩
  | entered _ handles =>
    obtain ⟨-, taskMask, storeCx⟩ := handleSignal_saved (.inl handles)
    have exits := (handleSignal_spec handles).1.exitCode
    refine ⟨watches.imp (fun none => ?_) exits, by simp [storeCx, taskMask], by simp, by simp⟩
    rw [none]
    rfl
  | @exited saved taskAfter stopped completes =>
    have quiet : task.Quiet (task.leaveSignal saved) := quiet_leaveSignal .refl saved
    refine ⟨.inr ?_, .of_idle (by simp)⟩
    rw [(completeSignal_kept completes).1]
    exact quiet.exitCode stopped
  | continues _ ran | waits _ ran =>
    exact ⟨watches.imp_right (quiet_handleSyscall ran).exitCode, .ran watches⟩
  | @returns saved run left taskAfter alive ran completes =>
    have only : started = [saved] := watches.resolve_right (by rw [alive]; nofun)
    obtain ⟨call, -, contexts⟩ := handleSyscall_break ran
    obtain ⟨sigmask, cx⟩ := leaveSignal_restores left saved
    obtain ⟨-, -, sameMask, -, sameCx⟩ := completeSignal_kept completes
    rw [← sameMask] at sigmask
    rw [← sameCx, contexts] at cx
    refine ⟨.inl (by rw [only]; rfl), by simp, ?_, ?_⟩
    · intro other listed
      obtain rfl : other = saved := by simpa using listed
      exact ⟨only, sigmask, run, rfl, call, cx⟩
    · intro handler listed
      obtain rfl : handler = some saved := by simpa using listed
      exact watches
  | resumes polled => exact ⟨watches.imp_right (quiet_polled polled).exitCode, .of_idle (by simp)⟩

theorem UserTask.setUp_enters {signal : SignalFlags} (fits : task.frameFits (frameSp (task.cx .SP)))
    (accepted : ¬ task.restorerRefused signal (task.action signal).restorer) :
    ∃ after, task.setUp around signal = .entered after
      { signal, taskMask := task.sigmask, storeCx := task.cx, uctxSp := uctxSp (frameSp (task.cx .SP)) } := by
  unfold setUp
  extract_lets sigaction sp saved masked redirected ra
  split
  next unfit => exact absurd fits unfit
  split
  next refused => exact absurd refused accepted
  · exact ⟨_, rfl⟩

theorem UserTask.handleSignal_enters (signal : SignalFlags)
    (catchable : signal ∉ [SignalFlags.SIGKILL, .SIGTIMER, .SIGCHLD])
    (valid : validPc (task.action signal).handler) (code : executable task.memset (task.action signal).handler)
    (fits : task.frameFits (frameSp (task.cx .SP)))
    (accepted : ¬ task.restorerRefused signal (task.action signal).restorer) :
    task.handleSignal around signal = .entered (task.handleSignal around signal).task
      { signal, taskMask := task.sigmask, storeCx := task.cx, uctxSp := uctxSp (frameSp (task.cx .SP)) } := by
  obtain ⟨notKill, dropped⟩ : signal ≠ .SIGKILL ∧ ¬ (signal = .SIGTIMER ∨ signal = .SIGCHLD) := by
    simpa using catchable
  have alive : task.killed around signal = task := if_neg notKill
  have chosen : (task.action signal).handler ≠ 0 ∧ (task.action signal).handler ≠ 1 := by
    omega
  have handler : (task.killed around signal).HasHandler signal := by
    rw [alive]
    exact ⟨chosen, valid, code, dropped⟩
  obtain ⟨_, entered⟩ := setUp_enters fits accepted
  rw [handleSignal_hasHandler handler, alive, entered]
  rfl

namespace EntryPoint

/-- No call is answered while a handler waits in the other arm, unless the process
has an exit code, and no handler is set up that cannot be returned from. -/
structure Undropped (loop : EntryPoint) (event : LoopEvent) : Prop where
  unanswered : ∀ saved waiting cx result, loop.phase = .racing .first (.handler saved waiting) →
    event = .poll (.ready cx result) → loop.task.exitCode.isSome
  returnable : ∀ now, event = .look now → ∀ signal, loop.task.pending = some signal → loop.task.Returnable signal

variable {after before : EntryPoint} {label : Label} {check : Checking}

theorem Step.faithful (step : Step around before label after)
    (watches : Watches before.task started before.phase.handler?) (undropped : Undropped before label.1) :
    Watches after.task (label.2.foldl follow started) after.phase.handler? ∧
      Faithful before.task started label.1 label.2 after.task := by
  cases step with
  | @disturbed task _ _ notices taskAfter disturbs =>
    have unfollowed : notices.foldl follow started = started := by
      refine List.foldlRecOn (motive := (· = started)) notices follow rfl fun _ same notice listed => ?_
      obtain ⟨_, rfl⟩ := disturbs.notice listed
      exact same
    refine ⟨?_, .of_idle fun notice listed => .inl ((disturbs.notice listed).imp fun _ => .inl)⟩
    rw [unfollowed]
    exact watches.imp_right disturbs.effect.exits.1
  | timer =>
    rw [Watches, exitCode_checkTimer]
    exact ⟨watches, .of_idle (by simp)⟩
  | checks checks | sleeps checks | armRuns checks | armSleeps checks =>
    exact checks.faithful watches undropped.returnable
  | checked checks =>
    rw [unlessExited_handler rfl, unlessExited_task]
    exact checks.faithful watches undropped.returnable
  | ran ran =>
    rw [finish_handler, finish_task]
    exact ⟨watches.imp_right (quiet_handleSyscall ran).exitCode, .ran watches⟩
  | blocks ran => exact ⟨watches.imp_right (quiet_handleSyscall ran).exitCode, .ran watches⟩
  | pending => exact ⟨watches, .of_idle (by simp)⟩
  | @ready task check cx result _ taskAfter polled =>
    have exits := (quiet_polled polled).exitCode
    rw [finish_handler, finish_task]
    refine ⟨?_, .of_idle (by simp)⟩
    cases check with
    | look => exact watches.imp_right exits
    | handler saved waiting => exact .inr (exits (undropped.unanswered saved waiting cx result rfl rfl))
  | armReturns checks =>
    cases checks
    refine ⟨?_, .of_idle (by simp)⟩
    rw [unlessExited_handler rfl, unlessExited]
    split
    · exact watches
    · rw [Watches, exitCode_checkTimer]
      exact watches

/-- The loop with the handlers that were started, which it does not look at. -/
structure Watched where
  loop : EntryPoint
  started : List Saved

def WatchedStep (around : Surroundings) (before : Watched) (label : Label) (after : Watched) : Prop :=
  Step around before.loop label after.loop ∧ after.started = label.2.foldl follow before.started

theorem WatchedStep.next (step : Step around before label after) :
    WatchedStep around ⟨before, started⟩ label ⟨after, label.2.foldl follow started⟩ := ⟨step, rfl⟩

def Watched.Accounted (watched : Watched) : Prop :=
  Watches watched.loop.task watched.started watched.loop.phase.handler?

theorem WatchedStep.accounted {before after : Watched} (step : WatchedStep around before label after)
    (undropped : Undropped before.loop label.1) (accounted : before.Accounted) : after.Accounted := by
  rw [Watched.Accounted, step.2]
  exact (step.1.faithful accounted undropped).1

/-- As long as no call is answered over a waiting handler and every handler can be
returned from, a handler that was started is left by `rt_sigreturn` and the
interrupted frame and mask are put back before user code runs outside it. -/
theorem started_handlers_return {start finish : Watched} {labels : List Label}
    (begins : start.loop.phase = .top) (none : start.started = [])
    (run : Run (fun before label after =>
      WatchedStep around before label after ∧ Undropped before.loop label.1) start labels finish) :
    Run (fun before label after => WatchedStep around before label after ∧
      Faithful before.loop.task before.started label.1 label.2 after.loop.task) start labels finish := by
  have initial : start.Accounted := by
    rw [Watched.Accounted, begins, none]
    exact .inl rfl
  refine (run.assuming (fun accounted step => step.1.accounted step.2 accounted) initial).mono
    fun step => ⟨step.1.1, ?_⟩
  exact (step.1.1.1.faithful step.2 step.1.2).2

theorem Step.enters (checks : Checks around task check event notices taskAfter .returned)
    (alive : taskAfter.checkThreadExit = none) :
    Step around ⟨task, .checking check⟩ (event, notices) ⟨taskAfter, .enter⟩ := by
  have step := Step.checked checks
  rwa [unlessExited, alive] at step

theorem Step.answers {cx : TrapFrame} {result : Nat}
    (alive : ((task.withCx cx).setReg .RET result).checkThreadExit = none) :
    Step around ⟨task, .racing .first check⟩ (.poll (.ready cx result), [])
      ⟨(task.withCx cx).setReg .RET result, .top⟩ := by
  have step : Step around ⟨task, .racing .first check⟩ (.poll (.ready cx result), []) _ := .ready rfl
  rwa [finish, unlessExited, alive] at step

def catching : UserTask :=
  let process := Process.new 1 []
  { lone with
    space.process := { process with
      pageTable := PageTable.empty.mapPage 0xf000 0x80000 .urw
      pcb.memset :=
        [{ mtype := .Mmap, mtrackers := [⟨0xf000, 0x80000⟩], file := none, offset := 0, start := 0xf000
           len := 0x2000 }]
      tcb := fun _ => .new lowFrame }
    leafTables := fun table => table == 0
    sigaction := .replicate 65 { handler := 0x10000, restorer := 0, mask := ⟨SignalFlags.SIGUSR1.bits⟩ } }

def waitingIn (number : Nat) : TrapFrame := (calling number .pending).cx.indexMut .SEPC 0x10004

theorem handleSyscall_calling (task : UserTask) (number : Nat)
    (other : number ∉ [rtSigreturn, rtSigprocmask, rtSigaction]) :
    task.handleSyscall (calling number .pending) =
      some (.pending, (task.runUserTask (calling number .pending)).setReg .SEPC 0x10004) := by
  obtain ⟨notReturn, notMask, notAction⟩ :
      number ≠ rtSigreturn ∧ number ≠ rtSigprocmask ∧ number ≠ rtSigaction := by simpa using other
  have arrived : (task.runUserTask (calling number .pending)).cx = (calling number .pending).cx :=
    cx_withCx ..
  have called : (calling number .pending).cx .SYSCALL = number := lowFrame.index_indexMut_self .SYSCALL number
  unfold handleSyscall
  simp only [arrived, called]
  simp only [calling, notReturn, if_false, syscall, notMask, notAction, pollSyscall]
  rfl

theorem started_handlers_return_once :
    ∃ saved finish, Run (fun before label after => WatchedStep .alone before label after ∧
        Faithful before.loop.task before.started label.1 label.2 after.loop.task) ⟨⟨catching, .top⟩, []⟩
      [(.raise 10, []), (.timer 0, []), (.look 0, [.redirected saved]),
        (.user (calling rtSigreturn .pending), [.ran (some saved), .restored saved, .completed .SIGUSR1]),
        (.look 0, [.returned]), (.user (calling 63 .pending), [.ran none])] finish := by
  have undropped {loop : EntryPoint} {event : LoopEvent} (same : loop.task.sigaction = catching.sigaction)
      (unanswered : ∀ reply, event ≠ .poll reply) : Undropped loop event := by
    refine ⟨fun _ _ _ _ _ is => absurd is (unanswered _), fun _ _ signal _ => .inr (.inl fun refused => refused.1 ?_)⟩
    rw [action, same]
    simp [catching, Vector.get]
  refine ⟨_, _, started_handlers_return rfl rfl (.cons ⟨.next (.disturbed .raise), undropped ?_ nofun⟩
    (.cons ⟨.next .timer, undropped ?_ nofun⟩
      (.cons ⟨.next (.checks (.entered ?_ (handleSignal_enters .SIGUSR1 ?_ ?_ ?_ ?_ ?_))), undropped ?_ nofun⟩
        (.cons ⟨.next (.checks (.returns ?_ (handleSyscall_returns rfl rfl)
            (completeSignal_plain ?_))), undropped ?_ nofun⟩
          (.cons ⟨.next (.enters (.nothing ?_) ?_), undropped ?_ nofun⟩
            (.cons ⟨.next (.blocks (handleSyscall_calling _ 63 ?_)), undropped ?_ nofun⟩ .refl))))))⟩
  all_goals decide +kernel

/-- The interrupted call is answered while the handler waits in one of its own: the
arm with the handler is dropped, and the thread goes on in the handler's frame. -/
theorem handler_abandoned :
    ∃ saved middle finish, Run (WatchedStep .alone) ⟨⟨catching, .top⟩, []⟩
        [(.timer 0, []), (.look 0, [.returned]), (.user (calling 63 .pending), [.ran none]), (.raise 10, []),
          (.look 0, [.redirected saved]), (.user (calling 64 .pending), [.ran (some saved)]),
          (.poll (.ready (waitingIn 64) 0), []), (.timer 0, []), (.look 0, [.returned])] middle ∧
      middle.started = [saved] ∧ middle.loop.task.exitCode = none ∧
      middle.loop.task.cx .SYSCALL = 64 ∧ middle.loop.task.sigmask.blocks .SIGUSR1 ∧
      WatchedStep .alone middle (.user (calling 64 .pending), [.ran none]) finish := by
  refine ⟨_, _, _, .cons (.next .timer) (.cons (.next (.enters (.nothing ?_) ?_))
    (.cons (.next (.blocks (handleSyscall_calling _ 63 ?_))) (.cons (.next (.disturbed .raise))
      (.cons (.next (.armRuns (.entered ?_ (handleSignal_enters .SIGUSR1 ?_ ?_ ?_ ?_ ?_))))
        (.cons (.next (.armSleeps (.waits ?_ (handleSyscall_calling _ 64 ?_)))) (.cons (.next (.answers ?_))
          (.cons (.next .timer) (.cons (.next (.enters (.nothing ?_) ?_)) .refl)))))))),
    rfl, ?_, ?_, ?_, .next (.blocks (handleSyscall_calling _ 64 ?_))⟩
  all_goals decide +kernel

end EntryPoint

end MonkeyOS.User
