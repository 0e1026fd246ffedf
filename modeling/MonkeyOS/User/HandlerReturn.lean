import MonkeyOS.User.EntryPointProperties

/-! A handler that runs to `rt_sigreturn` is not noticed by the code it interrupts.
The frame is kept twice, as a clone in the kernel and in the user context, and so is
the mask; `sys_sigreturn` overwrites both with those of the handler, and the end of
`handle_signal` puts them back. -/

set_option autoImplicit false

namespace MonkeyOS.User

open Lib Tasks

variable {around : Surroundings} {task taskAfter : UserTask} {event : LoopEvent} {notices : List Notice} {saved : Saved}
  {check : Checking} {next : Next}

namespace UserTask

variable {signal : SignalFlags}

theorem setUp_context (enters : task.setUp around signal = .entered taskAfter saved) :
    (taskAfter.contexts saved.uctxSp).restoreCtx task.cx = task.cx := by
  unfold setUp at enters
  extract_lets sigaction sp kept masked redirected ra at enters
  split at enters
  · cases enters
  split at enters
  · cases enters
  obtain ⟨rfl, rfl⟩ := Handled.entered.inj enters
  have context : redirected.contexts (uctxSp sp) =
      { (task.contexts (uctxSp sp)).storeCtx task.cx with sigMask := sigaction.mask } := Function.update_self ..
  exact context ▸ SignalUserContext.restoreCtx_storeCtx (task.contexts (uctxSp sp)) task.cx

theorem handleSignal_context (enters : task.handleSignal around signal = .entered taskAfter saved) :
    (taskAfter.contexts saved.uctxSp).restoreCtx task.cx = task.cx := by
  obtain ⟨_, setUp, -, cx⟩ := handleSignal_setUp enters (by simp)
  rw [← cx]
  exact setUp_context setUp

end UserTask

theorem Checks.enters_handler {now : Nat}
    (checks : Checks around task check (.look now) [.redirected saved] taskAfter next) :
    (∃ signal, task.handleSignal around signal = .entered taskAfter saved) ∧ next.handler? = some saved := by
  cases checks with
  | entered _ handles => exact ⟨⟨_, handles⟩, rfl⟩

/-- `check_signal` stays in the handler it is in until it leaves it. -/
theorem Checks.same_handler
    (checks : Checks around task check event notices taskAfter next) (inside : check.handler? = some saved)
    (still : next.handler?.isSome) : next.handler? = some saved := by
  cases checks with
  | nothing | returned | refused | exited | returns => cases still
  | entered => cases inside
  | continues | waits | still | resumes => exact inside

namespace EntryPoint

variable {before after start entered last finish : EntryPoint} {label : Label} {labels : List Label}

theorem Step.enters_handler {now : Nat} (step : Step around before (.look now, [.redirected saved]) after) :
    (∃ signal, before.task.handleSignal around signal = .entered after.task saved) ∧
      after.phase.handler? = some saved := by
  cases step with
  | disturbed disturbs => cases disturbs
  | checks checks | sleeps checks | armRuns checks | armSleeps checks => exact checks.enters_handler
  | checked checks | armReturns checks => cases checks

theorem Step.same_handler (step : Step around before label after) (inside : before.phase.handler? = some saved)
    (still : after.phase.handler?.isSome) : after.phase.handler? = some saved := by
  cases step with
  | disturbed | pending => exact inside
  | timer | ran | blocks => cases inside
  | checks checks | sleeps checks | armRuns checks | armSleeps checks => exact checks.same_handler inside still
  | checked | armReturns =>
    rw [unlessExited_handler rfl] at still
    cases still
  | ready =>
    rw [finish_handler] at still
    cases still

/-- A handler is entered, the loop stays in it however often user code runs and the
rest of the system acts, and it calls `rt_sigreturn` with its user context as it was. -/
theorem completed_handler_is_transparent {now : Nat} {run : UserRun} {returned : Saved}
    (enters : Step around start (.look now, [.redirected saved]) entered)
    (handles : Run (fun before label after => Step around before label after ∧ after.phase.handler?.isSome)
      entered labels last)
    (returns : Step around last (.user run, notices) finish) (restores : .restored returned ∈ notices)
    (unmodified : run.contexts saved.uctxSp = entered.task.contexts saved.uctxSp) :
    finish.task.cx = start.task.cx ∧ finish.task.sigmask = start.task.sigmask := by
  obtain ⟨⟨signal, sets⟩, inside⟩ := enters.enters_handler
  obtain ⟨-, taskMask, storeCx⟩ := UserTask.handleSignal_saved (.inl sets)
  have kept : last.phase.handler? = some saved :=
    @Run.preserves _ _ _ (fun loop => loop.phase.handler? = some saved)
      (fun inside step => step.1.same_handler inside step.2) _ _ _ handles inside
  have watches : Watches last.task [saved] last.phase.handler? := .inl (by rw [kept]; rfl)
  obtain ⟨only, sigmask, other, same, -, cx⟩ :=
    (returns.faithful watches ⟨fun _ _ _ _ _ => nofun, fun _ => nofun⟩).2.restores returned restores
  cases only
  cases same
  rw [unmodified, storeCx, UserTask.handleSignal_context sets, or_self] at cx
  exact ⟨cx, sigmask.trans taskMask⟩

def signalled : UserTask := catching.addSignal .SIGUSR1

def interrupted : Saved where
  signal := .SIGUSR1
  taskMask := signalled.sigmask
  storeCx := signalled.cx
  uctxSp := UserTask.uctxSp (UserTask.frameSp (signalled.cx .SP))

def handling : UserTask := (signalled.handleSignal .alone .SIGUSR1).task

def called : UserTask := ((handling.runUserTask (calling 64 .pending)).setReg .SEPC 0x10004).withCx (waitingIn 64)

theorem completed_handler_is_transparent_once :
    ∃ finish,
      Step .alone ⟨signalled, .checking .look⟩ (.look 0, [.redirected interrupted])
        ⟨handling, .checking (.handler interrupted false)⟩ ∧
      Run (Step .alone) ⟨handling, .checking (.handler interrupted false)⟩
        [(.user (calling 64 .pending), [.ran (some interrupted)]), (.poll (.ready (waitingIn 64) 0), [])]
        ⟨called.setReg .RET 0, .checking (.handler interrupted false)⟩ ∧
      Step .alone ⟨called.setReg .RET 0, .checking (.handler interrupted false)⟩
        (.user { calling rtSigreturn .pending with contexts := handling.contexts },
          [.ran (some interrupted), .restored interrupted, .completed .SIGUSR1]) finish ∧
      (called.setReg .RET 0).cx ≠ signalled.cx ∧ finish.task.cx = signalled.cx ∧
      finish.task.sigmask = signalled.sigmask := by
  have enters : Step .alone ⟨signalled, .checking .look⟩ (.look 0, [.redirected interrupted])
      ⟨handling, .checking (.handler interrupted false)⟩ :=
    .checks (.entered (by decide +kernel) (UserTask.handleSignal_enters .SIGUSR1 (by decide +kernel)
      (by decide +kernel) (by decide +kernel) (by decide +kernel) (by decide +kernel)))
  have handles : Run (fun before label after => Step .alone before label after ∧ after.phase.handler?.isSome)
      ⟨handling, .checking (.handler interrupted false)⟩
      [(.user (calling 64 .pending), [.ran (some interrupted)]), (.poll (.ready (waitingIn 64) 0), [])]
      ⟨called.setReg .RET 0, .checking (.handler interrupted false)⟩ :=
    .cons ⟨.sleeps (.waits (by decide +kernel) (handleSyscall_calling handling 64 (by decide +kernel))), rfl⟩
      (.cons ⟨.checks (.resumes rfl), rfl⟩ .refl)
  have returns : Step .alone ⟨called.setReg .RET 0, .checking (.handler interrupted false)⟩
      (.user { calling rtSigreturn .pending with contexts := handling.contexts },
        [.ran (some interrupted), .restored interrupted, .completed .SIGUSR1]) _ :=
    .checks (.returns (by decide +kernel) (UserTask.handleSyscall_returns rfl rfl) (UserTask.completeSignal_plain rfl))
  exact ⟨_, enters, handles.mono And.left, returns, by decide +kernel,
    completed_handler_is_transparent enters handles returns (.tail _ (.head _)) rfl⟩

end EntryPoint

end MonkeyOS.User
