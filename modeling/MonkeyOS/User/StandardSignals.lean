import MonkeyOS.User.EntryPointProperties

/-! A standard signal that is sent while its handler runs. It already pends, so the
send changes nothing, and `check_signal` clears the bit when the handler is over. -/

set_option autoImplicit false

namespace MonkeyOS.User

open Lib Tasks UserTask SignalFlags

variable {around : Surroundings} {task taskAfter : UserTask} {event : LoopEvent} {notices : List Notice} {saved : Saved}

/-- `1 ..= 31` -/
def Standard (signal : SignalFlags) : Prop := ∃ num, (1 ≤ num ∧ num ≤ 31) ∧ signal = .fromNum num

/-- The signals this thread is sent by number: `sys_tkill` and `sys_tgkill` leave a
notice, `sys_kill` raises them. -/
def sentIn (label : Label) : List SignalFlags :=
  sends label.2 ++ match label.1 with
    | .raise num => [.fromNum num]
    | _ => []

/-- What ends the loop of `handle_signal`. -/
def LoopEvent.Finishes : LoopEvent → Prop
  | .exited => True
  | .user run => run.escape = .SysCall ∧ run.cx .SYSCALL = rtSigreturn
  | _ => False

theorem completeSignal_standard (standard : Standard saved.signal)
    (completes : task.completeSignal saved.signal = some taskAfter) :
    taskAfter.signal.hasSig saved.signal = false := by
  obtain ⟨num, _, is⟩ := standard
  have low : num - 1 < 64 := by omega
  rw [is, fromNum_eq (by omega)] at completes ⊢
  have single : (bit (num - 1)).realTimeIndex = none := by
    rw [realTimeIndex_bit low, if_neg (by omega)]
  obtain rfl := Option.some.inj ((completeSignal_plain single).symm.trans completes)
  rw [signal_withSignal, SignalList.hasSig_removeSignal _ low low]
  simp

theorem Checks.finishes {check : Checking} {next : Next}
    (checks : Checks around task check event notices taskAfter next) (inside : check.handler? = some saved) :
    (event.Finishes ∧ next.handler? = none ∧ ∃ left : UserTask, left.completeSignal saved.signal = some taskAfter) ∨
      (¬ event.Finishes ∧ next.handler? = some saved) := by
  cases checks with
  | nothing | returned | refused | entered => cases inside
  | exited _ completes =>
    cases inside
    exact .inl ⟨trivial, rfl, _, completes⟩
  | continues _ ran | waits _ ran =>
    refine .inr ⟨fun call => ?_, inside⟩
    cases handleSyscall_sigreturn ran call.1 call.2
  | returns _ ran completes =>
    cases inside
    exact .inl ⟨(handleSyscall_break ran).1, rfl, _, completes⟩
  | still | resumes => exact .inr ⟨id, inside⟩

theorem Disturbs.unfinished (disturbs : Disturbs around task event notices taskAfter) : ¬ event.Finishes := by
  cases disturbs <;> exact id

namespace EntryPoint

variable {after before : EntryPoint} {label : Label} {signum : Nat}

theorem Step.finishes (step : Step around before label after) (inside : before.phase.handler? = some saved) :
    (label.1.Finishes ∧ after.phase.handler? = none ∧
        ∃ left : UserTask, left.completeSignal saved.signal = some after.task) ∨
      (¬ label.1.Finishes ∧ (after.phase.handler? = some saved ∨
        after.phase.handler? = none ∧ after.task.signal = before.task.signal)) := by
  cases step with
  | disturbed disturbs => exact .inr ⟨disturbs.unfinished, .inl inside⟩
  | timer | ran | blocks => cases inside
  | checks checks | sleeps checks | armRuns checks | armSleeps checks =>
    exact (checks.finishes inside).imp_right fun stays => ⟨stays.1, .inl stays.2⟩
  | checked checks | armReturns checks =>
    cases checks
    cases inside
  | pending => exact .inr ⟨id, .inl inside⟩
  | ready polled =>
    rw [finish_handler, finish_task]
    exact .inr ⟨id, .inr ⟨rfl, (quiet_polled polled).signal⟩⟩

/-- The loop, with whether the signal of the handler it is in was sent since the
handler started. -/
structure Resent where
  loop : EntryPoint
  resent : Bool

def ResentStep (around : Surroundings) (before : Resent) (label : Label) (after : Resent) : Prop :=
  Step around before.loop label after.loop ∧
    after.resent = match before.loop.phase.handler? with
      | none => false
      | some saved => before.resent || (sentIn label).contains saved.signal

theorem ResentStep.next {resent : Bool} (step : Step around before label after) :
    ResentStep around ⟨before, resent⟩ label ⟨after, match before.phase.handler? with
      | none => false
      | some saved => resent || (sentIn label).contains saved.signal⟩ := ⟨step, rfl⟩

/-- A handler that is over leaves its signal pending if it was sent meanwhile. -/
def Pends (before after : Resent) : Prop :=
  ∀ saved, before.loop.phase.handler? = some saved → after.loop.phase.handler? = none →
    Standard saved.signal → before.resent → after.loop.task.signal.hasSig saved.signal

/-- No handler of a standard signal ends after the signal was sent again. -/
def Unsent (before : Resent) (event : LoopEvent) : Prop :=
  ∀ saved, before.loop.phase.handler? = some saved → Standard saved.signal → event.Finishes → before.resent = false

theorem ResentStep.pends_iff {before after : Resent} (step : ResentStep around before label after)
    (sane : before.loop.Sane) : Pends before after ↔ Unsent before label.1 := by
  constructor
  · intro pends saved inside standard finishes
    rcases step.1.finishes inside with ⟨_, ended, _, completes⟩ | ⟨unfinished, _⟩
    · refine Bool.eq_false_iff.mpr fun resent => ?_
      have pending := pends saved inside ended standard resent
      rw [completeSignal_standard standard completes] at pending
      cases pending
    · exact absurd finishes unfinished
  · intro unsent saved inside ended standard resent
    rcases step.1.finishes inside with ⟨finishes, _⟩ | ⟨_, stays | ⟨_, signal⟩⟩
    · rw [unsent saved inside standard finishes] at resent
      cases resent
    · rw [stays] at ended
      cases ended
    · rw [signal]
      exact (sane saved inside).pending

/-- A standard signal sent while its handler runs pends when the handler is over if and
only if no handler ends after its signal was sent again. -/
theorem resent_signals_pend_iff {start finish : Resent} {labels : List Label} (begins : start.loop.phase = .top) :
    Run (fun before label after => ResentStep around before label after ∧ Pends before after) start labels finish ↔
      Run (fun before label after => ResentStep around before label after ∧ Unsent before label.1)
        start labels finish := by
  have initial : start.loop.Sane := .of_free (by rw [begins]; rfl)
  constructor
  · intro run
    refine (run.assuming (fun sane step => step.1.1.sane sane) initial).mono fun step => ⟨step.1.1, ?_⟩
    exact (step.1.1.pends_iff step.2).mp step.1.2
  · intro run
    refine (run.assuming (fun sane step => step.1.1.sane sane) initial).mono fun step => ⟨step.1.1, ?_⟩
    exact (step.1.1.pends_iff step.2).mpr step.1.2

theorem sendSignal_clear (clear : task.signal.hasSig (.fromNum signum) = false) :
    task.sendSignal signum = some (task.addSignal (.fromNum signum)) := by
  simp [sendSignal, clear]

theorem sendSignal_merged (pending : task.signal.hasSig (.fromNum signum))
    (single : (fromNum signum).realTimeIndex = none) : task.sendSignal signum = some task := by
  simp [sendSignal, pending, single]

theorem Step.sendsItself {phase : Phase} (sent : task.sendSignal signum = some taskAfter) :
    Step around ⟨task, phase⟩ (.tkill task.taskId task.taskId signum, [.sent (.fromNum signum)])
      ⟨taskAfter, phase⟩ := by
  have target : task.tkillTarget around task.taskId task.taskId = some task.taskId := if_pos rfl
  have done : task.sysTkill around task.taskId task.taskId signum = some (.ok 0, taskAfter) := by
    simp [sysTkill, target, sendTo, sent]
  have step := @Step.disturbed around task phase _ _ _ (.tkill done)
  rwa [sentTo, if_pos target] at step

theorem resent_signals_pend_other :
    ∃ saved finish, Run (fun before label after => ResentStep .alone before label after ∧ Pends before after)
      ⟨⟨catching, .top⟩, false⟩
      [(.tkill 1 1 10, [.sent .SIGUSR1]), (.timer 0, []), (.look 0, [.redirected saved]),
        (.user (calling 64 .pending), [.ran (some saved)]), (.tkill 1 1 12, [.sent .SIGUSR2]),
        (.poll (.ready (waitingIn 64) 0), []),
        (.user (calling rtSigreturn .pending), [.ran (some saved), .restored saved, .completed .SIGUSR1])]
      finish := by
  refine ⟨_, _, (resent_signals_pend_iff rfl).mpr (.cons ⟨.next (.sendsItself (sendSignal_clear ?_)), nofun⟩
    (.cons ⟨.next .timer, nofun⟩
      (.cons ⟨.next (.checks (.entered ?_ (handleSignal_enters .SIGUSR1 ?_ ?_ ?_ ?_ ?_))), nofun⟩
        (.cons ⟨.next (.sleeps (.waits ?_ (handleSyscall_calling _ 64 ?_))), fun _ _ _ _ => rfl⟩
          (.cons ⟨.next (.sendsItself (sendSignal_clear ?_)), fun _ _ _ => nofun⟩
            (.cons ⟨.next (.checks (.resumes rfl)), fun _ _ _ => nofun⟩
              (.cons ⟨.next (.checks (.returns ?_ (handleSyscall_returns rfl rfl)
                (completeSignal_plain ?_))), fun _ _ _ _ => ?_⟩ .refl)))))))⟩
  all_goals decide +kernel

/-- A handler that waits in a call is sent its own signal, and returns with no signal
left. -/
theorem resent_signal_lost :
    ∃ saved before after, Run (ResentStep .alone) ⟨⟨catching, .top⟩, false⟩
        [(.tkill 1 1 10, [.sent .SIGUSR1]), (.timer 0, []), (.look 0, [.redirected saved]),
          (.user (calling 64 .pending), [.ran (some saved)]), (.tkill 1 1 10, [.sent .SIGUSR1]),
          (.poll (.ready (waitingIn 64) 0), [])] before ∧
      before.resent ∧ saved.signal = .fromNum 10 ∧
      ResentStep .alone before
        (.user (calling rtSigreturn .pending), [.ran (some saved), .restored saved, .completed .SIGUSR1]) after ∧
      after.loop.task.signal.hasSig (.fromNum 10) = false := by
  refine ⟨_, _, _, .cons (.next (.sendsItself (sendSignal_clear ?_))) (.cons (.next .timer)
      (.cons (.next (.checks (.entered ?_ (handleSignal_enters .SIGUSR1 ?_ ?_ ?_ ?_ ?_))))
        (.cons (.next (.sleeps (.waits ?_ (handleSyscall_calling _ 64 ?_))))
          (.cons (.next (.sendsItself (sendSignal_merged ?_ ?_)))
            (.cons (.next (.checks (.resumes rfl))) .refl))))), ?_, rfl,
    .next (.checks (.returns ?_ (handleSyscall_returns rfl rfl) (completeSignal_plain ?_))), ?_⟩
  all_goals decide +kernel

end EntryPoint

end MonkeyOS.User
