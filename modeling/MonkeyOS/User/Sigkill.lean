import MonkeyOS.User.RealTimeSignals

/-! `SIGKILL` and the masks of a thread. Nothing keeps it out of a mask: neither
`sys_sigprocmask` nor the mask of an action nor that of a user context. As long as
user code leaves it out of all of them, no run of `check_signal` returns over a
pending `SIGKILL` without an exit code. -/

set_option autoImplicit false

namespace MonkeyOS.User

open Lib Tasks UserTask Bool

variable {around : Surroundings} {task before after : UserTask} {event : LoopEvent} {notices : List Notice}

abbrev Passes (mask : SigProcMask) : Prop := mask.blocks .SIGKILL = false

theorem Passes.handle {current mask : SigProcMask} {how : SigMaskHow} (passes : Passes current)
    (kept : how ≠ .Unblock → Passes mask) : Passes (current.handle how mask) := by
  have bit (mask : SigProcMask) : mask.blocks .SIGKILL = mask.mask.getLsbD 8 := mask.blocks_bit (by decide)
  simp only [Passes, bit] at *
  cases how with
  | Block => simp only [SigProcMask.handle, BitVec.getLsbD_or, passes, kept nofun, Bool.or_false]
  | Unblock => simp only [SigProcMask.handle, BitVec.getLsbD_and, passes, Bool.false_and]
  | Setmask => exact kept nofun

namespace UserTask

/-- Neither the mask nor that of any action holds `SIGKILL` back. -/
structure Killable (task : UserTask) : Prop where
  sigmask : Passes task.sigmask
  actions : ∀ sig, Passes (task.sigaction.get sig).mask

namespace Killable

variable (killable : Killable task)
include killable

theorem action (signal : SignalFlags) : Passes (task.action signal).mask :=
  killable.actions _

theorem masked {mask : SigProcMask} (passes : Passes mask) :
    Killable { task with sigmask := mask } := ⟨passes, killable.actions⟩

theorem exitIf {condition : Prop} [Decidable condition] {signal : Nat} :
    Killable (if condition then task.exitWithSignal around signal else task) := by
  split
  · exact ⟨killable.sigmask, killable.actions⟩
  · exact killable

theorem setUp (signal : SignalFlags) : Killable (task.setUp around signal).task := by
  unfold UserTask.setUp
  extract_lets sigaction sp saved masked redirected
  have masks : Killable masked := killable.masked (killable.action signal)
  have redirects : Killable redirected := ⟨masks.sigmask, masks.actions⟩
  split
  · exact masks
  split
  · exact redirects.exitIf
  · exact ⟨masks.sigmask, masks.actions⟩

variable {signal : SignalFlags}

theorem handleSignal {handled : Handled}
    (handles : task.handleSignal around signal = handled) : Killable handled.task := by
  rw [← handles]
  unfold UserTask.handleSignal
  extract_lets killed handler
  have kills : Killable killed := killable.exitIf
  split
  · exact kills.exitIf
  split
  · exact kills
  split
  · exact ⟨kills.sigmask, kills.actions⟩
  split
  · exact ⟨kills.sigmask, kills.actions⟩
  split
  · exact kills
  · exact kills.setUp signal

theorem leaveSignal {saved : Saved} (passes : Passes saved.taskMask) : Killable (task.leaveSignal saved) := by
  unfold UserTask.leaveSignal
  dsimp only
  split
  · exact ⟨passes, killable.actions⟩
  split <;> exact ⟨passes, killable.actions⟩

theorem completeSignal (completes : task.completeSignal signal = some after) : Killable after := by
  obtain ⟨-, -, sigmask, sigaction, -⟩ := completeSignal_kept completes
  exact ⟨by rw [sigmask]; exact killable.sigmask, by rw [sigaction]; exact killable.actions⟩

theorem sysSigaction {sig : Nat} {act : Option SigAction} {oldact : Bool}
    {reply : Except Errno Nat} (done : task.sysSigaction sig act oldact = some (reply, after))
    (passes : ∀ given, act = some given → Passes given.mask) : Killable after := by
  unfold UserTask.sysSigaction at done
  split at done
  · cases done
  cases act with
  | none =>
    cases done
    exact killable
  | some given =>
    cases done
    refine ⟨killable.sigmask, fun index => ?_⟩
    change Passes (task.sigaction.setIfInBounds sig given)[index.val].mask
    rw [Vector.getElem_setIfInBounds]
    split
    · exact passes given rfl
    · exact killable.actions index

end Killable

end UserTask

/-- No mask that user code hands over holds `SIGKILL` back: not that of a
`rt_sigprocmask` that adds signals, not that of an action and not that of the user
context at an `rt_sigreturn`. -/
def Spares : LoopEvent → Prop
  | .user run =>
    run.escape = .SysCall →
      (run.cx .SYSCALL = rtSigprocmask → SigMaskHow.fromUsize (run.cx .ARG0) ≠ some .Unblock →
        ∀ set, run.set = some set → Passes set) ∧
      (run.cx .SYSCALL = rtSigaction → ∀ act, run.act = some act → Passes act.mask) ∧
      (run.cx .SYSCALL = rtSigreturn → Passes (run.contexts (returnContext run.cx)).sigMask)
  | .sigaction _ act => Passes act.mask
  | _ => True

theorem UserTask.Killable.handleSyscall (killable : task.Killable) {run : UserRun}
    {progress : Fs.Poll UserTaskControlFlow} (ran : task.handleSyscall run = some (progress, after))
    (spares : Spares (.user run)) : after.Killable := by
  have arrived : (task.runUserTask run).Killable := ⟨killable.sigmask, killable.actions⟩
  cases handleSyscall_called ran with
  | none => exact arrived
  | sigreturn escape number =>
    have context := (spares escape).2.2 number
    unfold sysSigreturn
    split
    · exact ⟨killable.sigmask, killable.actions⟩
    split
    · exact ⟨killable.sigmask, killable.actions⟩
    · refine ⟨?_, killable.actions⟩
      have cx : (task.runUserTask run).cx = run.cx := cx_withCx task run.cx
      rw [← cx] at context
      exact context
  | sigprocmask escape number =>
    have given := (spares escape).1 number
    unfold sysSigprocmask
    split
    · exact ⟨killable.sigmask, killable.actions⟩
    · exact ⟨killable.sigmask, killable.actions⟩
    next _ set is handed =>
      refine ⟨Passes.handle killable.sigmask fun adds => given ?_ set handed, killable.actions⟩
      rw [is]
      exact fun same => adds (Option.some.inj same)
  | @sigaction pc _ _ reply _ escape number done =>
    have started : ((task.runUserTask run).setReg .SEPC pc).Killable := ⟨killable.sigmask, killable.actions⟩
    have acts := started.sysSigaction done ((spares escape).2.1 number)
    exact ⟨acts.sigmask, acts.actions⟩
  | polled =>
    cases run.reply with
    | pending | ready => exact ⟨killable.sigmask, killable.actions⟩

theorem UserTask.Killable.sendTo (killable : task.Killable) {target : Option Nat} {error : Errno}
    {signum : Nat} {reply : Except Errno Nat} (done : task.sendTo target error signum = some (reply, after)) :
    after.Killable := by
  rcases sendTo_cases done with ⟨-, send⟩ | ⟨-, rfl⟩
  · rcases sendSignal_cases send with ⟨-, rfl⟩ | ⟨-, -, rfl⟩ | ⟨-, _, _, -, -, rfl⟩
    all_goals exact ⟨killable.sigmask, killable.actions⟩
  · exact killable

theorem Disturbs.killable (disturbs : Disturbs around task event notices after) (spares : Spares event)
    (killable : task.Killable) : after.Killable := by
  cases disturbs with
  | tkill done | tgkill done => exact killable.sendTo done
  | raise | work => exact ⟨killable.sigmask, killable.actions⟩
  | sigaction done =>
    refine killable.sysSigaction done fun _ is => ?_
    cases is
    exact spares

variable {check : Checking} {next : Next}

theorem Checks.killable (checks : Checks around task check event notices after next) (spares : Spares event)
    (killable : task.Killable) (passes : ∀ saved, check.handler? = some saved → Passes saved.taskMask) :
    after.Killable ∧ ∀ saved, next.handler? = some saved → Passes saved.taskMask := by
  cases checks with
  | nothing => exact ⟨killable, nofun⟩
  | returned _ handles completes | refused _ handles completes =>
    exact ⟨(killable.handleSignal handles).completeSignal completes, nofun⟩
  | entered _ handles =>
    refine ⟨killable.handleSignal handles, fun _ is => ?_⟩
    cases is
    rw [(handleSignal_saved (.inl handles)).2.1]
    exact killable.sigmask
  | exited _ completes => exact ⟨(killable.leaveSignal (passes _ rfl)).completeSignal completes, nofun⟩
  | continues _ ran | waits _ ran => exact ⟨killable.handleSyscall ran spares, passes⟩
  | returns _ ran completes =>
    exact ⟨((killable.handleSyscall ran spares).leaveSignal (passes _ rfl)).completeSignal completes, nofun⟩
  | still => exact ⟨killable, passes⟩
  | resumes polled =>
    cases polled
    exact ⟨⟨killable.sigmask, killable.actions⟩, passes⟩

namespace EntryPoint

structure Unmasked (loop : EntryPoint) : Prop where
  task : loop.task.Killable
  saved : ∀ saved, loop.phase.handler? = some saved → Passes saved.taskMask

theorem Unmasked.of_free {loop : EntryPoint} (killable : loop.task.Killable) (free : loop.phase.handler? = none) :
    loop.Unmasked := by
  refine ⟨killable, fun _ is => ?_⟩
  rw [free] at is
  cases is

abbrev SparingStep (around : Surroundings) (before : EntryPoint) (label : Label) (after : EntryPoint) : Prop :=
  Step around before label after ∧ Spares label.1

variable {start middle last finish : EntryPoint} {label : Label} {front back : List Label}

theorem killable_checkTimer {now : Nat} (killable : UserTask.Killable task) : (task.checkTimer now).Killable := by
  unfold checkTimer
  split
  · exact ⟨killable.sigmask, killable.actions⟩
  · exact killable

theorem SparingStep.unmasked (step : SparingStep around start label finish) (unmasked : start.Unmasked) :
    finish.Unmasked := by
  obtain ⟨step, spares⟩ := step
  obtain ⟨killable, passes⟩ := unmasked
  cases step with
  | disturbed disturbs => exact ⟨disturbs.killable spares killable, passes⟩
  | timer => exact .of_free (killable_checkTimer killable) rfl
  | checks checks | sleeps checks | armRuns checks | armSleeps checks =>
    obtain ⟨task, saved⟩ := checks.killable spares killable passes
    exact ⟨task, saved⟩
  | checked checks =>
    refine .of_free ?_ (unlessExited_handler rfl)
    rw [unlessExited_task]
    exact (checks.killable spares killable passes).1
  | ran ran =>
    refine .of_free ?_ (finish_handler ..)
    rw [finish_task]
    exact killable.handleSyscall ran spares
  | blocks ran => exact .of_free (killable.handleSyscall ran spares) rfl
  | pending => exact ⟨killable, passes⟩
  | ready polled =>
    refine .of_free ?_ (finish_handler ..)
    rw [finish_task]
    cases polled
    exact ⟨killable.sigmask, killable.actions⟩
  | armReturns checks =>
    obtain ⟨returned, -⟩ := checks.killable spares killable passes
    refine .of_free ?_ (unlessExited_handler rfl)
    unfold unlessExited
    split
    · exact returned
    · exact killable_checkTimer returned

end EntryPoint

def UserTask.Doomed (task : UserTask) : Prop := task.signal.hasSig .SIGKILL ∨ task.exitCode.isSome

theorem UserTask.Quiet.doomed (quiet : task.Quiet after) (doomed : task.Doomed) : after.Doomed :=
  doomed.imp (fun pending => by rw [quiet.signal]; exact pending) quiet.exitCode

theorem UserTask.Doomed.addSignal (doomed : task.Doomed) (signal : SignalFlags) : (task.addSignal signal).Doomed :=
  doomed.imp_left fun pending => by
    rw [SignalFlags.SIGKILL, addSignal_hasSig _ _ (by decide)]
    exact or_eq_true_iff.mpr (.inl pending)

theorem Effect.doomed (effect : Effect task event notices after) (doomed : task.Doomed) : after.Doomed := by
  cases effect with
  | quiet quiet => exact quiet.doomed doomed
  | sent send =>
    rcases sendSignal_cases send with ⟨-, rfl⟩ | ⟨-, -, rfl⟩ | ⟨-, _, _, -, -, rfl⟩
    · exact doomed.addSignal _
    · exact doomed
    · exact doomed
  | raised _ raises => exact raises.doomed (doomed.addSignal _)
  | @completed index handled low quiet _ killed completes =>
    have exitCode := (completeSignal_kept completes).1
    by_cases kill : SignalFlags.bit index = .SIGKILL
    · exact .inr (exitCode ▸ killed kill)
    · rcases quiet.doomed doomed with pending | exited
      · left
        have apart : index ≠ 8 := fun same => kill (same ▸ rfl)
        have left : (handled.signal.removeSignal (.bit index)).hasSig .SIGKILL := by
          rw [SignalFlags.SIGKILL, SignalList.hasSig_removeSignal _ (by decide) low]
          simpa [apart, SignalFlags.SIGKILL] using pending
        rcases completeSignal_cases completes low with ⟨rfl, -⟩ | ⟨-, _, -, signal, -⟩
        · rw [signal_withSignal]
          exact left
        · rw [signal, SignalFlags.SIGKILL, SignalList.hasSig_addSignal _ _ (by decide)]
          exact or_eq_true_iff.mpr (.inl left)
      · exact .inr (exitCode ▸ exited)

/-! ## The look that finds `SIGKILL` -/

theorem UserTask.pending_sigkill (pending : task.signal.hasSig .SIGKILL) (passes : Passes task.sigmask)
    (first : ∀ lower < 8, task.signal.hasSig (.bit lower) → task.sigmask.blocks (.bit lower)) :
    task.pending = some .SIGKILL := by
  cases found : task.pending with
  | none =>
    exact absurd (pending_eq_none found (by decide) pending) (eq_false_iff.mp passes)
  | some _ =>
    obtain ⟨index, _, rfl, held, passed, lowest⟩ := pending_eq_some found
    rcases lt_trichotomy index 8 with below | rfl | above
    · exact absurd (first index below held) (eq_false_iff.mp passed)
    · rfl
    · exact absurd (lowest 8 above pending) (eq_false_iff.mp passes)

theorem Checks.kills {now : Nat} (checks : Checks around task check (.look now) notices after next)
    (found : task.pending = some .SIGKILL) :
    after.exitCode.isSome := by
  cases checks with
  | nothing none => rw [found] at none; cases none
  | returned taken handles completes | refused taken handles completes =>
    rw [(completeSignal_kept completes).1]
    exact (handleSignal_spec handles).2 (Option.some.inj (taken.symm.trans found))
  | entered taken handles =>
    exact (handleSignal_spec handles).2 (Option.some.inj (taken.symm.trans found))

theorem Checks.handles (around : Surroundings) {signal : SignalFlags} (found : task.pending = some signal) (now : Nat) :
    ∃ notices after next, Checks around task .look (.look now) notices after (.runs next) := by
  obtain ⟨index, low, rfl, -⟩ := pending_eq_some found
  cases handles : task.handleSignal around (.bit index) with
  | returned handled => exact ⟨_, _, _, .returned found handles (Option.some_get (completeSignal_isSome _ low)).symm⟩
  | refused handled => exact ⟨_, _, _, .refused found handles (Option.some_get (completeSignal_isSome _ low)).symm⟩
  | entered => exact ⟨_, _, _, .entered found handles⟩

theorem Checks.returns_none (checks : Checks around task check event notices after next)
    (returned : .returned ∈ notices) :
    task.pending = none ∧ after = task := by
  cases checks with
  | nothing none => exact ⟨none, rfl⟩
  | _ => simp at returned

namespace EntryPoint

variable {start middle last finish : EntryPoint} {label : Label} {front back : List Label}

theorem Step.returned (step : Step around last label finish) (returned : .returned ∈ label.2) :
    last.task.pending = none ∧ finish.task.exitCode = last.task.exitCode := by
  cases step with
  | disturbed disturbs =>
    obtain ⟨_, is⟩ := disturbs.notice returned
    cases is
  | timer | pending | ready => cases returned
  | checks checks | sleeps checks | armRuns checks | armSleeps checks =>
    obtain ⟨none, rfl⟩ := checks.returns_none returned
    exact ⟨none, rfl⟩
  | checked checks =>
    obtain ⟨none, rfl⟩ := checks.returns_none returned
    exact ⟨none, by rw [unlessExited_task]⟩
  | ran | blocks => simp at returned
  | armReturns checks =>
    obtain ⟨none, rfl⟩ := checks.returns_none returned
    refine ⟨none, ?_⟩
    unfold unlessExited checkTimer
    split
    · rfl
    · split <;> rfl

theorem Step.kills {now : Nat} (step : Step around last (.look now, notices) finish)
    (found : last.task.pending = some .SIGKILL) : finish.task.exitCode.isSome := by
  cases step with
  | disturbed disturbs => cases disturbs
  | checks checks | sleeps checks | armRuns checks | armSleeps checks => exact checks.kills found
  | checked checks =>
    rw [unlessExited_task]
    exact checks.kills found
  | armReturns checks =>
    cases checks with
    | nothing none => rw [found] at none; cases none

/-- While no mask is handed over that holds it back, a pending `SIGKILL` is delivered:
`check_signal` does not return over it before the process has an exit code, and its
next look sets that code unless a signal of a lower number comes first. -/
theorem sigkill_delivered (unmasked : start.Unmasked) (top : start.phase = .top)
    (reached : Run (SparingStep around) start front middle) (pending : middle.task.signal.hasSig .SIGKILL) :
    (∀ back last label finish, Run (SparingStep around) middle back last → Step around last label finish →
        .returned ∈ label.2 → finish.task.exitCode.isSome) ∧
      ((middle.phase = .checking .look ∨ middle.phase = .racing .second .look) →
        (∀ lower < 8, middle.task.signal.hasSig (.bit lower) → middle.task.sigmask.blocks (.bit lower)) →
        ∀ now, (∃ notices finish, Step around middle (.look now, notices) finish) ∧
          ∀ notices finish, Step around middle (.look now, notices) finish → finish.task.exitCode.isSome) := by
  have kept {before after : EntryPoint} {label : Label} (both : before.Unmasked ∧ before.Sane)
      (step : SparingStep around before label after) : after.Unmasked ∧ after.Sane :=
    ⟨step.unmasked both.1, step.1.sane both.2⟩
  have initial : start.Unmasked ∧ start.Sane := ⟨unmasked, .of_free (by rw [top]; rfl)⟩
  have guarded := reached.preserves (fun both step => kept both step) initial
  constructor
  · intro back last label finish run step returned
    obtain ⟨⟨unmasked, -⟩, doomed⟩ := @Run.preserves _ _ _
      (fun loop => (loop.Unmasked ∧ loop.Sane) ∧ loop.task.Doomed)
      (fun both step => ⟨kept both.1 step, (step.1.effect both.1.2).doomed both.2⟩) _ _ _ run
      ⟨guarded, .inl pending⟩
    obtain ⟨none, exitCode⟩ := step.returned returned
    rw [exitCode]
    refine doomed.resolve_left fun still => ?_
    exact absurd (pending_eq_none none (by decide) still) (eq_false_iff.mp unmasked.task.sigmask)
  · intro looks first now
    have found := pending_sigkill pending guarded.1.task.sigmask first
    refine ⟨?_, fun notices finish step => step.kills found⟩
    obtain ⟨notices, after, next, checks⟩ := Checks.handles around found now
    obtain ⟨task, phase⟩ := middle
    rcases looks with rfl | rfl
    · exact ⟨_, _, .checks checks⟩
    · exact ⟨_, _, .armRuns checks⟩

theorem sigkill_delivered_unmasked :
    ∃ middle notices finish,
      Run (SparingStep .alone) ⟨.lone, .top⟩ [(.raise 9, []), (.timer 0, [])] middle ∧
      Step .alone middle (.look 0, notices) finish ∧ finish.task.exitCode.isSome := by
  have run : Run (SparingStep .alone) ⟨.lone, .top⟩ [(.raise 9, []), (.timer 0, [])]
      ⟨(lone.addSignal (.fromNum 9)).checkTimer 0, .checking .look⟩ :=
    .cons ⟨.disturbed .raise, trivial⟩ (.cons ⟨.timer, trivial⟩ .refl)
  have delivered := (sigkill_delivered (.of_free ⟨by decide, by decide +kernel⟩ rfl) rfl run
    (by decide +kernel)).2 (.inl rfl) (by decide +kernel) 0
  obtain ⟨⟨notices, finish, step⟩, kills⟩ := delivered
  exact ⟨_, notices, finish, run, step, kills notices finish step⟩

def blockKill : UserRun where
  cx := (lowFrame.indexMut .SYSCALL rtSigprocmask).indexMut .ARG0 0
  leafTables := lone.leafTables
  contexts := lone.contexts
  escape := .SysCall
  set := some ⟨SignalFlags.SIGKILL.bits⟩
  act := none
  oldact := false
  reply := .pending

/-- `check_signal` returns over a pending `SIGKILL`, and the process lives on. -/
theorem sigkill_held_back :
    ∃ middle finish,
      Run (Step .alone) ⟨.lone, .top⟩
        [(.timer 0, []), (.look 0, [.returned]), (.user blockKill, [.ran none]), (.raise 9, []), (.timer 0, [])]
        middle ∧
      middle.task.signal.hasSig .SIGKILL ∧
      Step .alone middle (.look 0, [.returned]) finish ∧ finish.task.exitCode = none := by
  refine ⟨_, _, .cons .timer (.cons (.checked (.nothing (by decide +kernel))) (.cons (.ran rfl)
    (.cons (.disturbed .raise) (.cons .timer .refl)))), ?_, .checked (.nothing ?_), ?_⟩
  · decide +kernel
  · decide +kernel
  · rfl

end EntryPoint

end MonkeyOS.User
