import MonkeyOS.User.HandlerReturn

/-!
# Signals that are not delivered

`handle_signal` may return before the handler has run. By then it has installed the
mask of the action, which it does before the signal frame is checked, and may have sent
the trap frame to the handler, which it does before the restorer is checked. Neither is
taken back.
-/

set_option autoImplicit false

namespace MonkeyOS.User

open Lib Tasks

namespace UserTask

/-- `handle_signal` returns and the handler has not run: the loop was not entered, or it
found an exit code at once. -/
inductive Undelivered (around : Surroundings) (task : UserTask) (signal : SignalFlags) : UserTask → Prop where
  | returned {after} : task.handleSignal around signal = .returned after → Undelivered around task signal after
  | refused {after saved} : task.handleSignal around signal = .refused after saved →
      Undelivered around task signal after
  | left {entered saved} : task.handleSignal around signal = .entered entered saved → entered.exitCode.isSome →
      Undelivered around task signal (entered.leaveSignal saved)

def Spares (task after : UserTask) : Prop := after.exitCode.isSome → task.exitCode.isSome

variable {around : Surroundings} {task after : UserTask} {signal : SignalFlags}

theorem action_killed (task : UserTask) (signal : SignalFlags) :
    (task.killed around signal).action signal = task.action signal := by
  unfold killed
  split <;> rfl

theorem exitCode_killed (task : UserTask) (signal : SignalFlags) :
    (task.killed around signal).exitCode.isSome ↔ signal = .SIGKILL ∨ task.exitCode.isSome := by
  unfold killed
  split
  · next kill => simp [kill]
  · next other => simp [other]

theorem setUp_unfit (unfit : ¬ task.frameFits (frameSp (task.cx .SP))) :
    task.setUp around signal = .returned { task with sigmask := (task.action signal).mask } :=
  if_pos unfit

/-- A refused restorer leaves the stack pointer at the signal frame. -/
theorem setUp_refuses (fits : task.frameFits (frameSp (task.cx .SP)))
    (refused : task.restorerRefused signal (task.action signal).restorer) :
    ∃ after saved, task.setUp around signal = .refused after saved ∧ after.cx ≠ task.cx ∧
      (after.exitCode.isSome ↔ signal ∈ terminating ∨ task.exitCode.isSome) := by
  unfold setUp
  extract_lets sigaction sp saved masked redirected
  have pointer : redirected.cx .SP = sp := by
    simp only [redirected, redirect, setReg, cx_withCx, TrapFrame.index_indexMut]
    rfl
  have moved : redirected.cx ≠ task.cx := fun same => by
    have below : sp < task.cx .SP := fits.1.1
    rw [same] at pointer
    exact ne_of_gt below pointer
  split
  · next unfit => exact absurd fits unfit
  split
  · refine ⟨_, _, rfl, ?_, ?_⟩
    · split
      · rw [UserTask.cx, tcb_exitWithSignal]
        exact moved
      · exact moved
    · split
      · next ends => simp [ends]
      · next spared =>
        simp only [spared, false_or]
        rfl
  · next accepted => exact absurd refused accepted

theorem leaveSignal_unnoticed {entered : UserTask} {saved : Saved}
    (enters : task.handleSignal around signal = .entered entered saved) :
    Unnoticed task (entered.leaveSignal saved) := by
  obtain ⟨-, taskMask, storeCx⟩ := handleSignal_saved (.inl enters)
  have context := handleSignal_context enters
  unfold leaveSignal
  extract_lets back frame
  have cx : back.cx = task.cx := (cx_withCx ..).trans storeCx
  split
  · exact ⟨taskMask, cx⟩
  split
  · exact ⟨taskMask, cx⟩
  · refine ⟨taskMask, ?_⟩
    rw [cx_withCx, cx]
    exact context

theorem Undelivered.sigkill (undelivered : Undelivered around task signal after) (kill : signal = .SIGKILL) :
    after.exitCode.isSome := by
  cases undelivered with
  | returned handles | refused handles => exact (handleSignal_spec handles).2 kill
  | left handles exited => exact (quiet_leaveSignal .refl _).exitCode exited

/-- An undelivered signal leaves mask and frame alone unless its handler passes the
checks of its address and then either the signal frame does not fit and the action has a
mask of its own, or the restorer is refused and the process goes on. -/
theorem undelivered_signal_unnoticed_iff (around : Surroundings) (task : UserTask) (signal : SignalFlags) :
    let ready := task.killed around signal
    (∀ after, Undelivered around task signal after → Spares task after → Unnoticed task after) ↔
      ((signal = .SIGKILL → task.exitCode.isSome) → ready.HasHandler signal →
        (¬ ready.frameFits (frameSp (task.cx .SP)) → (task.action signal).mask = task.sigmask) ∧
        (ready.frameFits (frameSp (task.cx .SP)) → ready.restorerRefused signal (task.action signal).restorer →
          signal ∈ terminating ∧ task.exitCode = none)) := by
  intro ready
  have same : Unnoticed task ready := killed_unnoticed task signal
  have action : ready.action signal = task.action signal := action_killed task signal
  rw [← same.cx, ← action]
  constructor
  · intro unnoticed alive handler
    have setsUp := handleSignal_hasHandler handler
    have spared : ready.exitCode.isSome → task.exitCode.isSome := fun ended =>
      ((exitCode_killed task signal).mp ended).elim alive id
    refine ⟨fun unfit => ?_, fun fits refused => ?_⟩
    · rw [setUp_unfit unfit] at setsUp
      exact (unnoticed _ (.returned setsUp) spared).sigmask
    · obtain ⟨after, saved, refuses, moved, ended⟩ := @setUp_refuses around ready signal fits refused
      by_contra goesOn
      refine moved ((unnoticed after (.refused (setsUp.trans refuses)) fun exited => ?_).cx.trans same.cx.symm)
      rcases ended.mp exited with ends | before
      · by_contra running
        exact goesOn ⟨ends, Option.not_isSome_iff_eq_none.mp running⟩
      · exact spared before
  · intro conditions after undelivered spares
    have alive : signal = .SIGKILL → task.exitCode.isSome := fun kill => spares (undelivered.sigkill kill)
    by_cases handler : ready.HasHandler signal
    · have setsUp := handleSignal_hasHandler handler
      obtain ⟨kept, stops⟩ := conditions alive handler
      by_cases fits : ready.frameFits (frameSp (ready.cx .SP))
      · by_cases refused : ready.restorerRefused signal (ready.action signal).restorer
        · obtain ⟨final, saved, refuses, -, ended⟩ := @setUp_refuses around ready signal fits refused
          obtain ⟨ends, running⟩ := stops fits refused
          have handled := setsUp.trans refuses
          cases undelivered with
          | returned handles | left handles => cases handled.symm.trans handles
          | refused handles =>
            cases handled.symm.trans handles
            have exited := spares (ended.mpr (.inl ends))
            rw [running] at exited
            cases exited
        · obtain ⟨entered, enters⟩ := @setUp_enters around ready signal fits refused
          have handled := setsUp.trans enters
          cases undelivered with
          | returned handles | refused handles => cases handled.symm.trans handles
          | left handles => exact leaveSignal_unnoticed handles
      · have handled := setsUp.trans (setUp_unfit fits)
        cases undelivered with
        | returned handles =>
          cases handled.symm.trans handles
          exact ⟨kept fits, same.cx⟩
        | refused handles | left handles => cases handled.symm.trans handles
    · obtain ⟨final, returns, unnoticed⟩ := handleSignal_noHandler handler
      cases undelivered with
      | returned handles =>
        cases returns.symm.trans handles
        exact unnoticed
      | refused handles | left handles => cases returns.symm.trans handles

end UserTask

def unstacked : UserTask := { EntryPoint.catching with space.process.pageTable := .empty, leafTables := fun _ => false }

/-- The signal frame does not fit, the handler of `SIGTERM` never runs, and `SIGUSR1` is
blocked from then on. -/
theorem undelivered_signal_blocks_another :
    ∃ after, unstacked.handleSignal .alone .SIGTERM = .returned after ∧ after.exitCode = none ∧
      unstacked.sigmask.blocks .SIGUSR1 = false ∧ after.sigmask.blocks .SIGUSR1 = true ∧
      ¬ ∀ after, UserTask.Undelivered .alone unstacked .SIGTERM after → unstacked.Spares after →
        unstacked.Unnoticed after := by
  have handled : unstacked.handleSignal .alone .SIGTERM =
      .returned { unstacked with sigmask := ⟨SignalFlags.SIGUSR1.bits⟩ } := by
    rw [UserTask.handleSignal_hasHandler (by unfold UserTask.HasHandler; decide +kernel)]
    exact @UserTask.setUp_unfit .alone unstacked .SIGTERM (by decide +kernel)
  refine ⟨_, handled, rfl, by decide, by decide, fun unnoticed => ?_⟩
  exact absurd (unnoticed _ (.returned handled) id).sigmask (by decide)

end MonkeyOS.User
