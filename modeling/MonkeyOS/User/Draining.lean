import MonkeyOS.Lib.Copies
import MonkeyOS.User.RealTimeSignals

/-! `check_signal` handles every deliverable signal as often as it is pending and
queued, the lowest number first, and comes to an end. -/

set_option autoImplicit false

namespace MonkeyOS.User

open List hiding count
open Lib Tasks UserTask Option SignalFlags SignalList Nat

variable {around : Surroundings} {task handled after : UserTask} {mask : SigProcMask} {event : LoopEvent}
  {notices : List Notice} {index other : Nat}

/-! ## What is due -/

/-- How often a signal is to be handled under a mask. -/
def instances (mask : SigProcMask) (task : UserTask) (signal : SignalFlags) : Nat :=
  if (task.signal.mask mask).hasSig signal then 1 + entries task signal else 0

def allSignals : List SignalFlags := (List.range 64).map .bit

/-- All that is to be handled under a mask, the lowest number first. -/
def due (mask : SigProcMask) (task : UserTask) : List SignalFlags := copies allSignals (instances mask task)

theorem mem_allSignals {signal : SignalFlags} : signal ∈ allSignals ↔ ∃ index < 64, signal = .bit index := by
  simp [allSignals, eq_comm]

theorem allSignals_ordered : allSignals.Pairwise fun first second => first.num < second.num := by
  refine pairwise_map.mpr (pairwise_lt_range.imp_of_mem fun {first second} low high below => ?_)
  rw [num_bit (mem_range.mp low), num_bit (mem_range.mp high)]
  exact succ_lt_succ below

theorem allSignals_nodup : allSignals.Nodup :=
  allSignals_ordered.imp fun below => ne_of_apply_ne num (Nat.ne_of_lt below)

theorem due_eq_nil (none : (task.signal.mask mask).tryGetSignal = none) : due mask task = [] := by
  refine copies_eq_nil fun _ listed => ?_
  obtain ⟨_, low, rfl⟩ := mem_allSignals.mp listed
  rw [instances, tryGetSignal_eq_none none low]
  rfl

theorem UserTask.Quiet.instances (quiet : task.Quiet after) : User.instances mask after = User.instances mask task := by
  unfold User.instances User.entries
  rw [quiet.signal, quiet.signalQueue]

/-! ## One step -/

/-- What a step takes of the signals due under a mask: nothing, or the lowest. -/
inductive Takes (mask : SigProcMask) (task : UserTask) : List SignalFlags → UserTask → Prop where
  | nothing {after : UserTask} (quiet : task.Quiet after) : Takes mask task [] after
  | lowest {signal : SignalFlags} {handled after : UserTask}
      (found : (task.signal.mask mask).tryGetSignal = some signal)
      (quiet : task.Quiet handled) (completes : handled.completeSignal signal = some after) :
      Takes mask task [signal] after

variable {taken : List SignalFlags} {next : Next}

theorem Takes.due (takes : Takes mask task taken after) : taken ++ User.due mask after = User.due mask task := by
  unfold User.due
  cases takes with
  | nothing quiet => rw [quiet.instances, nil_append]
  | @lowest signal handled _ found quiet completes =>
    obtain ⟨other, low, rfl, holds, first⟩ := tryGetSignal_eq_some found
    have pending : handled.signal.hasSig (.bit other) := by
      rw [hasSig_mask _ _ low, Bool.and_eq_true] at holds
      rw [quiet.signal]
      exact holds.1
    have unmasked : mask.blocks (.bit other) = false := by
      rw [hasSig_mask _ _ low, Bool.and_eq_true] at holds
      simpa using holds.2
    rw [← quiet.instances]
    refine (copies_eq_cons (fun signal => lt_irrefl signal.num) allSignals_ordered
      (mem_allSignals.mpr ⟨other, low, rfl⟩) ?_ ?_ ?_).symm
    · intro _ listed below
      obtain ⟨index, lowerLow, rfl⟩ := mem_allSignals.mp listed
      rw [num_bit lowerLow, num_bit low] at below
      rw [instances, quiet.signal, first index (by omega)]
      rfl
    · rw [instances, instances, hasSig_mask _ _ low, hasSig_mask _ _ low, unmasked, pending]
      rcases completeSignal_own completes low with ⟨gone, empty, -⟩ | ⟨again, fewer⟩
      · simp [gone, empty]
      · simp only [again, fewer, Bool.not_false, Bool.and_self, if_true]
        omega
    · intro signal listed apart
      obtain ⟨index, indexLow, rfl⟩ := mem_allSignals.mp listed
      obtain ⟨bit, queue⟩ := completeSignal_other completes low indexLow fun same => apart (same ▸ rfl)
      rw [instances, instances, hasSig_mask _ _ indexLow, hasSig_mask _ _ indexLow, bit, queue]

theorem Takes.untouched (takes : Takes mask task taken after) (low : index < 64) (masked : mask.blocks (.bit index)) :
    Untouched task after (.bit index) := by
  cases takes with
  | nothing quiet => exact quiet.untouched _
  | lowest found quiet completes =>
    obtain ⟨_, otherLow, rfl, holds, -⟩ := tryGetSignal_eq_some found
    refine (quiet.untouched _).trans (completeSignal_other completes otherLow low ?_)
    rintro rfl
    rw [hasSig_mask _ _ low, masked] at holds
    simp at holds

/-- Where `check_signal` stands: it looks under the mask it began with, and the signal
of a handler in progress is still the lowest. -/
def Checking.Fits (mask : SigProcMask) (task : UserTask) : Checking → Prop
  | .look => task.sigmask = mask
  | .handler saved _ => (task.signal.mask mask).tryGetSignal = some saved.signal

theorem Checking.Fits.inside {saved : Saved} {waiting : Bool} (fits : (Checking.handler saved waiting).Fits mask task)
    (quiet : task.Quiet after) (other : Bool) : (Checking.handler saved other).Fits mask after := by
  unfold Checking.Fits
  rw [quiet.signal]
  exact fits

theorem Checking.Fits.quiet {check : Checking} (fits : check.Fits mask task) (quiet : task.Quiet after)
    (sigmask : after.sigmask = task.sigmask) : check.Fits mask after := by
  cases check with
  | look => exact sigmask.trans fits
  | handler _ waiting => exact fits.inside quiet waiting

theorem Disturbs.quiet (disturbs : Disturbs around task event notices after) (unsent : sends notices = [])
    (unraised : ∀ num, event ≠ .raise num) : task.Quiet after ∧ after.sigmask = task.sigmask := by
  have foreign {target : Option Nat} {error : Errno} {signum : Nat} {reply : Except Errno Nat}
      (done : task.sendTo target error signum = some (reply, after))
      (unsent : sends (sentTo task target signum) = []) : task.Quiet after ∧ after.sigmask = task.sigmask := by
    rcases sendTo_cases done with ⟨own, -⟩ | ⟨-, rfl⟩
    · rw [sentTo, if_pos own] at unsent
      cases unsent
    · exact ⟨.refl, rfl⟩
  cases disturbs with
  | tkill done | tgkill done => exact foreign done unsent
  | raise => exact absurd rfl (unraised _)
  | sigaction done =>
    refine ⟨quiet_sysSigaction done .refl, ?_⟩
    unfold sysSigaction at done
    split at done
    · cases done
    · cases done
      rfl
  | work kept => exact ⟨kept.quiet .., rfl⟩

theorem Checks.takes {check : Checking} (checks : Checks around task check event notices after next)
    (fits : check.Fits mask task) : Takes mask task (completions notices) after := by
  cases checks with
  | nothing | still => exact .nothing .refl
  | returned found handles completes | refused found handles completes =>
    exact .lowest (fits ▸ found) (handleSignal_spec handles).1 completes
  | entered _ handles => exact .nothing (handleSignal_spec handles).1
  | @exited saved _ _ completes => exact .lowest fits (quiet_leaveSignal .refl saved) completes
  | continues _ ran | waits _ ran => exact .nothing (quiet_handleSyscall ran)
  | @returns saved _ _ _ _ ran completes =>
    exact .lowest fits (quiet_leaveSignal (quiet_handleSyscall ran) saved) completes
  | resumes polled => exact .nothing (quiet_polled polled)

/-- Under the mask it began with, nothing is left when `check_signal` returns. -/
def Next.Fits (mask : SigProcMask) (task : UserTask) : Next → Prop
  | .returned => (task.signal.mask mask).tryGetSignal = none
  | .runs check | .suspends check => check.Fits mask task

theorem Next.Fits.quiet (fits : next.Fits mask task) (quiet : task.Quiet after)
    (sigmask : after.sigmask = task.sigmask) : next.Fits mask after := by
  cases next with
  | returned =>
    unfold Next.Fits
    rw [quiet.signal]
    exact fits
  | runs | suspends => exact Checking.Fits.quiet fits quiet sigmask

def Next.check? : Next → Option Checking
  | .returned => none
  | .runs check | .suspends check => some check

theorem Next.check?_eq_none : next.check? = none ↔ next = .returned := by
  cases next <;> simp [Next.check?]

theorem Next.Fits.check {next : Next} {check : Checking} (fits : next.Fits mask task)
    (stands : next.check? = some check) : check.Fits mask task := by
  cases next with
  | returned => cases stands
  | runs | suspends => cases stands; exact fits

theorem Checks.fits {check : Checking} (checks : Checks around task check event notices after next)
    (fits : check.Fits mask task) (restored : completions notices ≠ [] → after.sigmask = mask) :
    next.Fits mask after := by
  cases checks with
  | nothing none => exact fits ▸ none
  | returned | refused | exited | returns => exact restored (by simp [completions])
  | @entered _ signal saved _ found handles =>
    have taken : (Checking.handler saved false).Fits mask task :=
      (fits ▸ found : _ = some signal).trans (by rw [(handleSignal_saved (.inl handles)).1])
    exact taken.inside (handleSignal_spec handles).1 false
  | continues _ ran => exact fits.inside (quiet_handleSyscall ran) false
  | waits _ ran => exact fits.inside (quiet_handleSyscall ran) true
  | still => exact fits
  | resumes polled => exact fits.inside (quiet_polled polled) false

/-! ## Whole calls -/

/-- A thread in a call of `check_signal`, wherever the loop calls it. -/
structure CheckSignal where
  task : UserTask
  stands : Next

namespace CheckSignal

inductive Step (around : Surroundings) : CheckSignal → Label → CheckSignal → Prop where
  | checks {task stands check event notices after next} (stays : stands.check? = some check)
      (checks : Checks around task check event notices after next) :
      Step around ⟨task, stands⟩ (event, notices) ⟨after, next⟩
  | disturbed {task stands event notices after} (disturbs : Disturbs around task event notices after) :
      Step around ⟨task, stands⟩ (event, notices) ⟨after, stands⟩

/-- A step in which nobody sends a signal and no handling ends under another mask. -/
structure Unsent (around : Surroundings) (mask : SigProcMask) (before : CheckSignal) (label : Label)
    (next : CheckSignal) : Prop where
  step : Step around before label next
  unsent : sends label.2 = []
  unraised : ∀ num, label.1 ≠ .raise num
  restored : completions label.2 ≠ [] → next.task.sigmask = mask

/-- A call of `check_signal` in which every call of `handle_signal` comes to its end and
leaves the mask as it was. The thread gets its turn, and nobody sends it a signal. -/
structure Calls (around : Surroundings) (state : Nat → CheckSignal) (label : Nat → Label) : Prop where
  begins : (state 0).stands = .runs .look
  steps : ∀ count, (∀ index ≤ count, (state index).stands ≠ .returned) →
    Unsent around (state 0).task.sigmask (state count) (label count) (state (count + 1))
  scheduled : ∀ count, (∀ index ≤ count, (state index).stands ≠ .returned) →
    (state count).stands.check? = some .look → ∃ later ≥ count, ∃ now, (label later).1 = .look now
  completes : ∀ count saved waiting, (∀ index ≤ count, (state index).stands ≠ .returned) →
    (state count).stands.check? = some (.handler saved waiting) →
    ∃ later ≥ count, completions (label later).2 ≠ []

variable {before next : CheckSignal} {label : Label}

theorem Unsent.takes (step : Unsent around mask before label next) (fits : before.stands.Fits mask before.task) :
    Takes mask before.task (completions label.2) next.task ∧ next.stands.Fits mask next.task := by
  obtain ⟨step, unsent, unraised, restored⟩ := step
  cases step with
  | disturbed disturbs =>
    obtain ⟨quiet, sigmask⟩ := disturbs.quiet unsent unraised
    refine ⟨?_, fits.quiet quiet sigmask⟩
    rw [disturbs.uncompleted]
    exact .nothing quiet
  | checks stays checks => exact ⟨checks.takes (fits.check stays), checks.fits (fits.check stays) restored⟩

theorem Step.looks (step : Step around before label next) {now : Nat} (look : label.1 = .look now) :
    next.stands = .returned ∨ completions label.2 ≠ [] ∨ ∃ saved, next.stands.check? = some (.handler saved false) := by
  cases step with
  | disturbed disturbs =>
    cases look
    cases disturbs
  | checks _ checks =>
    cases look
    cases checks with
    | nothing => exact .inl rfl
    | returned | refused => exact .inr (.inl (by simp [completions]))
    | entered => exact .inr (.inr ⟨_, rfl⟩)

namespace Calls

variable {state : Nat → CheckSignal} {label : Nat → Label} {count : Nat}

variable (calls : Calls around state label)
include calls

theorem fits (inside : ∀ index < count, (state index).stands ≠ .returned) :
    (state count).stands.Fits (state 0).task.sigmask (state count).task := by
  induction count with
  | zero =>
    rw [calls.begins]
    rfl
  | succ count ih =>
    have step := calls.steps count fun index below => inside index (lt_succ_of_le below)
    exact (step.takes (ih fun index below => inside index (below.trans (lt_succ_self count)))).2

theorem takes (inside : ∀ index ≤ count, (state index).stands ≠ .returned) :
    Takes (state 0).task.sigmask (state count).task (completions (label count).2) (state (count + 1)).task :=
  ((calls.steps count inside).takes (calls.fits fun index below => inside index below.le)).1

def rest (state : Nat → CheckSignal) (count : Nat) : Nat := (due (state 0).task.sigmask (state count).task).length

theorem rest_succ (inside : ∀ index ≤ count, (state index).stands ≠ .returned) :
    (completions (label count).2).length + rest state (count + 1) = rest state count := by
  rw [rest, rest, ← (calls.takes inside).due, length_append]

/-- The end of every call of `handle_signal` leaves less to do, so there is a last one. -/
theorem returns : ∃ count, (state count).stands = .returned ∧ ∀ index < count, (state index).stands ≠ .returned := by
  refine @exists_first_of_falls (fun index => (state index).stands = .returned) (rest state) fun unended index => ?_
  have inside (count : Nat) : ∀ index ≤ count, (state index).stands ≠ .returned := fun earlier _ => unended earlier
  have shrinks : Antitone (rest state) := antitone_nat_of_succ_le fun count => by
    rw [← calls.rest_succ (inside count)]
    exact Nat.le_add_left ..
  have falls {index later : Nat} (behind : index ≤ later) (completed : completions (label later).2 ≠ []) :
      rest state (later + 1) < rest state index := by
    have positive := length_pos_iff.mpr completed
    have law := calls.rest_succ (inside later)
    have small := shrinks behind
    omega
  have handler {index : Nat} {saved : Saved} {waiting : Bool}
      (stands : (state index).stands.check? = some (.handler saved waiting)) :
      ∃ later, rest state later < rest state index := by
    obtain ⟨later, behind, completed⟩ := calls.completes index saved waiting (inside index) stands
    exact ⟨later + 1, falls behind completed⟩
  cases stands : (state index).stands.check? with
  | none => exact absurd (Next.check?_eq_none.mp stands) (unended index)
  | some check =>
    cases check with
    | handler saved waiting => exact handler stands
    | look =>
      obtain ⟨later, behind, _, look⟩ := calls.scheduled index (inside index) stands
      rcases (calls.steps later (inside later)).step.looks look with returned | completed | ⟨saved, entered⟩
      · exact absurd returned (unended (later + 1))
      · exact ⟨later + 1, falls behind completed⟩
      · obtain ⟨last, fewer⟩ := handler entered
        exact ⟨last, fewer.trans_le (shrinks (behind.trans (le_succ later)))⟩

variable (inside : ∀ index < count, (state index).stands ≠ .returned)
include inside

theorem run : Run (fun before label next => Takes (state 0).task.sigmask before.task (completions label.2) next.task)
    (state 0) ((List.range count).map label) (state count) :=
  .of_steps fun _ below => calls.takes fun earlier upTo => inside earlier (lt_of_le_of_lt upTo below)

theorem completed (returned : (state count).stands = .returned) :
    (((List.range count).map label).flatMap fun label => completions label.2) =
      due (state 0).task.sigmask (state 0).task := by
  have law := @Run.flow _ _ _ _ (fun label : Label => completions label.2) (fun _ => [])
    (fun call : CheckSignal => due (state 0).task.sigmask call.task)
    (fun takes => by rw [append_nil]; exact takes.due) _ _ _ (calls.run inside)
  have fits := calls.fits inside
  rw [returned] at fits
  rw [due_eq_nil fits, append_nil, flatMap_eq_nil_iff.mpr fun _ _ => rfl, append_nil] at law
  exact law

theorem untouched (low : index < 64) (masked : (state 0).task.sigmask.blocks (.bit index)) :
    Untouched (state 0).task (state count).task (.bit index) := by
  have kept : ∀ {before : CheckSignal} {label : Label} {next : CheckSignal},
      Untouched (state 0).task before.task (.bit index) →
      Takes (state 0).task.sigmask before.task (completions label.2) next.task →
      Untouched (state 0).task next.task (.bit index) :=
    fun held takes => held.trans (takes.untouched low masked)
  have preserved := (calls.run inside).preserves @kept
  exact preserved (UserTask.Quiet.refl.untouched _)

theorem single {signal : SignalFlags} (taken : (state count).task.pending = some signal ∨
      ∃ saved waiting, (state count).stands.check? = some (.handler saved waiting) ∧ saved.signal = signal) :
    ∃ index < 64, signal = .bit index := by
  rcases taken with found | ⟨_, _, stands, rfl⟩
  · obtain ⟨index, low, rfl, -⟩ := pending_eq_some found
    exact ⟨index, low, rfl⟩
  · obtain ⟨index, low, is, -⟩ := tryGetSignal_eq_some ((calls.fits inside).check stands)
    exact ⟨index, low, is⟩

end Calls

def Deliverable (task : UserTask) (signal : SignalFlags) : Prop :=
  task.signal.hasSig signal = true ∧ task.sigmask.blocks signal = false

/-- Every deliverable signal is handled as often as it waits, and masked ones wait on. -/
structure Drained (start finish : UserTask) (handled : List SignalFlags) : Prop where
  standard : ∀ num, 1 ≤ num → num ≤ 64 → (fromNum num).isRealTime = false →
    Deliverable start (.fromNum num) → handled.count (.fromNum num) = 1
  realTime : ∀ num, 1 ≤ num → (high : num ≤ 64) → (fromNum num).isRealTime = true →
    Deliverable start (.fromNum num) → handled.count (.fromNum num) = 1 + start.signalQueue[num - 32]
  only : ∀ signal ∈ handled, Deliverable start signal
  ascending : handled.Pairwise fun first second => first.num ≤ second.num
  masked : ∀ num, 1 ≤ num → num ≤ 64 → start.sigmask.blocks (.fromNum num) = true →
    finish.signal.hasSig (.fromNum num) = start.signal.hasSig (.fromNum num)
  queues : ∀ num, 1 ≤ num → (high : num ≤ 64) → (fromNum num).isRealTime = true →
    start.sigmask.blocks (.fromNum num) = true → finish.signalQueue[num - 32] = start.signalQueue[num - 32]

section Drained

variable {start finish : UserTask} {num : Nat}

private theorem isRealTime_fromNum (range : 1 ≤ num ∧ num ≤ 64) : (fromNum num).isRealTime = decide (34 ≤ num) := by
  rw [fromNum_eq range, isRealTime_bit (by omega)]
  exact decide_eq_decide.mpr (by omega)

private theorem entries_fromNum (range : 1 ≤ num ∧ num ≤ 64) :
    entries start (.fromNum num) = if (fromNum num).isRealTime then start.signalQueue[num - 32] else 0 := by
  rw [isRealTime_fromNum range, fromNum_eq range, entries_bit (by omega)]
  by_cases high : 34 ≤ num
  · have slot : num - 1 - 31 = num - 32 := by omega
    rw [if_pos (by omega), if_pos (decide_eq_true high), slot, Vector.getElem?_eq_getElem (by omega), getD_some]
  · rw [if_neg (by omega), if_neg (by simpa using high)]

theorem Drained.of_due
    (untouched : ∀ index < 64, start.sigmask.blocks (.bit index) → Untouched start finish (.bit index)) :
    Drained start finish (due start.sigmask start) := by
  have counted {num : Nat} (range : 1 ≤ num ∧ num ≤ 64) (deliverable : Deliverable start (.fromNum num)) :
      (due start.sigmask start).count (.fromNum num) = 1 + entries start (.fromNum num) := by
    have index := fromNum_eq range
    have low : num - 1 < 64 := by omega
    obtain ⟨pending, unmasked⟩ := deliverable
    rw [index] at pending unmasked ⊢
    rw [due, count_copies allSignals_nodup (mem_allSignals.mpr ⟨_, low, rfl⟩), instances,
      hasSig_mask _ _ low, pending, unmasked]
    rfl
  have waits {num : Nat} (range : 1 ≤ num ∧ num ≤ 64) (masked : start.sigmask.blocks (.fromNum num)) :
      Untouched start finish (.fromNum num) := by
    rw [fromNum_eq range] at masked ⊢
    exact untouched (num - 1) (by omega) masked
  refine ⟨?_, ?_, ?_, ?_, ?_, ?_⟩
  · intro num positive high standard deliverable
    rw [counted ⟨positive, high⟩ deliverable, entries_fromNum ⟨positive, high⟩, standard]
    rfl
  · intro num positive high realTime deliverable
    rw [counted ⟨positive, high⟩ deliverable, entries_fromNum ⟨positive, high⟩, if_pos realTime]
  · intro _ listed
    obtain ⟨index, low, rfl⟩ := mem_allSignals.mp (mem_of_mem_copies listed)
    have positive := count_pos_iff.mpr listed
    rw [due, count_copies allSignals_nodup (mem_of_mem_copies listed), instances, hasSig_mask _ _ low] at positive
    split at positive
    · next open_ => simpa [Deliverable] using open_
    · cases positive
  · exact pairwise_copies (fun _ => le_refl _) (allSignals_ordered.imp le_of_lt)
  · intro num positive high masked
    exact (waits ⟨positive, high⟩ masked).1
  · intro num positive high realTime masked
    have queue := (waits ⟨positive, high⟩ masked).2
    rwa [entries_fromNum ⟨positive, high⟩, entries_fromNum ⟨positive, high⟩, if_pos realTime, if_pos realTime] at queue

end Drained

/-- `check_signal` returns with every deliverable signal handled, and no index panics. -/
theorem check_signal_drains {state : Nat → CheckSignal} {label : Nat → Label} (calls : Calls around state label) :
    ∃ count, (state count).stands = .returned ∧ (∀ index < count, (state index).stands ≠ .returned) ∧
      Drained (state 0).task (state count).task
        (((List.range count).map label).flatMap fun label => completions label.2) ∧
      ∀ index < count, ∀ signal, ((state index).task.pending = some signal ∨
          ∃ saved waiting, (state index).stands.check? = some (.handler saved waiting) ∧ saved.signal = signal) →
        ∀ handled : UserTask, (handled.completeSignal signal).isSome := by
  obtain ⟨count, returned, inside⟩ := calls.returns
  refine ⟨count, returned, inside, ?_, fun index before signal taken handled => ?_⟩
  · rw [calls.completed inside returned]
    exact .of_due fun index low masked => calls.untouched inside low masked
  · obtain ⟨bit, low, rfl⟩ := calls.single (fun earlier below => inside earlier (below.trans before)) taken
    exact completeSignal_isSome handled low

def backlog : UserTask :=
  { lone.withSignal
      (((new.addSignal (.fromNum 17)).addSignal (.fromNum 18)).addSignal (.fromNum 34)) with
    sigmask := ⟨(fromNum 18).bits⟩
    signalQueue := (Vector.replicate 33 0).setIfInBounds 2 1 }

def backlogAfter : Nat → UserTask
  | 0 => backlog
  | count + 1 =>
    ((backlogAfter count).pending.bind (backlogAfter count).completeSignal).getD (backlogAfter count)

def backlogCall (count : Nat) : CheckSignal := ⟨backlogAfter count, if count ≤ 3 then .runs .look else .returned⟩

def backlogLabel (count : Nat) : Label :=
  (.look 0, ((backlogAfter count).pending.map Notice.completed).toList ++ if count = 3 then [.returned] else [])

theorem backlogAfter_sigmask (count : Nat) : (backlogAfter count).sigmask = backlog.sigmask := by
  induction count with
  | zero => rfl
  | succ count ih =>
    rw [backlogAfter]
    cases round : (backlogAfter count).pending.bind (backlogAfter count).completeSignal with
    | none => exact ih
    | some _ =>
      obtain ⟨_, -, completes⟩ := bind_eq_some_iff.mp round
      exact (completeSignal_kept completes).2.2.1.trans ih

theorem backlog_round {count : Nat} (early : count ≤ 2) {signal : SignalFlags}
    (found : (backlogAfter count).pending = some signal) (default : ((backlogAfter count).action signal).handler = 0)
    (catchable : signal ≠ .SIGKILL) (harmless : signal ∉ terminating ++ [.SIGUSR1, .SIGUSR2]) :
    Unsent .alone backlog.sigmask (backlogCall count) (backlogLabel count) (backlogCall (count + 1)) := by
  obtain ⟨index, low, rfl, -⟩ := pending_eq_some found
  obtain ⟨after, completes⟩ := isSome_iff_exists.mp (completeSignal_isSome (backlogAfter count) low)
  have next : backlogAfter (count + 1) = after := by
    rw [backlogAfter, found, bind_some, completes, getD_some]
  have label : backlogLabel count = (.look 0, [.completed (.bit index)]) := by
    rw [backlogLabel, found, if_neg (by omega : count ≠ 3)]
    rfl
  refine ⟨?_, by rw [label]; rfl, (fun _ raise => nomatch raise), fun _ => backlogAfter_sigmask (count + 1)⟩
  rw [label, backlogCall, backlogCall, if_pos (by omega : count ≤ 3), if_pos (by omega : count + 1 ≤ 3), next]
  exact .checks rfl (.returned found (handleSignal_ignored default catchable harmless) completes)

set_option maxRecDepth 4000 in
theorem backlog_steps {count : Nat} (early : count ≤ 3) :
    Unsent .alone backlog.sigmask (backlogCall count) (backlogLabel count) (backlogCall (count + 1)) := by
  obtain rfl | rfl | rfl | rfl : count = 0 ∨ count = 1 ∨ count = 2 ∨ count = 3 := by omega
  · exact @backlog_round 0 (by decide) (.fromNum 17) (by decide +kernel) (by decide +kernel) (by decide) (by decide)
  · exact @backlog_round 1 (by decide) (.fromNum 34) (by decide +kernel) (by decide +kernel) (by decide) (by decide)
  · exact @backlog_round 2 (by decide) (.fromNum 34) (by decide +kernel) (by decide +kernel) (by decide) (by decide)
  · have none : (backlogAfter 3).pending = none := by decide +kernel
    have label : backlogLabel 3 = (.look 0, [.returned]) := by
      rw [backlogLabel, none]
      rfl
    have last : backlogAfter (3 + 1) = backlogAfter 3 := by
      rw [backlogAfter, none, bind_none, getD_none]
    refine ⟨?_, by rw [label]; rfl, (fun _ raise => nomatch raise), fun _ => backlogAfter_sigmask 4⟩
    rw [label, backlogCall, backlogCall, last]
    exact .checks rfl (.nothing none)

theorem backlog_calls : Calls .alone backlogCall backlogLabel := by
  have early {count : Nat} (inside : ∀ index ≤ count, (backlogCall index).stands ≠ .returned) : count ≤ 3 := by
    have stands := inside count (le_refl count)
    by_contra late
    exact stands (if_neg late)
  refine ⟨rfl, fun count inside => backlog_steps (early inside), fun count _ _ => ⟨count, le_refl _, 0, rfl⟩, ?_⟩
  intro count _ _ inside stands
  rw [backlogCall, if_pos (early inside)] at stands
  cases stands

/-- Signal 17 once, 34 twice, and 18 stays. -/
theorem check_signal_drains_backlog :
    Calls .alone backlogCall backlogLabel ∧
      ∃ count, (backlogCall count).stands = .returned ∧
        Drained backlog (backlogCall count).task
          (((List.range count).map backlogLabel).flatMap fun label => completions label.2) := by
  obtain ⟨count, returned, -, drained, -⟩ := check_signal_drains backlog_calls
  exact ⟨backlog_calls, count, returned, drained⟩

end CheckSignal

end MonkeyOS.User
