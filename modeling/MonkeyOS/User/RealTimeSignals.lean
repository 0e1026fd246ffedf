import MonkeyOS.User.SignalProperties

/-! Every real-time signal sent by number to a thread is handled once, or still waits
in the pending bit or in the queue of its number. -/

set_option autoImplicit false

namespace MonkeyOS.User

open Lib Tasks UserTask Option SignalFlags SignalList

variable {around : Surroundings} {task after : UserTask} {event : LoopEvent} {notices : List Notice} {index other : Nat}

/-- Instances of a signal that wait: one in the pending bit, the others queued. -/
def waiting (task : UserTask) (index : Nat) : Nat :=
  (if task.signal.hasSig (.bit index) then 1 else 0) + task.signalQueue[index - 31]?.getD 0

theorem UserTask.Quiet.waiting (quiet : task.Quiet after) (index : Nat) :
    User.waiting after index = User.waiting task index := by
  rw [User.waiting, quiet.signal, quiet.signalQueue, User.waiting]

theorem addSignal_waiting (low : index < 64) (otherLow : other < 64) :
    waiting (task.addSignal (.bit other)) index =
      waiting task index + if other = index ∧ task.signal.hasSig (.bit index) = false then 1 else 0 := by
  have queue : (task.addSignal (.bit other)).signalQueue = task.signalQueue := rfl
  rw [waiting, waiting, addSignal_hasSig _ _ low, getLsbD_bit otherLow, queue]
  cases task.signal.hasSig (.bit index) with
  | true => simp
  | false =>
    by_cases same : other = index
    · simp [same, add_comm]
    · simp [same]

private theorem count_bit (otherLow : other < 64) :
    [bit other].count (.bit index) = if other = index then 1 else 0 := by
  rw [List.count_singleton]
  simp only [beq_iff_eq, bit_inj otherLow]

theorem requeue_waiting {queued count : Nat}
    (signal : after.signal.hasSig (.bit index) = task.signal.hasSig (.bit index))
    (queue : after.signalQueue = task.signalQueue.setIfInBounds (other - 31) count)
    (found : task.signalQueue[other - 31]? = some queued) (range : 33 ≤ index ∧ index < 64) (high : 33 ≤ other) :
    waiting after index + (if other = index then queued else 0) =
      waiting task index + if other = index then count else 0 := by
  unfold waiting
  rw [signal, queue]
  by_cases same : other = index
  · have inside : index - 31 < 33 := by omega
    rw [same] at found ⊢
    simp only [found, Vector.getElem?_setIfInBounds_self_of_lt inside, if_true, getD_some]
    omega
  · have apart : other - 31 ≠ index - 31 := by omega
    simp only [Vector.getElem?_setIfInBounds_ne apart, same, if_false]

theorem sendSignal_waiting {signum : Nat} (range : 33 ≤ index ∧ index < 64)
    (send : task.sendSignal signum = some after) :
    waiting task index + [fromNum signum].count (.bit index) = waiting after index := by
  obtain ⟨other, low, is⟩ := fromNum_eq_bit signum
  rw [is, count_bit low]
  rcases sendSignal_cases send with ⟨clear, rfl⟩ | ⟨-, single, rfl⟩ | ⟨-, slot, _, realTime, found, changed⟩
  · rw [is, addSignal_waiting range.2 low]
    by_cases same : other = index
    · rw [is, same] at clear
      simp [same, clear]
    · simp [same]
  · rw [is, realTimeIndex_bit low, ite_eq_right_iff] at single
    rw [if_neg fun same => by simpa using single (same ▸ range.1)]
    rfl
  · rw [is, realTimeIndex_bit low] at realTime
    obtain ⟨high, rfl⟩ : 33 ≤ other ∧ other - 31 = slot := by simpa using realTime
    have requeued := requeue_waiting (by rw [changed]; rfl) (congrArg signalQueue changed) found range high
    by_cases same : other = index
    · simp only [same, if_true] at requeued ⊢
      omega
    · simp only [same, if_false] at requeued ⊢
      exact requeued.symm

theorem completeSignal_cases (completes : task.completeSignal (.bit other) = some after) (low : other < 64) :
    (after = task.withSignal (task.signal.removeSignal (.bit other)) ∧
        (33 ≤ other → task.signalQueue[other - 31]? = some 0)) ∨
      (33 ≤ other ∧ ∃ queued, task.signalQueue[other - 31]? = some (queued + 1) ∧
        after.signal = (task.signal.removeSignal (.bit other)).addSignal (.bit other) ∧
        after.signalQueue = task.signalQueue.setIfInBounds (other - 31) queued) := by
  unfold completeSignal at completes
  rw [realTimeIndex_bit low] at completes
  by_cases high : 33 ≤ other
  · simp only [high, if_true] at completes
    obtain ⟨queued, found, rest⟩ := bind_eq_some_iff.mp completes
    cases queued with
    | zero => exact .inl ⟨(Option.some.inj rest).symm, fun _ => found⟩
    | succ queued =>
      cases rest
      exact .inr ⟨high, queued, found, (signal_withSignal ..).trans (by rw [signal_withSignal]), rfl⟩
  · simp only [high, if_false] at completes
    exact .inl ⟨(Option.some.inj completes).symm, fun above => absurd above high⟩

def entries (task : UserTask) (signal : SignalFlags) : Nat :=
  (signal.realTimeIndex.bind fun slot => task.signalQueue[slot]?).getD 0

theorem entries_bit (low : index < 64) :
    entries task (.bit index) = if 33 ≤ index then task.signalQueue[index - 31]?.getD 0 else 0 := by
  rw [entries, realTimeIndex_bit low]
  split <;> rfl

def Untouched (task after : UserTask) (signal : SignalFlags) : Prop :=
  after.signal.hasSig signal = task.signal.hasSig signal ∧ entries after signal = entries task signal

theorem UserTask.Quiet.untouched (quiet : task.Quiet after) (signal : SignalFlags) : Untouched task after signal := by
  unfold Untouched entries
  rw [quiet.signal, quiet.signalQueue]
  exact ⟨rfl, rfl⟩

theorem Untouched.trans {handled : UserTask} {signal : SignalFlags} (left : Untouched task handled signal)
    (right : Untouched handled after signal) : Untouched task after signal :=
  ⟨right.1.trans left.1, right.2.trans left.2⟩

variable (completes : task.completeSignal (.bit other) = some after)
include completes

theorem completeSignal_other (otherLow : other < 64) (low : index < 64) (apart : index ≠ other) :
    Untouched task after (.bit index) := by
  have removed : (task.signal.removeSignal (.bit other)).hasSig (.bit index) = task.signal.hasSig (.bit index) := by
    rw [hasSig_removeSignal _ low otherLow]
    simp [apart.symm]
  rw [Untouched, entries_bit low, entries_bit low]
  rcases completeSignal_cases completes otherLow with ⟨rfl, -⟩ | ⟨_, _, _, signal, queue⟩
  · rw [signal_withSignal]
    exact ⟨removed, rfl⟩
  · constructor
    · rw [signal, hasSig_addSignal _ _ low, removed, getLsbD_bit otherLow]
      simp [apart.symm]
    · rw [queue]
      split
      · rw [Vector.getElem?_setIfInBounds_ne (by omega)]
      · rfl

/-- An entry of the queue takes the place of the instance that was handled. -/
theorem completeSignal_own (low : other < 64) :
    (after.signal.hasSig (.bit other) = false ∧ entries task (.bit other) = 0 ∧ entries after (.bit other) = 0) ∨
      (after.signal.hasSig (.bit other) = true ∧ entries task (.bit other) = entries after (.bit other) + 1) := by
  rw [entries_bit low, entries_bit low]
  rcases completeSignal_cases completes low with ⟨rfl, empty⟩ | ⟨high, _, found, signal, queue⟩
  · have none : (if 33 ≤ other then task.signalQueue[other - 31]?.getD 0 else 0) = 0 := by
      split
      · next real => rw [empty real, getD_some]
      · rfl
    refine .inl ⟨?_, none, none⟩
    rw [signal_withSignal, hasSig_removeSignal _ low low]
    simp
  · have inside : other - 31 < 33 := by omega
    refine .inr ⟨?_, ?_⟩
    · rw [signal, hasSig_addSignal _ _ low, getLsbD_bit low]
      simp
    · rw [if_pos high, if_pos high, found, queue, Vector.getElem?_setIfInBounds_self_of_lt inside, getD_some, getD_some]

theorem completeSignal_waiting (range : 33 ≤ index ∧ index < 64) (low : other < 64)
    (pending : task.signal.hasSig (.bit other)) :
    waiting task index = waiting after index + [bit other].count (.bit index) := by
  have split (task : UserTask) :
      waiting task index = (if task.signal.hasSig (.bit index) then 1 else 0) + entries task (.bit index) := by
    rw [waiting, entries_bit range.2, if_pos range.1]
  rw [count_bit low, split, split]
  by_cases same : other = index
  · subst same
    rcases completeSignal_own completes low with ⟨gone, empty, left⟩ | ⟨again, fewer⟩
    · simp [pending, gone, empty, left]
    · simp only [pending, again, fewer, if_true]
      omega
  · obtain ⟨bit, queue⟩ := completeSignal_other completes low range.2 (Ne.symm same)
    rw [bit, queue, if_neg same, add_zero]

omit completes

theorem Effect.waiting (effect : Effect task event notices after) (range : 33 ≤ index ∧ index < 64)
    (unraised : ∀ num, event = .raise num → fromNum num ≠ .bit index) :
    User.waiting task index + (sends notices).count (.bit index) =
      User.waiting after index + (completions notices).count (.bit index) := by
  cases effect with
  | quiet quiet sent completed => rw [quiet.waiting, sent, completed]
  | sent send sent completed =>
    rw [sent, completed]
    exact sendSignal_waiting range send
  | @raised signal source raises sent completed =>
    obtain ⟨other, low, is⟩ : ∃ other < 64, signal = .bit other := by
      rcases source with rfl | ⟨num, -, rfl⟩
      · exact ⟨13, by decide, rfl⟩
      · exact fromNum_eq_bit num
    have apart : other ≠ index := by
      rintro rfl
      rcases source with alarm | ⟨num, raise, number⟩
      · rw [is, SignalFlags.SIGALRM, bit_inj low] at alarm
        omega
      · exact unraised num raise (number.symm.trans is)
    rw [raises.waiting, is, addSignal_waiting range.2 low, sent, completed]
    simp [apart]
  | completed low quiet pending _ completes sent completed =>
    rw [sent, completed, ← quiet.waiting]
    exact completeSignal_waiting completes range low (by rw [quiet.signal]; exact pending)

/-! ## Whole runs -/

theorem sendSignal_isSome (task : UserTask) (signum : Nat) : (task.sendSignal signum).isSome := by
  obtain ⟨index, low, is⟩ := fromNum_eq_bit signum
  unfold sendSignal
  simp only [is, realTimeIndex_bit low]
  by_cases high : 33 ≤ index
  · have inside : index - 31 < 33 := by omega
    simp only [high, if_true, Vector.getElem?_eq_getElem inside]
    split <;> rfl
  · split <;> rfl

theorem completeSignal_isSome (task : UserTask) (low : index < 64) : (task.completeSignal (.bit index)).isSome := by
  unfold completeSignal
  rw [realTimeIndex_bit low]
  by_cases high : 33 ≤ index
  · have inside : index - 31 < 33 := by omega
    simp only [high, if_true, Vector.getElem?_eq_getElem inside, bind_eq_bind, bind_some]
    split <;> rfl
  · simp [high]

namespace EntryPoint

structure Unsignalled (loop : EntryPoint) : Prop where
  phase : loop.phase = .top
  signal : loop.task.signal = .new
  signalQueue : loop.task.signalQueue = Vector.replicate 33 0

/-- Nobody raises the signal but by `sys_tkill` and `sys_tgkill`. -/
def OnlySent (num : Nat) (label : Label) : Prop :=
  ∀ other, label.1 = .raise other → fromNum other ≠ .fromNum num

variable {start finish : EntryPoint} {labels : List Label} {num : Nat}

/-- Sends of a real-time signal are handled or wait, and no index panics. -/
theorem real_time_signals_conserved (low : 34 ≤ num) (high : num ≤ 64) (begins : start.Unsignalled)
    (run : Run (fun before label after => Step around before label after ∧ OnlySent num label) start labels finish) :
    (labels.flatMap fun label => sends label.2).count (.fromNum num) =
        (labels.flatMap fun label => completions label.2).count (.fromNum num) +
          (if finish.task.signal.hasSig (.fromNum num) then 1 else 0) + finish.task.signalQueue[num - 32] ∧
      (∀ signum, (finish.task.sendSignal signum).isSome) ∧
      ∀ signal, (finish.task.pending = some signal ∨
          ∃ saved, finish.phase.handler? = some saved ∧ saved.signal = signal) →
        ∀ handled : UserTask, (handled.completeSignal signal).isSome := by
  have initial : start.Sane := .of_free (by rw [begins.phase]; rfl)
  have index : fromNum num = .bit (num - 1) := fromNum_eq ⟨by omega, high⟩
  have assumed := run.assuming (fun sane step => step.1.sane sane) initial
  have balanced := @Run.balance _ _ _ (fun label => (completions label.2).count (.fromNum num))
    (fun label => (sends label.2).count (.fromNum num)) (fun loop => waiting loop.task (num - 1))
    (fun ⟨⟨step, only⟩, sane⟩ => by
      rw [index]
      exact (step.effect sane).waiting ⟨by omega, by omega⟩ fun other raise => index ▸ only other raise)
    _ _ _ assumed
  have empty : waiting start.task (num - 1) = 0 := by
    have clear : SignalList.new.hasSig (.bit (num - 1)) = false := by simp [SignalList.new, SignalList.hasSig]
    rw [waiting, begins.signal, begins.signalQueue, clear, Vector.getElem?_replicate,
      if_neg Bool.false_ne_true, if_pos (by omega)]
    rfl
  have slot : finish.task.signalQueue[num - 1 - 31]?.getD 0 = finish.task.signalQueue[num - 32] := by
    rw [show num - 1 - 31 = num - 32 by omega, Vector.getElem?_eq_getElem (by omega), getD_some]
  refine ⟨?_, sendSignal_isSome finish.task, fun signal is handled => ?_⟩
  · rw [empty, waiting, slot, ← index] at balanced
    rw [List.count_flatMap, List.count_flatMap]
    simp only [Function.comp_def] at balanced ⊢
    omega
  · obtain ⟨index, low, rfl⟩ : ∃ index < 64, signal = .bit index := by
      rcases is with taken | ⟨saved, inside, rfl⟩
      · obtain ⟨index, low, rfl, -⟩ := pending_eq_some taken
        exact ⟨index, low, rfl⟩
      · exact (run.preserves (fun sane step => step.1.sane sane) initial saved inside).single
    exact completeSignal_isSome handled low

def twoSends : List Label :=
  [(.tkill 1 1 34, [.sent (.fromNum 34)]), (.timer 0, []), (.tgkill 1 1 1 34, [.sent (.fromNum 34)]),
    (.look 0, [.completed (.fromNum 34)])]

set_option maxRecDepth 4000 in
theorem real_time_signals_conserved_two_sends :
    ∃ finish, Run (fun before label after => Step .alone before label after ∧ OnlySent 34 label)
        ⟨.lone, .top⟩ twoSends finish ∧
      2 = 1 + (if finish.task.signal.hasSig (.fromNum 34) then 1 else 0) + finish.task.signalQueue[2] := by
  obtain ⟨finish, run⟩ : ∃ finish, Run
      (fun before label after => Step .alone before label after ∧ OnlySent 34 label)
      ⟨.lone, .top⟩ twoSends finish :=
    ⟨_, .cons ⟨.disturbed (.tkill rfl), fun _ raise => nomatch raise⟩
      (.cons ⟨.timer, fun _ raise => nomatch raise⟩
        (.cons ⟨.disturbed (.tgkill rfl), fun _ raise => nomatch raise⟩
          (.cons ⟨.checks (.returned (by decide +kernel)
              (handleSignal_ignored (by decide +kernel) (by decide) (by decide))
              (some_get (completeSignal_isSome _ (by decide))).symm), fun _ raise => nomatch raise⟩
            .refl)))⟩
  exact ⟨finish, run, (real_time_signals_conserved (by decide) (by decide) ⟨rfl, rfl, rfl⟩ run).1⟩

end EntryPoint

end MonkeyOS.User
