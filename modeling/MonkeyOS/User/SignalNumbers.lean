import MonkeyOS.User.SendPaths

/-!
# Signal numbers from user space

Four calls take the number of a signal from user space, and none of them checks it.
`from_num` makes some signal of any number: the subtraction in it wraps at 0, and the
shift takes its amount modulo 64. `sys_sigaction` indexes the actions with the number.
-/

set_option autoImplicit false

namespace MonkeyOS.User

open Lib Tasks UserTask SignalFlags
open MonkeyOS.Runtime (tid2task)

/-- A call with a signal number, by a thread of the process or, for `kill`, by any other. -/
inductive SignalCall where
  | kill (pid : Nat)
  | tkill (caller tid : Nat)
  | tgkill (caller tgid tid : Nat)
  | sigaction (act : Option SigAction) (oldact : Bool)

namespace SignalCall

section Calls

variable (around : Surroundings) (taskMap : Nat → Bool) (task : UserTask)

def target : SignalCall → Option Nat
  | .kill pid => tid2task taskMap around.alive pid
  | .tkill caller tid => task.tkillTarget around caller tid
  | .tgkill caller tgid tid => task.tgkillTarget around caller tgid tid
  | .sigaction _ _ => none

def perform (signum : Nat) : SignalCall → Option (Except Errno Nat × UserTask)
  | .kill pid => some (task.sysKill around taskMap pid signum)
  | .tkill caller tid => task.sysTkill around caller tid signum
  | .tgkill caller tgid tid => task.sysTgkill around caller tgid tid signum
  | .sigaction act oldact => task.sysSigaction signum act oldact

/-- Whether `from_num` is called; `sys_tkill` looks for the thread first. -/
def converts : SignalCall → Prop
  | .tkill caller tid => (task.tkillTarget around caller tid).isSome
  | _ => True

/-- What a call does to the signal with its number, and that it leaves the others alone. -/
structure Affects (call : SignalCall) (signum : Nat) (after : UserTask) : Prop where
  sent : call.target around taskMap task = some task.taskId → after.signal.hasSig (.bit (signum - 1))
  installed : ∀ act oldact, call = .sigaction (some act) oldact → after.sigaction[signum]? = some act
  otherSignals : ∀ index < 64, index + 1 ≠ signum → after.signal.hasSig (.bit index) = task.signal.hasSig (.bit index)
  otherQueues : ∀ slot, slot + 32 ≠ signum → after.signalQueue[slot]? = task.signalQueue[slot]?
  otherActions : ∀ num, num ≠ signum → after.sigaction[num]? = task.sigaction[num]?

structure Validates (call : SignalCall) (signum : Nat) : Prop where
  /-- `1 << (num - 1)` -/
  shift : call.converts around task → 1 ≤ signum ∧ signum - 1 < 64
  /-- `num() - 32` -/
  queue : ∀ index, (fromNum signum).realTimeIndex = some index → 32 ≤ (fromNum signum).num ∧ index < 33
  returns : (call.perform around taskMap task signum).isSome
  zero : signum = 0 → ∀ answer after, call.perform around taskMap task signum = some (answer, after) → after = task
  beyond : 64 < signum → call.perform around taskMap task signum = some (.error .EINVAL, task)
  named : 1 ≤ signum → signum ≤ 64 → ∀ answer after,
    call.perform around taskMap task signum = some (answer, after) → call.Affects around taskMap task signum after

end Calls

variable {around : Surroundings} {taskMap : Nat → Bool} {task after : UserTask} {call : SignalCall} {signum : Nat}

theorem Affects.same (missed : call.target around taskMap task ≠ some task.taskId)
    (installed : ∀ act oldact, call ≠ .sigaction (some act) oldact) :
    call.Affects around taskMap task signum task where
  sent reached := absurd reached missed
  installed act oldact same := absurd same (installed act oldact)
  otherSignals _ _ _ := rfl
  otherQueues _ _ := rfl
  otherActions _ _ := rfl

section

variable (range : 1 ≤ signum ∧ signum ≤ 64) (sends : ∀ act oldact, call ≠ .sigaction (some act) oldact)
include range sends

theorem Affects.added : call.Affects around taskMap task signum (task.addSignal (.fromNum signum)) where
  sent _ := by
    have low : signum - 1 < 64 := by omega
    rw [addSignal, signal_withSignal, fromNum_eq range, SignalList.hasSig_addSignal _ _ low, getLsbD_bit low]
    simp
  installed act oldact same := absurd same (sends act oldact)
  otherSignals index low other := by
    have bound : signum - 1 < 64 := by omega
    have apart : signum - 1 ≠ index := by omega
    rw [addSignal, signal_withSignal, fromNum_eq range, SignalList.hasSig_addSignal _ _ low, getLsbD_bit bound]
    simp [apart]
  otherQueues _ _ := rfl
  otherActions _ _ := rfl

theorem Affects.of_sendSignal (sent : task.sendSignal signum = some after) :
    call.Affects around taskMap task signum after := by
  have low : signum - 1 < 64 := by omega
  rcases sendSignal_cases sent with ⟨-, rfl⟩ | ⟨pending, -, rfl⟩ | ⟨pending, index, _, realTime, _, rfl⟩
  · exact .added range sends
  · rw [fromNum_eq range] at pending
    exact ⟨fun _ => pending, fun act oldact same => absurd same (sends act oldact), fun _ _ _ => rfl,
      fun _ _ => rfl, fun _ _ => rfl⟩
  · rw [fromNum_eq range] at pending realTime
    rw [realTimeIndex_bit low] at realTime
    refine ⟨fun _ => pending, fun act oldact same => absurd same (sends act oldact), fun _ _ _ => rfl,
      fun slot _ => ?_, fun _ _ => rfl⟩
    split at realTime
    · have apart : index ≠ slot := by
        have := Option.some.inj realTime
        omega
      exact Vector.getElem?_setIfInBounds_ne apart
    · cases realTime

theorem Affects.of_sendTo {target : Option Nat} {error : Errno} {answer : Except Errno Nat}
    (aims : call.target around taskMap task = target) (done : task.sendTo target error signum = some (answer, after)) :
    call.Affects around taskMap task signum after := by
  rcases sendTo_cases done with ⟨-, sent⟩ | ⟨missed, rfl⟩
  · exact .of_sendSignal range sends sent
  · exact .same (aims ▸ missed) sends

end

theorem perform_affects {answer : Except Errno Nat} (range : 1 ≤ signum ∧ signum ≤ 64)
    (done : call.perform around taskMap task signum = some (answer, after)) :
    call.Affects around taskMap task signum after := by
  cases call with
  | kill pid =>
    have sends : ∀ act oldact, SignalCall.kill pid ≠ .sigaction (some act) oldact :=
      fun _ _ same => SignalCall.noConfusion same
    simp only [perform, sysKill] at done
    split at done
    · next missing =>
      cases done
      exact .same (by rw [target, missing]; exact Option.some_ne_none _ ∘ Eq.symm) sends
    · next _ reached =>
      cases done
      split
      · exact .added range sends
      · next other => exact .same (by rw [target, reached]; exact fun same => other (Option.some.inj same)) sends
  | tkill caller tid => exact .of_sendTo range (fun _ _ same => SignalCall.noConfusion same) rfl done
  | tgkill caller _ tid => exact .of_sendTo range (fun _ _ same => SignalCall.noConfusion same) rfl done
  | sigaction act oldact =>
    simp only [perform, sysSigaction] at done
    rw [if_neg (by omega)] at done
    cases act with
    | none =>
      cases done
      exact .same (by simp [target]) (by simp)
    | some act =>
      cases done
      refine ⟨by simp [target], fun _ _ same => ?_, fun _ _ _ => rfl, fun _ _ => rfl, fun _ other => ?_⟩
      · cases same
        exact Vector.getElem?_setIfInBounds_self_of_lt (by omega)
      · exact Vector.getElem?_setIfInBounds_ne (Ne.symm other)

theorem perform_isSome (range : signum ≤ 64) : (call.perform around taskMap task signum).isSome := by
  have sending : ∀ target error, (task.sendTo target error signum).isSome := by
    intro target error
    obtain ⟨_, sent⟩ := Option.isSome_iff_exists.mp (sendSignal_isSome task signum)
    unfold sendTo
    cases target with
    | none => rfl
    | some target =>
      simp only [sent]
      split <;> rfl
  cases call with
  | kill => rfl
  | tkill | tgkill => exact sending _ _
  | sigaction act _ =>
    simp only [perform, sysSigaction]
    rw [if_neg (by omega)]
    cases act <;> rfl

/-- The queue of a real-time signal is always there: every number gives a single signal. -/
theorem queue_index (signum : Nat) {index : Nat} (realTime : (fromNum signum).realTimeIndex = some index) :
    32 ≤ (fromNum signum).num ∧ index < 33 := by
  obtain ⟨_, low, is⟩ := fromNum_eq_bit signum
  rw [is, realTimeIndex_bit low] at realTime
  rw [is, num_bit low]
  split at realTime
  · have := Option.some.inj realTime
    omega
  · cases realTime

/-- The calls validate the numbers of signals only, and `sys_tkill` also zero if it finds
no thread. -/
theorem signal_number_validated_iff (around : Surroundings) (taskMap : Nat → Bool) (task : UserTask)
    (call : SignalCall) (signum : Nat) :
    call.Validates around taskMap task signum ↔
      (1 ≤ signum ∧ signum ≤ 64) ∨
        signum = 0 ∧ ∃ caller tid, call = .tkill caller tid ∧ task.tkillTarget around caller tid = none := by
  constructor
  · intro validates
    by_cases range : 1 ≤ signum ∧ signum ≤ 64
    · exact .inl range
    · have unconverted : ¬ call.converts around task := fun converts => by
        have := validates.shift converts
        omega
      cases call with
      | kill | tgkill | sigaction => exact absurd trivial unconverted
      | tkill caller tid =>
        have missing := Option.not_isSome_iff_eq_none.mp unconverted
        refine .inr ⟨?_, caller, tid, rfl, missing⟩
        by_contra nonzero
        have answer := validates.beyond (by omega)
        simp only [perform, sysTkill, missing, sendTo] at answer
        cases answer
  · rintro (range | ⟨rfl, caller, tid, rfl, missing⟩)
    · exact ⟨fun _ => by omega, fun index => queue_index signum, perform_isSome range.2, fun zero => by omega,
        fun large => by omega, fun _ _ answer after done => perform_affects range done⟩
    · refine ⟨fun converted => ?_, fun index => queue_index 0, perform_isSome (Nat.zero_le _),
        fun _ answer after done => ?_, fun large => by omega, fun positive => by omega⟩
      · rw [converts, missing] at converted
        cases converted
      · simp only [perform, sysTkill, missing, sendTo] at done
        cases done
        rfl

/-- With 0 `kill` raises the last real-time signal and with 65 `SIGHUP`; `sigaction`
panics at 65. -/
theorem unchecked_signal_numbers :
    (lone.sysKill .alone (fun _ => true) 1 0).2.signal.hasSig (.bit 63) ∧
      (lone.sysKill .alone (fun _ => true) 1 65).2.signal.hasSig .SIGHUP ∧
      lone.sysSigaction 65 (some .new) false = none ∧
      ¬ (kill 1).Validates .alone (fun _ => true) lone 0 := by
  refine ⟨by decide +kernel, by decide +kernel, rfl, fun validates => ?_⟩
  exact absurd (validates.shift trivial) (by decide)

end SignalCall

end MonkeyOS.User
