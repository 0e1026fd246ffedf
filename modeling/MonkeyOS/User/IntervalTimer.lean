import MonkeyOS.User.SignalProperties

/-!
# The interval timer

`sys_setitimer` of `kernel/src/syscall/time.rs` beside `check_timer`. Nothing says
whether the timer is armed but `next > last`: a deadline that has been seen is kept
in `last`, and a new one has to come after it.
-/

set_option autoImplicit false

namespace MonkeyOS

open Lib Tasks

namespace Syscall

theorem currentTimeval_le {earlier later : Nat} (ordered : earlier ≤ later) :
    currentTimeval earlier ≤ currentTimeval later := by
  rw [TimeVal.le_iff]
  simp only [currentTimeval]
  omega

theorem lt_deadline {nsec : Nat} {value : TimeVal} (normal : value.Normalised)
    (fits : (currentTimeval nsec).sec + value.sec < usizeBound) (some : value ≠ .zero) :
    currentTimeval nsec < (currentTimeval nsec).add value := by
  have now : (currentTimeval nsec).Normalised :=
    Nat.div_lt_of_lt_mul (Nat.mod_lt nsec (by decide))
  have positive : 0 < value.sec ∨ 0 < value.usec := by
    by_contra none
    exact some (by obtain ⟨sec, usec⟩ := value; simp_all [TimeVal.zero])
  rw [TimeVal.add_eq now normal fits, TimeVal.lt_iff]
  dsimp only
  omega

end Syscall

namespace User

open MonkeyOS.Syscall (TimeVal ITimerVal ProcessTimer currentTimeval currentTimeval_le lt_deadline)

/-- `times` is what stands behind the pointer, unless that is null. -/
def UserTask.sysSetitimer (task : UserTask) (nsec which : Nat) (times : Option ITimerVal) :
    Except Errno Nat × UserTask :=
  if which = 0 then
    match times with
    | none => (.ok 0, task)
    | some newTimer =>
      let timer :=
        { task.timer with timer := newTimer, next := (currentTimeval nsec).add newTimer.value }
      (.ok 0, { task with timer :=
        if newTimer.value.sec = 0 ∧ newTimer.value.usec = 0 then { timer with next := .zero, last := .zero }
        else timer })
  else (.error .EPERM, task)

inductive TimerCall where
  | setitimer (nsec : Nat) (times : Option ITimerVal)
  | check (nsec : Nat)

def TimerCall.writes : TimerCall → Bool
  | .setitimer _ times => times.isSome
  | .check _ => false

def TimerCall.Sees (deadline : TimeVal) : TimerCall → Prop
  | .setitimer .. => False
  | .check nsec => deadline ≤ currentTimeval nsec

/-- The timer that the threads of a process share, and the time of the last call. -/
structure TimerState where
  timer : ProcessTimer
  clock : Nat

namespace TimerState

def boot : TimerState := { timer := .zero, clock := 0 }

inductive Step : TimerState → TimerCall × Bool → TimerState → Prop where
  | setitimer {task : UserTask} {clock nsec times} (later : clock ≤ nsec)
      (normal : ∀ newTimer ∈ times, newTimer.value.Normalised)
      (fits : ∀ newTimer ∈ times, (currentTimeval nsec).sec + newTimer.value.sec < usizeBound) :
      Step ⟨task.timer, clock⟩ (.setitimer nsec times, false) ⟨(task.sysSetitimer nsec 0 times).2.timer, nsec⟩
  | check {task : UserTask} {clock nsec} (later : clock ≤ nsec) :
      Step ⟨task.timer, clock⟩ (.check nsec, decide (task.timerExpired nsec)) ⟨(task.checkTimer nsec).timer, nsec⟩

/-- The last deadline that was seen has passed. -/
def Seen (state : TimerState) : Prop := state.timer.last ≤ currentTimeval state.clock

/-- The deadline is set and has not been seen. -/
def Armed (deadline : TimeVal) (state : TimerState) : Prop :=
  state.timer.next = deadline ∧ state.timer.last < deadline

def Idle (state : TimerState) : Prop := ¬ state.timer.last < state.timer.next

variable {state after : TimerState} {call : TimerCall × Bool} {deadline : TimeVal}

variable {clock nsec : Nat} {raised : Bool}

theorem Seen.later {timer : ProcessTimer} (seen : Seen ⟨timer, clock⟩) (later : clock ≤ nsec) : Seen ⟨timer, nsec⟩ := by
  have order := currentTimeval_le later
  simp only [Seen, TimeVal.le_iff] at *
  omega

theorem Seen.step (seen : state.Seen) (step : Step state call after) : after.Seen := by
  cases step with
  | @setitimer task clock nsec times later =>
    cases times with
    | none => exact seen.later later
    | some _ =>
      simp only [UserTask.sysSetitimer, if_true]
      split
      · simp only [Seen, TimeVal.le_iff, TimeVal.zero]
        omega
      · exact seen.later later
  | @check task clock nsec later =>
    unfold UserTask.checkTimer
    split
    · next expired => exact expired.2
    · exact seen.later later

theorem Step.arms {times : ITimerVal} (seen : state.Seen)
    (step : Step state (.setitimer nsec (some times), raised) after) :
    if times.value = .zero then after.Idle else after.Armed ((currentTimeval nsec).add times.value) := by
  cases step with
  | @setitimer _ _ _ _ later normal fits =>
    have zero : times.value.sec = 0 ∧ times.value.usec = 0 ↔ times.value = .zero := by
      obtain ⟨_, sec, usec⟩ := times
      simp [TimeVal.zero]
    simp only [UserTask.sysSetitimer, if_true, zero]
    split
    · simp [Idle, TimeVal.lt_iff]
    · next some =>
      refine ⟨rfl, ?_⟩
      have passed := seen.later later
      have ahead := lt_deadline (normal times rfl) (fits times rfl) some
      simp only [Seen, TimeVal.le_iff, TimeVal.lt_iff] at *
      omega

def QuietStep (state : TimerState) (call : TimerCall × Bool) (after : TimerState) : Prop :=
  Step state call after ∧ call.1.writes = false

theorem Idle.step (idle : state.Idle) (step : QuietStep state call after) : call.2 = false ∧ after.Idle := by
  obtain ⟨step, reads⟩ := step
  cases step with
  | @setitimer task clock nsec times =>
    cases times with
    | none => exact ⟨rfl, idle⟩
    | some => cases reads
  | @check task clock nsec =>
    have quiet : ¬ task.timerExpired nsec := fun expired => idle expired.1
    refine ⟨decide_eq_false quiet, ?_⟩
    rw [UserTask.checkTimer, if_neg quiet]
    exact idle

theorem Armed.step (armed : state.Armed deadline) (step : QuietStep state call after) :
    call.1.Sees deadline ∧ call.2 = true ∧ after.Idle ∨
      ¬ call.1.Sees deadline ∧ call.2 = false ∧ after.Armed deadline := by
  obtain ⟨step, reads⟩ := step
  cases step with
  | @setitimer task clock nsec times =>
    cases times with
    | none => exact .inr ⟨id, rfl, armed⟩
    | some => cases reads
  | @check task clock nsec =>
    obtain ⟨next, unseen⟩ := armed
    have due : task.timerExpired nsec ↔ deadline ≤ currentTimeval nsec := by
      rw [← next] at unseen ⊢
      exact ⟨And.right, fun passed => ⟨unseen, passed⟩⟩
    by_cases passed : deadline ≤ currentTimeval nsec
    · refine .inl ⟨passed, decide_eq_true (due.mpr passed), ?_⟩
      rw [UserTask.checkTimer, if_pos (due.mpr passed)]
      simp [Idle, TimeVal.lt_iff]
    · have quiet := mt due.mp passed
      refine .inr ⟨passed, decide_eq_false quiet, ?_⟩
      rw [UserTask.checkTimer, if_neg quiet]
      exact ⟨next, unseen⟩

/-- Between two calls that write the timer, `SIGALRM` is raised at the first check that
finds the deadline passed, if one was set, and at no other. -/
theorem timer_fires_once {earlier between : List (TimerCall × Bool)} {before armed finish : TimerState}
    {nsec : Nat} {times : ITimerVal} {raised : Bool} (history : Run Step boot earlier before)
    (arms : Step before (.setitimer nsec (some times), raised) armed)
    (run : Run QuietStep armed between finish) :
    let deadline := (currentTimeval nsec).add times.value
    between.countP (·.2) ≤ 1 ∧
      (between.countP (·.2) = 1 ↔ times.value ≠ .zero ∧ ∃ call ∈ between, call.1.Sees deadline) ∧
      (times.value ≠ .zero → MarksFirst (fun call => call.1.Sees deadline) (·.2) between) ∧
      (times.value = .zero → ∀ call ∈ between, call.2 = false) := by
  intro deadline
  have seen : boot.Seen := by
    change TimeVal.zero ≤ currentTimeval 0
    decide
  have left := arms.arms (history.preserves (fun seen step => Seen.step seen step) seen)
  have traces := @Run.marksFirst _ _ (fun call : TimerCall × Bool => call.1.Sees deadline) (·.2) _ QuietStep
    (Armed deadline) Idle Idle.step Armed.step _ _ run
  by_cases disarms : times.value = .zero
  · rw [if_pos disarms] at left
    have unraised := traces.1 left
    have none : between.countP (·.2) = 0 := List.countP_eq_zero.mpr fun call member => by
      simp [unraised call member]
    exact ⟨by omega, by simp [none, disarms], fun some => absurd disarms some, fun _ => unraised⟩
  · rw [if_neg disarms] at left
    have first := traces.2 left
    exact ⟨first.countP.1, by simpa [disarms] using first.countP.2, fun _ => first, fun zero => absurd zero disarms⟩

def oneSecond (last : TimeVal) : ProcessTimer where
  timer := { interval := .zero, value := { sec := 1, usec := 0 } }
  next := { sec := 1, usec := 0 }
  last := last

def threeChecks : List (TimerCall × Bool) :=
  [(.check 500000000, false), (.check 1000000000, true), (.check 2000000000, false)]

private theorem checked (timer left : ProcessTimer) (later : clock ≤ nsec)
    (raises : decide ({ UserTask.lone with timer }.timerExpired nsec) = raised)
    (leaves : ({ UserTask.lone with timer }.checkTimer nsec).timer = left) :
    QuietStep ⟨timer, clock⟩ (.check nsec, raised) ⟨left, nsec⟩ := by
  subst raises leaves
  exact ⟨@Step.check { UserTask.lone with timer } clock nsec later, rfl⟩

theorem timer_fires_once_second :
    ∃ armed finish, Step boot (.setitimer 0 (some (oneSecond .zero).timer), false) armed ∧
      Run QuietStep armed threeChecks finish ∧ threeChecks.countP (·.2) = 1 := by
  let fired := oneSecond { sec := 1, usec := 0 }
  have leaves : (UserTask.lone.sysSetitimer 0 0 (some (oneSecond .zero).timer)).2.timer = oneSecond .zero := by
    decide +kernel
  have arms : Step boot (.setitimer 0 (some (oneSecond .zero).timer), false) ⟨oneSecond .zero, 0⟩ :=
    leaves ▸ @Step.setitimer .lone 0 0 (some (oneSecond .zero).timer) (Nat.le_refl 0)
      (by simp [oneSecond]) (by simp [oneSecond, currentTimeval, usizeBound])
  have run : Run QuietStep ⟨oneSecond .zero, 0⟩ threeChecks ⟨fired, 2000000000⟩ :=
    .cons (checked (oneSecond .zero) (oneSecond .zero) (by decide) (by decide +kernel) (by decide +kernel))
      (.cons (checked (oneSecond .zero) fired (by decide) (by decide +kernel) (by decide +kernel))
        (.cons (checked fired fired (by decide) (by decide +kernel) (by decide +kernel)) .refl))
  refine ⟨_, _, arms, run, (timer_fires_once .refl arms run).2.1.mpr ⟨by decide, (.check 1000000000, true), ?_, ?_⟩⟩
  · simp [threeChecks]
  · change TimeVal.add _ _ ≤ _
    decide

end TimerState

end User

end MonkeyOS
