import MonkeyOS.Fs.Pipe

/-!
# Progress of blocking writes

A `WaitBlockingWrite` at the sending end of a pipe tries the whole buffer again at each
poll. Whether it gets through, if the pipe is emptied again and again, depends on the
length of the buffer and on who else writes.
-/

set_option autoImplicit false

namespace MonkeyOS.Fs.Pipe

open Lib Function Option MonkeyOS.Fs.System List

def Waiting (system : PipeSystem) (task id : Nat) (buffer : List UInt8) : Prop :=
  ∃ offset retries, system.futures task = some (.write (.sender id) { buffer, offset, retries })

/-- A write that is polled as long as it waits, while the reader empties the pipe
whenever it is not empty. -/
structure BlockingWrite (run : Endless Step) (task id : Nat) (buffer : List UInt8) : Prop where
  waits : Waiting (run.state 0) task id buffer
  kept : ∀ index, (run.label index).action ≠ .cancel task
  polled : ∀ index, Waiting (run.state index) task id buffer → ∃ later ≥ index, (run.label later).action = .poll task
  drained : ∀ index, (run.state index).state.queue ≠ [] → ∃ later ≥ index, (run.state later).state.queue = []

def SoleWriter (run : Endless Step) (task : Nat) : Prop :=
  ∀ index, (run.label index).action = .poll task ∨ written (run.label index) = []

def completion (task id : Nat) (buffer : List UInt8) : PipeEvent :=
  ⟨.poll task, .wrote (.sender id) buffer (.ok buffer.length)⟩

def Completes (run : Endless Step) (task id : Nat) (buffer : List UInt8) : Prop :=
  ∃ index, run.label index = completion task id buffer

variable {before after : PipeSystem} {event : PipeEvent} {task id : Nat} {buffer : List UInt8}

/-! ## One poll -/

section

variable (waits : Waiting before task id buffer)
include waits

theorem poll_overflows (full : before.state.Overflows buffer) :
    ∃ after, Step before ⟨.poll task, .silent⟩ after ∧ after.state = before.state ∧ Waiting after task id buffer := by
  obtain ⟨offset, retries, waits⟩ := waits
  refine ⟨{ before with
    futures := update before.futures task
      (some (.write (.sender id) { buffer, offset, retries := retries + 1 })) }, ?_, rfl, offset, retries + 1, ?_⟩
  · simp only [Step, System.Step, act, waits, map_some, pollFuture, WaitBlockingWrite.poll, inode,
      writeat_overflows full, if_true]
  · exact update_self ..

theorem poll_fits (fits : ¬ before.state.Overflows buffer)
    (step : Step before event after) (polls : event.action = .poll task) : event = completion task id buffer := by
  obtain ⟨_, _, waits⟩ := waits
  obtain ⟨_, _⟩ := event
  cases polls
  simp only [Step, System.Step, act, waits, map_some, pollFuture, WaitBlockingWrite.poll, inode,
    writeat_fits fits, Option.some.injEq, Prod.mk.injEq] at step
  rw [completion, step.1]

theorem poll_waiting (step : Step before event after) (polls : event.action = .poll task) :
    event = completion task id buffer ∨ event.outcome = .silent ∧ Waiting after task id buffer := by
  by_cases full : before.state.Overflows buffer
  · obtain ⟨_, polled, -, waits⟩ := poll_overflows waits full
    obtain ⟨_, _⟩ := event
    cases polls
    cases (polled.symm.trans step)
    exact .inr ⟨rfl, waits⟩
  · exact .inl (poll_fits waits full step polls)

theorem Waiting.of_other (step : Step before event after)
    (others : event.action ≠ .poll task) (kept : event.action ≠ .cancel task) : Waiting after task id buffer := by
  suffices same : after.futures task = before.futures task by rwa [Waiting, same]
  obtain ⟨action, _⟩ := event
  cases action with
  | write who offset _ =>
    cases step
    rfl
  | read who offset _ =>
    cases step
    rfl
  | await other future =>
    simp only [Step, System.Step, act] at step
    split at step
    · cases step
    next free =>
      cases step
      refine update_of_ne ?_ ..
      rintro rfl
      obtain ⟨offset, _, waits⟩ := waits
      exact free (by rw [waits]; rfl)
  | poll other =>
    obtain ⟨future, -, polled⟩ := map_eq_some_iff.mp step
    have different : task ≠ other := fun same => others (same ▸ rfl)
    cases future with
    | read who future | write who future =>
      simp only [pollFuture] at polled
      split at polled <;> cases polled <;> exact update_of_ne different ..
  | cancel other =>
    cases step
    have different : task ≠ other := fun same => kept (same ▸ rfl)
    exact update_of_ne different ..
  | change _ =>
    obtain ⟨_, -, same⟩ := map_eq_some_iff.mp step
    obtain ⟨-, rfl⟩ := Prod.mk.inj same
    rfl

end

/-! ## Whole executions -/

variable {run : Endless Step}

section

variable (write : BlockingWrite run task id buffer)
include write

theorem BlockingWrite.waiting (never : ¬ Completes run task id buffer)
    (index : Nat) : Waiting (run.state index) task id buffer := by
  refine run.always_from (Waiting · task id buffer) (fun index _ waits => ?_) write.waits index.zero_le
  by_cases polls : (run.label index).action = .poll task
  · rcases poll_waiting waits (run.taken index) polls with done | ⟨-, waits⟩
    · exact absurd ⟨index, done⟩ never
    · exact waits
  · exact waits.of_other (run.taken index) polls (write.kept index)

theorem BlockingWrite.overflows (never : ¬ Completes run task id buffer)
    {index : Nat} (polls : (run.label index).action = .poll task) : (run.state index).state.Overflows buffer := by
  by_contra fits
  exact never ⟨index, poll_fits (write.waiting never index) fits (run.taken index) polls⟩

theorem BlockingWrite.stays_empty (sole : SoleWriter run task)
    (never : ¬ Completes run task id buffer) : ∃ start, ∀ index ≥ start, (run.state index).state.queue = [] := by
  have silent (index : Nat) : written (run.label index) = [] := by
    rcases sole index with polls | none
    · rcases poll_waiting (write.waiting never index) (run.taken index) polls with done | ⟨silent, -⟩
      · exact absurd ⟨index, done⟩ never
      · rw [written, silent]
    · exact none
  have empties : ∃ start, (run.state start).state.queue = [] := by
    by_cases empty : (run.state 0).state.queue = []
    · exact ⟨0, empty⟩
    · obtain ⟨start, -, empty⟩ := write.drained 0 empty
      exact ⟨start, empty⟩
  obtain ⟨start, empty⟩ := empties
  refine ⟨start, fun index later => run.always_from (fun system => system.state.queue = []) ?_ empty later⟩
  intro index _ empty
  have flow := (run.taken index).flow
  rw [empty, silent, List.append_nil, List.append_eq_nil_iff] at flow
  exact flow.2

theorem BlockingWrite.completes_of_small (small : buffer.length ≤ 16) : Completes run task id buffer := by
  by_contra never
  obtain ⟨_, -, polls⟩ := write.polled 0 write.waits
  exact absurd (write.overflows never polls).1 small.not_gt

theorem BlockingWrite.completes_of_sole (sole : SoleWriter run task)
    (fits : buffer.length ≤ pipeBufferSize) : Completes run task id buffer := by
  by_contra never
  obtain ⟨start, empty⟩ := write.stays_empty sole never
  obtain ⟨index, later, polls⟩ := write.polled start (write.waiting never start)
  have full := (write.overflows never polls).2
  rw [empty index later, length_nil, zero_add] at full
  exact absurd full fits.not_gt

end

/-! ## Executions without progress -/

def writing (task id : Nat) (buffer queue : List UInt8) : PipeSystem where
  state := { queue, senders := 2 }
  futures := update (fun _ => none) task (some (.write (.sender id) { buffer, offset := 0, retries := 0 }))

theorem waiting_writing (queue : List UInt8) : Waiting (writing task id buffer queue) task id buffer :=
  ⟨0, 0, by simp [writing]⟩

theorem exists_blocked (task id : Nat) (large : pipeBufferSize < buffer.length) :
    ∃ run, BlockingWrite run task id buffer ∧ SoleWriter run task ∧ ¬ Completes run task id buffer := by
  have next (before : PipeSystem) (blocked : before.state.queue = [] ∧ Waiting before task id buffer) :
      ∃ event after, Step before event after ∧ event = ⟨.poll task, .silent⟩ ∧
        after.state.queue = [] ∧ Waiting after task id buffer := by
    have full : before.state.Overflows buffer := by
      rw [Overflows, blocked.1, length_nil, zero_add]
      exact ⟨lt_trans (by decide) large, large⟩
    obtain ⟨after, step, same, waits⟩ := poll_overflows blocked.2 full
    exact ⟨_, after, step, rfl, same ▸ blocked.1, waits⟩
  obtain ⟨run, _, always⟩ := Endless.exists_of_next ⟨rfl, waiting_writing []⟩ fun _ => next
  refine ⟨run, ⟨(always 0).1.2, fun index => ?_, fun index _ => ⟨index, le_rfl, ?_⟩, fun index some => ?_⟩,
    fun index => .inl ?_, ?_⟩
  · rw [(always index).2]
    exact nofun
  · rw [(always index).2]
  · exact absurd (always index).1.1 some
  · rw [(always index).2]
  · rintro ⟨index, done⟩
    cases (always index).2.symm.trans done

/-- Another task fills the pipe, the write is polled, the reader empties the pipe. -/
def starving (task id : Nat) (filler : List UInt8) (index : Nat) : PipeEvent :=
  if index % 3 = 0 then ⟨.write (.sender (id + 1)) 0 filler, .wrote (.sender (id + 1)) filler (.ok filler.length)⟩
  else if index % 3 = 1 then ⟨.poll task, .silent⟩
  else ⟨.read (.receiver 0) 0 filler.length, .got (.receiver 0) filler.length (.ok filler)⟩

def starved (filler : List UInt8) (index : Nat) : List UInt8 := if index % 3 = 0 then [] else filler

theorem starving_step {filler : List UInt8} (size : filler.length = pipeBufferSize) (large : 16 < buffer.length)
    {index : Nat} (waits : Waiting before task id buffer) (queue : before.state.queue = starved filler index) :
    ∃ after, Step before (starving task id filler index) after ∧
      Waiting after task id buffer ∧ after.state.queue = starved filler (index + 1) := by
  have phases : index % 3 = 0 ∨ index % 3 = 1 ∨ index % 3 = 2 := by omega
  rcases phases with phase | phase | phase
  · rw [starved, if_pos phase] at queue
    rw [starving, if_pos phase, starved, if_neg (by omega)]
    have fits : ¬ before.state.Overflows filler := by
      rw [Overflows, queue, size, length_nil]
      decide
    refine ⟨{ before with state := before.state.append filler }, ?_, waits, ?_⟩
    · simp only [Step, System.Step, act, inode, writeat_fits fits]
    · rw [append, queue, nil_append]
  · rw [starved, if_neg (by omega)] at queue
    rw [starving, if_neg (by omega), if_pos phase, starved, if_neg (by omega)]
    have full : before.state.Overflows buffer := by
      rw [Overflows, queue, size]
      exact ⟨large, by omega⟩
    obtain ⟨after, step, same, waits⟩ := poll_overflows waits full
    exact ⟨after, step, waits, same ▸ queue⟩
  · rw [starved, if_neg (by omega)] at queue
    rw [starving, if_neg (by omega), if_neg (by omega), starved, if_pos (by omega)]
    have flows : ¬ before.state.Dry filler.length := by
      rintro ⟨-, empty, -⟩
      rw [queue] at empty
      rw [empty] at size
      cases size
    refine ⟨{ before with state := before.state.drop filler.length }, ?_, waits, ?_⟩
    · simp only [Step, System.Step, act, inode, readat_flows flows, queue, take_length]
    · rw [drop, queue, drop_length]

theorem exists_starved (task id : Nat) (large : 16 < buffer.length) :
    ∃ run, BlockingWrite run task id buffer ∧ ¬ Completes run task id buffer := by
  have size : (List.replicate pipeBufferSize (0 : UInt8)).length = pipeBufferSize := length_replicate
  generalize List.replicate pipeBufferSize (0 : UInt8) = filler at size
  obtain ⟨run, _, always⟩ := @Endless.exists_of_next _ _ Step
    (fun index system => Waiting system task id buffer ∧ system.state.queue = starved filler index)
    (fun index event => event = starving task id filler index) (writing task id buffer [])
    ⟨waiting_writing [], rfl⟩ fun index _ held =>
      have ⟨after, step, later⟩ := starving_step size large held.1 held.2
      ⟨_, after, step, rfl, later⟩
  refine ⟨run, ⟨(always 0).1.1, fun index => ?_, fun index _ => ?_, fun index _ => ?_⟩, ?_⟩
  · rw [(always index).2, starving]
    split
    · exact nofun
    · split <;> exact nofun
  · refine ⟨3 * index + 1, by omega, ?_⟩
    rw [(always _).2, starving, if_neg (by omega), if_pos (by omega)]
  · refine ⟨3 * index, by omega, ?_⟩
    rw [(always _).1.2, starved, if_pos (by omega)]
  · rintro ⟨index, done⟩
    rw [(always index).2, starving, completion] at done
    split at done
    · cases done
    · split at done <;> cases done

/-- Emptying the pipe again and again lets through every write of at most 16 bytes, those
of a sole writer up to the size of the pipe, and no others. -/
theorem blocking_write_progress_iff (task id : Nat) (buffer : List UInt8) :
    ((∀ run, BlockingWrite run task id buffer → Completes run task id buffer) ↔ buffer.length ≤ 16) ∧
      ((∀ run, BlockingWrite run task id buffer → SoleWriter run task → Completes run task id buffer) ↔
        buffer.length ≤ pipeBufferSize) := by
  constructor
  · refine ⟨fun progress => ?_, fun small run write => write.completes_of_small small⟩
    by_contra large
    obtain ⟨run, write, never⟩ := exists_starved task id (not_le.mp large)
    exact never (progress run write)
  · refine ⟨fun progress => ?_, fun fits run write sole => write.completes_of_sole sole fits⟩
    by_contra large
    obtain ⟨run, write, sole, never⟩ := exists_blocked task id (not_le.mp large)
    exact never (progress run write sole)

/-- One byte more than the pipe holds is never written, even at an empty pipe. -/
theorem oversized_write_never_completes :
    ∃ run, BlockingWrite run 0 0 (List.replicate (pipeBufferSize + 1) 0) ∧ SoleWriter run 0 ∧
      ¬ Completes run 0 0 (List.replicate (pipeBufferSize + 1) 0) := by
  refine exists_blocked 0 0 ?_
  rw [List.length_replicate]
  exact Nat.lt_succ_self _

end MonkeyOS.Fs.Pipe
