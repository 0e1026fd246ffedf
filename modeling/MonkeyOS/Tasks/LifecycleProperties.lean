import MonkeyOS.Tasks.Lifecycle
import MonkeyOS.Tasks.TaskProperties

/-! How often the end of threads takes the process down. -/

set_option autoImplicit false

namespace MonkeyOS.Tasks

open Lib List

namespace Process

variable (process : Process) (mem : PhysMem) (alive : Nat → Bool) (strongCount : Nat → Nat) (taskId exitCode : Nat)

structure EndsThread (process : Process) (last : Bool) (ended : Ended) : Prop where
  takenDown : last → ended.process.pcb.memset = [] ∧ ended.process.pcb.fdTable = [] ∧
    ended.process.pcb.exitCode.isSome ∧ ended.signal.isSome
  kept : last = false → ended.process.pcb.memset = process.pcb.memset ∧
    ended.process.pcb.fdTable = process.pcb.fdTable ∧
    (process.pcb.exitCode.isSome → ended.process.pcb.exitCode.isSome) ∧ ended.signal = none

theorem lastMain_iff : process.lastMain alive taskId ↔ taskId = process.processId ∧
    (process.pcb.threads.filter fun other => alive other && other != taskId).length = 0 := by
  rw [lastMain, Bool.and_eq_true, beq_iff_eq, all_eq_true, length_eq_zero_iff, filter_eq_nil_iff]
  refine and_congr_right fun _ => forall₂_congr fun other _ => ?_
  cases alive other <;> simp

theorem leaveThreads_ends : EndsThread process (process.lastMain alive taskId)
    (process.leaveThreads mem alive strongCount taskId exitCode) := by
  have last := process.lastMain_iff alive taskId
  simp only [leaveThreads]
  split
  · next alone =>
    rw [last.mpr alone]
    exact ⟨fun _ => ⟨rfl, rfl, rfl, rfl⟩, nofun⟩
  · next busy =>
    rw [Bool.eq_false_iff.mpr (mt last.mp busy)]
    exact ⟨nofun, fun _ => ⟨rfl, rfl, id, rfl⟩⟩

theorem clearChildTid_same :
    let cleared := (process.clearChildTid mem taskId).1
    cleared.lastMain alive taskId = process.lastMain alive taskId ∧ cleared.pcb.memset = process.pcb.memset ∧
      cleared.pcb.fdTable = process.pcb.fdTable ∧ cleared.pcb.exitCode = process.pcb.exitCode := by
  obtain ⟨_, cleared⟩ := process.clearChildTid_fst mem taskId
  rw [cleared]
  exact ⟨rfl, rfl, rfl, rfl⟩

variable {process alive taskId} in
theorem EndsThread.of_cleared {changed : Process} {ended : Ended}
    (ends : EndsThread changed (changed.lastMain alive taskId) ended)
    (same : changed.lastMain alive taskId = process.lastMain alive taskId ∧
      changed.pcb.memset = process.pcb.memset ∧ changed.pcb.fdTable = process.pcb.fdTable)
    (code : process.pcb.exitCode.isSome → changed.pcb.exitCode.isSome) :
    EndsThread process (process.lastMain alive taskId) ended := by
  obtain ⟨last, memset, fdTable⟩ := same
  rw [← last]
  refine ⟨ends.takenDown, fun more => ?_⟩
  obtain ⟨sameMemset, sameFiles, keeps, signal⟩ := ends.kept more
  exact ⟨sameMemset.trans memset, sameFiles.trans fdTable, fun some => keeps (code some), signal⟩

theorem threadExit_ends : EndsThread process (process.lastMain alive taskId)
    (process.threadExit mem alive strongCount taskId exitCode) := by
  obtain ⟨last, memset, fdTable, code⟩ := process.clearChildTid_same mem alive taskId
  exact (leaveThreads_ends ..).of_cleared ⟨last, memset, fdTable⟩ fun some => code ▸ some

theorem exit_ends : EndsThread process (process.lastMain alive taskId)
    (process.exit mem alive strongCount taskId exitCode) := by
  obtain ⟨last, memset, fdTable, -⟩ := process.clearChildTid_same mem alive taskId
  exact (leaveThreads_ends ..).of_cleared ⟨last, memset, fdTable⟩ fun _ => rfl

end Process

namespace Life

variable {start life : Life} {before after : Life × Tally} {event : LifeEvent} {tally : Tally}

/-- The tally says what is left of the process and what the parent was sent. -/
structure Accounted (state : Life × Tally) : Prop where
  files : state.2.takedowns = 0 → state.1.process.pcb.fdTable ≠ []
  exitCode : 0 < state.2.takedowns → state.1.process.pcb.exitCode.isSome
  empty : 0 < state.2.takedowns → (state.2.refilled = false ↔
    state.1.process.pcb.memset = [] ∧ state.1.process.pcb.fdTable = [])
  sent : state.1.parentAlive → state.1.sent.length = state.2.takedowns

theorem Accounted.finish (accounted : Accounted (life, tally)) {last : Bool} {ended : Process.Ended}
    (ends : life.process.EndsThread last ended) :
    Accounted (life.finish ended, if last then { takedowns := tally.takedowns + 1, refilled := false } else tally) := by
  cases last with
  | true =>
    obtain ⟨memset, fdTable, exitCode, signal⟩ := ends.takenDown rfl
    obtain ⟨sent, sends⟩ := Option.isSome_iff_exists.mp signal
    refine ⟨nofun, fun _ => exitCode, fun _ => iff_of_true rfl ⟨memset, fdTable⟩, fun parent => ?_⟩
    change life.parentAlive at parent
    simp [Life.finish, parent, sends, accounted.sent parent]
  | false =>
    obtain ⟨memset, fdTable, exitCode, signal⟩ := ends.kept rfl
    refine ⟨fun none => ?_, fun some => exitCode (accounted.exitCode some), fun some => ?_, fun parent => ?_⟩
    · exact fdTable ▸ accounted.files none
    · exact memset ▸ fdTable ▸ accounted.empty some
    · simpa [Life.finish, parent, signal] using accounted.sent parent

theorem Accounted.step (accounted : Accounted before) (step : TalliedStep before event after) : Accounted after := by
  obtain ⟨next, _⟩ := after
  obtain ⟨step, rfl⟩ := step
  cases step with
  | threadExit => exact accounted.finish (Process.threadExit_ends ..)
  | exit => exact accounted.finish (Process.exit_ends ..)
  | threadClone | leave | release => exact ⟨accounted.files, accounted.exitCode, accounted.empty, accounted.sent⟩
  | parentEnds => exact ⟨accounted.files, accounted.exitCode, accounted.empty, nofun⟩
  | work _ same files =>
    refine ⟨fun none => files (accounted.files none), fun some => ?_, fun _ => ?_, accounted.sent⟩
    · exact same.2.2 ▸ accounted.exitCode some
    · simp [Tally.next, takesDown]

def fresh : Life :=
  { process := .new 7 (fileTable 0)
    mem := fun _ => 0, running := [7], alive := fun taskId => taskId = 7, parentAlive := true
    sent := [] }

def ended : Life := fresh.finish (fresh.process.threadExit fresh.mem fresh.alive (fun _ => 1) 7 0)

end Life

end MonkeyOS.Tasks
