import MonkeyOS.Tasks.Task

/-!
# The life of a process

The threads of one process from its creation on: each runs its entry loop until
the loop finds an exit code, of the process or of the thread (`entry_point` of
`kernel/src/user/entry.rs`). `check_signal` looks at neither, so a thread may call
`exit` for one pending signal after the other. What the threads do in between is
arbitrary.
-/

set_option autoImplicit false

namespace MonkeyOS.Tasks

open Lib

def Process.lastMain (process : Process) (alive : Nat → Bool) (taskId : Nat) : Bool :=
  taskId == process.processId && process.pcb.threads.all fun other => !alive other || other == taskId

structure Life where
  process : Process
  mem : PhysMem
  /-- Threads in their entry loop. -/
  running : List Nat
  /-- Task objects that something still refers to. -/
  alive : Nat → Bool
  parentAlive : Bool
  /-- Signals sent to the parent, in order. -/
  sent : List Nat

inductive LifeEvent where
  | threadClone (taskId childId : Nat)
  | threadExit (taskId exitCode : Nat)
  | exit (taskId exitCode : Nat)
  | leave (taskId : Nat)
  /-- The last reference to an ended task is dropped. -/
  | release (taskId : Nat)
  | parentEnds
  /-- A thread runs: memory, page table, files and children change. -/
  | work (taskId : Nat) (process : Process) (mem : PhysMem)

namespace Life

def finish (life : Life) (ended : Process.Ended) : Life :=
  { life with
    process := ended.process
    mem := ended.mem
    sent := if life.parentAlive then life.sent ++ ended.signal.toList else life.sent }

/-- Strong counts come from the rest of the kernel and are not bound to any value. -/
inductive Step : Life → LifeEvent → Life → Prop where
  | threadClone {life taskId childId} (runs : taskId ∈ life.running)
      (fresh : childId ≠ life.process.processId ∧ childId ∉ life.running ∧ childId ∉ life.process.pcb.threads) :
      Step life (.threadClone taskId childId)
        { life with
          process := life.process.threadClone life.alive taskId childId
          running := life.running ++ [childId]
          alive := Function.update life.alive childId true }
  | threadExit {life taskId exitCode strongCount} (runs : taskId ∈ life.running) :
      Step life (.threadExit taskId exitCode)
        (life.finish (life.process.threadExit life.mem life.alive strongCount taskId exitCode))
  /-- By the thread itself, or by `kill_all_tasks`. -/
  | exit {life taskId exitCode strongCount} (alive : life.alive taskId) :
      Step life (.exit taskId exitCode)
        (life.finish (life.process.exit life.mem life.alive strongCount taskId exitCode))
  | leave {life taskId} (runs : taskId ∈ life.running)
      (stopped : life.process.pcb.exitCode ≠ none ∨ (life.process.tcb taskId).threadExitCode ≠ none) :
      Step life (.leave taskId) { life with running := life.running.filter fun other => other != taskId }
  | release {life taskId} (stopped : taskId ∉ life.running) :
      Step life (.release taskId) { life with alive := Function.update life.alive taskId false }
  | parentEnds {life} : Step life .parentEnds { life with parentAlive := false }
  | work {life taskId process mem} (runs : taskId ∈ life.running)
      (same : process.processId = life.process.processId ∧
        process.pcb.threads = life.process.pcb.threads ∧
        process.pcb.exitCode = life.process.pcb.exitCode)
      (files : life.process.pcb.fdTable ≠ [] → process.pcb.fdTable ≠ []) :
      Step life (.work taskId process mem) { life with process, mem }

/-- The main thread calls `thread_exit` or `exit`, and no other thread in the list of the
process is referenced any more. -/
def takesDown (life : Life) : LifeEvent → Bool
  | .threadExit taskId _ | .exit taskId _ => life.process.lastMain life.alive taskId
  | _ => false

structure Tally where
  takedowns : Nat
  /-- Since the last of them, a thread in a call has put memory or files into the process. -/
  refilled : Bool

def Tally.next (tally : Tally) (life : Life) (event : LifeEvent) : Tally :=
  if life.takesDown event then { takedowns := tally.takedowns + 1, refilled := false }
  else
    match event with
    | .work _ process _ => { tally with refilled := !process.pcb.memset.isEmpty || !process.pcb.fdTable.isEmpty }
    | _ => tally

def TalliedStep (before : Life × Tally) (event : LifeEvent) (after : Life × Tally) : Prop :=
  before.1.Step event after.1 ∧ after.2 = before.2.next before.1 event

end Life

end MonkeyOS.Tasks
