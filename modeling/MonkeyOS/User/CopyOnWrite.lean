import MonkeyOS.User.Eager
import MonkeyOS.User.Pointers

/-!
# Families of processes

Processes that fork from one another and load and store, with every fault served
by the handler. The other processes of the family count as holders of a frame.
-/

set_option autoImplicit false

namespace MonkeyOS.User

open Lib Tasks

/-- The processes by index; a new child is the last. -/
structure Kernel where
  processes : List Process
  machine : Machine
  tls : TlsLoop

namespace Kernel

def live (kernel : Kernel) (index : Nat) : Option Process :=
  kernel.processes[index]?.filter fun process => process.pcb.exitCode.isNone

def space (kernel : Kernel) (process : Process) : UserSpace :=
  { process, machine := kernel.machine, tls := kernel.tls }

def put (kernel : Kernel) (index : Nat) (after : UserSpace) : Kernel :=
  { processes := kernel.processes.set index after.process, machine := after.machine, tls := after.tls }

/-- References to a frame from the areas of the others and from attached segments. -/
def heldElsewhere (kernel : Kernel) (index frame : Nat) : Nat :=
  ((kernel.processes.eraseIdx index).map fun process =>
      (process.pcb.memset.flatMap MemArea.mtrackers).countP fun track => track.tracker = frame).sum +
    (kernel.processes.map fun process =>
      (process.pcb.shms.flatMap MapedSharedMemory.mem).count frame).sum

def around (kernel : Kernel) (event : Event) : Surroundings :=
  { files := event.files
    others := fun frame => kernel.heldElsewhere event.index frame + event.extra frame
    alive := event.alive }

/-- The answer to an access that did not go through. -/
def unserved (after : UserSpace) : Answer :=
  if after.process.pcb.exitCode.isSome then .ended else .refused

/-- One action, with its answer. `none` is a kernel panic, or no such process. -/
def perform (kernel : Kernel) (event : Event) : Option (Answer × Kernel) := do
  let process ← kernel.live event.index
  match event.action with
  | .load vaddr => do
      let (paddr, after) ← (kernel.space process).access (kernel.around event) event.taskId vaddr false
      match paddr with
      | none => some (unserved after, kernel.put event.index after)
      | some paddr => some (.byte (after.machine.mem paddr), kernel.put event.index after)
  | .store vaddr byte => do
      let (paddr, after) ← (kernel.space process).access (kernel.around event) event.taskId vaddr true
      match paddr with
      | none => some (unserved after, kernel.put event.index after)
      | some paddr => some (.done, kernel.put event.index (after.fill paddr [byte]))
  | .fork childId => do
      let (parent, child) ← process.cowFork event.taskId childId
      some (.done, { kernel with processes := kernel.processes.set event.index parent ++ [child] })

def Step (before : Kernel) (event : Event) (after : Kernel) : Prop :=
  before.perform event = some (event.answer, after)

def heap (kernel : Kernel) : Heap (Nat × Nat) Nat Page where
  points := fun (index, page) => (kernel.live index).bind fun process => pointer process.pcb page
  contents := pageAt kernel.machine.mem

end Kernel

/-- A fault outside all areas adds only free addresses, as a stack only if there
is none, reads its file segment, and ends the task only if that clears no word. -/
def Event.Clear (kernel : Kernel) (event : Event) : Prop :=
  ∀ process vaddr write, kernel.live event.index = some process →
    event.action.access = some (vaddr, write) → target process.pageTable vaddr write = none →
    process.pcb.memset.areaAt vaddr = none →
    SegmentReadable event.files process.pcb.memset vaddr ∧
    (∀ plan, windowPlan event.files process.pcb.memset vaddr = some plan →
      (plan.mtype = .Stack → ∀ area ∈ process.pcb.memset, area.mtype ≠ .Stack) ∧
      ∀ set ∈ process.pcb.ranges,
        Disjoint (plan.area vaddr []).range set) ∧
    (EndsTask (kernel.space process) event.taskId vaddr →
      (process.tcb event.taskId).clearChildTid = 0 ∨
        process.pageTable.translate (process.tcb event.taskId).clearChildTid = none)

/-- Processes with tidy areas. Page tables map pages to their frames, segments
completely, and a private page writable only if no other page has its frame. -/
structure Sound (kernel : Kernel) : Prop where
  tidy : ∀ index process, kernel.live index = some process → Tidy process.pcb
  mapped : ∀ index process, kernel.live index = some process →
    ∀ page mapping, process.pageTable page = some mapping →
      ∃ target, pointer process.pcb page = some target ∧ target.frame = mapping.paddr
  attached : ∀ index process, kernel.live index = some process →
    ∀ shm ∈ process.pcb.shms, ∀ track ∈ shm.tracks,
      ∃ mapping, process.pageTable track.vaddr = some mapping ∧ mapping.flags.w = true
  exclusive : ∀ index process, kernel.live index = some process →
    ∀ page mapping, process.pageTable page = some mapping → mapping.flags.w = true →
      pointer process.pcb page = some { frame := mapping.paddr, shared := false } →
      kernel.heap.Sole (index, page)
  sorted : kernel.heap.Sorted
  held : ∀ place target, kernel.heap.points place = some target →
    kernel.machine.frames.Registered target.frame ∧ ¬ kernel.machine.frames.Free target.frame
  clean : kernel.machine.Clean

/-- The system shows what the processes of the kernel see. -/
structure Models (kernel : Kernel) (system : System) : Prop where
  count : system.layouts.length = kernel.processes.length
  layouts : ∀ index process, kernel.live index = some process → system.layouts[index]? = some process.pcb.memset.layout
  store : kernel.heap.Represents system.store

end MonkeyOS.User
