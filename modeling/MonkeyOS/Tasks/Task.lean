import MonkeyOS.Lib.Paged
import MonkeyOS.Runtime.Frame
import MonkeyOS.Tasks.Futex
import MonkeyOS.Tasks.MemSet

/-!
# Processes and their memory

`kernel/src/tasks/task.rs`. The control block and the page table of a process
are shared by its threads and stand in one record, with the control block of
each thread by task id. An outer `none` is a kernel panic (an `assert!` or an
index out of range). Times, limits other than that on files, signal actions and
log output are left out.
-/

set_option autoImplicit false

namespace MonkeyOS.Tasks

open Lib
open MonkeyOS.Runtime

abbrev PhysMem := Nat → UInt8

structure Machine where
  frames : FrameAllocator
  mem : PhysMem

namespace Machine

def frameAlloc (machine : Machine) : Option (Nat × Machine) :=
  machine.frames.alloc.map fun (frame, frames) => (frame, { machine with frames })

def frameAllocMuch (machine : Machine) (pages : Nat) : Option (List Nat × Machine) :=
  (machine.frames.allocMuch pages).map fun (allocated, frames) => (allocated, { machine with frames })

/-- `Drop` of a `FrameTracker`: the frame is cleared and given back. -/
def dropFrame (machine : Machine) (frame : Nat) : Machine :=
  { frames := machine.frames.dealloc frame
    mem := overlay machine.mem frame (List.replicate pageSize 0) }

end Machine

inductive TrapFrameArgs where
  | SEPC | RA | SP | RET | ARG0 | ARG1 | ARG2 | TLS | SYSCALL
  deriving DecidableEq, Repr

/-- The general register behind an index; the program counter is none. -/
def TrapFrameArgs.general : TrapFrameArgs → Option (Fin 32)
  | .SEPC => none
  | .RA => some 1
  | .SP => some 2
  | .RET => some 10
  | .ARG0 => some 10
  | .ARG1 => some 11
  | .ARG2 => some 12
  | .TLS => some 4
  | .SYSCALL => some 17

structure TrapFrame where
  x : Vector Nat 32
  sstatus : Nat
  sepc : Nat
  fsx : Vector Nat 2
  deriving DecidableEq, Repr

namespace TrapFrame

/-- Nothing here depends on the status register that is read. -/
def new : TrapFrame :=
  { x := Vector.replicate 32 0, sstatus := 0, sepc := 0, fsx := Vector.replicate 2 0 }

def index (frame : TrapFrame) (args : TrapFrameArgs) : Nat :=
  match args.general with
  | none => frame.sepc
  | some register => frame.x[register]

instance : CoeFun TrapFrame fun _ => TrapFrameArgs → Nat := ⟨index⟩

def indexMut (frame : TrapFrame) (args : TrapFrameArgs) (value : Nat) : TrapFrame :=
  match args.general with
  | none => { frame with sepc := value }
  | some register => { frame with x := frame.x.set register value }

theorem index_indexMut (frame : TrapFrame) (args other : TrapFrameArgs) (value : Nat) :
    frame.indexMut args value other = if other.general = args.general then value else frame other := by
  unfold indexMut index
  cases args.general with
  | none => cases other.general <;> simp
  | some _ =>
    cases other.general with
    | none => simp
    | some _ => simp [Vector.getElem_set, Fin.ext_iff, eq_comm]

@[simp] theorem index_indexMut_self (frame : TrapFrame) (args : TrapFrameArgs) (value : Nat) :
    frame.indexMut args value args = value := by
  rw [index_indexMut, if_pos rfl]

end TrapFrame

/-- An attached segment; `mem` lists its frames. -/
structure MapedSharedMemory where
  key : Nat
  mem : List Nat
  start : Nat
  size : Nat
  deriving DecidableEq, Repr

def fileMax : Nat := 255

structure ProcessControlBlock where
  memset : MemSet
  fdTable : List (Option Inode)
  /-- `rlimits[7]` -/
  fileLimit : Nat
  heap : Nat
  entry : Nat
  children : List Nat
  futexTable : FutexTable
  shms : List MapedSharedMemory
  threads : List Nat
  exitCode : Option Nat
  /-- The signal that killed the process. -/
  exitSignal : Option Nat
  coreDumped : Bool

structure ThreadControlBlock where
  cx : TrapFrame
  clearChildTid : Nat
  /-- Pending signals, one bit each. -/
  signal : Nat
  exitSignal : Nat
  threadExitCode : Option Nat

def ThreadControlBlock.new (cx : TrapFrame) : ThreadControlBlock :=
  { cx, clearChildTid := 0, signal := 0, exitSignal := 0, threadExitCode := none }

/-- `FileTable::new`: three descriptors of the terminal. -/
def fileTable (tty : Inode) : List (Option Inode) :=
  List.replicate 3 (some tty) ++ List.replicate (fileMax - 3) none

structure Process where
  processId : Nat
  pageTable : PageTable
  pcb : ProcessControlBlock
  tcb : Nat → ThreadControlBlock

/-- `UserTask::new` with the given file table. -/
def Process.new (taskId : Nat) (fdTable : List (Option Inode)) : Process :=
  { processId := taskId
    pageTable := .empty
    pcb :=
      { memset := [], fdTable, fileLimit := fileMax, heap := 0, entry := 0, children := []
        futexTable := .empty, shms := [], threads := [taskId], exitCode := none, exitSignal := none
        coreDumped := false }
    tcb := fun _ => .new .new }

/-- Consecutive frames tracked from an address on; address zero stays zero. -/
def trackersAt (vaddr : Nat) (frames : List Nat) : List MapTrack :=
  frames.zipIdx.map fun (frame, index) =>
    { vaddr := if vaddr = 0 then vaddr else wrapAdd vaddr (index * pageSize), tracker := frame }

def MemSet.extendStack (trackers : List MapTrack) : MemSet → Option MemSet
  | [] => none
  | area :: rest =>
    if area.mtype = .Stack then some ({ area with mtrackers := area.mtrackers ++ trackers } :: rest)
    else (extendStack trackers rest).map fun rest => area :: rest

namespace Process

def withMemset (process : Process) (memset : MemSet) : Process :=
  { process with pcb := { process.pcb with memset } }

def map (process : Process) (paddr vaddr : Nat) (flags : MappingFlags) : Option Process :=
  if paddr % pageSize = 0 ∧ vaddr % pageSize = 0 then
    some { process with pageTable := process.pageTable.mapPage vaddr paddr flags }
  else none

def mapTracks (process : Process) (tracks : List MapTrack) (flags : MappingFlags) : Option Process :=
  tracks.foldlM (fun process track => process.map track.tracker track.vaddr flags) process

/-- Pages of a run that starts at zero, or of one that wrapped to zero, stay unmapped. -/
def mapPresent (process : Process) (vaddr : Nat) (tracks : List MapTrack) (flags : MappingFlags) : Option Process :=
  if vaddr ≠ 0 then process.mapTracks (tracks.filter fun track => track.vaddr ≠ 0) flags
  else some process

def mapFrames (process : Process) (machine : Machine) (vaddr : Nat) (mtype : MemType) (count : Nat)
    (file : Option Inode) (offset start len : Nat) (flags : MappingFlags) :
    Option (Option Nat × Process × Machine) :=
  if count = 0 then none
  else
    match machine.frameAllocMuch count with
    | none => some (none, process, machine)
    | some (frames, machine) => do
        let trackers := trackersAt vaddr frames
        let process ← process.mapPresent vaddr trackers flags
        let ppn ← frames.head?
        let memset := process.pcb.memset
        let memset :=
          if mtype = .Stack then
            (memset.extendStack trackers).getD (memset ++
              [{ mtype, mtrackers := trackers, file := none, offset := 0
                 start := 0x70000000, len := 0x10000000 }])
          else memset ++ [{ mtype, mtrackers := trackers, file, offset, start, len }]
        some (some ppn, process.withMemset memset, machine)

/-- The fallback of `frame_alloc` when no run of `count` frames is free: halves of
what remains, at most sixteen pages at a time. A refusal drops what was obtained. -/
def allocSegments : (fuel : Nat) → Machine → (remaining currentVaddr : Nat) → List MapTrack →
    Option (List MapTrack) × Machine
  | 0, machine, _, _, allocated => (some allocated, machine)
  | fuel + 1, machine, remaining, currentVaddr, allocated =>
    if remaining = 0 then (some allocated, machine)
    else
      let segmentSize := min (max (remaining / 2) 1) 16
      match machine.frameAllocMuch segmentSize with
      | some (frames, machine) =>
        allocSegments fuel machine (remaining - segmentSize)
          (if currentVaddr ≠ 0 then wrapAdd currentVaddr (segmentSize * pageSize) else currentVaddr)
          (allocated ++ trackersAt currentVaddr frames)
      | none =>
        (none, allocated.foldl (fun machine track => machine.dropFrame track.tracker) machine)

def allocFlags : MemType → MappingFlags
  | .ShareFile => .urw
  | _ => .urwx

def placeMmap (process : Process) (machine : Machine) (vaddr count : Nat) (trackers : List MapTrack) :
    Option (Option Nat × Process × Machine) := do
  let process ← process.mapPresent vaddr trackers (allocFlags .Mmap)
  let first ← trackers.head?
  some (some first.tracker,
    process.withMemset (process.pcb.memset ++
      [{ mtype := .Mmap, mtrackers := trackers, file := none, offset := 0
         start := vaddr, len := wrapMul count pageSize }]),
    machine)

def frameAlloc (process : Process) (machine : Machine) (vaddr : Nat) (mtype : MemType) (count : Nat) :
    Option (Option Nat × Process × Machine) :=
  if mtype = .Mmap ∧ count > 1 then
    match machine.frameAllocMuch count with
    | some (frames, machine) => process.placeMmap machine vaddr count (trackersAt vaddr frames)
    | none =>
      match allocSegments count machine count vaddr [] with
      | (some trackers, machine) => process.placeMmap machine vaddr count trackers
      | (none, machine) => some (none, process, machine)
  else
    process.mapFrames machine vaddr mtype count none 0 vaddr (wrapMul count pageSize) (allocFlags mtype)

def sbrk (process : Process) (machine : Machine) (addr : Nat) : Option (Nat × Process × Machine) := do
  let currPage := divCeil process.pcb.heap pageSize
  let afterPage := divCeil addr pageSize
  let (process, machine) ←
    (List.range' currPage (afterPage - currPage)).foldlM
      (fun (process, machine) page => do
        let (_, process, machine) ← process.frameAlloc machine (wrapMul page pageSize) .Mmap 1
        some (process, machine))
      (process, machine)
  some (addr, { process with pcb := { process.pcb with heap := addr } }, machine)

/-- Raising the limit above the size of the table lets the index panic. -/
def getFd (process : Process) (index : Nat) : Option (Option Inode) :=
  if index ≥ process.pcb.fileLimit then some none else process.pcb.fdTable[index]?

def getLastFreeAddr (process : Process) : Nat :=
  let mapLast :=
    (process.pcb.memset.filter fun area => area.mtype ≠ .Stack).foldl (fun last area => max last area.finish) 0
  let shmLast := process.pcb.shms.foldl (fun last shm => max (wrapAdd shm.start shm.size) last) 0
  max mapLast shmLast

/-! ## Forks and threads -/

/-- Shared pages stay writable, the others lose the right until they are copied. -/
def forkFlags : MemType → MappingFlags
  | .Shared | .ShareFile => .urwx
  | _ => .urx

def mapArea (process : Process) (area : MemArea) : Option Process :=
  process.mapTracks area.mtrackers (forkFlags area.mtype)

def mapSegment (process : Process) (shm : MapedSharedMemory) : Option Process :=
  shm.mem.zipIdx.foldlM (fun process (frame, index) =>
    process.map frame (wrapAdd shm.start (index * pageSize)) .urwx) process

/-- The parent and the child. `taskId` is the forking thread. -/
def cowFork (process : Process) (taskId childId : Nat) : Option (Process × Process) := do
  let pcb := process.pcb
  let cx := (process.tcb taskId).cx
  let fresh := new childId pcb.fdTable
  let child :=
    { fresh with
      pcb := { fresh.pcb with heap := pcb.heap, shms := pcb.shms }
      tcb := fun _ => .new (cx.indexMut .RET 0) }
  let parent ← pcb.memset.foldlM mapArea { process with pcb := { pcb with children := pcb.children ++ [childId] } }
  let child ←
    pcb.memset.foldlM (fun child area => do
      let child ← child.mapArea area
      some (child.withMemset (child.pcb.memset ++ [area]))) child
  let child ← pcb.shms.foldlM mapSegment child
  some (parent, child)

/-- `alive` tells whose task object is still referenced. -/
def threadClone (process : Process) (alive : Nat → Bool) (taskId childId : Nat) : Process :=
  { process with
    pcb := { process.pcb with threads := process.pcb.threads.filter alive ++ [childId] }
    tcb := Function.update process.tcb childId (.new ((process.tcb taskId).cx.indexMut .RET 0)) }

/-! ## Ends of threads and processes -/

def SIGCHLD : Nat := 17

/-- What the end of a thread leaves: the process, memory, writes to mapped files
and the signal for the parent, if one is due. -/
structure Ended where
  process : Process
  mem : PhysMem
  writes : List WriteBack
  signal : Option Nat

def clearChildTid (process : Process) (mem : PhysMem) (taskId : Nat) : Process × PhysMem :=
  let uaddr := (process.tcb taskId).clearChildTid
  if uaddr = 0 then (process, mem)
  else
    match process.pageTable.translate uaddr with
    | none => (process, mem)
    | some mapping =>
      ({ process with pcb :=
          { process.pcb with futexTable := (futexWake process.pcb.futexTable uaddr 1).2 } },
        overlay mem (mapping.paddr + uaddr % pageSize) (List.replicate 4 0))

/-- The part `thread_exit` and `exit` share: leave the thread list and, if this is
the main thread and no other is left, take the process down. -/
def leaveThreads (process : Process) (mem : PhysMem) (alive : Nat → Bool) (strongCount : Nat → Nat)
    (taskId exitCode : Nat) : Ended :=
  let exitSignal := (process.tcb taskId).exitSignal
  let threads := process.pcb.threads.filter fun other => alive other && other != taskId
  let pcb := { process.pcb with threads }
  if taskId = process.processId ∧ threads.length = 0 then
    { process := { process with pcb :=
        { pcb with memset := [], fdTable := [], children := [], exitCode := some exitCode } }
      mem
      writes := pcb.memset.flatMap (MemArea.drop strongCount)
      signal := some (if exitSignal ≠ 0 then exitSignal else SIGCHLD) }
  else { process := { process with pcb }, mem, writes := [], signal := none }

def threadExit (process : Process) (mem : PhysMem) (alive : Nat → Bool) (strongCount : Nat → Nat)
    (taskId exitCode : Nat) : Ended :=
  let (process, mem) := process.clearChildTid mem taskId
  let tcb := { process.tcb taskId with threadExitCode := some (exitCode % 2 ^ 32) }
  leaveThreads { process with tcb := Function.update process.tcb taskId tcb } mem alive strongCount taskId exitCode

def exit (process : Process) (mem : PhysMem) (alive : Nat → Bool) (strongCount : Nat → Nat)
    (taskId exitCode : Nat) : Ended :=
  let (process, mem) := process.clearChildTid mem taskId
  leaveThreads { process with pcb := { process.pcb with exitCode := some exitCode } } mem alive
    strongCount taskId exitCode

/-- Whether the number of a signal is one that `exit_with_signal` dumps core for. -/
def shouldDumpCore (signal : Nat) : Bool := signal ∈ [3, 4, 5, 6, 8, 10, 11]

def markKilled (process : Process) (signal : Nat) : Process :=
  { process with pcb :=
      { process.pcb with
        exitSignal := some signal, exitCode := some 0, coreDumped := shouldDumpCore signal } }

def exitWithSignal (process : Process) (mem : PhysMem) (alive : Nat → Bool) (strongCount : Nat → Nat)
    (taskId signal : Nat) : Ended :=
  (process.markKilled signal).exit mem alive strongCount taskId 0

/-! ## File segments -/

/-- A gap after a file-backed area counts as its continuation. -/
def gapSegment (vaddr : Nat) : MemSet → Option (Inode × Nat × Nat)
  | current :: next :: rest =>
    if next.start > current.finish ∧ within current.finish next.start vaddr then
      match current.file with
      | some file =>
        some (file, wrapAdd current.offset (wrapSub vaddr current.start), next.start - current.finish)
      | none => gapSegment vaddr (next :: rest)
    else gapSegment vaddr (next :: rest)
  | _ => none

/-- The file behind an address, the offset there and the length of the segment. -/
def elfSegment (memset : MemSet) (vaddr : Nat) : Option (Inode × Nat × Nat) :=
  match gapSegment vaddr memset with
  | some segment => some segment
  | none =>
    match memset.find? fun area => area.contains vaddr ∧ area.file.isSome with
    | none => none
    | some area =>
      area.file.map fun file =>
        (file, wrapAdd area.offset (wrapSub (pageFloor vaddr) area.start), area.len)

def getElfSegmentForAddr (process : Process) (vaddr : Nat) : Option (Inode × Nat × Nat) :=
  elfSegment process.pcb.memset vaddr

end Process

end MonkeyOS.Tasks
