import MonkeyOS.Tasks.Task

/-!
# Page faults

`user_cow_int` of `kernel/src/user/mod.rs`, and user accesses as the hardware
makes them: through the page table, faulting on an absent page or on a store to
a page without the write flag. What inodes answer and who else holds a frame
come from outside the process.
-/

set_option autoImplicit false

namespace MonkeyOS.User

open Lib Tasks

/-- Answers of the inodes behind mapped files. A read gives the bytes it puts at
the front of the buffer. -/
structure Files where
  readat : Inode → (offset bufferLen : Nat) → Except Errno (List UInt8)
  readat_fits : ∀ {inode offset bufferLen bytes}, readat inode offset bufferLen = .ok bytes → bytes.length ≤ bufferLen
  size : Inode → Except Errno Nat

/-- `writeat(offset, bytes)` on an inode. -/
structure FileWrite where
  file : Inode
  offset : Nat
  bytes : List UInt8

structure TlsLoop where
  lastAddr : Nat
  count : Nat

structure UserSpace where
  process : Process
  machine : Machine
  tls : TlsLoop

/-- What the handler learns from the rest of the kernel. -/
structure Surroundings where
  files : Files
  /-- References to a frame from outside the process. -/
  others : Nat → Nat
  alive : Nat → Bool

def Surroundings.alone : Surroundings where
  files := { readat := fun _ _ _ => .error .ENOENT, readat_fits := nofun, size := fun _ => .error .ENOENT }
  others := fun _ => 0
  alive := fun _ => true

def SIGSEGV : Nat := 11

def hasSig (signals number : Nat) : Bool := signals.testBit (number - 1)

/-- `Arc::strong_count` of a tracker of the process. -/
def strongCount (around : Surroundings) (process : Process) (frame : Nat) : Nat :=
  (process.pcb.memset.flatMap MemArea.mtrackers).countP (fun track => track.tracker = frame) + around.others frame

def updateOwner (vaddr : Nat) (update : MemArea → MemArea) : MemSet → MemSet
  | [] => []
  | area :: rest =>
    if area.contains vaddr then update area :: rest else area :: updateOwner vaddr update rest

def replaceTrack (page frame : Nat) : List MapTrack → List MapTrack
  | [] => []
  | track :: rest =>
    if track.vaddr = page then { track with tracker := frame } :: rest
    else track :: replaceTrack page frame rest

def retrack (vaddr frame : Nat) : MemSet → MemSet :=
  updateOwner vaddr fun area =>
    { area with mtrackers := replaceTrack (pageFloor vaddr) frame area.mtrackers }

def track (vaddr frame : Nat) : MemSet → MemSet :=
  updateOwner vaddr fun area =>
    { area with mtrackers := area.mtrackers ++ [{ vaddr := pageFloor vaddr, tracker := frame }] }

def ownedFlags (area : MemArea) (vaddr : Nat) : MappingFlags :=
  if area.mtype = .Mmap ∧ vaddr ≥ 0x200000000 then .urw else .urwx

theorem ownedFlags_writable (area : MemArea) (vaddr : Nat) : (ownedFlags area vaddr).w = true := by
  unfold ownedFlags
  split <;> rfl

namespace UserSpace

variable (around : Surroundings) (taskId vaddr : Nat)

def addSignal (space : UserSpace) (number : Nat) : UserSpace :=
  let tcb := space.process.tcb taskId
  { space with process := { space.process with
      tcb := Function.update space.process.tcb taskId { tcb with signal := tcb.signal ||| 2 ^ (number - 1) } } }

def fill (space : UserSpace) (frame : Nat) (bytes : List UInt8) : UserSpace :=
  { space with machine := { space.machine with mem := overlay space.machine.mem frame bytes } }

def withMemset (space : UserSpace) (memset : MemSet) : UserSpace :=
  { space with process := space.process.withMemset memset }

/-- Replace the areas and drop the trackers that go with them: a frame goes back
to the allocator if nobody refers to it any more. -/
def dropMemset (space : UserSpace) (memset : MemSet) : UserSpace :=
  let frames (memset : MemSet) := (memset.flatMap MemArea.mtrackers).map MapTrack.tracker
  let gone := (frames space.process.pcb.memset).dedup.filter fun frame =>
    frame ∉ frames memset ∧ around.others frame = 0
  { space.withMemset memset with machine := gone.foldl Machine.dropFrame space.machine }

/-- `memset.sub_area` with the page table of the task, and the writes it performs. -/
def subArea (space : UserSpace) (start last : Nat) : UserSpace × List FileWrite :=
  let (memset, table, writes) := MemSet.subArea (strongCount around space.process)
    space.process.pcb.memset start last space.process.pageTable
  let dropped := space.dropMemset around memset
  ({ dropped with process := { dropped.process with pageTable := table } },
    writes.map fun write =>
      { file := write.file, offset := write.offset
        bytes := window space.machine.mem write.frame write.len })

/-- `task.frame_alloc`, telling whether it answered `Some`. -/
def frameAlloc (space : UserSpace) (mtype : MemType) (count : Nat) : Option (Option Nat × UserSpace) := do
  let (ppn, process, machine) ← space.process.frameAlloc space.machine (pageFloor vaddr) mtype count
  some (ppn, { space with process, machine })

def mapOwned (space : UserSpace) (area : MemArea) (ppn : Nat) : Option UserSpace := do
  let process ← space.process.map ppn (pageFloor vaddr) (ownedFlags area vaddr)
  some { space with process }

/-- The page has a tracker: shared pages are written in place, a private one is
copied first if its frame has another holder. -/
def serveTracked (space : UserSpace) (area : MemArea) (track : MapTrack) : Option UserSpace :=
  if area.mtype = .Shared ∨ area.mtype = .ShareFile then space.mapOwned vaddr area track.tracker
  else if strongCount around space.process track.tracker > 1 then
    match space.machine.frameAlloc with
    | none => some (space.addSignal taskId SIGSEGV)
    | some (dst, machine) =>
      let copied : UserSpace :=
        fill { space with machine } dst (window machine.mem track.tracker pageSize)
      (copied.withMemset (retrack vaddr dst space.process.pcb.memset)).mapOwned vaddr area dst
  else space.mapOwned vaddr area track.tracker

/-- The page has no tracker yet: a fresh frame, filled from the area's file. -/
def serveUntracked (space : UserSpace) (area : MemArea) : Option UserSpace :=
  if space.machine.frames.getFreePageCount < 10 then some (space.addSignal taskId SIGSEGV)
  else
    match space.machine.frameAlloc with
    | none => some (space.addSignal taskId SIGSEGV)
    | some (frame, machine) =>
      let fileOffset := wrapAdd area.offset (wrapSub (pageFloor vaddr) area.start)
      let bytes :=
        match area.file with
        | none => []
        | some file => (around.files.readat file fileOffset pageSize).toOption.getD []
      let filled : UserSpace := fill { space with machine } frame bytes
      (filled.withMemset (track vaddr frame space.process.pcb.memset)).mapOwned vaddr area frame

/-- `task.exit`; the handler then sets the exit code again. What the dropped areas
write to their files is left to the caller. -/
def exit (space : UserSpace) (exitCode : Nat) : UserSpace :=
  let ended := space.process.exit space.machine.mem around.alive (strongCount around space.process) taskId exitCode
  let cleared := { space with machine := { space.machine with mem := ended.mem } }
  { cleared.dropMemset around ended.process.pcb.memset with process := ended.process }

/-- `task.exit_with_signal`, in the same way. -/
def exitWithSignal (space : UserSpace) (signal : Nat) : UserSpace :=
  { space with process := space.process.markKilled signal }.exit around taskId 0

/-- A blank page where no area is; `SIGSEGV` if there is no frame for it. -/
def blankPages (space : UserSpace) (mtype : MemType) (count : Nat) : Option UserSpace := do
  let (ppn, space) ← space.frameAlloc vaddr mtype count
  some (if ppn.isSome then space else space.addSignal taskId SIGSEGV)

/-- The windows that look for a file segment around the address first. -/
def segmentPage (space : UserSpace) : Option UserSpace :=
  match space.process.getElfSegmentForAddr vaddr with
  | none => space.blankPages taskId vaddr .Mmap 1
  | some (file, fileOffset, _) =>
    match around.files.size file with
    | .error _ => some space
    | .ok fileSize =>
      if fileOffset ≥ fileSize then some space
      else do
        let (ppn, space) ← space.frameAlloc vaddr .Mmap 1
        match ppn with
        | none => space.blankPages taskId vaddr .Mmap 1
        | some frame =>
          match around.files.readat file fileOffset (min pageSize (fileSize - fileOffset)) with
          | .ok bytes => some (space.fill frame bytes)
          | .error _ => space.blankPages taskId vaddr .Mmap 1

/-- A fourth fault in a row on one page of the window ends the task. -/
def tlsPage (space : UserSpace) : Option UserSpace :=
  let tls : TlsLoop :=
    if space.tls.lastAddr = pageFloor vaddr then { space.tls with count := space.tls.count + 1 }
    else { lastAddr := pageFloor vaddr, count := 1 }
  let space := { space with tls }
  if tls.count > 3 then some (space.exit around taskId 1)
  else do
    let (ppn, space) ← space.frameAlloc vaddr .Mmap 1
    match ppn with
    | none => some (space.addSignal taskId SIGSEGV)
    | some frame =>
      some { space.fill frame (List.replicate pageSize 0) with tls := { tls with count := 0 } }

/-- An access near address zero: a signal first, the end of the task if that
signal is pending already. -/
def nullAccess (space : UserSpace) : UserSpace :=
  if hasSig (space.process.tcb taskId).signal SIGSEGV then
    space.exit around taskId (128 + SIGSEGV)
  else space.addSignal taskId SIGSEGV

/-- No area contains the address: what is done depends on the window it lies in. -/
def serveWindows (space : UserSpace) : Option UserSpace :=
  if vaddr < 0x1000 then some (space.nullAccess around taskId)
  else if within 0x10000 0x100000 vaddr then space.segmentPage around taskId vaddr
  else if within 0x1000000 0x2000000 vaddr then space.blankPages taskId vaddr .Mmap 12
  else if within 0x200000000 0x300000000 vaddr then space.tlsPage around taskId vaddr
  else if within 0x200a0000 0x300b0000 vaddr then space.segmentPage around taskId vaddr
  else some (space.addSignal taskId SIGSEGV)

def userCowInt (space : UserSpace) : Option UserSpace :=
  match space.process.pcb.memset.areaAt vaddr with
  | some area =>
    match area.trackAt vaddr with
    | some track => space.serveTracked around taskId vaddr area track
    | none => space.serveUntracked around taskId vaddr area
  | none =>
    if within 0x70000000 0x80000000 vaddr then do
      let (ppn, space) ← space.frameAlloc vaddr .Stack 1
      if ppn.isSome then some space else space.serveWindows around taskId vaddr
    else space.serveWindows around taskId vaddr

end UserSpace

def target (table : PageTable) (vaddr : Nat) (write : Bool) : Option Nat :=
  match table.translate vaddr with
  | none => none
  | some mapping => if write && !mapping.flags.w then none else some (mapping.paddr + vaddr % pageSize)

namespace UserSpace

variable (around : Surroundings) (taskId : Nat)

/-- One access: at once, or after one fault. The address is `none` if the fault
was not served. -/
def access (space : UserSpace) (vaddr : Nat) (write : Bool) : Option (Option Nat × UserSpace) :=
  match target space.process.pageTable vaddr write with
  | some paddr => some (some paddr, space)
  | none => do
      let space ← space.userCowInt around taskId vaddr
      some (target space.process.pageTable vaddr write, space)

/-! The kernel reads and writes user memory through the same page table. An
access that is never served does not return, and has no result. -/

def storeByte (space : UserSpace) (vaddr : Nat) (byte : UInt8) : Option UserSpace := do
  let (paddr, space) ← space.access around taskId vaddr true
  let paddr ← paddr
  some (space.fill paddr [byte])

def storeBytes (space : UserSpace) (vaddr : Nat) (bytes : List UInt8) : Option UserSpace :=
  bytes.zipIdx.foldlM (fun space (byte, index) => space.storeByte around taskId (wrapAdd vaddr index) byte) space

def loadByte (space : UserSpace) (vaddr : Nat) : Option (UInt8 × UserSpace) := do
  let (paddr, space) ← space.access around taskId vaddr false
  let paddr ← paddr
  some (space.machine.mem paddr, space)

def loadBytes (space : UserSpace) (vaddr : Nat) : (count : Nat) → Option (List UInt8 × UserSpace)
  | 0 => some ([], space)
  | count + 1 => do
      let (byte, space) ← space.loadByte around taskId vaddr
      let (bytes, space) ← loadBytes space (wrapAdd vaddr 1) count
      some (byte :: bytes, space)

end UserSpace

end MonkeyOS.User
