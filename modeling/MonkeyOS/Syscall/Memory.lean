import MonkeyOS.User.PageFault

/-!
# Memory system calls

`kernel/src/syscall/mm.rs` and the shared-memory calls of
`kernel/src/syscall/shm.rs`. An outer `none` is a kernel panic or a copy to user
memory that never returns. The robust-list calls and log output are left out.
-/

set_option autoImplicit false

namespace MonkeyOS.Syscall

open Lib Tasks User

structure MmContext where
  around : Surroundings
  /-- The answers of the inodes once pages have been written to them. -/
  written : List FileWrite → Files
  written_nil : written [] = around.files
  /-- `SHARED_MEMORY`: the frames of a segment by its key. -/
  sharedMemory : Nat → Option (List Nat)
  /-- Whether the kernel is built for loongarch64, with its limit on user addresses. -/
  loongarch64 : Bool

def mapAreaStart : Nat := 0x200000000

def userVaddrMax : Nat := 0x7FFFFFFFFF

def MAP_SHARED (flags : Nat) : Bool := flags.testBit 0

def MAP_FIXED (flags : Nat) : Bool := flags.testBit 4

def MAP_ANONYMOUS (flags : Nat) : Bool := flags.testBit 5

def protFlags (prot : Nat) : MappingFlags :=
  { u := true, r := prot.testBit 0, w := prot.testBit 1, x := prot.testBit 2 }

def sbrkPage (state : Process × Machine) (page : Nat) : Option (Process × Machine) := do
  let (_, process, machine) ← state.1.frameAlloc state.2 (wrapMul page pageSize) .Mmap 1
  some (process, machine)

theorem sbrk_eq (process : Process) (machine : Machine) (addr : Nat) : process.sbrk machine addr =
    ((List.range' (divCeil process.pcb.heap pageSize)
      (divCeil addr pageSize - divCeil process.pcb.heap pageSize)).foldlM sbrkPage (process, machine)).bind
        fun state => some (addr, { state.1 with pcb := { state.1.pcb with heap := addr } }, state.2) := rfl

section Calls

variable (context : MmContext) (taskId : Nat)

def sysBrk (space : UserSpace) (addr : Nat) : Option (Nat × UserSpace) :=
  if addr = 0 then some (space.process.pcb.heap, space)
  else do
    let (answer, process, machine) ← space.process.sbrk space.machine addr
    some (answer, { space with process, machine })

def mmapAddr (process : Process) (start : Nat) : Nat :=
  if start = 0 then max process.getLastFreeAddr mapAreaStart else start

def mmapFile (process : Process) (flags fd : Nat) : Option (Option Inode) :=
  if fd = usizeBound - 1 ∨ MAP_ANONYMOUS flags then some none else process.getFd fd

/-- What a fixed mapping does to the areas in its way. -/
def makeRoom (space : UserSpace) (start last : Nat) : UserSpace × List FileWrite :=
  if space.process.pcb.memset.overlapping start last then space.subArea context.around start last
  else (space, [])

/-- The middle of `sys_mmap`: frames and areas for the range. The answer is
`false` if there are no frames. -/
def mapRange (space : UserSpace) (addr len : Nat) (prot : MappingFlags) (shared : Bool)
    (file : Option Inode) (off : Nat) : Option (Bool × UserSpace) :=
  match shared, file with
  | true, some file => do
      let (ppn, process, machine) ← space.process.mapFrames space.machine addr .ShareFile
        (wrapAdd len (pageSize - 1) / pageSize) (some file) off addr len prot
      some (ppn.isSome, { space with process, machine })
  | true, none => do
      let (ppn, process, machine) ← space.process.frameAlloc space.machine addr .Shared (divCeil len pageSize)
      match ppn with
      | none => some (false, { space with process, machine })
      | some paddr => do
          let process ← (List.range (wrapAdd len (pageSize - 1) / pageSize)).foldlM
            (fun process index =>
              process.map (wrapAdd paddr (index * pageSize)) (wrapAdd addr (index * pageSize)) prot) process
          some (true, { space with process, machine })
  | false, some _ => do
      let (ppn, process, machine) ← space.process.frameAlloc space.machine addr .Mmap (divCeil len pageSize)
      some (ppn.isSome, { space with process, machine })
  | false, none =>
    some (true, space.withMemset (space.process.pcb.memset ++
      [{ mtype := .Mmap, mtrackers := [], file := none, offset := 0, start := addr, len }]))

/-- The last part of `sys_mmap`: the file is copied through the new mapping. -/
def readMapped (files : Files) (space : UserSpace) (addr len off : Nat) (file : Inode) :
    Option (Except Errno Nat × UserSpace × List FileWrite) :=
  match files.readat file off len with
  | .error errno =>
    let (space, writes) := space.subArea context.around addr (wrapAdd addr len)
    some (.error errno, space, writes)
  | .ok bytes => do
      let space ← space.storeBytes { context.around with files } taskId addr bytes
      some (.ok addr, space, [])

def sysMmap (space : UserSpace) (start len prot flags fd off : Nat) :
    Option (Except Errno Nat × UserSpace × List FileWrite) := do
  let len := alignup len pageSize
  let file ← mmapFile space.process flags fd
  let addr := mmapAddr space.process start
  if len = 0 then some (.ok addr, space, [])
  else if context.loongarch64 ∧ wrapAdd addr len > userVaddrMax then some (.error .ENOMEM, space, [])
  else if ¬ MAP_FIXED flags ∧ space.process.pcb.memset.overlapping addr (wrapAdd addr len) then
    some (.error .EINVAL, space, [])
  else do
    let (space, writes) := makeRoom context space addr (wrapAdd addr len)
    let (mapped, space) ← mapRange space addr len (protFlags prot) (MAP_SHARED flags) file off
    match mapped, file with
    | false, _ => some (.error .EFAULT, space, writes)
    | true, none => some (.ok addr, space, writes)
    | true, some file => do
        let (answer, space, undone) ← readMapped context taskId (context.written writes) space addr len off file
        some (answer, space, writes ++ undone)

def sysMunmap (space : UserSpace) (start len : Nat) : UserSpace × List FileWrite :=
  space.subArea context.around start (wrapAdd start len)

def shmatAddr (process : Process) (shmaddr : Nat) : Nat :=
  if shmaddr = 0 then max process.getLastFreeAddr 0x40000000 else shmaddr

def sysShmat (space : UserSpace) (shmid shmaddr : Nat) : Option (Except Errno Nat × UserSpace) :=
  let vaddr := shmatAddr space.process shmaddr
  match context.sharedMemory shmid with
  | none => some (.error .ENOENT, space)
  | some trackers => do
      let shm : MapedSharedMemory :=
        { key := shmid, mem := trackers, start := vaddr, size := wrapMul trackers.length pageSize }
      let process ← space.process.mapSegment shm
      let process := { process with pcb := { process.pcb with shms := process.pcb.shms ++ [shm] } }
      some (.ok vaddr, { space with process })

end Calls

def blank : UserSpace where
  process := .new 1 (fileTable 0)
  machine := { frames := Runtime.FrameAllocator.build [(0x90000000, 0x90100000)], mem := fun _ => 0 }
  tls := { lastAddr := 0, count := 0 }

end MonkeyOS.Syscall
