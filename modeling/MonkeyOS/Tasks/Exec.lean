import MonkeyOS.User.PageFault

/-!
# Program execution

`exec_with_process` of `kernel/src/tasks/exec.rs`, `relocate`, `get_ph_addr` and
`init_task_stack` of `kernel/src/tasks/elf.rs` and `sys_execve` of
`kernel/src/syscall/task.rs`. The file system, the ELF reader (`xmas_elf`) and the
cached templates are parameters. No result
means a panic or a user access that is never served. Writes of dropped shared
file mappings are left out.
-/

set_option autoImplicit false

namespace MonkeyOS.Tasks

open Lib User

/-- Path components from the root. -/
abbrev PathBuf := List String

namespace PathBuf

def join (directory : PathBuf) (path : String) : PathBuf :=
  (path.splitOn "/").foldl (fun components name =>
    if name = "." ∨ name = "" then components
    else if name = ".." then components.dropLast
    else components ++ [name]) (if path.startsWith "/" then [] else directory)

theorem splitOn_root : "/".splitOn "/" = ["", ""] := by
  rw [String.splitOn, if_neg (by decide), String.splitOnAux, if_neg (by decide +kernel), if_pos (by decide +kernel)]
  rw [if_pos (by decide +kernel), String.splitOnAux, if_pos (by decide +kernel)]
  decide +kernel

theorem join_root (directory : PathBuf) : directory.join "/" = [] := by
  simp [join, splitOn_root]

def path (components : PathBuf) : String := "/" ++ "/".intercalate components

end PathBuf

inductive SegmentType where
  | load | interp | phdr | other
  deriving DecidableEq, Repr

/-- A program header; the type is `none` if it does not parse. -/
structure ProgramHeader where
  type : Option SegmentType
  offset : Nat
  virtualAddr : Nat
  fileSize : Nat
  memSize : Nat
  /-- The data, if they are `SegmentData::Undefined`. -/
  data : Option (List UInt8)
  deriving DecidableEq, Repr

structure Rela where
  type : Nat
  symbolTableIndex : Nat
  deriving DecidableEq, Repr

structure DynEntry where
  shndx : Nat
  /-- Whether `get_name` answers. -/
  named : Bool
  deriving DecidableEq, Repr

/-- What `xmas_elf` reads of a file. -/
structure Elf where
  entryPoint : Nat
  phCount : Nat
  phEntrySize : Nat
  phOffset : Nat
  programs : List ProgramHeader
  /-- The entries of `.rela.dyn`, if there is such a section. -/
  relaDyn : Option (List Rela)
  /-- The entries of `.dynsym`, if there is such a section. -/
  dynsym : Option (List DynEntry)
  deriving DecidableEq, Repr

def userDynAddr : Nat := 0x20000000

namespace Elf

/-- Whether the loop of `relocate` goes on after an entry, or returns an error. -/
def relocateEntry (dynsym : List DynEntry) (entry : Rela) : Option Bool :=
  if entry.type ∈ [6, 7, 2, 0x401] then do
    let symbol ← dynsym[entry.symbolTableIndex]?
    if symbol.shndx = 0 then if symbol.named then none else some false
    else some true
  else if entry.type ∈ [8, 3, 0x403] then some true
  else none

def relocateAll (dynsym : List DynEntry) : List Rela → Option Bool
  | [] => some true
  | entry :: entries => do
      if ← relocateEntry dynsym entry then relocateAll dynsym entries else some false

/-- The inner `none` is an error. -/
def relocate (elf : Elf) (base : Nat) : Option (Option Nat) :=
  match elf.relaDyn, elf.dynsym with
  | some entries, some dynsym => (relocateAll dynsym entries).map fun relocated => if relocated then some base else none
  | _, _ => some none

def base (elf : Elf) : Option Nat := (elf.relocate userDynAddr).map fun relocated => relocated.getD 0

def getPhAddr (elf : Elf) : Option Nat :=
  match elf.programs.find? fun header => header.type = some .phdr with
  | some phdr => some phdr.virtualAddr
  | none => (elf.programs.find? fun header => header.type = some .load ∧ header.offset = 0).map fun header =>
      wrapAdd header.virtualAddr elf.phOffset

/-- The program has an interpreter. -/
def dynamic (elf : Elf) : Bool :=
  ((elf.programs.find? fun header => header.type = some .interp).bind ProgramHeader.data).isSome

end Elf

inductive LibcType where
  | Musl | Glibc | Unknown
  deriving DecidableEq, Repr

def detectLibcType (programs : List ProgramHeader) : LibcType :=
  let data := (programs.find? fun header => header.type = some .interp).bind ProgramHeader.data
  match data.bind fun data => String.fromUTF8? ⟨data.toArray⟩ with
  | none => .Unknown
  | some interpPath =>
    let contains (text : String) : Bool := 1 < (interpPath.splitOn text).length
    if contains "musl" then .Musl
    else if contains "glibc" ∨ contains "ld-linux" then .Glibc
    else .Unknown

structure TaskCacheTemplate where
  name : PathBuf
  entry : Nat
  maps : List MemArea
  base : Nat
  heapBottom : Nat
  phCount : Nat
  phEntrySize : Nat
  phAddr : Nat

structure ExecEnvironment where
  around : Surroundings
  /-- `File::open` for reading. -/
  openFile : PathBuf → Except Errno Inode
  parseElf : List UInt8 → Option Elf
  caches : List TaskCacheTemplate
  libcPath : String
  dynPath : String

def userStackTop : Nat := 0x80000000
def userStackInitSize : Nat := 0x20000

/-! ## The initial stack -/

section Stack

variable (environment : ExecEnvironment) (taskId : Nat)

def setRegister (space : UserSpace) (register : TrapFrameArgs) (value : Nat) : UserSpace :=
  let tcb := space.process.tcb taskId
  { space with process := { space.process with
      tcb := Function.update space.process.tcb taskId { tcb with cx := tcb.cx.indexMut register value } } }

/-- Push bytes with room for a terminator; the address is the new stack pointer. -/
def pushArr (space : UserSpace) (buffer : List UInt8) : Option (Nat × UserSpace) := do
  let sp := wrapSub ((space.process.tcb taskId).cx .SP) (alignup (buffer.length + 1) 8)
  let space ← space.storeBytes environment.around taskId sp buffer
  some (sp, setRegister taskId space .SP sp)

def pushStr (space : UserSpace) (text : String) : Option (Nat × UserSpace) :=
  pushArr environment taskId space text.toUTF8.toList

def wordBytes (value : Nat) : List UInt8 :=
  (List.range 8).map fun index => UInt8.ofNat (value / 256 ^ index)

def pushNum (space : UserSpace) (value : Nat) : Option UserSpace := do
  let sp := wrapSub ((space.process.tcb taskId).cx .SP) 8
  let space ← space.storeBytes environment.around taskId sp (wordBytes value)
  some (setRegister taskId space .SP sp)

def pushStrs (space : UserSpace) : List String → Option (List Nat × UserSpace)
  | [] => some ([], space)
  | text :: rest => do
      let (address, space) ← pushStr environment taskId space text
      let (addresses, space) ← pushStrs space rest
      some (address :: addresses, space)

def pushNums (space : UserSpace) (values : List Nat) : Option UserSpace :=
  values.foldlM (pushNum environment taskId) space

structure ImageInfo where
  base : Nat
  entryPoint : Nat
  phCount : Nat
  phEntrySize : Nat
  phAddr : Nat
  heapBottom : Nat

def initialEnvironment : List String :=
  ["LD_LIBRARY_PATH=" ++ environment.libcPath,
    "PS1=\x1b[1m\x1b[32mMonkeyOS\x1b[0m:\x1b[1m\x1b[34m\\w\x1b[0m\\$ \x00",
    "PATH=/:/bin:/usr/bin", "UB_BINDIR=./"]

def auxv (image : ImageInfo) (platform execFn random : Nat) : List (Nat × Nat) :=
  [(3, wrapAdd image.base image.phAddr), (4, image.phEntrySize), (5, image.phCount), (6, pageSize),
    (9, wrapAdd image.base image.entryPoint), (11, 0), (12, 0), (13, 0), (14, 0), (15, platform),
    (23, 0), (25, random), (31, execFn)]

def initTaskStack (space : UserSpace) (args : List String) (path : String) (image : ImageInfo) :
    Option UserSpace := do
  -- The answer of the allocation is ignored.
  let (_, process, machine) ← space.process.frameAlloc space.machine
    (userStackTop - userStackInitSize) .Stack (userStackInitSize / pageSize)
  let entry := wrapAdd image.base image.entryPoint
  let tcb := process.tcb taskId
  let process := { process with
    pcb := { process.pcb with heap := image.heapBottom, entry }
    tcb := Function.update process.tcb taskId { tcb with cx := .new } }
  let space := { space with process, machine }
  let space := setRegister taskId (setRegister taskId space .SP userStackTop) .SEPC entry
  let (envp, space) ← pushStrs environment taskId space (initialEnvironment environment).reverse
  let (argv, space) ← pushStrs environment taskId space args.reverse
  let (random, space) ← pushArr environment taskId space (List.replicate 16 0)
  let (platform, space) ← pushStr environment taskId space "riscv"
  let (execFn, space) ← pushStr environment taskId space path
  let space ← pushNum environment taskId space 0
  let space ← pushNums environment taskId space
    ((auxv image platform execFn random).flatMap fun (key, value) => [value, key])
  let space ← pushNum environment taskId space 0
  let space ← pushNums environment taskId space envp
  let space ← pushNum environment taskId space 0
  let space ← pushNums environment taskId space argv
  pushNum environment taskId space argv.length

end Stack

/-! ## Images -/

section Images

variable (environment : ExecEnvironment) (taskId : Nat)

/-- Unmap and drop everything, then reset the page table. -/
def teardown (space : UserSpace) : UserSpace :=
  let dropped := space.dropMemset environment.around []
  { dropped with process := { dropped.process with pageTable := .empty } }

def mapTemplate (space : UserSpace) (maps : List MemArea) : Option UserSpace :=
  maps.foldlM (fun space area => do
    let (space, _) := space.subArea environment.around area.start area.finish
    let process := space.process.withMemset (space.process.pcb.memset ++ [area])
    let process ← process.mapTracks area.mtrackers .urx
    some { space with process }) space

/-- One loadable segment. The final comparisons of the source are panics. -/
def loadSegment (base : Nat) (buffer : List UInt8) (space : UserSpace) (header : ProgramHeader) :
    Option UserSpace := do
  let virtAddr := wrapAdd base header.virtualAddr
  let vpn := virtAddr / pageSize
  let pageCount := wrapSub (divCeil (wrapAdd virtAddr header.memSize) pageSize) vpn
  let (ppn, process, machine) ← space.process.frameAlloc space.machine (pageFloor virtAddr) .Mmap pageCount
  let ppn ← ppn
  if header.offset + header.fileSize ≤ buffer.length then
    let data := (buffer.drop header.offset).take header.fileSize
    let space ← UserSpace.storeBytes environment.around taskId { space with process, machine } virtAddr data
    let (pageSpace, space) ← space.loadBytes environment.around taskId virtAddr header.fileSize
    let ppnSpace := window space.machine.mem (ppn + virtAddr % pageSize) header.fileSize
    if ppnSpace = pageSpace ∧ data = ppnSpace then some space else none
  else none

/-- The end of the highest segment, rounded up; there must be a segment. -/
def heapBottom (elf : Elf) : Option Nat :=
  (elf.programs.map fun header => wrapAdd header.virtualAddr header.memSize).max?.map fun last =>
    wrapMul (divCeil last pageSize) pageSize

def loadImage (space : UserSpace) (args : List String) (path : PathBuf) (elf : Elf)
    (buffer : List UInt8) : Option UserSpace := do
  let heapBottom ← heapBottom elf
  let base ← elf.base
  let image : ImageInfo :=
    { base, entryPoint := elf.entryPoint, phCount := elf.phCount, phEntrySize := elf.phEntrySize
      phAddr := elf.getPhAddr.getD 0, heapBottom }
  let space ← initTaskStack environment taskId space args path.path image
  if elf.programs.any fun header => header.type.isNone then none
  else
    (elf.programs.filter fun header => header.type = some .load).foldlM
      (loadSegment environment taskId base buffer) space

def loadTemplate (space : UserSpace) (args : List String) (path : PathBuf)
    (template : TaskCacheTemplate) : Option UserSpace := do
  let image : ImageInfo :=
    { base := template.base, entryPoint := template.entry, phCount := template.phCount
      phEntrySize := template.phEntrySize, phAddr := template.phAddr
      heapBottom := template.heapBottom }
  let space ← initTaskStack environment taskId space args path.path image
  mapTemplate environment space template.maps

/-- The file read into fresh frames. `none` is a panic: no frames, an empty
file, or fewer bytes than its size says. -/
def readImage (machine : Machine) (inode : Inode) (fileSize : Nat) :
    Option (Except Errno (List UInt8) × List Nat × Machine) := do
  let (frames, machine) ← machine.frameAllocMuch (divCeil fileSize pageSize)
  let first ← frames.head?
  match environment.around.files.readat inode 0 fileSize with
  | .error errno => some (.error errno, frames, machine)
  | .ok bytes =>
    if bytes.length = fileSize then
      some (.ok bytes, frames, { machine with mem := overlay machine.mem first bytes })
    else none

def dropFrames (space : UserSpace) (frames : List Nat) : UserSpace :=
  { space with machine := frames.foldl Machine.dropFrame space.machine }

/-- The path and arguments that stand in for a file run by an interpreter. -/
def interpreted (libc : LibcType) (path : PathBuf) (args : List String) : String × List String :=
  let libcPath :=
    match libc with
    | .Musl => environment.libcPath
    | .Glibc | .Unknown => environment.dynPath
  (libcPath, libcPath :: path.path :: args.drop 1)

/-- The buffer of a script is held while its shell is executed, the buffer of a
dynamic program is given back before its interpreter is. -/
def execWithProcess : (fuel : Nat) → UserSpace → PathBuf → String → List String → Option (Except Errno Unit × UserSpace)
  | 0, _, _, _, _ => none
  | fuel + 1, space, currDir, name, args => do
      let path := currDir.join name
      let space := teardown environment space
      match environment.caches.find? fun template => template.name = path with
      | some template =>
        let space ← loadTemplate environment taskId space args path template
        some (.ok (), space)
      | none =>
        match environment.openFile path with
        | .error errno => some (.error errno, space)
        | .ok inode =>
          match environment.around.files.size inode with
          | .error errno => some (.error errno, space)
          | .ok fileSize => do
              let (result, frames, machine) ← readImage environment space.machine inode fileSize
              let space := { space with machine }
              match result with
              | .error errno => some (.error errno, dropFrames space frames)
              | .ok buffer =>
                match environment.parseElf buffer with
                | none => do
                    let (result, space) ←
                      execWithProcess fuel space currDir "busybox" ("busybox" :: "sh" :: args)
                    some (result, dropFrames space frames)
                | some elf =>
                  if elf.dynamic then
                    -- The frames of the buffer are cleared by now, and no header is found there.
                    let (libcPath, newArgs) := interpreted environment (detectLibcType []) path args
                    execWithProcess fuel (dropFrames space frames) currDir libcPath newArgs
                  else do
                    let space ← loadImage environment taskId space args path elf buffer
                    some (.ok (), dropFrames space frames)

end Images

end MonkeyOS.Tasks
