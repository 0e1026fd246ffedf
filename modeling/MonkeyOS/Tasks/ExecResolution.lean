import MonkeyOS.Lib.Chain
import MonkeyOS.Tasks.ExecImage

/-!
# How an execution finds its program

A file that is not ELF is handed to `busybox`, and one with an interpreter to the
dynamic linker: `exec_with_process` calls itself with another name. Which name that is
depends on the files alone. Whether the call is made also depends on the memory, as the
file is read into fresh frames first.
-/

set_option autoImplicit false

namespace MonkeyOS.Tasks

open Lib User Option Machine
open MonkeyOS.Runtime

/-! ## Files -/

section Files

variable (environment : ExecEnvironment)

inductive Contents where
  | script
  | dynamic
  | static (elf : Elf)

def contents (buffer : List UInt8) : Contents :=
  match environment.parseElf buffer with
  | none => .script
  | some elf => if elf.dynamic then .dynamic else .static elf

inductive Program where
  | template (template : TaskCacheTemplate)
  /-- No file, or one without a size. -/
  | missing (errno : Errno)
  | unreadable (inode : Inode) (fileSize : Nat) (errno : Errno)
  /-- A file that is empty, or shorter than its size. -/
  | cut
  | file (inode : Inode) (fileSize : Nat) (buffer : List UInt8)

def program (path : PathBuf) : Program :=
  match environment.caches.find? fun template => template.name = path with
  | some template => .template template
  | none =>
    match environment.openFile path with
    | .error errno => .missing errno
    | .ok inode =>
      match environment.around.files.size inode with
      | .error errno => .missing errno
      | .ok fileSize =>
        if fileSize = 0 then .cut
        else
          match environment.around.files.readat inode 0 fileSize with
          | .error errno => .unreadable inode fileSize errno
          | .ok buffer => if buffer.length = fileSize then .file inode fileSize buffer else .cut

variable (currDir : PathBuf)

/-- The name and the arguments of the call that a file asks for. -/
def redirect (call : String × List String) : Option (String × List String) :=
  match program environment (currDir.join call.1) with
  | .file _ _ buffer =>
    match contents environment buffer with
    | .script => some ("busybox", "busybox" :: "sh" :: call.2)
    | .dynamic => some (interpreted environment (detectLibcType []) (currDir.join call.1) call.2)
    | .static _ => none
  | _ => none

end Files

variable {environment : ExecEnvironment} {taskId : Nat} {currDir : PathBuf} {space : UserSpace} {name after : String}
  {args : List String}

variable {call : String × List String} {fileSize rest bound : Nat} {buffer : List UInt8} {inode : Inode}
  {machine : Machine} {path : PathBuf}

section Calls

variable {machine : Machine}

end Calls

/-! ## Enough memory -/

/-- The frames are well kept, and `pages` of them are free in a row. -/
structure Machine.Ample (machine : Machine) (pages : Nat) : Prop where
  clean : machine.Clean
  run : machine.frames.HasRun pages

theorem Machine.Ample.dropFrames {pages : Nat} {frames : List Nat} (ample : machine.Ample pages)
    (distinct : frames.Nodup) (held : ∀ frame ∈ frames, machine.frames.Holds frame) :
    Machine.Ample (frames.foldl dropFrame machine) pages where
  clean := (dropFrames_releases ample.clean.wellFormed distinct fun frame member =>
    ⟨(held frame member).registered, (held frame member).used⟩).clean ample.clean
  run := by
    have padded : machine.frames.Padded := ample.clean.wellFormed.regions
    have run := ample.run
    clear ample held distinct
    induction frames generalizing machine with
    | nil => exact run
    | cons frame frames ih =>
      exact @ih (machine.dropFrame frame) (padded.dealloc frame) (run.dealloc padded frame)

theorem Machine.Ample.fileFrames (ample : machine.Ample (divCeil fileSize pageSize + rest)) (nonempty : fileSize ≠ 0) :
    ∃ first frames after, machine.frameAllocMuch (divCeil fileSize pageSize) = some (frames, after) ∧
      frames.head? = some first ∧ after.frames.HasRun rest := by
  have positive := divCeil_pos nonempty
  have padded : machine.frames.Padded := ample.clean.wellFormed.regions
  obtain ⟨frames, left, allocated, run⟩ := ample.run.allocMuch padded positive
  obtain ⟨first, rfl⟩ := allocMuch_frameRun padded positive allocated
  exact ⟨first, _, { machine with frames := left }, by simp [frameAllocMuch, allocated], head?_frameRun positive, run⟩

theorem Machine.Ample.readImage {fileSize rest : Nat}
    (ample : space.machine.Ample (divCeil fileSize pageSize + rest)) (bare : space.process.pcb.memset = [])
    (reset : space.process.pageTable = .empty) (nonempty : fileSize ≠ 0)
    (read : environment.around.files.readat inode 0 fileSize = .ok buffer) (whole : buffer.length = fileSize) :
    ∃ frames machine, Tasks.readImage environment space.machine inode fileSize = some (.ok buffer, frames, machine) ∧
      frames.Nodup ∧ OwnFrames frames { space with machine } ∧ machine.Ample rest := by
  obtain ⟨first, frames, after, allocated, head, left⟩ := ample.fileFrames nonempty
  have done : Tasks.readImage environment space.machine inode fileSize =
      some (.ok buffer, frames, { after with mem := overlay after.mem first buffer }) := by
    simp [Tasks.readImage, allocated, head, read, whole]
  obtain ⟨distinct, own, -⟩ := readImage_own ample.clean bare reset done
  exact ⟨frames, _, done, distinct, own, own.clean, left⟩

def vacant (pages : Nat) : UserSpace :=
  { newcomer with
    machine := { frames := [FrameRegionMap.new 0x1000 (0x1000 + pages * pageSize)], mem := fun _ => 0 } }

end MonkeyOS.Tasks
