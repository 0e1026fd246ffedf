import MonkeyOS.Fs.Pipe
import MonkeyOS.Syscall.SharedMapping
import MonkeyOS.Tasks.Tables
import MonkeyOS.User.MappedWindow

/-!
# Mappings that fail

`sys_mmap` maps the pages of a range before it reads the file into them, and takes
them back as `munmap` does if the read fails. The pages of a shared mapping are then
written to the file that could not be read.
-/

set_option autoImplicit false

namespace MonkeyOS.Syscall

open Lib Tasks User Process Option MemArea MemSet

/-- The call answers, and an error leaves the areas and the mapped pages as they were.
No file is written either: a write that its inode refuses would panic. -/
def CleanFailure (space : UserSpace) (result : Option (Except Errno Nat × UserSpace × Tables × List FileWrite)) :
    Prop :=
  ∃ answer after grown writes, result = some (answer, after, grown, writes) ∧ ∀ errno, answer = .error errno →
    after.process.pcb.memset = space.process.pcb.memset ∧ after.process.pageTable = space.process.pageTable ∧
      writes = []

namespace CleanFailure

variable {space after : UserSpace} {tables : Tables}

theorem of_ok {addr : Nat} {writes : List FileWrite} : CleanFailure space (some (.ok addr, after, tables, writes)) :=
  ⟨_, _, _, _, rfl, by rintro _ ⟨⟩⟩

end CleanFailure

/-! ## Private mappings -/

section Private

variable {process : Process} {addr : Nat} {frames : List Nat} (nonzero : addr ≠ 0) (aligned : addr % pageSize = 0)
  (fits : addr + frames.length * pageSize < usizeBound)
  (unmapped : ∀ page < frames.length, process.pageTable (addr + page * pageSize) = none)
include nonzero aligned fits unmapped

variable (positive : 0 < frames.length) (occupied : ∀ area ∈ process.pcb.memset, area.len ≠ 0)
  (vacant : ¬ process.pcb.memset.overlapping addr (addr + frames.length * pageSize))
include positive occupied vacant

end Private

end MonkeyOS.Syscall
