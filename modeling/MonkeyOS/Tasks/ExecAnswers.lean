import Mathlib.Logic.Relation
import MonkeyOS.Tasks.ExecResolution

/-!
# Executions that answer

`exec_with_process` trusts the file that it ends at: that it is not empty, that a static
program has headers whose types are known, and that the segments to load have pages and
lie inside the file. It panics where one of these does not hold. Where all do, and the
program is laid out in user memory, it answers as soon as there is enough memory.
-/

set_option autoImplicit false

namespace MonkeyOS.Tasks

open Lib User List Option Machine UserSpace PathBuf Nat Process
open MonkeyOS.Runtime

/-! ## Programs -/

def segmentPages (base : Nat) (header : ProgramHeader) : Nat :=
  wrapSub (divCeil (wrapAdd (wrapAdd base header.virtualAddr) header.memSize) pageSize)
    (wrapAdd base header.virtualAddr / pageSize)

/-- Relative, or of a symbol that is defined. -/
def Rela.resolved (dynsym : List DynEntry) (entry : Rela) : Bool :=
  entry.type ∈ [8, 3, 0x403] ∨
    entry.type ∈ [6, 7, 2, 0x401] ∧ dynsym[entry.symbolTableIndex]?.any fun symbol => symbol.shndx ≠ 0

def Rela.nameless (dynsym : List DynEntry) (entry : Rela) : Bool :=
  entry.type ∈ [6, 7, 2, 0x401] ∧
    dynsym[entry.symbolTableIndex]?.any fun symbol => symbol.shndx = 0 ∧ symbol.named = false

/-- The first relocation that is not resolved, if there is one, is of a symbol that is undefined
and has no name: there `relocate` gives up, and everywhere else it would panic. -/
def Elf.Relocatable (elf : Elf) : Prop :=
  ∀ entries dynsym, elf.relaDyn = some entries → elf.dynsym = some dynsym →
    ∀ entry, (entries.dropWhile (Rela.resolved dynsym)).head? = some entry → entry.nameless dynsym

/-- What the loader takes for granted of a static program. -/
structure Elf.Loadable (elf : Elf) (buffer : List UInt8) : Prop where
  headers : elf.programs ≠ []
  typed : ∀ header ∈ elf.programs, header.type ≠ none
  relocatable : elf.Relocatable
  paged : ∀ base, elf.base = some base → ∀ header ∈ elf.loads, segmentPages base header ≠ 0
  inside : ∀ header ∈ elf.loads, header.offset + header.fileSize ≤ buffer.length

/-- Nothing about the file makes the loader panic. -/
def Program.Sound (environment : ExecEnvironment) : Program → Prop
  | .cut => False
  | .file _ _ buffer => ∀ elf, contents environment buffer = .static elf → elf.Loadable buffer
  | _ => True

section Calls

variable (environment : ExecEnvironment) (currDir : PathBuf)

/-- The arguments fit on the first pages of the stack, the segments lie in user memory,
and a template consists of whole pages. -/
structure Placed (call : String × List String) : Prop where
  stack : stackUse environment call.2 (currDir.join call.1).path ≤ userStackInitSize
  segments : ∀ inode fileSize buffer elf base,
    program environment (currDir.join call.1) = .file inode fileSize buffer →
      contents environment buffer = .static elf → elf.base = some base → ∀ header ∈ elf.loads, SegmentInUser base header
  template : ∀ template, program environment (currDir.join call.1) = .template template →
    ∀ area ∈ template.maps, ∀ track ∈ area.mtrackers, track.tracker % pageSize = 0 ∧ track.vaddr % pageSize = 0

end Calls

variable {environment : ExecEnvironment} {taskId : Nat} {currDir : PathBuf} {space after : UserSpace}
  {buffer : List UInt8} {base : Nat} {header : ProgramHeader} {kept : List Nat} {headers : List ProgramHeader}
  {elf : Elf}

/-! ## What an answer shows -/

variable {args : List String} {name : String}

end MonkeyOS.Tasks
