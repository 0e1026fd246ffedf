import MonkeyOS.Lib.Paged
import MonkeyOS.Machine.Memory

/-!
# Files of the ram file system

`RamFile` of `filesystem/ramfs/src/lib.rs`. Each frame of the file is owned by
the file alone, so a page stands for its bytes. Frames come from an allocator
of arbitrary state; it answers with the bytes the fresh frame happens to hold.
Names, times and log output are left out.
-/

set_option autoImplicit false

namespace MonkeyOS.Ramfs

open Lib

structure RamFile where
  len : Nat
  pages : List Page

namespace RamFile

def new : RamFile := { len := 0, pages := [] }

/-- The copy loop of `readat`. Every round copies at least one byte, which the
fuel counts. `none` is the panic of indexing a page the file does not have. -/
def readLoop (pages : List Page) : (fuel offset lastLen : Nat) → Option (List UInt8)
  | 0, _, _ => none
  | fuel + 1, offset, lastLen =>
    let currSize := min (pageSize - offset % pageSize) lastLen
    if currSize = 0 then some []
    else
      match pages[offset / pageSize]? with
      | none => none
      | some page =>
        (readLoop pages fuel (offset + currSize) (lastLen - currSize)).map fun rest =>
          window page (offset % pageSize) currSize ++ rest

def readat (file : RamFile) (offset bufferLen : Nat) : Option (Nat × List UInt8) :=
  if offset ≥ file.len then some (0, [])
  else
    let readLen := min bufferLen (file.len - offset)
    (readLoop file.pages (readLen + 1) offset readLen).map fun bytes => (readLen, bytes)

/-- What `truncate` clears of the pages it keeps: those past the new end, and
the tail of the one the new end falls in. -/
def clearBeyond (pages : List Page) (size : Nat) : List Page :=
  let targetPages := divCeil size pageSize
  let cleared := pages.take targetPages ++ (pages.drop targetPages).map fun _ => Page.zero
  if size % pageSize ≠ 0 then
    cleared.modify (size / pageSize) fun page =>
      overlay page (size % pageSize) (List.replicate (pageSize - size % pageSize) 0)
  else cleared

section Allocating

variable {σ : Type} (alloc : σ → Option Page × σ)

/-- Push up to `count` fresh frames, stopping at the first the allocator refuses. -/
def growPages : (count : Nat) → σ → List Page → List Page × σ
  | 0, state, pages => (pages, state)
  | count + 1, state, pages =>
    match alloc state with
    | (some page, state) => growPages count state (pages ++ [page])
    | (none, state) => (pages, state)

def writeLoop : (fuel : Nat) → List Page → (writeOffset : Nat) → List UInt8 → (wsize : Nat) → List Page × Nat
  | 0, pages, writeOffset, _, _ => (pages, writeOffset)
  | fuel + 1, pages, writeOffset, buffer, wsize =>
    let currSize := min (pageSize - writeOffset % pageSize) wsize
    if currSize = 0 then (pages, writeOffset)
    else if writeOffset / pageSize ≥ pages.length then (pages, writeOffset)
    else
      writeLoop fuel
        (pages.modify (writeOffset / pageSize) fun page =>
          overlay page (writeOffset % pageSize) (buffer.take currSize))
        (writeOffset + currSize) (buffer.drop currSize) (wsize - currSize)

/-- Runs out of frames before its first one: `ENOMEM`. Runs out later: a
partial write into what it has. -/
def writeat (file : RamFile) (state : σ) (offset : Nat) (buffer : List UInt8) : Except Errno Nat × RamFile × σ :=
  let pages := divCeil (wrapAdd offset buffer.length) pageSize
  let neededPages := pages - file.pages.length
  let (inner, state) := growPages alloc neededPages state file.pages
  if 0 < neededPages ∧ inner.length = file.pages.length then (.error .ENOMEM, file, state)
  else
    let availableSpace := inner.length * pageSize
    let maxWritable := if offset < availableSpace then availableSpace - offset else 0
    let actualWriteSize := min buffer.length maxWritable
    let (inner, writeOffset) :=
      writeLoop (actualWriteSize + 1) inner offset buffer actualWriteSize
    (.ok actualWriteSize, { len := if writeOffset > file.len then writeOffset else file.len, pages := inner }, state)

/-- The new length is stored before the frames for it are obtained. -/
def truncate (file : RamFile) (state : σ) (size : Nat) : Except Errno Unit × RamFile × σ :=
  let targetPages := divCeil size pageSize
  let (pageCont, state) :=
    growPages alloc (targetPages - file.pages.length) state (clearBeyond file.pages size)
  (if pageCont.length < targetPages then .error .ENOMEM else .ok (), { len := size, pages := pageCont }, state)

end Allocating

end RamFile

/-! ## Sequences of file operations -/

inductive FileOp where
  | writeat (offset : Nat) (buffer : List UInt8)
  | truncate (size : Nat)
  | readat (offset bufferLen : Nat)

inductive Outcome where
  | wrote (result : Except Errno Nat)
  | truncated (result : Except Errno Unit)
  | read (result : Option (Nat × List UInt8))

namespace RamFile

variable {σ : Type} (alloc : σ → Option Page × σ)

def apply (file : RamFile) (state : σ) : FileOp → Outcome × RamFile × σ
  | .writeat offset buffer =>
    let (result, file, state) := file.writeat alloc state offset buffer
    (.wrote result, file, state)
  | .truncate size =>
    let (result, file, state) := file.truncate alloc state size
    (.truncated result, file, state)
  | .readat offset bufferLen => (.read (file.readat offset bufferLen), file, state)

def outcomes (file : RamFile) (state : σ) : List FileOp → List Outcome
  | [] => []
  | op :: ops =>
    let (outcome, file, state) := file.apply alloc state op
    outcome :: outcomes file state ops

end RamFile

end MonkeyOS.Ramfs
