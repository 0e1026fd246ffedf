import MonkeyOS.Machine.Memory

/-!
# Memory areas of a process

`kernel/src/tasks/memset.rs`. A tracker names its frame by physical address; an
inode is known by its number. Writes into mapped files are returned in order,
for the caller to perform. The access bits of a tracker are never read and are
left out.
-/

set_option autoImplicit false

namespace MonkeyOS.Tasks

inductive MemType where
  | CodeSection | Stack | Mmap | Shared | ShareFile
  deriving DecidableEq, Repr

abbrev Inode := Nat

structure MapTrack where
  vaddr : Nat
  tracker : Nat
  deriving DecidableEq, Repr

structure MemArea where
  mtype : MemType
  mtrackers : List MapTrack
  file : Option Inode
  offset : Nat
  start : Nat
  len : Nat
  deriving DecidableEq, Repr

/-- `writeat(offset, frame[..len])` on a mapped file. -/
structure WriteBack where
  file : Inode
  offset : Nat
  frame : Nat
  len : Nat
  deriving DecidableEq, Repr

abbrev within (first last address : Nat) : Prop := first ≤ address ∧ address < last

def unmapTracks (table : PageTable) (tracks : List MapTrack) : PageTable :=
  tracks.foldl (fun table track => table.unmapPage track.vaddr) table

namespace MemArea

def finish (area : MemArea) : Nat := wrapAdd area.start area.len

abbrev overlapping (area : MemArea) (start last : Nat) : Prop :=
  ¬ ((start ≤ area.start ∧ last ≤ area.start) ∨ (start ≥ area.finish ∧ last ≥ area.finish))

abbrev contains (area : MemArea) (address : Nat) : Prop := within area.start area.finish address

def writePage (area : MemArea) (file : Inode) (track : MapTrack) : WriteBack :=
  { file, offset := wrapSub (wrapAdd track.vaddr area.offset) area.start,
    frame := track.tracker, len := pageSize }

def writePages (area : MemArea) (start last : Nat) : List WriteBack :=
  match area.file with
  | none => []
  | some file =>
    (area.mtrackers.filter fun track => within start last track.vaddr).map (area.writePage file)

/-- What one area leaves: itself, the part split off, the page table, the writes. -/
structure Cut where
  area : MemArea
  split : Option MemArea
  table : PageTable
  writes : List WriteBack

def sub (area : MemArea) (start last : Nat) (table : PageTable) : Cut :=
  if ¬ area.overlapping start last then { area, split := none, table, writes := [] }
  else if area.contains start ∧ area.contains last then
    let short := { area with len := start - area.start }
    let retained := area.mtrackers.filter fun track => ¬ within last area.finish track.vaddr
    { area :=
        { short with mtrackers := retained.filter fun track => ¬ within last area.finish track.vaddr }
      split := some
        { area with
          mtrackers := retained.filter fun track => within last area.finish track.vaddr
          start := last, offset := last - area.start, len := area.finish - last }
      table, writes := short.writePages start last }
  else if within start last area.start ∧ within start last area.finish then
    { area := { area with len := 0, mtrackers := [] }, split := none
      table := unmapTracks table area.mtrackers, writes := area.writePages start last }
  else
    let shrunk :=
      if area.contains start then { area with len := start - area.start }
      else if within start last area.start then
        { area with len := wrapSub area.finish last, start := last }
      else area
    { area :=
        { shrunk with mtrackers := area.mtrackers.filter fun track => shrunk.contains track.vaddr }
      split := none
      table :=
        unmapTracks table (area.mtrackers.filter fun track => ¬ shrunk.contains track.vaddr)
      writes := shrunk.writePages start last }

/-- `Drop`: a shared file mapping writes back the frames nobody else holds. -/
def drop (strongCount : Nat → Nat) (area : MemArea) : List WriteBack :=
  match area.mtype, area.file with
  | .ShareFile, some file =>
    (area.mtrackers.filter fun track => strongCount track.tracker ≤ 1).map fun track =>
      let offset := wrapSub track.vaddr area.start
      { file, offset, frame := track.tracker, len := min (wrapSub area.len offset) pageSize }
  | _, _ => []

/-- The tracker of the page that an address is on. -/
abbrev trackAt (area : MemArea) (vaddr : Nat) : Option MapTrack :=
  area.mtrackers.find? fun track => track.vaddr = pageFloor vaddr

end MemArea

abbrev MemSet := List MemArea

namespace MemSet

abbrev areaAt (memset : MemSet) (vaddr : Nat) : Option MemArea := memset.find? fun area => area.contains vaddr

abbrev overlapping (memset : MemSet) (start last : Nat) : Prop :=
  ∃ area ∈ memset, area.overlapping start last

/-- The loop of `sub_area`: areas kept, areas split off, page table and writes. -/
def subEach (strongCount : Nat → Nat) (start last : Nat) :
    MemSet → PageTable → MemSet × MemSet × PageTable × List WriteBack
  | [], table => ([], [], table, [])
  | area :: rest, table =>
    let cut := area.sub start last table
    let (kept, split, table, writes) := subEach strongCount start last rest cut.table
    if cut.area.len ≠ 0 then
      (cut.area :: kept, cut.split.toList ++ split, table, cut.writes ++ writes)
    else
      (kept, cut.split.toList ++ split, table, cut.writes ++ cut.area.drop strongCount ++ writes)

def subArea (strongCount : Nat → Nat) (memset : MemSet) (start last : Nat) (table : PageTable) :
    MemSet × PageTable × List WriteBack :=
  let (kept, split, table, writes) := subEach strongCount start last memset table
  (kept ++ split, table, writes)

end MemSet

end MonkeyOS.Tasks
