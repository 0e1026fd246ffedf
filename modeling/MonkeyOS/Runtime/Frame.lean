import MonkeyOS.Lib.Bitmap
import MonkeyOS.Machine.Usize

/-!
# Physical frames

The bitmap frame allocator of `crates/runtime/src/frame.rs`. A frame is named
by its physical address. The diagnostics that `alloc_much` logs after a failed
search are left out, since they read the bitmap and change nothing.
-/

set_option autoImplicit false

namespace MonkeyOS.Runtime

open Lib

def setRange (bits : Bitmap) (start count : Nat) : Bitmap :=
  (List.range' start count).foldl (fun bits index => bits.setBit index true) bits

structure FrameRegionMap where
  bits : Bitmap
  paddr : Nat
  paddrEnd : Nat
  deriving DecidableEq, Repr

namespace FrameRegionMap

/-- The last word is padded: bits past the region are set as non-existing memory. -/
def new (startAddr endAddr : Nat) : FrameRegionMap :=
  let pages := (endAddr - startAddr) / pageSize
  let bits : Bitmap := List.replicate (divCeil pages 64) 0
  { bits := setRange bits pages (bits.length * 64 - pages)
    paddr := startAddr
    paddrEnd := endAddr }

def getFreePageCount (region : FrameRegionMap) : Nat :=
  region.bits.foldl (fun sum word =>
    if word = 0 then sum + 64
    else (List.range 64).foldl (fun sum bit => sum + if word.getLsbD bit then 0 else 1) sum) 0

def allocInPos (region : FrameRegionMap) (index : Nat) : Option (Nat × FrameRegionMap) :=
  match (List.range 64).find? fun bit => !(region.bits.getD index 0).getLsbD bit with
  | none => none
  | some bit =>
    some (region.paddr + (index * 64 + bit) * pageSize,
      { region with bits := region.bits.setBit (index * 64 + bit) true })

def alloc (region : FrameRegionMap) : Option (Nat × FrameRegionMap) :=
  match (List.range region.bits.length).find? fun index =>
      region.bits.getD index 0 != BitVec.allOnes 64 with
  | none => none
  | some index => region.allocInPos index

def totalPages (region : FrameRegionMap) : Nat :=
  region.paddrEnd / pageSize - region.paddr / pageSize

/-- The sliding window of `alloc_much`: `remaining` pages are left to look at
from `index` on, and the `count` pages before it from `start` are free. -/
def findWindow (bits : Bitmap) (pages : Nat) : (remaining index start count : Nat) → Option Nat
  | 0, _, _, _ => none
  | remaining + 1, index, start, count =>
    if bits.getBit index then findWindow bits pages remaining (index + 1) (index + 1) 0
    else if pages ≤ count + 1 then some start
    else findWindow bits pages remaining (index + 1) start (count + 1)

def allocMuch (region : FrameRegionMap) (pages : Nat) : Option (List Nat × FrameRegionMap) :=
  let startPpn := region.paddr / pageSize
  if pages > region.totalPages then none
  else if pages > region.getFreePageCount then none
  else
    match findWindow region.bits pages region.totalPages 0 0 0 with
    | none => none
    | some start =>
      some ((List.range' start pages).map fun page => (startPpn + page) * pageSize,
        { region with bits := setRange region.bits start pages })

def dealloc (region : FrameRegionMap) (paddr : Nat) : FrameRegionMap :=
  { region with
    bits := region.bits.setBit (paddr / pageSize - region.paddr / pageSize) false }

end FrameRegionMap

abbrev FrameAllocator := List FrameRegionMap

namespace FrameAllocator

def addMemoryRegion (allocator : FrameAllocator) (start finish : Nat) : FrameAllocator :=
  allocator ++ [FrameRegionMap.new start finish]

def build (regions : List (Nat × Nat)) : FrameAllocator :=
  regions.foldl (fun allocator region => addMemoryRegion allocator region.1 region.2) []

def getFreePageCount (allocator : FrameAllocator) : Nat :=
  allocator.foldl (fun sum region => sum + region.getFreePageCount) 0

def firstRegion {α : Type} (request : FrameRegionMap → Option (α × FrameRegionMap)) :
    FrameAllocator → Option (α × FrameAllocator)
  | [] => none
  | region :: regions =>
    match request region with
    | some (answer, region') => some (answer, region' :: regions)
    | none => (firstRegion request regions).map fun result => (result.1, region :: result.2)

def alloc (allocator : FrameAllocator) : Option (Nat × FrameAllocator) :=
  firstRegion FrameRegionMap.alloc allocator

def allocMuch (allocator : FrameAllocator) (pages : Nat) : Option (List Nat × FrameAllocator) :=
  firstRegion (fun region => region.allocMuch pages) allocator

def dealloc (allocator : FrameAllocator) (paddr : Nat) : FrameAllocator :=
  match allocator with
  | [] => []
  | region :: regions =>
    if region.paddr ≤ paddr ∧ paddr < region.paddrEnd then region.dealloc paddr :: regions
    else region :: dealloc regions paddr

end FrameAllocator

end MonkeyOS.Runtime
