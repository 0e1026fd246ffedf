import MonkeyOS.Lib.Paged
import MonkeyOS.Machine.Usize

/-!
# The RAM disk

`read_blocks` and `write_blocks` of `driver/kramdisk/src/lib.rs`. Both panic unless the
check of the range passes, and copy from or to kernel memory if it does.
-/

set_option autoImplicit false

namespace MonkeyOS.Driver

open Lib Option

abbrev Memory := Nat → UInt8

/-- The disk lies between two symbols of the kernel image. -/
structure RamDiskBlock where
  start : Nat
  size : Nat
  nonnull : 0 < start
  inside : start + size < usizeBound

namespace RamDiskBlock

/-- The checks of both calls, and the pointer; that of address 0 is no reference. -/
def locate (disk : RamDiskBlock) (sector len : Nat) : Option Nat :=
  if len % 0x200 ≠ 0 then none
  else if wrapAdd (wrapMul sector 0x200) len ≥ disk.size then none
  else if wrapAdd disk.start (wrapMul sector 0x200) = 0 then none
  else some (wrapAdd disk.start (wrapMul sector 0x200))

def readBlocks (disk : RamDiskBlock) (memory : Memory) (sector len : Nat) : Option (List UInt8) :=
  (disk.locate sector len).map fun address => window memory address len

def writeBlocks (disk : RamDiskBlock) (memory : Memory) (sector : Nat) (buf : List UInt8) : Option Memory :=
  (disk.locate sector buf.length).map fun address => overlay memory address buf

variable (disk : RamDiskBlock) (memory : Memory) (sector : Nat) (buf : List UInt8)

/-- The sectors are those of the disk, and nothing else is written. -/
structure Serves : Prop where
  reads : disk.readBlocks memory sector buf.length = some (window memory (disk.start + 512 * sector) buf.length)
  writes : ∃ after, disk.writeBlocks memory sector buf = some after ∧
    disk.readBlocks after sector buf.length = some buf ∧
      ∀ address, address < disk.start + 512 * sector ∨ disk.start + 512 * sector + buf.length ≤ address →
        after address = memory address

/-- Whole sectors inside the disk are served, and what reaches beyond it touches nothing:
it is empty, or both calls panic. -/
def Offers : Prop :=
  buf.length % 512 = 0 →
    (512 * sector + buf.length ≤ disk.size → disk.Serves memory sector buf) ∧
      (disk.size < 512 * sector + buf.length → buf = [] ∨
        disk.readBlocks memory sector buf.length = none ∧ disk.writeBlocks memory sector buf = none)

variable {disk memory sector buf}

theorem locate_eq_none_iff (whole : buf.length % 512 = 0) :
    disk.locate sector buf.length = none ↔ disk.size ≤ wrapAdd (wrapMul sector 512) buf.length ∨
      wrapAdd disk.start (wrapMul sector 512) = 0 := by
  rw [locate, if_neg (not_not.mpr whole)]
  split
  · next beyond => exact ⟨fun _ => .inl beyond, fun _ => rfl⟩
  · next inside =>
    split
    · next null => exact ⟨fun _ => .inr null, fun _ => rfl⟩
    · next nonnull => exact ⟨nofun, fun refused => (refused.elim inside nonnull).elim⟩

/-- Nothing wraps for a request inside the disk, and the check refuses one that ends with it. -/
theorem locate_inside (whole : buf.length % 512 = 0) (inside : 512 * sector + buf.length ≤ disk.size) :
    disk.locate sector buf.length =
      if 512 * sector + buf.length = disk.size then none else some (disk.start + 512 * sector) := by
  have placed := disk.inside
  have nonnull := disk.nonnull
  have offset : wrapMul sector 0x200 = 512 * sector := by
    rw [wrapMul, mul_comm]
    exact Nat.mod_eq_of_lt (by omega)
  rw [locate, if_neg (not_not.mpr whole), offset, wrapAdd_eq (by omega), wrapAdd_eq (by omega)]
  by_cases last : 512 * sector + buf.length = disk.size
  · rw [if_pos last.ge, if_pos last]
  · rw [if_neg (by omega), if_neg (by omega), if_neg last]

theorem serves_iff (whole : buf.length % 512 = 0) (inside : 512 * sector + buf.length ≤ disk.size) :
    disk.Serves memory sector buf ↔ 512 * sector + buf.length ≠ disk.size := by
  have located := locate_inside whole inside
  constructor
  · intro serves last
    have reads := serves.reads
    rw [readBlocks, located, if_pos last] at reads
    cases reads
  · intro early
    rw [if_neg early] at located
    refine ⟨by rw [readBlocks, located, map_some], _, by rw [writeBlocks, located, map_some], ?_, ?_⟩
    · rw [readBlocks, located, map_some, window_overlay]
    · rintro _ (before | behind)
      · exact overlay_before before
      · exact overlay_after behind

/-- The last sector is refused, and a sum that wraps passes the check. -/
theorem capacity_offered_iff :
    disk.Offers memory sector buf ↔ (buf.length % 512 = 0 → 512 * sector + buf.length ≠ disk.size ∧
      (disk.size < 512 * sector + buf.length → buf = [] ∨ disk.size ≤ wrapAdd (wrapMul sector 512) buf.length ∨
        wrapAdd disk.start (wrapMul sector 512) = 0)) := by
  refine imp_congr_right fun whole => ?_
  rw [← locate_eq_none_iff whole, readBlocks, writeBlocks, map_eq_none_iff, map_eq_none_iff, and_self]
  refine and_congr_left fun _ => ?_
  constructor
  · intro serves last
    exact (serves_iff whole last.le).mp (serves last.le) last
  · exact fun early inside => (serves_iff whole inside).mpr early

/-- The one sector of a disk cannot be read, and a request from the end of the address
space writes below a disk of two sectors. -/
theorem capacity_not_offered :
    readBlocks ⟨0x1000, 512, by decide, by decide⟩ (fun _ => 0) 0 512 = none ∧
      (writeBlocks ⟨0x1000, 1024, by decide, by decide⟩ (fun _ => 0) (2 ^ 55 - 1) (List.replicate 1024 1)).map
        (fun after => after 0xe00) = some 1 := by
  decide +kernel

end RamDiskBlock

end MonkeyOS.Driver
