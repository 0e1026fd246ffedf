import MonkeyOS.Lib.Paged
import MonkeyOS.Machine.Usize

/-!
# Bytes of a block device

`read_offset` and `write_offset` of `filesystem/fs/src/ext4_rs_shim.rs`, over a device
that is read and written by sectors. The contents are a function from addresses; `none`
is a slice out of range.
-/

set_option autoImplicit false

namespace MonkeyOS.Fs.Ext4Disk

open Lib List Option Nat

abbrev Disk := Nat → UInt8

def blockSize : Nat := 4096

def readBlocks (disk : Disk) (blockId : Nat) : List UInt8 := window disk (blockId * 512) 512

def writeBlocks (disk : Disk) (blockId : Nat) (data : List UInt8) : Disk := overlay disk (blockId * 512) data

/-- `target[start..start + source.len()].copy_from_slice(source)` -/
def copyFrom (target : List UInt8) (start : Nat) (source : List UInt8) : Option (List UInt8) :=
  if start + source.length ≤ target.length then
    some (target.take start ++ source ++ target.drop (start + source.length))
  else none

/-- One round of the loop: buffer, bytes read and the offset in the block. -/
def readRound (disk : Disk) (startBlockId : Nat) (state : List UInt8 × Nat × Nat) (round : Nat) :
    Option (List UInt8 × Nat × Nat) :=
  let (buf, totalBytesRead, offsetInBlock) := state
  let data := readBlocks disk (startBlockId + round)
  let bytesToCopy := if totalBytesRead = 0 then 512 - offsetInBlock else 512
  (copyFrom buf totalBytesRead ((data.drop offsetInBlock).take bytesToCopy)).map fun buf =>
    (buf, totalBytesRead + bytesToCopy, 0)

def readOffset (disk : Disk) (offset : Nat) : Option (List UInt8) :=
  ((List.range (blockSize / 512)).foldlM (readRound disk (offset / 512))
    (List.replicate blockSize 0, 0, offset % 512)).map Prod.fst

/-- One round of the loop: disk, bytes written and the offset in the block. -/
def writeRound (buf : List UInt8) (startBlockId : Nat) (state : Disk × Nat × Nat) (round : Nat) :
    Option (Disk × Nat × Nat) :=
  let (disk, totalBytesWritten, offsetInBlock) := state
  let currentBlockId := startBlockId + round
  let data := if buf.length < 512 then readBlocks disk currentBlockId else List.replicate 512 0
  let bufEnd := if totalBytesWritten + 512 > buf.length then buf.length else totalBytesWritten + 512
  let bytesToCopy := bufEnd - totalBytesWritten
  (copyFrom data offsetInBlock ((buf.drop totalBytesWritten).take bytesToCopy)).map fun data =>
    (writeBlocks disk currentBlockId data, totalBytesWritten + bytesToCopy, 0)

def writeOffset (disk : Disk) (offset : Nat) (buf : List UInt8) : Option Disk :=
  ((List.range (divCeil buf.length 512)).foldlM (writeRound buf (offset / 512)) (disk, 0, offset % 512)).map Prod.fst

variable {disk : Disk} {offset : Nat} {buf : List UInt8}

theorem copyFrom_append {front middle back source : List UInt8} (same : middle.length = source.length) :
    copyFrom (front ++ middle ++ back) front.length source = some (front ++ source ++ back) := by
  rw [copyFrom, if_pos (by simp [same]), ← same, ← length_append, drop_left, append_assoc front middle, take_left]

theorem copyFrom_zeros {front source : List UInt8} {count : Nat} (room : source.length ≤ count) :
    copyFrom (front ++ List.replicate count 0) front.length source =
      some (front ++ source ++ List.replicate (count - source.length) 0) := by
  have zeros : List.replicate count (0 : UInt8) =
      List.replicate source.length 0 ++ List.replicate (count - source.length) 0 := by
    rw [replicate_append_replicate, Nat.add_sub_cancel' room]
  rw [zeros, ← append_assoc, copyFrom_append length_replicate]

/-! ## Reading -/

variable {count skipped round rounds : Nat}

theorem drop_window (cells : Disk) (start : Nat) (inside : skipped ≤ count) :
    (window cells start count).drop skipped = window cells (start + skipped) (count - skipped) := by
  obtain ⟨_, rfl⟩ := Nat.exists_eq_add_of_le inside
  rw [← window_append, drop_left' (length_window ..), Nat.add_sub_cancel_left]

def filled (disk : Disk) (offset count : Nat) : List UInt8 :=
  window disk offset count ++ List.replicate (4096 - count) 0

theorem readRound_eq (disk : Disk) (reached : offset + count = (offset / 512 + round) * 512 + skipped)
    (inside : skipped ≤ 512) (only : count ≠ 0 → skipped = 0) (room : count + (512 - skipped) ≤ 4096) :
    readRound disk (offset / 512) (filled disk offset count, count, skipped) round =
      some (filled disk offset (count + (512 - skipped)), count + (512 - skipped), 0) := by
  have copies : (if count = 0 then 512 - skipped else 512) = 512 - skipped := by
    split
    · rfl
    · next more => rw [only more]
  have data : ((readBlocks disk (offset / 512 + round)).drop skipped).take (512 - skipped) =
      window disk (offset + count) (512 - skipped) := by
    rw [readBlocks, drop_window _ _ inside, ← reached, take_of_length_le (length_window ..).le]
  have copied := @copyFrom_zeros (window disk offset count) (window disk (offset + count) (512 - skipped))
    (4096 - count) (by rw [length_window]; omega)
  rw [length_window, length_window, window_append, Nat.sub_sub] at copied
  simp only [readRound, copies, data, filled, copied, map_some]

theorem readRounds (disk : Disk) (offset : Nat) (most : rounds ≤ 8) :
    (List.range rounds).foldlM (readRound disk (offset / 512)) (List.replicate 4096 0, 0, offset % 512) =
      some (filled disk offset (512 * rounds - offset % 512), 512 * rounds - offset % 512,
        if rounds = 0 then offset % 512 else 0) := by
  induction rounds with
  | zero =>
    rw [Nat.mul_zero, Nat.zero_sub, filled, show window disk offset 0 = [] from rfl, nil_append]
    rfl
  | succ rounds ih =>
    have step : 512 * (rounds + 1) - offset % 512 =
        512 * rounds - offset % 512 + (512 - if rounds = 0 then offset % 512 else 0) := by split <;> omega
    rw [range_succ, foldlM_append, ih (by omega), bind_eq_bind, bind_some, foldlM_cons,
      readRound_eq disk (by split <;> omega) (by split <;> omega) (fun _ => if_neg (by omega)) (by omega), step]
    rfl

theorem readOffset_eq (disk : Disk) (offset : Nat) :
    readOffset disk offset = some (filled disk offset (4096 - offset % 512)) := by
  rw [readOffset, show blockSize / 512 = 8 from rfl, show blockSize = 4096 from rfl, readRounds disk offset le_rfl]
  rfl

theorem filled_eq_iff (disk : Disk) (offset : Nat) :
    filled disk offset (4096 - offset % 512) = window disk offset 4096 ↔
      window disk (offset + (4096 - offset % 512)) (offset % 512) = List.replicate (offset % 512) 0 := by
  have whole : 4096 - offset % 512 + offset % 512 = 4096 := by omega
  have left : 4096 - (4096 - offset % 512) = offset % 512 := by omega
  have split := window_append disk offset (4096 - offset % 512) (offset % 512)
  rw [whole] at split
  rw [filled, left, ← split, append_cancel_left_eq, eq_comm]

/-- The first round reads less than a sector, and there is no ninth. -/
theorem read_offset_exact_iff (disk : Disk) (offset : Nat) :
    readOffset disk offset = some (window disk offset 4096) ↔
      window disk (offset + (4096 - offset % 512)) (offset % 512) = List.replicate (offset % 512) 0 := by
  rw [readOffset_eq, Option.some.injEq, filled_eq_iff]

theorem read_offset_misses_byte : readOffset (fun _ => 1) 1 ≠ some (window (fun _ => 1) 1 4096) := by
  rw [readOffset_eq, ne_eq, Option.some.injEq, filled_eq_iff]
  decide

/-! ## Writing -/

theorem overlay_sector (inside : offset % 512 + buf.length ≤ 512) :
    (copyFrom (readBlocks disk (offset / 512)) (offset % 512) buf).map (writeBlocks disk (offset / 512)) =
      some (overlay disk offset buf) := by
  have here : offset / 512 * 512 + offset % 512 = offset := by omega
  obtain ⟨rest, whole⟩ := Nat.exists_eq_add_of_le inside
  have sector : readBlocks disk (offset / 512) = window disk (offset / 512 * 512) (offset % 512) ++
      window disk offset buf.length ++ window disk (offset + buf.length) rest := by
    have joined := window_append disk (offset / 512 * 512) (offset % 512 + buf.length) rest
    rw [← window_append, ← add_assoc, here, ← whole] at joined
    exact joined.symm
  have copied := @copyFrom_append (window disk (offset / 512 * 512) (offset % 512)) (window disk offset buf.length)
    (window disk (offset + buf.length) rest) buf (length_window ..)
  have front : overlay disk (offset / 512 * 512) (window disk (offset / 512 * 512) (offset % 512)) = disk :=
    overlay_eq_self_iff.mpr (by rw [length_window])
  have back : window disk (offset + buf.length) rest = window (overlay disk offset buf) (offset + buf.length) rest :=
    window_congr fun _ after _ => (overlay_after after).symm
  rw [length_window] at copied
  rw [sector, copied, map_some, writeBlocks, append_assoc, ← overlay_overlay, front, length_window, here,
    ← overlay_overlay, back, overlay_eq_self_iff.mpr (by rw [length_window])]

/-- A buffer that is no whole sector is put into the sector it is written to. -/
theorem writeOffset_short (disk : Disk) (offset : Nat) (short : buf.length < 512) :
    writeOffset disk offset buf =
      if offset % 512 + buf.length ≤ 512 then some (overlay disk offset buf) else none := by
  by_cases empty : buf = []
  · subst empty
    rw [if_pos (by simp; omega), overlay_nil]
    rfl
  have once : divCeil buf.length 512 = 1 := by
    have := length_pos_iff.mpr empty
    rw [divCeil, if_neg (by omega)]
    omega
  have written : writeOffset disk offset buf =
      (copyFrom (readBlocks disk (offset / 512)) (offset % 512) buf).map (writeBlocks disk (offset / 512)) := by
    rw [writeOffset, once, range_one, foldlM_cons, writeRound]
    simp only [drop_zero, Nat.sub_zero, take_length, if_pos short, Nat.add_zero]
    cases copyFrom (readBlocks disk (offset / 512)) (offset % 512) buf <;> rfl
  rw [written]
  split
  · next inside => exact overlay_sector inside
  · next outside => rw [copyFrom, readBlocks, length_window, if_neg outside, map_none]

/-- What stands between the end of a buffer and the next sector. -/
def padding (buf : List UInt8) : List UInt8 := List.replicate (divCeil buf.length 512 * 512 - buf.length) 0

section Long

variable (disk : Disk) (long : 512 ≤ buf.length) (aligned : offset % 512 = 0)
include long

include aligned in
theorem writeRound_eq (unfinished : round * 512 < buf.length) :
    writeRound buf (offset / 512) (overlay disk offset (buf.take (round * 512)), round * 512, 0) round =
      some (overlay disk offset (buf.take ((round + 1) * 512) ++ List.replicate ((round + 1) * 512 - buf.length) 0),
        min ((round + 1) * 512) buf.length, 0) := by
  have here : (offset / 512 + round) * 512 = offset + (buf.take (round * 512)).length := by
    rw [length_take]
    omega
  have total : round * 512 + min 512 (buf.length - round * 512) = min ((round + 1) * 512) buf.length := by
    rw [← Nat.add_min_add_left, Nat.add_sub_cancel' unfinished.le, Nat.add_mul, Nat.one_mul]
  have copies : (if round * 512 + 512 > buf.length then buf.length else round * 512 + 512) - round * 512 =
      min 512 (buf.length - round * 512) := by split <;> omega
  generalize chunk : (buf.drop (round * 512)).take (min 512 (buf.length - round * 512)) = piece
  have taken : buf.take ((round + 1) * 512) = buf.take (round * 512) ++ piece := by
    rw [← chunk, add_mul, take_add, ← length_drop, ← take_eq_take_min, one_mul]
  have length : piece.length = min 512 (buf.length - round * 512) := by
    rw [← chunk, length_take, length_drop, min_assoc, min_self]
  have copied := @copyFrom_zeros [] piece 512 (by omega)
  rw [nil_append, nil_append, length_nil] at copied
  have rest : 512 - piece.length = (round + 1) * 512 - buf.length := by omega
  simp only [writeRound, copies, chunk, if_neg (not_lt.mpr long), copied, map_some, writeBlocks, here,
    overlay_overlay, taken, rest, total, append_assoc]

include aligned in
theorem writeRounds (most : rounds ≤ divCeil buf.length 512) :
    (List.range rounds).foldlM (writeRound buf (offset / 512)) (disk, 0, 0) =
      some (overlay disk offset (buf.take (rounds * 512) ++ List.replicate (rounds * 512 - buf.length) 0),
        min (rounds * 512) buf.length, 0) := by
  induction rounds with
  | zero => simp
  | succ rounds ih =>
    have unfinished : rounds * 512 < buf.length := by
      unfold divCeil at most
      split at most <;> omega
    rw [range_succ, foldlM_append, ih (by omega), Nat.sub_eq_zero_of_le unfinished.le,
      min_eq_left unfinished.le, replicate_zero, append_nil, bind_eq_bind, bind_some,
      foldlM_cons, writeRound_eq disk long aligned unfinished]
    rfl

include aligned in
theorem writeOffset_aligned : writeOffset disk offset buf = some (overlay disk offset (buf ++ padding buf)) := by
  have enough : buf.length ≤ divCeil buf.length 512 * 512 := le_divCeil_mul _ (by decide)
  rw [writeOffset, aligned, writeRounds disk long aligned le_rfl, take_of_length_le enough]
  rfl

theorem writeOffset_unaligned (unaligned : offset % 512 ≠ 0) : writeOffset disk offset buf = none := by
  have rounds : divCeil buf.length 512 = divCeil buf.length 512 - 1 + 1 := by
    have enough : buf.length ≤ divCeil buf.length 512 * 512 := le_divCeil_mul _ (by decide)
    omega
  have outside : ¬ offset % 512 + (buf.take 512).length ≤ (List.replicate 512 (0 : UInt8)).length := by
    rw [length_take, length_replicate]
    omega
  have first : writeRound buf (offset / 512) (disk, 0, offset % 512) 0 = none := by
    simp only [writeRound, zero_add, if_neg (not_lt.mpr long), drop_zero, copyFrom, if_neg outside, map_none]
  rw [writeOffset, rounds, range_succ_eq_map, foldlM_cons, first]
  rfl

end Long

theorem padded_iff (disk : Disk) (offset : Nat) (buf : List UInt8) :
    overlay disk offset (buf ++ padding buf) = overlay disk offset buf ↔
      window disk (offset + buf.length) (padding buf).length = padding buf := by
  have after : window (overlay disk offset buf) (offset + buf.length) (padding buf).length =
      window disk (offset + buf.length) (padding buf).length := window_congr fun _ above _ => overlay_after above
  rw [← overlay_overlay, overlay_eq_self_iff, after]

/-- A buffer of a sector or more is written by whole sectors, which are not read before. -/
theorem write_offset_exact_iff (disk : Disk) (offset : Nat) (buf : List UInt8) :
    writeOffset disk offset buf = some (overlay disk offset buf) ↔
      buf.length < 512 ∧ offset % 512 + buf.length ≤ 512 ∨
        512 ≤ buf.length ∧ offset % 512 = 0 ∧ window disk (offset + buf.length) (padding buf).length = padding buf := by
  rcases lt_or_ge buf.length 512 with short | long
  · rw [writeOffset_short disk offset short]
    by_cases inside : offset % 512 + buf.length ≤ 512 <;> simp [short, inside, not_le.mpr short]
  · by_cases aligned : offset % 512 = 0
    · simp [writeOffset_aligned disk long aligned, padded_iff, long, aligned, not_lt.mpr long]
    · simp [writeOffset_unaligned disk long aligned, aligned, not_lt.mpr long]

/-- Two bytes over a sector boundary panic, and 1023 bytes clear the one behind them. -/
theorem write_offset_inexact :
    writeOffset (fun _ => 1) 511 [2, 3] = none ∧
      writeOffset (fun _ => 1) 0 (List.replicate 1023 2) ≠ some (overlay (fun _ => 1) 0 (List.replicate 1023 2)) := by
  have long : 512 ≤ (List.replicate 1023 (2 : UInt8)).length := by rw [length_replicate]; decide
  constructor
  · exact writeOffset_short _ 511 (by decide)
  · rw [writeOffset_aligned _ long rfl, ne_eq, Option.some.injEq, padded_iff, padding, length_replicate,
      length_replicate]
    decide

end MonkeyOS.Fs.Ext4Disk
