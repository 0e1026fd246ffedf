import MonkeyOS.Machine.Usize
import Mathlib.Data.List.Basic

/-!
# Text nodes of procfs

`readat` of the nodes in `filesystem/procfs/src` that answer from a text. Every call
that returns is `Ok`; `none` is a slice out of range.
-/

set_option autoImplicit false

namespace MonkeyOS.Fs.Procfs

open List

inductive ProcNode where
  | interrupts | meminfo | cpuinfo | stat | version
  deriving DecidableEq, Repr

def meminfoContent : List String :=
  ["MemTotal:        8388608 kB\n",
   "MemFree:         4194304 kB\n",
   "MemAvailable:    6291456 kB\n",
   "Buffers:           65536 kB\n",
   "Cached:          1048576 kB\n",
   "SwapCached:            0 kB\n",
   "Active:          2097152 kB\n",
   "Inactive:         524288 kB\n",
   "Active(anon):    1572864 kB\n",
   "Inactive(anon):   262144 kB\n",
   "Active(file):     524288 kB\n",
   "Inactive(file):   262144 kB\n",
   "Unevictable:           0 kB\n",
   "Mlocked:               0 kB\n",
   "SwapTotal:             0 kB\n",
   "SwapFree:              0 kB\n",
   "Dirty:                 0 kB\n",
   "Writeback:             0 kB\n",
   "AnonPages:       1572864 kB\n",
   "Mapped:           262144 kB\n",
   "Shmem:             65536 kB\n",
   "KReclaimable:     131072 kB\n",
   "Slab:             262144 kB\n",
   "SReclaimable:     131072 kB\n",
   "SUnreclaim:       131072 kB\n",
   "KernelStack:       16384 kB\n",
   "PageTables:        32768 kB\n",
   "NFS_Unstable:          0 kB\n",
   "Bounce:                0 kB\n",
   "WritebackTmp:          0 kB\n",
   "CommitLimit:     4194304 kB\n",
   "Committed_AS:    2097152 kB\n",
   "VmallocTotal:   34359738367 kB\n",
   "VmallocUsed:      131072 kB\n",
   "VmallocChunk:          0 kB\n",
   "Percpu:            65536 kB\n",
   "HardwareCorrupted:     0 kB\n",
   "AnonHugePages:         0 kB\n",
   "ShmemHugePages:        0 kB\n",
   "ShmemPmdMapped:        0 kB\n",
   "FileHugePages:         0 kB\n",
   "FilePmdMapped:         0 kB\n",
   "HugePages_Total:       0\n",
   "HugePages_Free:        0\n",
   "HugePages_Rsvd:        0\n",
   "HugePages_Surp:        0\n",
   "Hugepagesize:       2048 kB\n",
   "Hugetlb:               0 kB\n",
   "DirectMap4k:     2097152 kB\n",
   "DirectMap2M:     6291456 kB\n",
   "DirectMap1G:           0 kB\n"]

def cpuinfoContent : List String :=
  ["processor\t: 0\n",
   "vendor_id\t: MonkeyOS\n",
   "cpu family\t: 0\n",
   "model\t\t: 0\n",
   "model name\t: MonkeyOS Virtual CPU\n",
   "stepping\t: 0\n",
   "microcode\t: 0x1\n",
   "cpu MHz\t\t: 1000.000\n",
   "cache size\t: 256 KB\n",
   "physical id\t: 0\n",
   "siblings\t: 1\n",
   "core id\t\t: 0\n",
   "cpu cores\t: 1\n",
   "apicid\t\t: 0\n",
   "initial apicid\t: 0\n",
   "fpu\t\t: yes\n",
   "fpu_exception\t: yes\n",
   "cpuid level\t: 1\n",
   "wp\t\t: yes\n",
   "flags\t\t: fpu de pse tsc msr pae mce cx8 apic sep mtrr pge mca cmov pat pse36 clflush mmx fxsr sse sse2\n",
   "bogomips\t: 2000.00\n",
   "clflush size\t: 64\n",
   "cache_alignment\t: 64\n",
   "address sizes\t: 32 bits physical, 32 bits virtual\n",
   "power management:\n",
   "\n"]

def statContent : List String :=
  ["cpu  0 0 0 0 0 0 0 0 0 0\n",
   "cpu0 0 0 0 0 0 0 0 0 0 0\n",
   "intr 0\n",
   "ctxt 0\n",
   "btime 1640995200\n",
   "processes 1\n",
   "procs_running 1\n",
   "procs_blocked 0\n",
   "softirq 0 0 0 0 0 0 0 0 0 0 0\n"]

def versionContent : List String :=
  ["Linux version 5.10.0-7-riscv64 (MonkeyOS) (gcc version 9.4.0) #1 SMP PREEMPT Mon Jan 1 00:00:00 UTC 2024\n"]

/-- The text of a node by its lines. -/
def ProcNode.content : ProcNode → List String
  | .interrupts => []
  | .meminfo => meminfoContent
  | .cpuinfo => cpuinfoContent
  | .stat => statContent
  | .version => versionContent

def ProcNode.bytes (node : ProcNode) : List UInt8 := node.content.flatMap fun line => line.toUTF8.data.toList

/-- `buffer[..size].copy_from_slice(&bytes[start..finish])` -/
def copySlice (buffer : List UInt8) (size : Nat) (bytes : List UInt8) (start finish : Nat) : Option (List UInt8) :=
  if size ≤ buffer.length ∧ start ≤ finish ∧ finish ≤ bytes.length ∧ finish - start = size then
    some ((bytes.drop start).take size ++ buffer.drop size)
  else none

/-- `readat` of interrupts, which subtracts the offset unchecked. -/
def readInterrupts (bytes : List UInt8) (offset : Nat) (buffer : List UInt8) : Option (Nat × List UInt8) :=
  let rsize := min (wrapSub bytes.length offset) buffer.length
  (copySlice buffer rsize bytes offset (wrapAdd offset rsize)).map fun buffer => (rsize, buffer)

def readMeminfo (bytes : List UInt8) (offset : Nat) (buffer : List UInt8) : Option (Nat × List UInt8) :=
  if bytes.length ≤ offset then some (0, buffer)
  else
    let finish := min (wrapAdd offset buffer.length) bytes.length
    let copyLen := wrapSub finish offset
    (copySlice buffer copyLen bytes offset finish).map fun buffer => (copyLen, buffer)

/-- The body that cpuinfo, stat and version share. -/
def readContent (bytes : List UInt8) (offset : Nat) (buffer : List UInt8) : Option (Nat × List UInt8) :=
  if bytes.length ≤ offset then some (0, buffer)
  else
    let copyLen := min (wrapSub bytes.length offset) buffer.length
    (copySlice buffer copyLen bytes offset (wrapAdd offset copyLen)).map fun buffer => (copyLen, buffer)

def ProcNode.readat (node : ProcNode) : Nat → List UInt8 → Option (Nat × List UInt8) :=
  match node with
  | .interrupts => readInterrupts node.bytes
  | .meminfo => readMeminfo node.bytes
  | .cpuinfo | .stat | .version => readContent node.bytes

/-- A read that answers the bytes from the offset on, as far as they and the buffer reach. -/
def ReadsWindow (bytes : List UInt8) (offset : Nat) (buffer : List UInt8) (answer : Option (Nat × List UInt8)) :
    Prop :=
  let window := (bytes.drop offset).take buffer.length
  answer = some (window.length, window ++ buffer.drop window.length)

/-- A reader that moves on by each count until it is 0; `none` if its buffers do not last. -/
def ProcNode.readUntilEmpty (node : ProcNode) : (offset : Nat) → (buffers : List (List UInt8)) → Option (List UInt8)
  | _, [] => none
  | offset, buffer :: buffers =>
    (node.readat offset buffer).bind fun (count, buffer) =>
      if count = 0 then some []
      else (node.readUntilEmpty (offset + count) buffers).map (buffer.take count ++ ·)

variable {bytes buffer : List UInt8} {offset : Nat}

theorem copySlice_window {size : Nat} (same : size = min (bytes.length - offset) buffer.length)
    (inside : offset ≤ bytes.length) :
    ReadsWindow bytes offset buffer
      ((copySlice buffer size bytes offset (offset + size)).map fun buffer => (size, buffer)) := by
  have length : ((bytes.drop offset).take buffer.length).length = size := by
    rw [length_take, length_drop, same, min_comm]
  have window : (bytes.drop offset).take size = (bytes.drop offset).take buffer.length := by
    rw [same, ← length_drop, min_comm, ← take_eq_take_min]
  rw [ReadsWindow, length, copySlice, if_pos (by omega), window, Option.map_some]

theorem readsWindow_past (past : bytes.length ≤ offset) : ReadsWindow bytes offset buffer (some (0, buffer)) := by
  rw [ReadsWindow, drop_of_length_le past, take_nil]
  rfl

theorem readContent_window (short : bytes.length < usizeBound) :
    ReadsWindow bytes offset buffer (readContent bytes offset buffer) := by
  unfold readContent
  split
  · next past => exact readsWindow_past past
  · dsimp only
    rw [wrapSub_eq (by omega) short, wrapAdd_eq (by omega)]
    exact copySlice_window rfl (by omega)

theorem readMeminfo_window (short : bytes.length + buffer.length < usizeBound) :
    ReadsWindow bytes offset buffer (readMeminfo bytes offset buffer) := by
  unfold readMeminfo
  split
  · next past => exact readsWindow_past past
  · have finish : min (offset + buffer.length) bytes.length = offset + min (bytes.length - offset) buffer.length := by
      omega
    dsimp only
    rw [wrapAdd_eq (by omega), finish, wrapSub_eq (by omega) (by omega), Nat.add_sub_cancel_left]
    exact copySlice_window rfl (by omega)

/-- Past its empty text the node slices from behind the end, whatever the buffer is. -/
theorem readInterrupts_nil (address : offset < usizeBound) :
    ReadsWindow [] offset buffer (readInterrupts [] offset buffer) ↔ offset = 0 := by
  constructor
  · intro reads
    by_contra behind
    rw [ReadsWindow, readInterrupts, copySlice, if_neg (by simp only [length_nil]; omega)] at reads
    cases reads
  · rintro rfl
    exact copySlice_window rfl le_rfl

theorem bytes_short (node : ProcNode) : node.bytes.length < 2 ^ 12 := by
  cases node <;> decide +kernel

/-- A slice has at most `isize::MAX` bytes. -/
theorem readat_window_iff (node : ProcNode) (address : offset < usizeBound) (slice : buffer.length < 2 ^ 63) :
    ReadsWindow node.bytes offset buffer (node.readat offset buffer) ↔ node ≠ .interrupts ∨ offset = 0 := by
  have short := bytes_short node
  have word : usizeBound = 2 ^ 64 := rfl
  cases node with
  | interrupts => exact (readInterrupts_nil address).trans (by simp)
  | meminfo => exact iff_of_true (readMeminfo_window (by omega)) (.inl nofun)
  | cpuinfo | stat | version => exact iff_of_true (readContent_window (by omega)) (.inl nofun)

/-- Each read but the last moves on by at least one byte. -/
theorem readUntilEmpty_drop (node : ProcNode) {buffers : List (List UInt8)}
    (slices : ∀ buffer ∈ buffers, buffer ≠ [] ∧ buffer.length < 2 ^ 63) (inside : offset ≤ node.bytes.length)
    (enough : node.bytes.length - offset < buffers.length) :
    node.readUntilEmpty offset buffers = some (node.bytes.drop offset) := by
  have short := bytes_short node
  have word : usizeBound = 2 ^ 64 := rfl
  induction buffers generalizing offset with
  | nil => exact absurd enough (Nat.not_lt_zero _)
  | cons buffer buffers ih =>
    obtain ⟨⟨nonempty, slice⟩, slices⟩ := forall_mem_cons.mp slices
    have room := length_pos_iff.mpr nonempty
    have reads : ReadsWindow node.bytes offset buffer (node.readat offset buffer) := by
      refine (readat_window_iff node (by omega) slice).mpr ?_
      rw [or_iff_not_imp_left, not_not]
      rintro rfl
      exact Nat.le_zero.mp inside
    have length : ((node.bytes.drop offset).take buffer.length).length =
        min buffer.length (node.bytes.length - offset) := by
      rw [length_take, length_drop]
    rw [ProcNode.readUntilEmpty, reads, Option.bind_some]
    dsimp only
    split
    · rw [drop_of_length_le (by omega)]
    · rw [ih slices (by omega) (by simp only [length_cons] at enough; omega), Option.map_some, take_left,
        ← drop_drop, length, take_eq_take_min, length_drop, take_append_drop]

theorem texts_read_like_files_iff (node : ProcNode) :
    (∀ offset buffer, offset < usizeBound → buffer.length < 2 ^ 63 →
      (ReadsWindow node.bytes offset buffer (node.readat offset buffer) ↔ node ≠ .interrupts ∨ offset = 0)) ∧
    ∀ buffers, node.bytes.length < buffers.length → (∀ buffer ∈ buffers, buffer ≠ [] ∧ buffer.length < 2 ^ 63) →
      node.readUntilEmpty 0 buffers = some node.bytes :=
  ⟨fun _ _ address slice => readat_window_iff node address slice,
    fun _ enough slices => readUntilEmpty_drop node slices (Nat.zero_le _) enough⟩

/-- Reading interrupts once more from behind its end stops the kernel. -/
theorem interrupts_read_panics :
    ProcNode.interrupts.readat 1 [0] = none ∧
      ¬ ReadsWindow ProcNode.interrupts.bytes 1 [0] (ProcNode.interrupts.readat 1 [0]) := by
  have panics : ProcNode.interrupts.readat 1 [0] = none := by decide
  exact ⟨panics, by rw [panics]; exact nofun⟩

end MonkeyOS.Fs.Procfs
