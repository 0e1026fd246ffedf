import MonkeyOS.Machine.Usize

/-!
# Signal sets

`crates/signal/src/lib.rs` and `kernel/src/tasks/signal.rs`. Every bit of a
`SignalFlags` word has a name, so `from_bits_truncate` keeps all of them. The flags
of a `SigAction` are never looked at and are left out.
-/

set_option autoImplicit false

namespace MonkeyOS.Tasks

open BitVec

structure SignalFlags where
  bits : BitVec 64
  deriving DecidableEq, Repr

namespace SignalFlags

def bit (index : Nat) : SignalFlags := ⟨1#64 <<< index⟩

def SIGHUP : SignalFlags := bit 0
def SIGINT : SignalFlags := bit 1
def SIGQUIT : SignalFlags := bit 2
def SIGILL : SignalFlags := bit 3
def SIGTRAP : SignalFlags := bit 4
def SIGABRT : SignalFlags := bit 5
def SIGBUS : SignalFlags := bit 6
def SIGFPE : SignalFlags := bit 7
def SIGKILL : SignalFlags := bit 8
def SIGUSR1 : SignalFlags := bit 9
def SIGSEGV : SignalFlags := bit 10
def SIGUSR2 : SignalFlags := bit 11
def SIGPIPE : SignalFlags := bit 12
def SIGALRM : SignalFlags := bit 13
def SIGTERM : SignalFlags := bit 14
def SIGCHLD : SignalFlags := bit 16
def SIGXCPU : SignalFlags := bit 23
def SIGXFSZ : SignalFlags := bit 24
def SIGVTALRM : SignalFlags := bit 25
def SIGPROF : SignalFlags := bit 26
def SIGTIMER : SignalFlags := bit 31
def SIGCANCEL : SignalFlags := bit 32

/-- `1 << (num - 1)`; the subtraction wraps and the shift takes its amount modulo 64. -/
def fromNum (num : Nat) : SignalFlags := bit (wrapSub num 1 % 64)

def num (signal : SignalFlags) : Nat :=
  match (List.range 64).find? signal.bits.getLsbD with
  | some index => index + 1
  | none => 0

def isRealTime (signal : SignalFlags) : Bool := signal.bits &&& 0xFFFFFFFE00000000#64 != 0

def realTimeIndex (signal : SignalFlags) : Option Nat :=
  if signal.isRealTime then some (wrapSub signal.num 32) else none

theorem num_lt (signal : SignalFlags) : signal.num < 65 := by
  unfold num
  split
  next _ found => exact Nat.succ_lt_succ (List.mem_range.mp (List.mem_of_find?_eq_some found))
  · decide

variable {index other : Nat}

theorem getLsbD_bit (low : index < 64) : (bit index).bits.getLsbD other = decide (index = other) := by
  simp only [bit, ← twoPow_eq, getLsbD_twoPow, low, decide_true, Bool.true_and]

theorem bit_inj (low : index < 64) : bit index = bit other ↔ index = other := by
  refine ⟨fun same => ?_, fun same => same ▸ rfl⟩
  have bits := congrArg (fun signal => signal.bits.getLsbD index) same
  simp only [bit, ← twoPow_eq, getLsbD_twoPow, low, decide_true, Bool.true_and] at bits
  exact (of_decide_eq_true (Bool.and_eq_true_iff.mp bits.symm).2).symm

theorem fromNum_eq {num : Nat} (range : 1 ≤ num ∧ num ≤ 64) : fromNum num = bit (num - 1) := by
  have wraps : wrapSub num 1 % 64 = num - 1 := by
    simp only [wrapSub, usizeBound]
    omega
  rw [fromNum, wraps]

theorem fromNum_eq_bit (num : Nat) : ∃ index < 64, fromNum num = bit index :=
  ⟨_, Nat.mod_lt _ (by decide), rfl⟩

theorem num_bit (low : index < 64) : (bit index).num = index + 1 := by
  have all : ∀ index : Fin 64, (bit index).num = index.val + 1 := by decide
  exact all ⟨index, low⟩

theorem isRealTime_bit (low : index < 64) : (bit index).isRealTime = decide (33 ≤ index) := by
  have all : ∀ index : Fin 64, (bit index).isRealTime = decide (33 ≤ index.val) := by decide
  exact all ⟨index, low⟩

theorem realTimeIndex_bit (low : index < 64) :
    (bit index).realTimeIndex = if 33 ≤ index then some (index - 31) else none := by
  rw [realTimeIndex, isRealTime_bit low, num_bit low]
  by_cases high : 33 ≤ index
  · have slot : wrapSub (index + 1) 32 = index - 31 := by
      simp only [wrapSub, usizeBound]
      omega
    rw [if_pos (decide_eq_true high), if_pos high, slot]
  · rw [if_neg (by simpa using high), if_neg high]

end SignalFlags

inductive SigMaskHow where
  | Block | Unblock | Setmask
  deriving DecidableEq, Repr

def SigMaskHow.fromUsize : Nat → Option SigMaskHow
  | 0 => some .Block
  | 1 => some .Unblock
  | 2 => some .Setmask
  | _ => none

structure SigProcMask where
  mask : BitVec 64
  deriving DecidableEq, Repr

namespace SigProcMask

def new : SigProcMask := ⟨0⟩

def handle (current : SigProcMask) (how : SigMaskHow) (mask : SigProcMask) : SigProcMask :=
  match how with
  | .Block => ⟨current.mask ||| mask.mask⟩
  | .Unblock => ⟨current.mask &&& ~~~mask.mask⟩
  | .Setmask => mask

def blocks (mask : SigProcMask) (signal : SignalFlags) : Bool := mask.mask &&& signal.bits != 0

end SigProcMask

structure SigAction where
  handler : Nat
  restorer : Nat
  mask : SigProcMask
  deriving DecidableEq, Repr

def SigAction.new : SigAction := { handler := 0, restorer := 0, mask := .new }

structure SignalList where
  signal : BitVec 64
  deriving DecidableEq, Repr

namespace SignalList

open SignalFlags

def new : SignalList := ⟨0⟩

def addSignal (list : SignalList) (signal : SignalFlags) : SignalList := ⟨list.signal ||| signal.bits⟩

def hasSig (list : SignalList) (signal : SignalFlags) : Bool := list.signal &&& signal.bits != 0

def tryGetSignal (list : SignalList) : Option SignalFlags :=
  ((List.range 64).find? fun index => list.hasSig (bit index)).map bit

def removeSignal (list : SignalList) (signal : SignalFlags) : SignalList :=
  ⟨list.signal &&& ~~~signal.bits⟩

def mask (list : SignalList) (mask : SigProcMask) : SignalList := ⟨~~~mask.mask &&& list.signal⟩

end SignalList

/-! ## Single signals -/

section Single

open SignalFlags

variable {index other : Nat}

private theorem and_bit_ne_zero (word : BitVec 64) (low : index < 64) :
    (word &&& (bit index).bits != 0) = word.getLsbD index := by
  have nonzero : ∀ index : Fin 64, (BitVec.twoPow 64 index != 0) = true := by decide
  rw [bit, ← twoPow_eq, and_twoPow]
  cases word.getLsbD index with
  | true => exact nonzero ⟨index, low⟩
  | false => rfl

theorem SigProcMask.blocks_bit (mask : SigProcMask) (low : index < 64) :
    mask.blocks (bit index) = mask.mask.getLsbD index := and_bit_ne_zero _ low

namespace SignalList

theorem hasSig_bit (list : SignalList) (low : index < 64) :
    list.hasSig (bit index) = list.signal.getLsbD index := and_bit_ne_zero _ low

theorem hasSig_addSignal (list : SignalList) (signal : SignalFlags) (low : index < 64) :
    (list.addSignal signal).hasSig (bit index) = (list.hasSig (bit index) || signal.bits.getLsbD index) := by
  rw [hasSig_bit _ low, hasSig_bit _ low, addSignal, getLsbD_or]

variable {list : SignalList}

theorem addSignal_pending (low : index < 64) (pending : list.hasSig (bit index)) :
    list.addSignal (bit index) = list := by
  have set : list.signal.getLsbD index = true := (list.hasSig_bit low).symm.trans pending
  have bits : list.signal ||| (bit index).bits = list.signal := by
    refine eq_of_getLsbD_eq fun other _ => ?_
    rw [getLsbD_or, getLsbD_bit low]
    by_cases same : index = other
    · rw [← same, set, Bool.true_or]
    · simp [same]
  exact congrArg SignalList.mk bits

theorem hasSig_removeSignal (list : SignalList) (low : index < 64) (otherLow : other < 64) :
    (list.removeSignal (bit other)).hasSig (bit index) = (list.hasSig (bit index) && !decide (other = index)) := by
  rw [hasSig_bit _ low, hasSig_bit _ low, removeSignal, getLsbD_and, getLsbD_not,
    getLsbD_bit otherLow, decide_eq_true low, Bool.true_and]

theorem hasSig_mask (list : SignalList) (mask : SigProcMask) (low : index < 64) :
    (list.mask mask).hasSig (bit index) = (list.hasSig (bit index) && !mask.blocks (bit index)) := by
  rw [hasSig_bit _ low, hasSig_bit _ low, SigProcMask.blocks_bit _ low, SignalList.mask,
    getLsbD_and, getLsbD_not, decide_eq_true low, Bool.true_and, Bool.and_comm]

theorem tryGetSignal_eq_some {signal : SignalFlags} (taken : list.tryGetSignal = some signal) :
    ∃ index < 64, signal = bit index ∧ list.hasSig (bit index) ∧ ∀ lower < index, list.hasSig (bit lower) = false := by
  obtain ⟨index, found, rfl⟩ := Option.map_eq_some_iff.mp taken
  obtain ⟨holds, low, first⟩ := List.find?_range_eq_some.mp found
  exact ⟨index, List.mem_range.mp low, rfl, holds, fun lower below => by simpa using first lower below⟩

theorem tryGetSignal_eq_none (taken : list.tryGetSignal = none) (low : index < 64) :
    list.hasSig (bit index) = false := by
  have none := List.find?_eq_none.mp (Option.map_eq_none_iff.mp taken) index (List.mem_range.mpr low)
  simpa using none

end SignalList

end Single

end MonkeyOS.Tasks
