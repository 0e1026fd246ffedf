import MonkeyOS.Ramfs.FileProperties

/-! The length of a file against the pages that back it, when any frame
allocation may fail. -/

set_option autoImplicit false

namespace MonkeyOS.Ramfs

open Lib

namespace RamFile

def Stored (file : RamFile) : Prop := file.len ≤ file.pages.length * pageSize

theorem readat_total_iff {file : RamFile} :
    (∀ offset bufferLen, file.readat offset bufferLen ≠ none) ↔ file.Stored := by
  constructor
  · intro total
    refine Nat.le_of_not_lt fun short => total (file.pages.length * pageSize) 1 ?_
    have one : min 1 (file.len - file.pages.length * pageSize) = 1 := by omega
    simp [readat, not_le.mpr short, one, readLoop, pageSize_pos, show min pageSize 1 = 1 from rfl]
  · intro stored _ _
    simp only [readat]
    split
    · simp
    · rw [readLoop_eq (by unfold Stored at stored; omega) (Nat.lt_succ_self _)]
      simp

section Steps

variable {σ : Type} (alloc : σ → Option Page × σ)

/-- The frames at hand suffice for the operation: a truncation gets every frame
it asks for, and a write that gets any gets enough to reach its offset. -/
def Supports (file : RamFile) (state : σ) : FileOp → Prop
  | .writeat offset buffer =>
    (0 < file.writeNeeds offset buffer ∧
        granted alloc (file.writeNeeds offset buffer) state = 0) ∨
      offset ≤ file.writePages alloc state offset buffer * pageSize
  | .truncate size =>
    granted alloc (divCeil size pageSize - file.pages.length) state = divCeil size pageSize - file.pages.length
  | .readat _ _ => True

variable {alloc} {file : RamFile} {state : σ}

private theorem writeat_stored_iff (stored : file.Stored) (offset : Nat) (buffer : List UInt8) :
    (file.writeat alloc state offset buffer).2.1.Stored ↔ file.Supports alloc state (.writeat offset buffer) := by
  simp only [Supports]
  by_cases refused : 0 < file.writeNeeds offset buffer ∧ granted alloc (file.writeNeeds offset buffer) state = 0
  · rw [(writeat_refused alloc refused.1 refused.2).2]
    simp [stored, refused]
  · obtain ⟨_, len, count, _⟩ := @writeat_accepted σ alloc file state offset buffer (by omega)
    have grown : file.pages.length * pageSize ≤ file.writePages alloc state offset buffer * pageSize :=
      Nat.mul_le_mul_right pageSize (Nat.le_add_right ..)
    simp only [Stored, len, count, writeSize, refused, false_or] at stored ⊢
    omega

private theorem truncate_stored_iff (size : Nat) :
    (file.truncate alloc state size).2.1.Stored ↔ file.Supports alloc state (.truncate size) := by
  have few := granted_le alloc (divCeil size pageSize - file.pages.length) state
  have reach := @divCeil_le_iff size pageSize
    (file.pages.length + granted alloc (divCeil size pageSize - file.pages.length) state) pageSize_pos
  simp only [Stored, Supports, truncate_length]
  change size ≤ _ ↔ _
  omega

theorem apply_stored_iff (stored : file.Stored) (op : FileOp) :
    (file.apply alloc state op).2.1.Stored ↔ file.Supports alloc state op := by
  cases op with
  | writeat offset buffer => exact writeat_stored_iff stored offset buffer
  | truncate size => exact truncate_stored_iff size
  | readat offset _ => simp [apply, Supports, stored]

end Steps

section Runs

variable {σ : Type} (alloc : σ → Option Page × σ)

def trace (file : RamFile) (state : σ) : List FileOp → List RamFile
  | [] => [file]
  | op :: ops =>
    file :: trace (file.apply alloc state op).2.1 (file.apply alloc state op).2.2 ops

def SupportsAll (file : RamFile) (state : σ) : List FileOp → Prop
  | [] => True
  | op :: ops =>
    file.Supports alloc state op ∧ SupportsAll (file.apply alloc state op).2.1 (file.apply alloc state op).2.2 ops

variable {alloc}

theorem mem_trace_self (file : RamFile) (state : σ) (ops : List FileOp) : file ∈ file.trace alloc state ops := by
  cases ops <;> simp [trace]

private theorem trace_stored_iff {file : RamFile} (stored : file.Stored) (state : σ) (ops : List FileOp) :
    (∀ reached ∈ file.trace alloc state ops, reached.Stored) ↔ file.SupportsAll alloc state ops := by
  induction ops generalizing file state with
  | nil => simp [trace, SupportsAll, stored]
  | cons op ops ih =>
    simp only [trace, SupportsAll, List.mem_cons, forall_eq_or_imp, stored, true_and]
    constructor
    · intro later
      have next := later _ (mem_trace_self _ _ ops)
      exact ⟨(apply_stored_iff stored op).mp next, (ih next _).mp later⟩
    · intro ⟨supports, rest⟩
      exact (ih ((apply_stored_iff stored op).mpr supports) _).mpr rest

/-- From an empty file, the length stays backed and reads stay clear of missing
pages in every state reached, exactly when the frames suffice at every step. -/
theorem length_backed_iff (state : σ) (ops : List FileOp) :
    (∀ reached ∈ new.trace alloc state ops,
      reached.Stored ∧ ∀ offset bufferLen, reached.readat offset bufferLen ≠ none) ↔
      new.SupportsAll alloc state ops := by
  have empty : new.Stored := Nat.zero_le _
  rw [← trace_stored_iff empty]
  simp only [readat_total_iff, and_self]

/-- A truncation whose one frame is refused leaves a length of one byte without
a page, and the next read panics. -/
theorem length_unbacked_after_refusal :
    ∃ reached ∈ new.trace (fun state : Unit => (none, state)) () [.truncate 1],
      ¬ reached.Stored ∧ reached.readat 0 1 = none :=
  ⟨{ len := 1, pages := [] }, .tail _ (.head _), Nat.not_succ_le_zero 0, rfl⟩

end Runs

end RamFile

end MonkeyOS.Ramfs
