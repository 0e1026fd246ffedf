import MonkeyOS.Ramfs.FileProperties

/-!
# A file is a byte vector

What `RamFile` is for: the same operations on a plain list of bytes. While the
allocator supplies zeroed frames, no sequence of operations tells the two apart.
-/

set_option autoImplicit false

namespace MonkeyOS.Ramfs

open Lib List Option Nat

namespace ByteVector

/-- Bytes between the old end and the write become zero. -/
def writeat (contents : List UInt8) (offset : Nat) (buffer : List UInt8) : List UInt8 :=
  contents.take offset ++ List.replicate (offset - contents.length) 0 ++ buffer ++
    contents.drop (offset + buffer.length)

def truncate (contents : List UInt8) (size : Nat) : List UInt8 :=
  contents.take size ++ List.replicate (size - contents.length) 0

def readat (contents : List UInt8) (offset bufferLen : Nat) : Nat × List UInt8 :=
  let found := (contents.drop offset).take bufferLen
  (found.length, found)

def apply (contents : List UInt8) : FileOp → Outcome × List UInt8
  | .writeat offset buffer => (.wrote (.ok buffer.length), writeat contents offset buffer)
  | .truncate size => (.truncated (.ok ()), truncate contents size)
  | .readat offset bufferLen => (.read (some (readat contents offset bufferLen)), contents)

def outcomes (contents : List UInt8) : List FileOp → List Outcome
  | [] => []
  | op :: ops => (apply contents op).1 :: outcomes (apply contents op).2 ops

@[simp] theorem length_writeat (contents : List UInt8) (offset : Nat) (buffer : List UInt8) :
    (writeat contents offset buffer).length = max contents.length (offset + buffer.length) := by
  simp [writeat]
  omega

theorem getElem_writeat {contents buffer : List UInt8} {offset index : Nat}
    (bound : index < (writeat contents offset buffer).length) :
    (writeat contents offset buffer)[index] = overlay (fun place => (contents[place]?).getD 0) offset buffer index := by
  have lead : (contents.take offset ++ List.replicate (offset - contents.length) (0 : UInt8)).length =
      offset := by
    simp
    omega
  rw [length_writeat] at bound
  simp only [writeat]
  by_cases before : index < offset
  · rw [overlay_before before, getElem_append_left (by simp; omega), getElem_append_left (by omega)]
    by_cases held : index < contents.length
    · rw [getElem_append_left (by simp; omega), getElem_take, getElem?_eq_getElem held, getD_some]
    · rw [getElem_append_right (by simp; omega), getElem_replicate, getElem?_eq_none (by omega), getD_none]
  · obtain ⟨place, rfl⟩ := Nat.exists_eq_add_of_le (Nat.le_of_not_lt before)
    by_cases within : place < buffer.length
    · rw [overlay_inside within, getElem_append_left (by simp; omega), getElem_append_right (by omega)]
      simp [lead]
    · have held : offset + place < contents.length := by omega
      have shift : offset + buffer.length + (offset + place - (contents.take offset ++
          List.replicate (offset - contents.length) (0 : UInt8) ++ buffer).length) = offset + place := by
        rw [length_append, lead]
        omega
      rw [overlay_after (by omega), getElem_append_right (by simp; omega), getElem_drop,
        getElem?_eq_getElem held, getD_some]
      simp only [shift]

end ByteVector

def FileOp.Legal : FileOp → Prop
  | .writeat offset buffer => buffer ≠ [] ∧ offset + buffer.length < usizeBound
  | .truncate _ => True
  | .readat _ _ => True

namespace RamFile

def contents (file : RamFile) : List UInt8 := window (bytes file.pages) 0 file.len

/-- The length is backed by pages, and everything past it is zero. -/
structure Clean (file : RamFile) : Prop where
  backed : file.len ≤ file.pages.length * pageSize
  blank : ∀ index, file.len ≤ index → bytes file.pages index = 0

theorem new_clean : new.Clean where
  backed := zero_le _
  blank := fun _ _ => by simp [new, bytes, flat]

@[simp] theorem contents_length (file : RamFile) : file.contents.length = file.len :=
  length_window ..

variable {file : RamFile}

theorem contents_getElem {index : Nat} (bound : index < file.contents.length) :
    file.contents[index] = bytes file.pages index := by
  simp [contents, window]

theorem Clean.bytes_eq (clean : file.Clean) : bytes file.pages = fun index => (file.contents[index]?).getD 0 := by
  funext index
  by_cases held : index < file.contents.length
  · rw [getElem?_eq_getElem held, getD_some, contents_getElem]
  · rw [getElem?_eq_none (by omega), getD_none]
    exact clean.blank index (by simpa using held)

theorem contents_eq {expected : List UInt8} (size : file.len = expected.length)
    (cells : ∀ index, (bound : index < expected.length) → bytes file.pages index = expected[index]) :
    file.contents = expected := by
  refine ext_getElem (by simpa using size) fun index _ bound => ?_
  rw [contents_getElem]
  exact cells index bound

theorem readat_refines (backed : file.len ≤ file.pages.length * pageSize) (offset bufferLen : Nat) :
    file.readat offset bufferLen = some (ByteVector.readat file.contents offset bufferLen) := by
  simp only [readat, ByteVector.readat]
  by_cases past : file.len ≤ offset
  · rw [if_pos past, drop_eq_nil_of_le (by simpa using past)]
    simp
  · have inside : offset + min bufferLen (file.len - offset) ≤ file.len := by omega
    have slice : (file.contents.drop offset).take bufferLen =
        window (bytes file.pages) offset (min bufferLen (file.len - offset)) := by
      refine ext_getElem (by simp) fun _ _ _ => ?_
      simp [contents, window]
    rw [if_neg past, readLoop_eq (le_trans inside backed) (lt_succ_self _), slice]
    simp

section Supplied

variable {σ : Type} {alloc : σ → Option Page × σ}

section

variable (supplied : ∀ state, (alloc state).1 = some Page.zero)
include supplied

theorem writeSize_full {file : RamFile} {state : σ} {offset : Nat} {buffer : List UInt8}
    (fits : offset + buffer.length < usizeBound) :
    file.writeSize alloc state offset buffer = buffer.length ∧
      offset + buffer.length ≤ file.writePages alloc state offset buffer * pageSize := by
  have reach := le_divCeil_mul (offset + buffer.length) pageSize_pos
  have more : divCeil (offset + buffer.length) pageSize ≤ file.writePages alloc state offset buffer := by
    simp only [writePages, writeNeeds, granted_all supplied, wrapAdd_eq fits]
    omega
  have room := le_trans reach (mul_le_mul_right pageSize more)
  refine ⟨?_, room⟩
  simp only [writeSize]
  omega

variable {file : RamFile}

theorem writeat_refines (clean : file.Clean) (state : σ) {offset : Nat} {buffer : List UInt8}
    (fits : offset + buffer.length < usizeBound) :
    let wrote := file.writeat alloc state offset buffer
    wrote.1 = .ok buffer.length ∧ wrote.2.1.Clean ∧
      wrote.2.1.contents = ByteVector.writeat file.contents offset buffer := by
  obtain ⟨full, _⟩ := @writeSize_full σ alloc supplied file state offset buffer fits
  obtain ⟨result, len, count, held⟩ :=
    @writeat_accepted σ alloc file state offset buffer (by rw [granted_all supplied]; exact id)
  have same : bytes (growPages alloc (file.writeNeeds offset buffer) state file.pages).1 = bytes file.pages := by
    rw [growPages_zero supplied]
    exact flat_append_blank file.pages _
  rw [full] at result len held
  rw [take_length, same] at held
  have backed := le_trans clean.backed
    (mul_le_mul_right pageSize (le_add_right file.pages.length _) :
      _ ≤ file.writePages alloc state offset buffer * pageSize)
  refine ⟨result, ⟨?_, ?_⟩, contents_eq ?_ ?_⟩
  · rw [len, count]
    omega
  · intro index _
    rw [held, overlay_after (by omega)]
    exact clean.blank index (by omega)
  · rw [len, ByteVector.length_writeat, contents_length]
  · intro index _
    rw [held, ByteVector.getElem_writeat, clean.bytes_eq]

theorem truncate_refines (clean : file.Clean) (state : σ) (size : Nat) :
    let cut := file.truncate alloc state size
    cut.1 = .ok () ∧ cut.2.1.Clean ∧ cut.2.1.contents = ByteVector.truncate file.contents size := by
  have reach := le_divCeil_mul size pageSize_pos
  have count := @truncate_length σ alloc file state size
  rw [granted_all supplied] at count
  have more : divCeil size pageSize ≤ (file.truncate alloc state size).2.1.pages.length := by omega
  have held : ∀ index, bytes (file.truncate alloc state size).2.1.pages index =
      if index < size then bytes file.pages index else 0 := by
    intro index
    simp only [truncate, growPages_zero supplied]
    rw [← bytes_clearBeyond]
    exact congrFun (flat_append_blank _ _) index
  refine ⟨?_, ⟨?_, ?_⟩, contents_eq ?_ ?_⟩
  · exact if_neg (not_lt.mpr more)
  · exact le_trans reach (mul_le_mul_right pageSize more)
  · intro index past
    have beyond : size ≤ index := past
    rw [held, if_neg (by omega)]
  · simp only [truncate, ByteVector.truncate]
    simp
    omega
  · intro index bound
    have inside : index < size := by
      simp [ByteVector.truncate] at bound
      omega
    rw [held, if_pos inside]
    simp only [ByteVector.truncate]
    by_cases stored : index < file.len
    · rw [getElem_append_left (by simp; omega), getElem_take, contents_getElem]
    · rw [getElem_append_right (by simp; omega), getElem_replicate]
      exact clean.blank index (by omega)

private theorem outcomes_refine {ops : List FileOp} (legal : ∀ op ∈ ops, op.Legal) (clean : file.Clean) (state : σ) :
    file.outcomes alloc state ops = ByteVector.outcomes file.contents ops := by
  induction ops generalizing file state with
  | nil => rfl
  | cons op ops ih =>
    have later : ∀ op ∈ ops, op.Legal := fun op member => legal op (by simp [member])
    simp only [outcomes, ByteVector.outcomes]
    cases op with
    | writeat offset buffer =>
      obtain ⟨_, fits⟩ : (FileOp.writeat offset buffer).Legal := legal _ (by simp)
      obtain ⟨result, cleaned, stored⟩ := writeat_refines supplied clean state fits
      simp only [apply, ByteVector.apply, result, ih later cleaned, stored]
    | truncate size =>
      obtain ⟨result, cleaned, stored⟩ := truncate_refines supplied clean state size
      simp only [apply, ByteVector.apply, result, ih later cleaned, stored]
    | readat offset _ =>
      simp only [apply, ByteVector.apply, readat_refines clean.backed, ih later clean]

end

/-- With zeroed frames always at hand, a new file answers every sequence of
operations as the empty byte vector does. -/
theorem file_refines_byte_vector (supplied : ∀ state, (alloc state).1 = some Page.zero)
    {ops : List FileOp} (legal : ∀ op ∈ ops, op.Legal) (state : σ) :
    new.outcomes alloc state ops = ByteVector.outcomes [] ops :=
  outcomes_refine supplied legal new_clean state

/-- Extending a cut file does not bring the old bytes back. -/
theorem file_refines_byte_vector_regrown :
    new.outcomes (fun state : Unit => (some Page.zero, state)) ()
        [.writeat 0 [7, 8], .truncate 1, .truncate 3, .readat 0 9] =
      [.wrote (.ok 2), .truncated (.ok ()), .truncated (.ok ()), .read (some (3, [7, 0, 0]))] :=
  file_refines_byte_vector (fun _ => rfl) (by simp [FileOp.Legal, usizeBound]) ()

end Supplied

end RamFile

end MonkeyOS.Ramfs
