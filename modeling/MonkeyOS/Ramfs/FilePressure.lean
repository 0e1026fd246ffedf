import MonkeyOS.Ramfs.FileRefinement

/-! What a write does to the contents of a file, whichever frames the allocator refuses
and whatever the others hold. -/

set_option autoImplicit false

namespace MonkeyOS.Ramfs

open Lib ByteVector

namespace RamFile

variable {σ : Type} {alloc : σ → Option Page × σ} {file after : RamFile} {state : σ} {offset size : Nat}
  {buffer : List UInt8} {grown : List Page}

/-- An error and a write of no byte leave contents and length alone, any other write puts
the bytes it counts at its offset. -/
structure Precise (file : RamFile) (offset : Nat) (buffer : List UInt8) (result : Except Errno Nat)
    (after : RamFile) : Prop where
  failed : ∀ errno, result = .error errno → after.contents = file.contents ∧ after.len = file.len
  bounded : ∀ size, result = .ok size → size ≤ buffer.length
  nothing : result = .ok 0 → after.contents = file.contents ∧ after.len = file.len
  wrote : ∀ size, result = .ok size → 0 < size →
    after.contents = ByteVector.writeat file.contents offset (buffer.take size) ∧
      after.len = max file.len (offset + size)

theorem precise_error (errno : Errno) : Precise file offset buffer (.error errno) file :=
  ⟨fun _ _ => ⟨rfl, rfl⟩, fun _ wrong => (by cases wrong), fun wrong => (by cases wrong),
    fun _ wrong => (by cases wrong)⟩

theorem precise_zero_iff :
    Precise file offset buffer (.ok 0) after ↔ after.contents = file.contents ∧ after.len = file.len := by
  refine ⟨fun precise => precise.nothing rfl, fun same => ⟨fun _ wrong => (by cases wrong), fun size wrote => ?_,
    fun _ => same, fun size wrote positive => ?_⟩⟩
  · cases wrote
    exact Nat.zero_le _
  · cases wrote
    exact absurd positive (lt_irrefl 0)

theorem precise_ok_iff (positive : 0 < size) (fits : size ≤ buffer.length) :
    Precise file offset buffer (.ok size) after ↔
      after.contents = ByteVector.writeat file.contents offset (buffer.take size) ∧
        after.len = max file.len (offset + size) := by
  refine ⟨fun precise => precise.wrote size rfl positive, fun held => ⟨fun _ wrong => (by cases wrong),
    fun count wrote => ?_, fun wrong => ?_, fun count wrote _ => ?_⟩⟩
  · cases wrote
    exact fits
  · injection wrong with wrong
    omega
  · cases wrote
    exact held

/-- Where the write does not reach, the grown file shows the old contents and zeros behind them. -/
def Unspoilt (file : RamFile) (grown : List Page) (offset size : Nat) : Prop :=
  ∀ index, index < file.len ∨ 0 < size ∧ index < offset → ¬ (offset ≤ index ∧ index < offset + size) →
    bytes grown index = (file.contents[index]?).getD 0

theorem contents_eq_iff {expected : List UInt8} :
    file.contents = expected ↔ file.len = expected.length ∧
      ∀ index, (bound : index < expected.length) → bytes file.pages index = expected[index] := by
  constructor
  · rintro rfl
    exact ⟨(contents_length file).symm, fun _ bound => (contents_getElem bound).symm⟩
  · rintro ⟨size, cells⟩
    exact contents_eq size cells

theorem contents_writeat_iff (positive : 0 < size) (fits : size ≤ buffer.length)
    (len : after.len = max file.len (offset + size))
    (held : bytes after.pages = overlay (bytes grown) offset (buffer.take size)) :
    after.contents = ByteVector.writeat file.contents offset (buffer.take size) ↔ file.Unspoilt grown offset size := by
  have taken : (buffer.take size).length = size := List.length_take_of_le fits
  rw [contents_eq_iff, held]
  constructor
  · rintro ⟨-, cells⟩ index place _
    have cell := cells index (by rw [length_writeat, contents_length, taken]; omega)
    rw [getElem_writeat] at cell
    by_cases before : index < offset
    · rwa [overlay_before before, overlay_before before] at cell
    · rwa [overlay_after (by omega), overlay_after (by omega)] at cell
  · refine fun unspoilt => ⟨by rw [len, length_writeat, contents_length, taken], fun index bound => ?_⟩
    rw [getElem_writeat]
    rw [length_writeat, contents_length, taken] at bound
    by_cases inside : offset ≤ index ∧ index < offset + size
    · obtain ⟨place, rfl⟩ := Nat.exists_eq_add_of_le inside.1
      have written : place < (buffer.take size).length := by omega
      rw [overlay_inside written, overlay_inside written]
    · have cell := unspoilt index (by omega) inside
      simp only [overlay, cell]

theorem contents_unwritten_iff (len : after.len = file.len) (held : bytes after.pages = bytes grown) :
    after.contents = file.contents ↔ file.Unspoilt grown offset 0 := by
  rw [contents_eq_iff, held]
  constructor
  · rintro ⟨-, cells⟩ index _ -
    have stored : index < file.contents.length := by
      rw [contents_length]
      omega
    rw [cells index stored, List.getElem?_eq_getElem stored, Option.getD_some]
  · refine fun unspoilt => ⟨by rw [len, contents_length], fun index bound => ?_⟩
    rw [unspoilt index (.inl (by simpa using bound)) (by omega), List.getElem?_eq_getElem bound, Option.getD_some]

/-- A write is precise if and only if it is refused, or it stores a byte or begins within
the file, and the frames it takes and the file hold nothing but zeros behind the contents. -/
theorem writeat_precise_iff :
    Precise file offset buffer (file.writeat alloc state offset buffer).1
        (file.writeat alloc state offset buffer).2.1 ↔
      (0 < file.writeNeeds offset buffer ∧ granted alloc (file.writeNeeds offset buffer) state = 0) ∨
        (0 < file.writeSize alloc state offset buffer ∨ offset ≤ file.len) ∧
          file.Unspoilt (growPages alloc (file.writeNeeds offset buffer) state file.pages).1 offset
            (file.writeSize alloc state offset buffer) := by
  by_cases refused : 0 < file.writeNeeds offset buffer ∧ granted alloc (file.writeNeeds offset buffer) state = 0
  · obtain ⟨result, same⟩ := writeat_refused alloc refused.1 refused.2
    refine iff_of_true ?_ (.inl refused)
    rw [result, same]
    exact precise_error _
  · obtain ⟨result, len, -, held⟩ := @writeat_accepted σ alloc file state offset buffer (by omega)
    have fits : file.writeSize alloc state offset buffer ≤ buffer.length := Nat.min_le_left ..
    generalize file.writeat alloc state offset buffer = wrote at *
    generalize file.writeSize alloc state offset buffer = size at *
    rw [or_iff_right refused, result]
    obtain none | positive := Nat.eq_zero_or_pos size
    · rw [none, List.take_zero, overlay_nil] at held
      rw [none, precise_zero_iff, or_iff_right (Nat.lt_irrefl 0)]
      constructor
      · rintro ⟨contents, kept⟩
        exact ⟨by omega, (contents_unwritten_iff kept held).mp contents⟩
      · rintro ⟨within, unspoilt⟩
        have kept : wrote.2.1.len = file.len := by omega
        exact ⟨(contents_unwritten_iff kept held).mpr unspoilt, kept⟩
    · rw [precise_ok_iff positive fits, and_iff_left len, and_iff_right (.inl positive),
        contents_writeat_iff positive fits len held]

def blankFrames (free : Nat) : Option Page × Nat := if 0 < free then (some .zero, free - 1) else (none, 0)

/-- One free frame and no second: a write into the third page of an empty file stores
nothing, answers so, and leaves a file of two pages of zeros. -/
theorem writeat_extends_without_bytes :
    (new.writeat blankFrames 1 (2 * pageSize) [7]).1 = .ok 0 ∧ new.len = 0 ∧
      (new.writeat blankFrames 1 (2 * pageSize) [7]).2.1.len = 2 * pageSize ∧
      ¬ Precise new (2 * pageSize) [7] (new.writeat blankFrames 1 (2 * pageSize) [7]).1
        (new.writeat blankFrames 1 (2 * pageSize) [7]).2.1 := by
  have needs : new.writeNeeds (2 * pageSize) [7] = 3 := by decide
  have grants : granted blankFrames (new.writeNeeds (2 * pageSize) [7]) 1 = 1 := by rw [needs]; rfl
  have size : new.writeSize blankFrames 1 (2 * pageSize) [7] = 0 := by rw [writeSize, writePages, grants]; decide
  obtain ⟨result, len, -⟩ := @writeat_accepted _ blankFrames new 1 (2 * pageSize) [7] (by omega)
  rw [size] at result len
  refine ⟨result, rfl, len, fun precise => ?_⟩
  have kept := (precise.nothing result).2
  exact absurd kept (by decide)

end RamFile

end MonkeyOS.Ramfs
