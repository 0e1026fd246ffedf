import MonkeyOS.Ramfs.File

/-! Laws of the page loops of `RamFile`, and its refinement of a byte vector. -/

set_option autoImplicit false

namespace MonkeyOS.Ramfs

open List hiding count
open Lib Nat

namespace RamFile

/-! ## Growing -/

section Growing

variable {σ : Type} (alloc : σ → Option Page × σ)

def granted : (count : Nat) → σ → Nat
  | 0, _ => 0
  | count + 1, state =>
    match alloc state with
    | (some _, state) => granted count state + 1
    | (none, _) => 0

theorem length_growPages (count : Nat) (state : σ) (pages : List Page) :
    (growPages alloc count state pages).1.length = pages.length + granted alloc count state := by
  induction count generalizing state pages with
  | zero => rfl
  | succ count ih =>
    simp only [growPages, granted]
    rcases alloc state with ⟨_ | _, _⟩
    · rfl
    · simp only [ih, length_append, length_singleton]
      omega

theorem granted_le (count : Nat) (state : σ) : granted alloc count state ≤ count := by
  induction count generalizing state with
  | zero => exact le_refl 0
  | succ count ih =>
    simp only [granted]
    split
    · exact succ_le_succ (ih _)
    · exact zero_le _

variable {alloc}

theorem granted_all (supplied : ∀ state, (alloc state).1 = some Page.zero) (count : Nat)
    (state : σ) : granted alloc count state = count := by
  induction count generalizing state with
  | zero => rfl
  | succ count ih =>
    have answer := supplied state
    simp only [granted]
    split
    · rw [ih]
    · next refused => simp [refused] at answer

theorem growPages_zero (supplied : ∀ state, (alloc state).1 = some Page.zero) (count : Nat)
    (state : σ) (pages : List Page) :
    (growPages alloc count state pages).1 = pages ++ List.replicate count Page.zero := by
  induction count generalizing state pages with
  | zero => simp [growPages]
  | succ count ih =>
    have answer := supplied state
    simp only [growPages]
    split
    · next _ next allocated =>
      simp only [allocated, Option.some.injEq] at answer
      simp [ih, answer, replicate_succ]
    · next refused => simp [refused] at answer

end Growing

/-! ## The copy loops -/

abbrev bytes (pages : List Page) : Nat → UInt8 := flat pageSize 0 pages

variable {pages : List Page}

private theorem page_present {offset count : Nat} (some : 0 < count)
    (stored : offset + count ≤ pages.length * pageSize) : offset / pageSize < pages.length :=
  (div_lt_iff_lt_mul pageSize_pos).mpr (by omega)

private theorem chunk_bounds (offset lastLen : Nat) :
    let currSize := min (pageSize - offset % pageSize) lastLen
    offset % pageSize + currSize ≤ pageSize ∧ currSize ≤ lastLen ∧ (currSize = 0 → lastLen = 0) := by
  have low := mod_lt offset pageSize_pos
  omega

theorem readLoop_eq {fuel offset lastLen : Nat}
    (stored : offset + lastLen ≤ pages.length * pageSize) (enough : lastLen < fuel) :
    readLoop pages fuel offset lastLen = some (window (bytes pages) offset lastLen) := by
  induction fuel generalizing offset lastLen with
  | zero => omega
  | succ fuel ih =>
    obtain ⟨inPage, _, exhausted⟩ := chunk_bounds offset lastLen
    simp only [readLoop]
    generalize min (pageSize - offset % pageSize) lastLen = currSize at *
    by_cases done : currSize = 0
    · simp [done, exhausted done, window]
    · obtain ⟨page, found⟩ : ∃ page, pages[offset / pageSize]? = some page :=
        ⟨_, getElem?_eq_getElem (page_present (by omega) stored)⟩
      have rest := @ih (offset + currSize) (lastLen - currSize) (by omega) (by omega)
      have joined : currSize + (lastLen - currSize) = lastLen := by omega
      rw [if_neg done, found]
      simp only [rest, Option.map_some, @window_page _ _ (0 : UInt8) _ _ _ _ found inPage, window_append, joined]

theorem writeLoop_eq {pages : List Page} {fuel offset wsize : Nat} {buffer : List UInt8}
    (stored : wsize = 0 ∨ offset + wsize ≤ pages.length * pageSize) (enough : wsize < fuel)
    (given : wsize ≤ buffer.length) :
    let written := writeLoop fuel pages offset buffer wsize
    bytes written.1 = overlay (bytes pages) offset (buffer.take wsize) ∧
      written.1.length = pages.length ∧ written.2 = offset + wsize := by
  induction fuel generalizing pages offset wsize buffer with
  | zero => omega
  | succ fuel ih =>
    obtain ⟨_, _, exhausted⟩ := chunk_bounds offset wsize
    simp only [writeLoop]
    generalize min (pageSize - offset % pageSize) wsize = currSize at *
    by_cases done : currSize = 0
    · simp [done, exhausted done]
    · have present := page_present (by omega) (stored.resolve_left (by omega))
      have taken : (buffer.take currSize).length = currSize := by simp; omega
      rw [if_neg done, if_neg (by omega)]
      obtain ⟨held, kept, stopped⟩ := @ih
        (pages.modify (offset / pageSize) fun page =>
          overlay page (offset % pageSize) (buffer.take currSize))
        (offset + currSize) (wsize - currSize) (buffer.drop currSize)
        (.inr (by simp; omega)) (by omega) (by simp; omega)
      refine ⟨?_, by simpa using kept, by rw [stopped]; omega⟩
      have chunk := @flat_modify_overlay _ pageSize (0 : UInt8) pages offset (buffer.take currSize)
        present (by omega) pageSize_pos
      have split : buffer.take wsize = buffer.take currSize ++ (buffer.drop currSize).take (wsize - currSize) := by
        rw [← take_add]
        congr 1
        omega
      have joined := overlay_overlay (bytes pages) offset (buffer.take currSize)
        ((buffer.drop currSize).take (wsize - currSize))
      rw [taken] at joined
      rw [held, bytes, chunk, joined, split]

/-! ## Clearing -/

@[simp] theorem length_clearBeyond (pages : List Page) (size : Nat) :
    (clearBeyond pages size).length = pages.length := by
  simp only [clearBeyond]
  split <;> simp <;> omega

private theorem bytes_cleared (pages : List Page) (target index : Nat) :
    bytes (pages.take target ++ (pages.drop target).map fun _ => Page.zero) index =
      if index < target * pageSize then bytes pages index else 0 := by
  have order : index < target * pageSize ↔ index / pageSize < target :=
    (div_lt_iff_lt_mul pageSize_pos).symm
  simp only [bytes, flat, order]
  by_cases kept : index / pageSize < target
  · by_cases present : index / pageSize < pages.length
    · rw [getElem?_append_left (by simp; omega), getElem?_take_of_lt kept, if_pos kept]
    · rw [getElem?_eq_none (by simp; omega), getElem?_eq_none (by omega), if_pos kept]
  · rw [if_neg kept]
    by_cases present : index / pageSize < pages.length
    · rw [getElem?_append_right (by simp; omega), getElem?_map]
      cases (pages.drop target)[index / pageSize - (pages.take target).length]? <;> rfl
    · rw [getElem?_eq_none (by simp; omega)]
      rfl

private theorem overlay_zeros {cells : Nat → UInt8} {start count index : Nat} :
    overlay cells start (List.replicate count 0) index =
      if start ≤ index ∧ index < start + count then 0 else cells index := by
  by_cases before : index < start
  · rw [overlay_before before, if_neg (by omega)]
  · by_cases within : index < start + count
    · have present : index - start < (List.replicate count (0 : UInt8)).length := by simp; omega
      have place : start + (index - start) = index := by omega
      have cell := @overlay_inside _ cells start _ _ present
      rw [place] at cell
      rw [cell, if_pos (by omega), getElem_replicate]
    · rw [overlay_after (by simp; omega), if_neg (by omega)]

theorem bytes_clearBeyond (pages : List Page) (size index : Nat) :
    bytes (clearBeyond pages size) index = if index < size then bytes pages index else 0 := by
  have split := div_add_mod size pageSize
  have low := mod_lt size pageSize_pos
  have swapped := mul_comm (size / pageSize) pageSize
  have cleared := bytes_cleared pages (divCeil size pageSize)
  simp only [clearBeyond]
  by_cases whole : size % pageSize = 0
  · have target : divCeil size pageSize * pageSize = size := by
      simp only [divCeil, whole, if_true, add_zero]
      omega
    rw [if_neg (by simpa using whole), cleared, target]
  · have target : divCeil size pageSize * pageSize = size + (pageSize - size % pageSize) := by
      simp only [divCeil, whole, if_false, add_mul, Nat.one_mul]
      omega
    rw [if_pos whole]
    generalize shape : pages.take (divCeil size pageSize) ++
      (pages.drop (divCeil size pageSize)).map (fun _ => Page.zero) = kept at *
    by_cases present : size / pageSize < kept.length
    · have tail := @flat_modify_overlay _ pageSize (0 : UInt8) kept size
        (List.replicate (pageSize - size % pageSize) 0) present (by simp; omega) pageSize_pos
      rw [bytes, tail, overlay_zeros]
      have cell := cleared index
      simp only [bytes] at cell
      rw [cell]
      split <;> split <;> (try split) <;> first | rfl | omega
    · -- The new end lies past the last page; there is no tail to clear.
      rw [modify_eq_self (by omega), cleared, target]
      have lengths : kept.length = pages.length := by
        rw [← shape]
        simp
        omega
      have beyond : size ≤ index → bytes pages index = 0 := fun past =>
        flat_beyond pageSize_pos (by
          have scaled := Nat.mul_le_mul_right pageSize (Nat.le_of_not_lt present)
          rw [lengths] at scaled
          omega)
      split <;> split <;> first | rfl | omega | exact beyond (by omega)

/-! ## The operations -/

section Operations

variable {σ : Type} (alloc : σ → Option Page × σ)

def writeNeeds (file : RamFile) (offset : Nat) (buffer : List UInt8) : Nat :=
  divCeil (wrapAdd offset buffer.length) pageSize - file.pages.length

def writePages (file : RamFile) (state : σ) (offset : Nat) (buffer : List UInt8) : Nat :=
  file.pages.length + granted alloc (file.writeNeeds offset buffer) state

def writeSize (file : RamFile) (state : σ) (offset : Nat) (buffer : List UInt8) : Nat :=
  min buffer.length (file.writePages alloc state offset buffer * pageSize - offset)

variable {file : RamFile} {state : σ} {offset : Nat} {buffer : List UInt8}

theorem writeat_refused (wanted : 0 < file.writeNeeds offset buffer)
    (refused : granted alloc (file.writeNeeds offset buffer) state = 0) :
    (file.writeat alloc state offset buffer).1 = .error .ENOMEM ∧
      (file.writeat alloc state offset buffer).2.1 = file := by
  have count := length_growPages alloc (file.writeNeeds offset buffer) state file.pages
  rw [refused] at count
  simp only [writeNeeds] at wanted count
  simp only [writeat]
  rw [if_pos ⟨wanted, by omega⟩]
  exact ⟨rfl, rfl⟩

theorem writeat_accepted
    (accepted : 0 < file.writeNeeds offset buffer → 0 < granted alloc (file.writeNeeds offset buffer) state) :
    let wrote := file.writeat alloc state offset buffer
    let grown := (growPages alloc (file.writeNeeds offset buffer) state file.pages).1
    let size := file.writeSize alloc state offset buffer
    wrote.1 = .ok size ∧ wrote.2.1.len = max file.len (offset + size) ∧
      wrote.2.1.pages.length = file.writePages alloc state offset buffer ∧
      bytes wrote.2.1.pages = overlay (bytes grown) offset (buffer.take size) := by
  have count := length_growPages alloc (file.writeNeeds offset buffer) state file.pages
  simp only [writeat, writeSize, writePages]
  simp only [writeNeeds] at accepted count ⊢
  generalize growPages alloc _ state file.pages = growth at *
  obtain ⟨inner, _⟩ := growth
  rw [if_neg (by omega), ← count]
  have room : (if offset < inner.length * pageSize then inner.length * pageSize - offset else 0) =
      inner.length * pageSize - offset := by
    split <;> omega
  rw [room]
  obtain ⟨held, kept, stopped⟩ :=
    @writeLoop_eq inner (min buffer.length (inner.length * pageSize - offset) + 1) offset
      (min buffer.length (inner.length * pageSize - offset)) buffer (by omega) (by omega) (by omega)
  refine ⟨rfl, ?_, kept, held⟩
  simp only [stopped]
  split <;> omega

theorem writeat_inside (backed : file.len ≤ file.pages.length * pageSize)
    (inside : offset + buffer.length ≤ file.len) (word : offset + buffer.length < usizeBound) :
    let wrote := file.writeat alloc state offset buffer
    wrote.1 = .ok buffer.length ∧ wrote.2.1.len = file.len ∧
      wrote.2.1.pages.length = file.pages.length ∧
      bytes wrote.2.1.pages = overlay (bytes file.pages) offset buffer := by
  have pages : divCeil (offset + buffer.length) pageSize ≤ file.pages.length :=
    (divCeil_le_iff pageSize_pos).mpr (le_trans inside backed)
  have needs : file.writeNeeds offset buffer = 0 := by
    rw [writeNeeds, wrapAdd_eq word]
    omega
  obtain ⟨result, len, count, held⟩ := @writeat_accepted σ alloc file state offset buffer (by omega)
  have total : file.writePages alloc state offset buffer = file.pages.length := by
    simp [writePages, needs, granted]
  have size : file.writeSize alloc state offset buffer = buffer.length := by
    rw [writeSize, total]
    omega
  rw [size] at result len held
  rw [needs, take_length] at held
  exact ⟨result, by rw [len]; omega, count.trans total, held⟩

theorem writeat_len_le : file.len ≤ (file.writeat alloc state offset buffer).2.1.len := by
  by_cases refused : 0 < file.writeNeeds offset buffer ∧ granted alloc (file.writeNeeds offset buffer) state = 0
  · exact le_of_eq (congrArg len (writeat_refused alloc refused.1 refused.2).2.symm)
  · obtain ⟨_, len, _⟩ := @writeat_accepted σ alloc file state offset buffer (by omega)
    rw [len]
    exact le_max_left _ _

theorem truncate_length (size : Nat) :
    (file.truncate alloc state size).2.1.pages.length =
      file.pages.length + granted alloc (divCeil size pageSize - file.pages.length) state := by
  simp [truncate, length_growPages]

end Operations

end RamFile

end MonkeyOS.Ramfs
