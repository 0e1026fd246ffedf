import Mathlib.Algebra.Order.Ring.Nat
import Mathlib.Data.Finset.Card

/-! Bit arrays packed into 64-bit words. Index `i` names bit `i % 64` of word
`i / 64`, least significant bit first. -/

set_option autoImplicit false

namespace MonkeyOS.Lib

open List

def setWordBit (word : BitVec 64) (bit : Nat) (value : Bool) : BitVec 64 :=
  if value then word ||| (1#64 <<< bit) else word &&& ~~~(1#64 <<< bit)

abbrev Bitmap := List (BitVec 64)

namespace Bitmap

def getBit (words : Bitmap) (index : Nat) : Bool :=
  (words.getD (index / 64) 0).getLsbD (index % 64)

def setBit (words : Bitmap) (index : Nat) (value : Bool) : Bitmap :=
  words.modify (index / 64) fun word => setWordBit word (index % 64) value

def wordClearCount (word : BitVec 64) : Nat :=
  ((Finset.range 64).filter fun bit => word.getLsbD bit = false).card

def clearCount (words : Bitmap) : Nat :=
  (words.map wordClearCount).sum

end Bitmap

theorem getLsbD_setWordBit {word : BitVec 64} {bit other : Nat} {value : Bool} (bound : bit < 64) :
    (setWordBit word bit value).getLsbD other =
      if other = bit then value else word.getLsbD other := by
  have mask : (1#64 <<< bit).getLsbD other = decide (other = bit) := by
    by_cases same : other = bit
    · subst same; simp [bound]
    · by_cases below : other < bit
      · simp [below, same]
      · have positive : other - bit ≠ 0 := by omega
        simp [positive, same]
  cases value with
  | true =>
    simp only [setWordBit, ↓reduceIte, BitVec.getLsbD_or, mask]
    by_cases same : other = bit <;> simp [same]
  | false =>
    simp only [setWordBit, Bool.false_eq_true, ↓reduceIte, BitVec.getLsbD_and, BitVec.getLsbD_not, mask]
    by_cases same : other = bit
    · simp [same]
    · by_cases inside : other < 64
      · simp [same, inside]
      · simp [same, inside, BitVec.getLsbD_of_ge word other (by omega)]

namespace Bitmap

@[simp] theorem length_setBit (words : Bitmap) (index : Nat) (value : Bool) :
    (words.setBit index value).length = words.length := by
  simp [setBit]

variable {index other : Nat} {value : Bool} {words : Bitmap}

theorem getBit_setBit (inside : index < 64 * words.length) :
    (words.setBit index value).getBit other =
      if other = index then value else words.getBit other := by
  have bound : index % 64 < 64 := Nat.mod_lt _ (by decide)
  have slot : index / 64 < words.length := by omega
  simp only [getBit, setBit, getD_eq_getElem?_getD, getElem?_modify]
  by_cases sameWord : index / 64 = other / 64
  · have found : words[other / 64]? = some words[index / 64] := by
      rw [← sameWord]; exact getElem?_eq_getElem slot
    have bits : other % 64 = index % 64 ↔ other = index := by omega
    simp [sameWord, found, getLsbD_setWordBit bound, bits]
  · have different : other ≠ index := by rintro rfl; exact sameWord rfl
    simp [sameWord, different]

theorem getBit_replicate_zero (count index : Nat) : getBit (List.replicate count 0) index = false := by
  by_cases inside : index / 64 < count <;> simp [getBit, inside]

theorem clearCount_replicate_zero (count : Nat) : clearCount (List.replicate count 0) = 64 * count := by
  have word : wordClearCount 0#64 = 64 := by simp [wordClearCount]
  simp [clearCount, word, mul_comm]

@[simp] theorem getBit_setBit_self (inside : index < 64 * words.length) :
    (words.setBit index value).getBit index = value := by
  simp [getBit_setBit inside]

theorem getBit_setBit_of_ne (inside : index < 64 * words.length) (different : other ≠ index) :
    (words.setBit index value).getBit other = words.getBit other := by
  simp [getBit_setBit inside, different]

private theorem wordClearCount_eq (word : BitVec 64) {bit : Nat} (bound : bit < 64) :
    wordClearCount word = (((Finset.range 64).erase bit).filter fun other => word.getLsbD other = false).card +
      if word.getLsbD bit = false then 1 else 0 := by
  conv_lhs => rw [wordClearCount, ← Finset.insert_erase (Finset.mem_range.mpr bound), Finset.filter_insert]
  split
  · exact Finset.card_insert_of_notMem (by simp)
  · rfl

private theorem wordClearCount_setWordBit {word : BitVec 64} {bit : Nat} (value : Bool) (bound : bit < 64) :
    wordClearCount (setWordBit word bit value) + (if word.getLsbD bit = false then 1 else 0) =
      wordClearCount word + if value = false then 1 else 0 := by
  have others : ∀ other ∈ (Finset.range 64).erase bit,
      ((setWordBit word bit value).getLsbD other = false ↔ word.getLsbD other = false) := fun other away => by
    rw [getLsbD_setWordBit bound, if_neg (Finset.ne_of_mem_erase away)]
  rw [wordClearCount_eq _ bound, wordClearCount_eq word bound, Finset.filter_congr others, getLsbD_setWordBit bound,
    if_pos rfl]
  omega

private theorem sum_map_modify {slot : Nat} (change : BitVec 64 → BitVec 64) (inside : slot < words.length) :
    ((words.modify slot change).map wordClearCount).sum + wordClearCount words[slot] =
      (words.map wordClearCount).sum + wordClearCount (change words[slot]) := by
  induction words generalizing slot with
  | nil => simp at inside
  | cons _ words ih =>
    cases slot with
    | zero => simp; omega
    | succ slot =>
      have recursive := ih (Nat.lt_of_succ_lt_succ inside)
      simp only [modify_succ_cons, map_cons, sum_cons, getElem_cons_succ]
      omega

theorem clearCount_setBit (value : Bool) (inside : index < 64 * words.length) :
    (words.setBit index value).clearCount + (if words.getBit index = false then 1 else 0) =
      words.clearCount + if value = false then 1 else 0 := by
  have slot : index / 64 < words.length := by omega
  have bit : words.getBit index = words[index / 64].getLsbD (index % 64) := by
    simp [getBit, getD_eq_getElem?_getD, getElem?_eq_getElem slot]
  have total := sum_map_modify (fun word => setWordBit word (index % 64) value) slot
  have one := @wordClearCount_setWordBit words[index / 64] _ value (Nat.mod_lt index (by decide))
  simp only [clearCount, setBit, bit]
  omega

theorem exists_clear_of_clearCount_pos (some : 0 < words.clearCount) :
    ∃ index < 64 * words.length, words.getBit index = false := by
  obtain ⟨_, listed, positive⟩ := List.sum_pos_iff_exists_pos_nat.mp some
  obtain ⟨_, member, rfl⟩ := mem_map.mp listed
  obtain ⟨bit, clear⟩ := Finset.card_pos.mp positive
  obtain ⟨bound, clear⟩ := Finset.mem_filter.mp clear
  have bound := Finset.mem_range.mp bound
  obtain ⟨slot, inside, rfl⟩ := getElem_of_mem member
  refine ⟨64 * slot + bit, by omega, ?_⟩
  have place : (64 * slot + bit) / 64 = slot := by omega
  have rest : (64 * slot + bit) % 64 = bit := by omega
  simpa [getBit, place, rest, getD_eq_getElem?_getD, getElem?_eq_getElem inside] using clear

end Bitmap

end MonkeyOS.Lib
