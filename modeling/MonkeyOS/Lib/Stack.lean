import MonkeyOS.Lib.LittleEndian
import MonkeyOS.Lib.Paged

/-!
# Downward stacks and the C data in them

A stack that grows down through blank memory, as the list of its bytes from the
stack pointer on, and what a C program reads out of memory: little-endian words,
vectors up to a null word, and strings up to a null byte.
-/

set_option autoImplicit false

namespace MonkeyOS.Lib

open List hiding count
open Option Nat

/-! ## Pushing -/

def stackCells (size : Nat) (contents : List UInt8) : Nat → UInt8 := fun index =>
  if index < size - contents.length then 0 else contents.getD (index - (size - contents.length)) 0

def padded (room : Nat) (bytes : List UInt8) : List UInt8 := bytes ++ List.replicate (room - bytes.length) 0

variable {bytes contents : List UInt8} {room size value fuel : Nat} {values : List Nat}

theorem length_padded (short : bytes.length ≤ room) : (padded room bytes).length = room := by
  simp [padded, short]

theorem prefix_padded (short : bytes.length < room) : bytes ++ [0] <+: padded room bytes := by
  obtain ⟨spare, rest⟩ := exists_eq_succ_of_ne_zero (sub_ne_zero_of_lt short)
  rw [padded, rest, replicate_succ, append_cons bytes 0 (List.replicate spare 0)]
  exact prefix_append ..

theorem stackCells_below {index : Nat} (below : index < size - contents.length) :
    stackCells size contents index = 0 := if_pos below

theorem stackCells_contents {size : Nat} {contents : List UInt8} (index : Nat) :
    stackCells size contents (size - contents.length + index) = contents.getD index 0 := by
  rw [stackCells, if_neg (Nat.not_lt.mpr (Nat.le_add_right ..)), Nat.add_sub_cancel_left]

theorem overlay_stackCells (short : bytes.length ≤ room) (fits : room + contents.length ≤ size) :
    overlay (stackCells size contents) (size - contents.length - room) bytes =
      stackCells size (padded room bytes ++ contents) := by
  funext index
  have start : size - contents.length - room = size - (padded room bytes ++ contents).length := by
    rw [length_append, length_padded short]
    omega
  by_cases before : index < size - contents.length - room
  · rw [overlay_before before, stackCells_below (by omega), stackCells_below (start ▸ before)]
  obtain ⟨place, rfl⟩ : ∃ place, index = size - contents.length - room + place :=
    ⟨index - (size - contents.length - room), by omega⟩
  have pushed := @stackCells_contents size (padded room bytes ++ contents) place
  rw [← start] at pushed
  rw [pushed, getD_eq_getElem?_getD]
  by_cases written : place < bytes.length
  · rw [overlay_inside written, padded, append_assoc, getElem?_append_left written,
      getElem?_eq_getElem written, getD_some]
  rw [overlay_after (by omega)]
  by_cases blank : place < room
  · rw [stackCells_below (by omega), getElem?_append_left (by rwa [length_padded short]), padded,
      getElem?_append_right (by omega), getElem?_replicate]
    split <;> rfl
  · have above : size - contents.length - room + place = size - contents.length + (place - room) := by omega
    rw [above, stackCells_contents, getElem?_append_right (by rw [length_padded short]; omega),
      length_padded short, getD_eq_getElem?_getD]

/-! ## Reading -/

variable {mem : Nat → Option UInt8} {address : Nat}

def Shows (mem : Nat → Option UInt8) (address : Nat) (bytes : List UInt8) : Prop :=
  ∀ index byte, bytes[index]? = some byte → mem (address + index) = some byte

theorem shows_append {front back : List UInt8} :
    Shows mem address (front ++ back) ↔ Shows mem address front ∧ Shows mem (address + front.length) back := by
  constructor
  · intro shows
    constructor
    · intro index byte found
      refine shows index byte ?_
      rw [List.getElem?_append_left (List.getElem?_eq_some_iff.mp found).1, found]
    · intro index byte found
      rw [add_assoc]
      refine shows _ byte ?_
      rw [getElem?_append_right (Nat.le_add_right ..), Nat.add_sub_cancel_left, found]
  · rintro ⟨first, second⟩ index byte found
    by_cases inside : index < front.length
    · rw [getElem?_append_left inside] at found
      exact first index byte found
    · rw [getElem?_append_right (by omega)] at found
      have there := second _ byte found
      rwa [add_assoc, Nat.add_sub_cancel' (by omega)] at there

theorem shows_cons {byte : UInt8} (shows : Shows mem address (byte :: bytes)) :
    mem address = some byte ∧ Shows mem (address + 1) bytes :=
  ⟨shows 0 byte rfl, ((@shows_append mem address [byte] bytes).mp shows).2⟩

def readBytes (mem : Nat → Option UInt8) (address : Nat) : (count : Nat) → Option (List UInt8)
  | 0 => some []
  | count + 1 => do
      let byte ← mem address
      let rest ← readBytes mem (address + 1) count
      some (byte :: rest)

theorem readBytes_shows (shows : Shows mem address bytes) : readBytes mem address bytes.length = some bytes := by
  induction bytes generalizing address with
  | nil => rfl
  | cons _ bytes ih =>
    obtain ⟨here, rest⟩ := shows_cons shows
    rw [length_cons, readBytes, here, bind_eq_bind, bind_some, bind_eq_bind, ih rest, bind_some]

def readWord (mem : Nat → Option UInt8) (address : Nat) : Option Nat := (readBytes mem address 8).map leValue

theorem readWord_shows (shows : Shows mem address (leBytes 8 value)) (small : value < 256 ^ 8) :
    readWord mem address = some value := by
  have read := readBytes_shows shows
  rw [length_leBytes] at read
  rw [readWord, read, map_some, leValue_leBytes small]

def words (values : List Nat) : List UInt8 := values.flatMap (leBytes 8)

theorem length_words (values : List Nat) : (words values).length = 8 * values.length := by
  induction values with
  | nil => rfl
  | cons _ values ih =>
    rw [words, flatMap_cons, length_append, length_leBytes, length_cons, ← words, ih]
    omega

theorem words_append (front back : List Nat) : words (front ++ back) = words front ++ words back :=
  flatMap_append

theorem shows_words_cons (shows : Shows mem address (words (value :: values))) :
    Shows mem address (leBytes 8 value) ∧ Shows mem (address + 8) (words values) := by
  have parts := (shows_append).mp shows
  rwa [length_leBytes] at parts

def readWords (mem : Nat → Option UInt8) (address : Nat) : (count : Nat) → Option (List Nat)
  | 0 => some []
  | count + 1 => do
      let value ← readWord mem address
      let rest ← readWords mem (address + 8) count
      some (value :: rest)

theorem readWords_shows (shows : Shows mem address (words values)) (small : ∀ value ∈ values, value < 256 ^ 8) :
    readWords mem address values.length = some values := by
  induction values generalizing address with
  | nil => rfl
  | cons _ values ih =>
    obtain ⟨here, later⟩ := forall_mem_cons.mp small
    obtain ⟨first, rest⟩ := shows_words_cons shows
    rw [length_cons, readWords, readWord_shows first here, bind_eq_bind, bind_some,
      bind_eq_bind, ih rest later, bind_some]

def readVector (mem : Nat → Option UInt8) : (fuel address : Nat) → Option (List Nat × Nat)
  | 0, _ => none
  | fuel + 1, address => do
      let value ← readWord mem address
      if value = 0 then some ([], address + 8)
      else
        let (rest, next) ← readVector mem fuel (address + 8)
        some (value :: rest, next)

theorem readVector_shows (shows : Shows mem address (words (values ++ [0])))
    (small : ∀ value ∈ values, 0 < value ∧ value < 256 ^ 8) (enough : values.length < fuel) :
    readVector mem fuel address = some (values, address + 8 * (values.length + 1)) := by
  induction values generalizing address fuel with
  | nil =>
    obtain ⟨fuel, rfl⟩ := exists_eq_succ_of_ne_zero (ne_of_gt enough)
    obtain ⟨first, -⟩ := shows_words_cons shows
    simp [readVector, readWord_shows first (by decide)]
  | cons _ values ih =>
    obtain ⟨fuel, rfl⟩ := exists_eq_succ_of_ne_zero (ne_zero_of_lt enough)
    obtain ⟨⟨positive, here⟩, later⟩ := forall_mem_cons.mp small
    obtain ⟨first, rest⟩ := shows_words_cons shows
    have next : address + 8 + 8 * (values.length + 1) = address + 8 * (values.length + 1 + 1) := by omega
    rw [length_cons] at enough ⊢
    simp only [readVector, readWord_shows first here, bind_eq_bind, bind_some,
      ne_of_gt positive, if_false, ih rest later (lt_of_succ_lt_succ enough), next]

def readPairs (mem : Nat → Option UInt8) : (fuel address : Nat) → Option (List (Nat × Nat))
  | 0, _ => none
  | fuel + 1, address => do
      let key ← readWord mem address
      if key = 0 then some []
      else
        let value ← readWord mem (address + 8)
        let rest ← readPairs mem fuel (address + 16)
        some ((key, value) :: rest)

theorem readPairs_shows {pairs : List (Nat × Nat)}
    (shows : Shows mem address (words (pairs.flatMap (fun pair => [pair.1, pair.2]) ++ [0])))
    (small : ∀ pair ∈ pairs, (0 < pair.1 ∧ pair.1 < 256 ^ 8) ∧ pair.2 < 256 ^ 8) (enough : pairs.length < fuel) :
    readPairs mem fuel address = some pairs := by
  induction pairs generalizing address fuel with
  | nil =>
    obtain ⟨fuel, rfl⟩ := exists_eq_succ_of_ne_zero (ne_of_gt enough)
    obtain ⟨first, -⟩ := shows_words_cons shows
    simp [readPairs, readWord_shows first (by decide)]
  | cons _ pairs ih =>
    obtain ⟨fuel, rfl⟩ := exists_eq_succ_of_ne_zero (ne_zero_of_lt enough)
    obtain ⟨⟨⟨positive, keySmall⟩, valueSmall⟩, later⟩ := forall_mem_cons.mp small
    obtain ⟨key, shows⟩ := shows_words_cons shows
    obtain ⟨value, rest⟩ := shows_words_cons shows
    simp only [readPairs, readWord_shows key keySmall, readWord_shows value valueSmall, bind_eq_bind,
      bind_some, ne_of_gt positive, if_false, ih rest later (lt_of_succ_lt_succ enough)]

def readString (mem : Nat → Option UInt8) : (fuel address : Nat) → Option (List UInt8)
  | 0, _ => none
  | fuel + 1, address => do
      let byte ← mem address
      if byte = 0 then some []
      else
        let rest ← readString mem fuel (address + 1)
        some (byte :: rest)

theorem readString_shows (shows : Shows mem address (bytes ++ [0])) (enough : bytes.length < fuel) :
    readString mem fuel address = some (bytes.takeWhile fun byte => byte ≠ 0) := by
  induction bytes generalizing address fuel with
  | nil =>
    obtain ⟨fuel, rfl⟩ := exists_eq_succ_of_ne_zero (ne_of_gt enough)
    have here : mem address = some 0 := shows 0 0 rfl
    simp [readString, here]
  | cons byte bytes ih =>
    obtain ⟨fuel, rfl⟩ := exists_eq_succ_of_ne_zero (ne_zero_of_lt enough)
    obtain ⟨here, rest⟩ := shows_cons shows
    by_cases null : byte = 0
    · simp [readString, here, null]
    · simp [readString, here, null, ih rest (lt_of_succ_lt_succ enough)]

end MonkeyOS.Lib
