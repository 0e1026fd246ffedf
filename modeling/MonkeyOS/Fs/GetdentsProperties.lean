import MonkeyOS.Fs.Getdents

/-!
# Reading a directory

What one call hands out, and what a sequence of calls does. A call that writes no
record sets the cursor to zero: up to the first such call every entry is handed out
once, behind it the directory begins again.
-/

set_option autoImplicit false

namespace MonkeyOS.Fs

open Lib List Nat

variable {names : List (List UInt8)} {name bytes buffer : List UInt8} {offset fuel : Nat}

/-! ## Records -/

@[simp] theorem length_direntBytes (name : List UInt8) : (direntBytes name).length = nameOffset + name.length + 1 := by
  simp [direntBytes, nameOffset]
  omega

theorem length_record {padding : List UInt8} (padded : padding.length = direntSize - nameOffset) :
    (direntBytes name ++ padding).length = currentLen name := by
  simp [padded, currentLen, direntSize, nameOffset]
  omega

theorem decodeDirents_record {padding : List UInt8} (padded : padding.length = direntSize - nameOffset)
    (short : name.length ≤ 255) :
    decodeDirents (fuel + 1) (direntBytes name ++ padding ++ bytes) =
      (decodeDirents fuel bytes).map fun names => name :: names := by
  generalize whole : direntBytes name ++ padding ++ bytes = record
  have length : record.length = currentLen name + bytes.length := by
    rw [← whole, length_append, length_record padded]
  have fields : record = (leBytes 8 0 ++ leBytes 8 (currentLen name)) ++
      (leBytes 2 (currentLen name) ++ (0 :: (name ++ 0 :: (padding ++ bytes)))) := by
    rw [← whole]
    simp [direntBytes]
  have reclen : leValue ((record.drop 16).take 2) = currentLen name := by
    have small : currentLen name < 256 ^ 2 := by
      unfold currentLen direntSize
      omega
    rw [fields, drop_left' (by simp), take_left' (by simp), leValue_leBytes small]
  have named : record.drop nameOffset = name ++ 0 :: (padding ++ bytes) := by
    rw [fields, ← append_assoc, append_cons, drop_left' (by simp [nameOffset])]
  have read : (record.drop nameOffset).take (currentLen name - (direntSize + 1)) = name := by
    rw [named, take_left' (by unfold currentLen; omega)]
  have ended : record[nameOffset + name.length]? = some 0 := by
    rw [← getElem?_drop, named, getElem?_append_right (Nat.le_refl _), Nat.sub_self]
    rfl
  have rest : record.drop (currentLen name) = bytes := by
    rw [← whole, drop_left' (length_record padded)]
  cases record with
  | nil => simp at ended
  | cons _ _ =>
    have long : direntSize + 1 ≤ currentLen name := by
      unfold currentLen
      omega
    simp only [decodeDirents, reclen, read, ended, rest, ne_eq, not_true_eq_false, or_false]
    rw [if_neg (by omega)]

inductive Records : List (List UInt8) → List UInt8 → Prop where
  | nil : Records [] []
  | cons {name names padding bytes} : padding.length = direntSize - nameOffset → Records names bytes →
      Records (name :: names) (direntBytes name ++ padding ++ bytes)

def recordsLen (names : List (List UInt8)) : Nat := (names.map currentLen).sum

@[simp] theorem recordsLen_nil : recordsLen [] = 0 := rfl

@[simp] theorem recordsLen_cons (name : List UInt8) (names : List (List UInt8)) :
    recordsLen (name :: names) = currentLen name + recordsLen names := sum_cons

theorem Records.length (records : Records names bytes) : bytes.length = recordsLen names := by
  induction records with
  | nil => rfl
  | cons padded _ ih => rw [length_append, length_record padded, ih, recordsLen_cons]

theorem Records.decodes (records : Records names bytes) (short : ∀ name ∈ names, name.length ≤ 255)
    (enough : bytes.length ≤ fuel) : decodeDirents fuel bytes = some names := by
  induction records generalizing fuel with
  | nil => cases fuel <;> rfl
  | @cons _ _ _ _ padded _ ih =>
    obtain ⟨here, later⟩ := forall_mem_cons.mp short
    rw [length_append, length_record padded] at enough
    obtain ⟨fuel, rfl⟩ : ∃ less, fuel = less + 1 := ⟨fuel - 1, by unfold currentLen at enough; omega⟩
    rw [decodeDirents_record padded here, ih later (by unfold currentLen direntSize at enough; omega)]
    rfl

/-! ## One call -/

def fitting : (room slots : Nat) → List (List UInt8) → Nat
  | _, _, [] => 0
  | _, 0, _ :: _ => 0
  | room, slots + 1, name :: names =>
    if room < currentLen name then 0 else fitting (room - currentLen name) slots names + 1

theorem fitting_le (room slots : Nat) (names : List (List UInt8)) : fitting room slots names ≤ names.length := by
  induction names generalizing room slots with
  | nil => cases slots <;> exact le_refl _
  | cons _ names ih =>
    cases slots with
    | zero => exact zero_le _
    | succ slots =>
      unfold fitting
      split
      · exact zero_le _
      · exact succ_le_succ (ih _ _)

theorem length_store (inside : offset + bytes.length ≤ buffer.length) :
    (store buffer offset bytes).length = buffer.length := by
  simp [store]
  omega

theorem store_store {front back : List UInt8} {gap : Nat} (inside : offset + front.length + gap ≤ buffer.length) :
    store (store buffer offset front) (offset + front.length + gap) back =
      store buffer offset (front ++ (buffer.drop (offset + front.length)).take gap ++ back) := by
  have lead : (buffer.take offset ++ front).length = offset + front.length := by
    simp
    omega
  have span : ((buffer.drop (offset + front.length)).take gap).length = gap := by
    simp
    omega
  have kept : (store buffer offset front).take (offset + front.length + gap) =
      buffer.take offset ++ front ++ (buffer.drop (offset + front.length)).take gap := by
    rw [store, take_append, lead, take_of_length_le (by omega)]
    congr 2
    omega
  have rest : (store buffer offset front).drop (offset + front.length + gap + back.length) =
      buffer.drop (offset + front.length + gap + back.length) := by
    rw [store, drop_append, lead, drop_of_length_le (by omega), nil_append, drop_drop]
    congr 1
    omega
  rw [store, kept, rest, store, length_append, length_append, span]
  simp only [append_assoc, add_assoc]

theorem fillDirents_spec (names : List (List UInt8)) {index processed ptr finished : Nat}
    (slots : processed ≤ maxEntries) (room : ptr ≤ buffer.length) :
    let count := fitting (buffer.length - ptr) (maxEntries - processed) names
    ∃ bytes, Records (names.take count) bytes ∧
      fillDirents names index processed ptr finished buffer =
        (ptr + bytes.length, if count = 0 then finished else index + count, store buffer ptr bytes) := by
  induction names generalizing index processed ptr finished buffer with
  | nil =>
    refine ⟨[], by simpa using Records.nil, ?_⟩
    simp [fillDirents, fitting, store]
  | cons name names ih =>
    have stop : ∃ bytes, Records ((name :: names).take 0) bytes ∧
        (ptr, finished, buffer) = (ptr + bytes.length, finished, store buffer ptr bytes) :=
      ⟨[], .nil, by simp [store]⟩
    by_cases full : processed + 1 > maxEntries
    · obtain none : maxEntries - processed = 0 := by omega
      simpa [fillDirents, full, none, fitting] using stop
    · obtain ⟨more, left⟩ : ∃ more, maxEntries - processed = more + 1 := ⟨maxEntries - processed - 1, by omega⟩
      by_cases small : buffer.length - ptr < currentLen name
      · simpa [fillDirents, full, left, small, fitting] using stop
      · have written : ptr + (direntBytes name).length + (direntSize - nameOffset) = ptr + currentLen name := by
          simp [currentLen, direntSize, nameOffset]
          omega
        have kept : (store buffer ptr (direntBytes name)).length = buffer.length := length_store (by omega)
        obtain ⟨bytes, records, done⟩ := @ih (store buffer ptr (direntBytes name)) (index + 1) (processed + 1)
          (ptr + currentLen name) (index + 1) (by omega) (by omega)
        rw [kept, show maxEntries - (processed + 1) = more by omega, sub_add_eq] at records done
        have padded : ((buffer.drop (ptr + (direntBytes name).length)).take (direntSize - nameOffset)).length =
            direntSize - nameOffset := by
          rw [length_take, length_drop]
          omega
        refine ⟨direntBytes name ++ (buffer.drop (ptr + (direntBytes name).length)).take (direntSize - nameOffset) ++
          bytes, ?_, ?_⟩
        · rw [left, fitting, if_neg small, take_succ_cons]
          exact .cons padded records
        · rw [fillDirents, if_neg full, if_neg small, done, left, fitting, if_neg small, ← store_store (by omega),
            written, length_append, length_record padded, if_neg (succ_ne_zero _)]
          refine Prod.ext (add_assoc ..) (Prod.ext ?_ rfl)
          dsimp only
          split <;> omega

def served (names : List (List UInt8)) (file : File) (buffer : List UInt8) : Nat :=
  fitting buffer.length maxEntries (names.drop file.offset)

section Calls

variable {file : File}

/-- One call: the records of the entries that fit, and the cursor behind them or, if there
is none, at zero. -/
theorem getdents_spec (names : List (List UInt8)) (file : File) (buffer : List UInt8) :
    let answer := file.getdents (.ok names) buffer
    let count := served names file buffer
    answer.1 = recordsLen ((names.drop file.offset).take count) ∧
      answer.2.1 = { file with offset := if count = 0 then 0 else file.offset + count } ∧
      Records ((names.drop file.offset).take count) (answer.2.2.take answer.1) := by
  obtain ⟨bytes, records, done⟩ := @fillDirents_spec buffer (names.drop file.offset) file.offset 0 0 0
    (zero_le _) (zero_le _)
  have answer : file.getdents (.ok names) buffer = (bytes.length,
      { file with offset := if served names file buffer = 0 then 0 else file.offset + served names file buffer },
      store buffer 0 bytes) := by
    simp only [File.getdents, done, zero_add]
    rfl
  rw [answer]
  refine ⟨records.length, rfl, ?_⟩
  rw [store, take_zero, nil_append, take_left]
  exact records

theorem served_le (names : List (List UInt8)) (file : File) (buffer : List UInt8) :
    file.offset + served names file buffer ≤ max file.offset names.length := by
  have bound := fitting_le buffer.length maxEntries (names.drop file.offset)
  rw [length_drop] at bound
  unfold served
  omega

/-- The buffer does not take the entry at the place, if there is one. -/
def NoRoom (names : List (List UInt8)) (place : Nat) (buffer : List UInt8) : Prop :=
  ∀ name, names[place]? = some name → buffer.length < currentLen name

theorem fitting_eq_zero_iff {place : Nat} :
    fitting buffer.length maxEntries (names.drop place) = 0 ↔ NoRoom names place buffer := by
  unfold NoRoom
  cases rest : names.drop place with
  | nil =>
    have past : names[place]? = none := getElem?_eq_none (drop_eq_nil_iff.mp rest)
    simp [fitting, past]
  | cons name _ =>
    have next : names[place]? = some name := by
      rw [← head?_drop, rest, head?_cons]
    simp only [next, Option.some.injEq, forall_eq']
    rw [maxEntries, fitting]
    split
    · next small => exact iff_of_true rfl small
    · next large => exact iff_of_false (succ_ne_zero _) large

theorem served_eq_zero_iff : served names file buffer = 0 ↔ NoRoom names file.offset buffer := fitting_eq_zero_iff

theorem answer_eq_zero_iff : (file.getdents (.ok names) buffer).1 = 0 ↔ served names file buffer = 0 := by
  rw [(getdents_spec names file buffer).1]
  constructor
  · intro empty
    by_contra more
    cases rest : (names.drop file.offset).take (served names file buffer) with
    | nil =>
      have room := served_le names file buffer
      rcases take_eq_nil_iff.mp rest with none | past
      · exact more none
      · have := drop_eq_nil_iff.mp past
        omega
    | cons _ names =>
      rw [rest, recordsLen_cons, currentLen] at empty
      omega
  · intro none
    rw [none, take_zero, recordsLen_nil]

theorem decodeAnswer_getdents (short : ∀ name ∈ names, name.length ≤ 255) :
    decodeAnswer (file.getdents (.ok names) buffer) =
      some ((names.drop file.offset).take (served names file buffer)) := by
  obtain ⟨-, -, records⟩ := getdents_spec names file buffer
  exact records.decodes (fun name member => short name (mem_of_mem_drop (mem_of_mem_take member))) (length_take_le _ _)

end Calls

/-! ## Sequences of calls -/

def fileAt (names : List (List UInt8)) (file : File) (buffers : Nat → List UInt8) : Nat → File
  | 0 => file
  | call + 1 => ((fileAt names file buffers call).getdents (.ok names) (buffers call)).2.1

def answerAt (names : List (List UInt8)) (file : File) (buffers : Nat → List UInt8) (call : Nat) :
    Nat × File × List UInt8 :=
  (fileAt names file buffers call).getdents (.ok names) (buffers call)

section Sequences

variable {file : File} {buffers : Nat → List UInt8}

theorem offset_succ (call : Nat) :
    (fileAt names file buffers (call + 1)).offset =
      if served names (fileAt names file buffers call) (buffers call) = 0 then 0
      else (fileAt names file buffers call).offset + served names (fileAt names file buffers call) (buffers call) := by
  rw [fileAt, (getdents_spec names _ _).2.1]

theorem decoded_take (start : file.offset = 0) (short : ∀ name ∈ names, name.length ≤ 255) {call : Nat}
    (going : ∀ earlier < call, (answerAt names file buffers earlier).1 ≠ 0) :
    (fileAt names file buffers call).offset ≤ names.length ∧
      ((List.range call).mapM fun call => decodeAnswer (answerAt names file buffers call)).map List.flatten =
        some (names.take (fileAt names file buffers call).offset) := by
  induction call with
  | zero =>
    rw [fileAt, start]
    exact ⟨zero_le _, rfl⟩
  | succ call ih =>
    obtain ⟨_, decoded⟩ := ih fun earlier _ => going earlier (by omega)
    have some := mt answer_eq_zero_iff.mpr (going call (lt_succ_self _))
    have room := served_le names (fileAt names file buffers call) (buffers call)
    obtain ⟨_, read, joined⟩ := Option.map_eq_some_iff.mp decoded
    rw [offset_succ, if_neg some]
    refine ⟨by omega, ?_⟩
    have next := @decodeAnswer_getdents names (buffers call) (fileAt names file buffers call) short
    rw [range_succ, mapM_append, read]
    simp only [mapM_cons, mapM_nil, answerAt, next]
    simp [joined, take_add]

/-- A directory is handed out entry by entry, each once and in order, until a call answers
zero; and some call does. -/
theorem getdents_enumerates (start : file.offset = 0) (short : ∀ name ∈ names, name.length ≤ 255)
    (large : ∀ call, (∀ earlier < call, (answerAt names file buffers earlier).1 ≠ 0) →
      ∀ name, names[(fileAt names file buffers call).offset]? = some name → currentLen name ≤ (buffers call).length) :
    ∃ last, (answerAt names file buffers last).1 = 0 ∧
      (∀ call < last, (answerAt names file buffers call).1 ≠ 0) ∧
      ((List.range last).mapM fun call => decodeAnswer (answerAt names file buffers call)).map List.flatten =
        some names := by
  obtain ⟨last, ended, going⟩ := @exists_first_of_falls (fun call => (answerAt names file buffers call).1 = 0)
    (fun call => names.length - (fileAt names file buffers call).offset) fun more call => by
      have some := mt answer_eq_zero_iff.mpr (more call)
      have room := served_le names (fileAt names file buffers call) (buffers call)
      refine ⟨call + 1, ?_⟩
      rw [offset_succ, if_neg some]
      omega
  refine ⟨last, ended, going, ?_⟩
  obtain ⟨-, decoded⟩ := decoded_take start short going
  have none := served_eq_zero_iff.mp (answer_eq_zero_iff.mp ended)
  have past : names.length ≤ (fileAt names file buffers last).offset := by
    by_contra before
    have next : names[(fileAt names file buffers last).offset]? = some names[(fileAt names file buffers last).offset] :=
      getElem?_eq_getElem (by omega)
    exact absurd (large last going _ next) (Nat.not_le_of_lt (none _ next))
  rw [decoded, take_of_length_le past]

def openedDir : File := { inner := 0, offset := 0, flags := 0 }

theorem getdents_enumerates_two :
    ∃ last, (answerAt [[97], [98]] openedDir (fun _ => List.replicate 30 1) last).1 = 0 ∧
      (∀ call < last, (answerAt [[97], [98]] openedDir (fun _ => List.replicate 30 1) call).1 ≠ 0) ∧
      ((List.range last).mapM fun call =>
        decodeAnswer (answerAt [[97], [98]] openedDir (fun _ => List.replicate 30 1) call)).map List.flatten =
        some [[97], [98]] :=
  have large : ∀ name ∈ [[97], [98]], currentLen name ≤ 30 := by decide
  getdents_enumerates rfl (by decide) fun _ _ name found => large name (mem_of_getElem? found)

/-! ## The cursor -/

def given (names : List (List UInt8)) (file : File) (buffers : Nat → List UInt8) (call : Nat) : List Nat :=
  List.range' (fileAt names file buffers call).offset (served names (fileAt names file buffers call) (buffers call))

/-- In the first `count` calls no entry is handed out twice, calls behind the end of the
directory answer zero once one did, and a call without room for the next entry leaves the
cursor where it is. -/
structure MovesForward (names : List (List UInt8)) (file : File) (buffers : Nat → List UInt8) (count : Nat) :
    Prop where
  once : ((List.range count).flatMap (given names file buffers)).Nodup
  ended : ∀ call < count, names.length ≤ (fileAt names file buffers call).offset →
    (answerAt names file buffers call).1 = 0 →
    ∀ later < count, call < later → (answerAt names file buffers later).1 = 0
  waits : ∀ call < count, ∀ name, names[(fileAt names file buffers call).offset]? = some name →
    (buffers call).length < currentLen name →
    (fileAt names file buffers (call + 1)).offset = (fileAt names file buffers call).offset

/-- How far the calls get if each goes on where the one before it stopped. -/
def reach (names : List (List UInt8)) (buffers : Nat → List UInt8) : Nat → Nat
  | 0 => 0
  | call + 1 => reach names buffers call +
      fitting (buffers call).length maxEntries (names.drop (reach names buffers call))

/-- Where nothing fits, the calls got nowhere yet, or they are through with the directory and
no later buffer takes its first entry. -/
def SafeCalls (names : List (List UInt8)) (buffers : Nat → List UInt8) (count : Nat) : Prop :=
  ∀ call < count, NoRoom names (reach names buffers call) (buffers call) →
    reach names buffers call = 0 ∨ names.length ≤ reach names buffers call ∧
      ∀ later < count, call < later → NoRoom names 0 (buffers later)

theorem reach_of_past {call later : Nat} (past : names.length ≤ reach names buffers call) (after : call ≤ later) :
    reach names buffers later = reach names buffers call := by
  induction later, after using Nat.le_induction with
  | base => rfl
  | succ later _ ih => rw [reach, ih, drop_eq_nil_of_le past, fitting, add_zero]

/-- A call that is where it should be and sets the cursor back. -/
structure Rewinds (names : List (List UInt8)) (file : File) (buffers : Nat → List UInt8) (stop : Nat) : Prop where
  same : (fileAt names file buffers stop).offset = reach names buffers stop
  begun : reach names buffers stop ≠ 0
  none : NoRoom names (reach names buffers stop) (buffers stop)

/-- The cursor is where the calls should have got to, unless one of them set it back. -/
theorem offset_reach (start : file.offset = 0) (call : Nat) :
    (fileAt names file buffers call).offset = reach names buffers call ∨
      ∃ stop < call, Rewinds names file buffers stop := by
  induction call with
  | zero => exact .inl start
  | succ call ih =>
    obtain same | ⟨stop, before, rewinds⟩ := ih
    · by_cases none : NoRoom names (reach names buffers call) (buffers call)
      · by_cases begun : reach names buffers call = 0
        · left
          rw [offset_succ, if_pos (served_eq_zero_iff.mpr (by rwa [same])), reach, fitting_eq_zero_iff.mpr none, begun]
        · exact .inr ⟨call, lt_succ_self _, same, begun, none⟩
      · left
        rw [offset_succ, if_neg (mt served_eq_zero_iff.mp (by rwa [same])), served, same, reach]
    · exact .inr ⟨stop, before.trans (lt_succ_self _), rewinds⟩

namespace Rewinds

variable {count stop : Nat} (rewinds : Rewinds names file buffers stop)
include rewinds

theorem served_eq_zero : served names (fileAt names file buffers stop) (buffers stop) = 0 :=
  served_eq_zero_iff.mpr (by rw [rewinds.same]; exact rewinds.none)

/-- The cursor stays at zero while nothing is handed out. -/
theorem offset_eq_zero {later : Nat} (after : stop < later)
    (quiet : ∀ call < later, stop < call → served names (fileAt names file buffers call) (buffers call) = 0) :
    (fileAt names file buffers later).offset = 0 := by
  obtain ⟨before, rfl⟩ : ∃ before, later = before + 1 := ⟨later - 1, by omega⟩
  rw [offset_succ, if_pos]
  rcases (Nat.le_of_lt_succ after).eq_or_lt with rfl | after
  · exact rewinds.served_eq_zero
  · exact quiet before (lt_succ_self _) after

theorem past (forward : MovesForward names file buffers count) (bound : stop < count) :
    names.length ≤ reach names buffers stop ∧ ∀ later < count, stop < later → NoRoom names 0 (buffers later) := by
  have past : names.length ≤ reach names buffers stop := by
    by_contra before
    have next := getElem?_eq_getElem (Nat.lt_of_not_le before)
    have stays := forward.waits stop bound _ (by rw [rewinds.same]; exact next) (rewinds.none _ next)
    rw [offset_succ, if_pos rewinds.served_eq_zero, rewinds.same] at stays
    exact rewinds.begun stays.symm
  refine ⟨past, fun later within after => ?_⟩
  have quiet : ∀ call < count, stop < call → served names (fileAt names file buffers call) (buffers call) = 0 :=
    fun call bound' after => answer_eq_zero_iff.mp (forward.ended stop bound (by rwa [rewinds.same])
      (answer_eq_zero_iff.mpr rewinds.served_eq_zero) call bound' after)
  rw [← rewinds.offset_eq_zero after fun call before => quiet call (before.trans within)]
  exact served_eq_zero_iff.mp (quiet later within after)

theorem quiet (safe : SafeCalls names buffers count) {later : Nat} (within : later < count) (after : stop < later) :
    served names (fileAt names file buffers later) (buffers later) = 0 := by
  induction later using Nat.strong_induction_on with
  | _ later ih =>
    obtain ⟨-, small⟩ := (safe stop (after.trans within) rewinds.none).resolve_left rewinds.begun
    rw [served_eq_zero_iff, rewinds.offset_eq_zero after fun call before => ih call before (before.trans within)]
    exact small later within after

end Rewinds

theorem given_range {count : Nat} (start : file.offset = 0) (safe : SafeCalls names buffers count) {calls : Nat}
    (within : calls ≤ count) :
    (List.range calls).flatMap (given names file buffers) = List.range (reach names buffers calls) := by
  induction calls with
  | zero => rfl
  | succ calls ih =>
    rw [range_succ, flatMap_append, ih (by omega), flatMap_singleton, given, reach]
    obtain same | ⟨stop, before, rewinds⟩ := @offset_reach names file buffers start calls
    · rw [served, same, range_eq_range', range_eq_range', ← range'_append_1, zero_add]
    · obtain ⟨past, -⟩ := (safe stop (before.trans within) rewinds.none).resolve_left rewinds.begun
      rw [rewinds.quiet safe within before, reach_of_past past before.le, drop_eq_nil_of_le past, fitting]
      simp

/-- The cursor never moves back if and only if no call has too little room for the next
entry, but at the beginning, or at the end with too little room for the first entry later. -/
theorem cursor_moves_forward_iff {count : Nat} (start : file.offset = 0) :
    MovesForward names file buffers count ↔ SafeCalls names buffers count := by
  have located := @offset_reach names file buffers start
  constructor
  · intro forward call bound none
    by_cases begun : reach names buffers call = 0
    · exact .inl begun
    · obtain same | ⟨stop, before, rewinds⟩ := located call
      · exact .inr (Rewinds.past ⟨same, begun, none⟩ forward bound)
      · obtain ⟨past, small⟩ := rewinds.past forward (before.trans bound)
        exact .inr ⟨by rwa [reach_of_past past before.le], fun later within after =>
          small later within (before.trans after)⟩
  · intro safe
    refine ⟨?_, fun call bound past ended later within after => ?_, fun call bound name next small => ?_⟩
    · rw [given_range start safe (le_refl count)]
      exact nodup_range
    · refine answer_eq_zero_iff.mpr ?_
      obtain same | ⟨stop, before, rewinds⟩ := located call
      · by_cases begun : reach names buffers call = 0
        · obtain rfl : names = [] := length_eq_zero_iff.mp (by omega)
          exact served_eq_zero_iff.mpr fun name found => by simp at found
        · have none := served_eq_zero_iff.mp (answer_eq_zero_iff.mp ended)
          exact Rewinds.quiet ⟨same, begun, same ▸ none⟩ safe within after
      · exact rewinds.quiet safe within (before.trans after)
    · have none : NoRoom names (fileAt names file buffers call).offset (buffers call) := fun other found => by
        cases next.symm.trans found
        exact small
      rw [offset_succ, if_pos (served_eq_zero_iff.mpr none)]
      obtain same | ⟨stop, before, rewinds⟩ := located call
      · rw [same] at next none ⊢
        rcases safe call bound none with begun | ⟨past, -⟩
        · exact begun.symm
        · cases (getElem?_eq_none past).symm.trans next
      · exact (rewinds.offset_eq_zero before fun later within => rewinds.quiet safe (within.trans bound)).symm

theorem cursor_moves_forward_iff_two : MovesForward [[97], [98]] openedDir (fun _ => List.replicate 64 1) 2 := by
  refine (cursor_moves_forward_iff rfl).mpr fun call bound none => ?_
  have calls : ∀ call < 2, fitting 64 maxEntries ([[97], [98]].drop
      (reach [[97], [98]] (fun _ => List.replicate 64 1) call)) = 0 → call = 1 := by decide
  obtain rfl := calls call bound (fitting_eq_zero_iff.mpr none)
  exact .inr ⟨by decide, fun later within after => by omega⟩

/-- The third call hands out the first entry again, after the second answered zero. -/
theorem cursor_rewinds :
    let buffers : Nat → List UInt8 := fun _ => List.replicate 64 1
    (List.range 3).map (fun call => (answerAt [[97], [98]] openedDir buffers call).1) = [52, 0, 52] ∧
      ¬ MovesForward [[97], [98]] openedDir buffers 3 := by
  intro buffers
  refine ⟨by decide, fun forward => ?_⟩
  have again := forward.ended 1 (by decide) (by decide) (by decide) 2 (by decide) (by decide)
  exact absurd again (by decide)

end Sequences

end MonkeyOS.Fs
