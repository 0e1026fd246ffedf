import Mathlib.Data.List.Nodup
import Mathlib.Order.Lattice

/-! Finite maps kept in key order, as a `BTreeMap` iterates them. -/

set_option autoImplicit false

namespace MonkeyOS.Lib

open List

structure OrderedMap (κ β : Type) [LinearOrder κ] where
  entries : List (κ × β)
  sorted : (entries.map Prod.fst).Pairwise (· < ·)

namespace OrderedMap

variable {κ β : Type} [LinearOrder κ] {map : OrderedMap κ β} {key other : κ} {value : β} {test : β → Bool}

def empty : OrderedMap κ β := { entries := [], sorted := .nil }

def get (map : OrderedMap κ β) (key : κ) : Option β :=
  (map.entries.find? fun entry => entry.1 = key).map Prod.snd

def values (map : OrderedMap κ β) : List β := map.entries.map Prod.snd

def keys (map : OrderedMap κ β) : List κ := map.entries.map Prod.fst

def erase (map : OrderedMap κ β) (key : κ) : OrderedMap κ β where
  entries := map.entries.filter fun entry => entry.1 ≠ key
  sorted := map.sorted.sublist (filter_sublist.map _)

private def insertEntry (key : κ) (value : β) : List (κ × β) → List (κ × β)
  | [] => [(key, value)]
  | entry :: rest =>
    if key < entry.1 then (key, value) :: entry :: rest
    else if key = entry.1 then (key, value) :: rest
    else entry :: insertEntry key value rest

private theorem mem_insertEntry {key : κ} {value : β} {entries : List (κ × β)} {entry : κ × β}
    (sorted : (entries.map Prod.fst).Pairwise (· < ·)) :
    entry ∈ insertEntry key value entries ↔ entry = (key, value) ∨ entry ∈ entries ∧ entry.1 ≠ key := by
  induction entries with
  | nil => simp [insertEntry]
  | cons head rest _ =>
    obtain ⟨above, _⟩ := pairwise_cons.mp sorted
    have greater : ∀ later ∈ rest, head.1 < later.1 :=
      fun later member => above later.1 (mem_map_of_mem member)
    simp only [insertEntry]
    split
    · grind
    · split
      · grind
      · grind

private theorem insertEntry_sorted {entries : List (κ × β)} (sorted : (entries.map Prod.fst).Pairwise (· < ·)) :
    ((insertEntry key value entries).map Prod.fst).Pairwise (· < ·) := by
  induction entries with
  | nil => simp [insertEntry]
  | cons _ _ ih =>
    obtain ⟨above, restSorted⟩ := pairwise_cons.mp sorted
    simp only [insertEntry]
    split
    · next before =>
      refine pairwise_cons.mpr ⟨fun other member => ?_, sorted⟩
      rcases mem_cons.mp member with rfl | member
      · exact before
      · exact lt_trans before (above other member)
    · split
      · next same => exact pairwise_cons.mpr ⟨same ▸ above, restSorted⟩
      · next notBefore different =>
        refine pairwise_cons.mpr ⟨fun other member => ?_, ih restSorted⟩
        obtain ⟨entry, found, rfl⟩ := mem_map.mp member
        rcases (mem_insertEntry restSorted).mp found with rfl | ⟨old, _⟩
        · exact lt_of_le_of_ne (not_lt.mp notBefore) (Ne.symm different)
        · exact above entry.1 (mem_map_of_mem old)

def insert (map : OrderedMap κ β) (key : κ) (value : β) : OrderedMap κ β where
  entries := insertEntry key value map.entries
  sorted := insertEntry_sorted map.sorted

def modify (map : OrderedMap κ β) (key : κ) (update : β → β) : OrderedMap κ β where
  entries := map.entries.map fun entry =>
    if entry.1 = key then (entry.1, update entry.2) else entry
  sorted := by
    have keys : (map.entries.map fun entry =>
        if entry.1 = key then (entry.1, update entry.2) else entry).map Prod.fst = map.entries.map Prod.fst := by
      rw [map_map]
      refine map_congr_left fun entry _ => ?_
      simp only [Function.comp]
      split <;> rfl
    exact keys ▸ map.sorted

def findKey (map : OrderedMap κ β) (test : β → Bool) : Option κ :=
  (map.entries.find? fun entry => test entry.2).map Prod.fst

theorem get_eq_some_iff : map.get key = some value ↔ (key, value) ∈ map.entries := by
  constructor
  · intro found
    obtain ⟨entry, searched, rfl⟩ := Option.map_eq_some_iff.mp found
    have same : entry.1 = key := by simpa using find?_some searched
    exact same ▸ mem_of_find?_eq_some searched
  · intro member
    have distinct : (map.entries.map Prod.fst).Nodup := map.sorted.imp ne_of_lt
    obtain ⟨entry, searched⟩ : ∃ entry, map.entries.find? (fun entry => entry.1 = key) = some entry := by
      refine Option.isSome_iff_exists.mp (find?_isSome.mpr ⟨_, member, by simp⟩)
    have same : entry.1 = key := by simpa using find?_some searched
    have equal := inj_on_of_nodup_map distinct (mem_of_find?_eq_some searched) member same
    simp [get, searched, equal]

theorem mem_values_iff : value ∈ map.values ↔ ∃ key, map.get key = some value := by
  simp [values, get_eq_some_iff]

theorem mem_keys_iff : key ∈ map.keys ↔ (map.get key).isSome := by
  simp only [keys, mem_map, Prod.exists, Option.isSome_iff_exists, get_eq_some_iff]
  constructor
  · rintro ⟨_, value, member, rfl⟩
    exact ⟨value, member⟩
  · rintro ⟨value, member⟩
    exact ⟨key, value, member, rfl⟩

theorem get_insert (map : OrderedMap κ β) (key other : κ) (value : β) :
    (map.insert key value).get other = if other = key then some value else map.get other := by
  refine Option.ext fun found => ?_
  have entry := @mem_insertEntry κ β _ key value map.entries (other, found) map.sorted
  rw [get_eq_some_iff, insert, entry]
  split
  · next same => simp [same, eq_comm]
  · next different => simp [different, get_eq_some_iff]

theorem get_erase (map : OrderedMap κ β) (key other : κ) :
    (map.erase key).get other = if other = key then none else map.get other := by
  refine Option.ext fun _ => ?_
  rw [get_eq_some_iff, erase, mem_filter]
  split
  · next same => simp [same]
  · next different => simp [different, get_eq_some_iff]

theorem mem_keys_insert : other ∈ (map.insert key value).keys ↔ other = key ∨ other ∈ map.keys := by
  rw [mem_keys_iff, mem_keys_iff, get_insert]
  split
  · next same => simp [same]
  · next different => simp [different]

theorem mem_keys_erase : other ∈ (map.erase key).keys ↔ other ≠ key ∧ other ∈ map.keys := by
  rw [mem_keys_iff, mem_keys_iff, get_erase]
  split
  · next same => simp [same]
  · next different => simp [different]

theorem get_modify (map : OrderedMap κ β) (key other : κ) (update : β → β) :
    (map.modify key update).get other =
      if other = key then (map.get key).map update else map.get other := by
  refine Option.ext fun _ => ?_
  rw [get_eq_some_iff]
  simp only [modify, mem_map, Prod.exists]
  split
  · simp only [Option.map_eq_some_iff, get_eq_some_iff]
    grind
  · rw [get_eq_some_iff]
    grind

theorem mem_keys_modify {update : β → β} : other ∈ (map.modify key update).keys ↔ other ∈ map.keys := by
  rw [mem_keys_iff, mem_keys_iff, get_modify]
  split
  · next same => rw [same, Option.isSome_map]
  · rfl

theorem findKey_some (found : map.findKey test = some key) : ∃ value, map.get key = some value ∧ test value := by
  obtain ⟨entry, searched, rfl⟩ := Option.map_eq_some_iff.mp found
  have passes := find?_some searched
  exact ⟨entry.2, get_eq_some_iff.mpr (mem_of_find?_eq_some searched), passes⟩

theorem findKey_none (absent : map.findKey test = none) (present : map.get key = some value) : ¬ test value := by
  have nowhere := find?_eq_none.mp (Option.map_eq_none_iff.mp absent)
  exact nowhere _ (get_eq_some_iff.mp present)

theorem nodup_flatten {α : Type} {map : OrderedMap κ (List α)} (each : ∀ key list, map.get key = some list → list.Nodup)
    (apart : ∀ first second left right, first ≠ second → map.get first = some left →
      map.get second = some right → List.Disjoint left right) :
    map.values.flatten.Nodup := by
  refine List.nodup_flatten.mpr ⟨fun list member => ?_, ?_⟩
  · obtain ⟨key, found⟩ := mem_values_iff.mp member
    exact each key list found
  · refine List.pairwise_map.mpr ((List.pairwise_map.mp map.sorted).imp_of_mem ?_)
    intro left right leftMember rightMember ordered
    exact apart left.1 right.1 _ _ (ne_of_lt ordered) (get_eq_some_iff.mpr leftMember) (get_eq_some_iff.mpr rightMember)

end OrderedMap

end MonkeyOS.Lib
