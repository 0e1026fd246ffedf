import Mathlib.Data.List.Basic

/-! Flat views of storage split into pages of equal size. A page is a function
of the offset inside it; the view reads `fill` where no page is present, so
that appending blank pages does not show. -/

set_option autoImplicit false

namespace MonkeyOS.Lib

open List Nat

variable {β : Type}

def overlay (cells : Nat → β) (start : Nat) (values : List β) : Nat → β := fun index =>
  if index < start then cells index else (values[index - start]?).getD (cells index)

def window (cells : Nat → β) (start count : Nat) : List β :=
  (List.range count).map fun index => cells (start + index)

def flat (size : Nat) (fill : β) (pages : List (Nat → β)) : Nat → β := fun index =>
  ((pages[index / size]?).getD fun _ => fill) (index % size)

@[simp] theorem length_window (cells : Nat → β) (start count : Nat) : (window cells start count).length = count := by
  simp [window]

theorem window_append (cells : Nat → β) (start first second : Nat) :
    window cells start first ++ window cells (start + first) second = window cells start (first + second) := by
  simp [window, range_add, Function.comp_def, Nat.add_assoc]

variable {start index size : Nat} {cells : Nat → β} {values : List β} {fill : β}

theorem window_congr {left right : Nat → β} {count : Nat}
    (same : ∀ index, start ≤ index → index < start + count → left index = right index) :
    window left start count = window right start count := by
  refine map_congr_left fun index member => ?_
  have bound := mem_range.mp member
  exact same (start + index) (by omega) (by omega)

@[simp] theorem overlay_nil (cells : Nat → β) (start : Nat) : overlay cells start [] = cells := by
  funext index
  simp [overlay]

theorem overlay_before (before : index < start) : overlay cells start values index = cells index := by
  simp [overlay, before]

theorem overlay_after (after : start + values.length ≤ index) : overlay cells start values index = cells index := by
  have missing : values[index - start]? = none := getElem?_eq_none (by omega)
  simp [overlay, missing]

theorem overlay_inside {cells : Nat → β} {start index : Nat} {values : List β}
    (bound : index < values.length) : overlay cells start values (start + index) = values[index] := by
  have ordered : ¬ start + index < start := by omega
  simp [overlay, ordered, bound]

theorem window_overlay (cells : Nat → β) (start : Nat) (values : List β) :
    window (overlay cells start values) start values.length = values := by
  refine ext_getElem (length_window ..) fun _ _ bound => ?_
  simp only [window, getElem_map, getElem_range, overlay_inside bound]

theorem overlay_eq_self_iff : overlay cells start values = cells ↔ window cells start values.length = values := by
  constructor
  · intro same
    rw [← same, window_overlay]
  · intro seen
    funext index
    by_cases before : index < start
    · exact overlay_before before
    by_cases after : start + values.length ≤ index
    · exact overlay_after after
    obtain ⟨inner, rfl⟩ := Nat.exists_eq_add_of_le (Nat.le_of_not_lt before)
    have bound : inner < values.length := by omega
    rw [overlay_inside bound]
    simp [← getElem_of_eq seen (by simpa using bound), window]

theorem overlay_overlay (cells : Nat → β) (start : Nat) (first second : List β) :
    overlay (overlay cells start first) (start + first.length) second = overlay cells start (first ++ second) := by
  funext index
  by_cases before : index < start
  · have earlier : index < start + first.length := by omega
    simp [overlay, before, earlier]
  · by_cases within : index < start + first.length
    · have bound : index - start < first.length := by omega
      simp [overlay, before, within, getElem?_append_left bound]
    · have bound : first.length ≤ index - start := by omega
      have missing : first[index - start]? = none := getElem?_eq_none bound
      simp [overlay, before, within, getElem?_append_right bound, missing, Nat.sub_sub]

theorem window_page {size : Nat} {fill : β} {pages : List (Nat → β)} {page : Nat → β}
    {offset count : Nat} (found : pages[offset / size]? = some page)
    (inside : offset % size + count ≤ size) :
    window page (offset % size) count = window (flat size fill pages) offset count := by
  refine map_congr_left fun index member => ?_
  have bound := mem_range.mp member
  have split := Nat.div_add_mod offset size
  have place : offset + index = size * (offset / size) + (offset % size + index) := by omega
  have positive : 0 < size := by omega
  have low : offset % size + index < size := by omega
  simp only [flat, place, Nat.mul_add_div positive, Nat.mul_add_mod, Nat.div_eq_of_lt low,
    Nat.mod_eq_of_lt low, Nat.add_zero, found, Option.getD_some]

theorem flat_modify_overlay {size : Nat} {fill : β} {pages : List (Nat → β)}
    {offset : Nat} {values : List β} (present : offset / size < pages.length)
    (inside : offset % size + values.length ≤ size) (positive : 0 < size) :
    flat size fill (pages.modify (offset / size) fun page => overlay page (offset % size) values) =
      overlay (flat size fill pages) offset values := by
  funext index
  have split := div_add_mod offset size
  have indexSplit := div_add_mod index size
  have low := mod_lt index positive
  simp only [flat, getElem?_modify]
  by_cases same : offset / size = index / size
  · obtain ⟨page, found⟩ : ∃ page, pages[index / size]? = some page :=
      ⟨_, getElem?_eq_getElem (same ▸ present)⟩
    have shift : index % size - offset % size = index - offset := by
      rw [same] at split
      omega
    have order : index % size < offset % size ↔ index < offset := by
      rw [same] at split
      omega
    have cell : flat size fill pages index = page (index % size) := by simp [flat, found]
    simp [same, found, overlay, order, shift, cell]
  · have outside : index < offset ∨ offset + values.length ≤ index := by
      rcases Nat.lt_or_gt_of_ne same with less | greater
      · right
        have scaled := mul_le_mul_left size less
        rw [mul_succ] at scaled
        omega
      · left
        have scaled := mul_le_mul_left size greater
        rw [mul_succ] at scaled
        omega
    rcases outside with before | after
    · simp [same, overlay_before before, flat]
    · simp [same, overlay_after after, flat]

theorem flat_append_blank (pages : List (Nat → β)) (count : Nat) :
    flat size fill (pages ++ List.replicate count fun _ => fill) = flat size fill pages := by
  funext index
  simp only [flat]
  by_cases present : index / size < pages.length
  · rw [getElem?_append_left present]
  · rw [getElem?_append_right (by omega), getElem?_eq_none (by omega : pages.length ≤ index / size), getElem?_replicate]
    split <;> rfl

theorem flat_beyond {pages : List (Nat → β)} (positive : 0 < size) (beyond : pages.length * size ≤ index) :
    flat size fill pages index = fill := by
  have missing : pages.length ≤ index / size := (le_div_iff_mul_le positive).mpr beyond
  simp [flat, getElem?_eq_none missing]

end MonkeyOS.Lib
