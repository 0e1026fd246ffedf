import Mathlib.Data.List.Basic

/-! A store that holds several copies of each item and gives them out in a fixed order. -/

set_option autoImplicit false

namespace MonkeyOS.Lib

open List

variable {α : Type} {items : List α} {number left : α → Nat} {item : α} {before : α → α → Prop}

def copies (items : List α) (number : α → Nat) : List α :=
  items.flatMap fun item => List.replicate (number item) item

@[simp] theorem copies_cons :
    copies (item :: items) number = List.replicate (number item) item ++ copies items number :=
  flatMap_cons

theorem copies_congr (same : ∀ item ∈ items, number item = left item) : copies items number = copies items left := by
  induction items with
  | nil => rfl
  | cons _ items ih =>
    obtain ⟨first, rest⟩ := forall_mem_cons.mp same
    rw [copies_cons, copies_cons, first, ih rest]

theorem copies_eq_nil (empty : ∀ item ∈ items, number item = 0) : copies items number = [] := by
  induction items with
  | nil => rfl
  | cons _ items ih =>
    obtain ⟨first, rest⟩ := forall_mem_cons.mp empty
    rw [copies_cons, first, ih rest]
    rfl

theorem mem_of_mem_copies (member : item ∈ copies items number) : item ∈ items := by
  obtain ⟨_, _, repeated⟩ := mem_flatMap.mp member
  rwa [eq_of_mem_replicate repeated]

theorem count_copies [DecidableEq α] (distinct : items.Nodup) (member : item ∈ items) :
    (copies items number).count item = number item := by
  induction items with
  | nil => cases member
  | cons head items ih =>
    obtain ⟨fresh, rest⟩ := nodup_cons.mp distinct
    rw [copies_cons, count_append, count_replicate]
    rcases mem_cons.mp member with rfl | later
    · have none : (copies items number).count item = 0 :=
        count_eq_zero.mpr fun found => fresh (mem_of_mem_copies found)
      simp [none]
    · have other : head ≠ item := fun same => fresh (same ▸ later)
      simp [other, ih rest later]

theorem pairwise_copies (reflexive : ∀ item, before item item)
    (ordered : items.Pairwise before) : (copies items number).Pairwise before := by
  induction items with
  | nil => exact .nil
  | cons head items ih =>
    obtain ⟨first, rest⟩ := pairwise_cons.mp ordered
    refine pairwise_append.mpr ⟨pairwise_replicate.mpr (.inr (reflexive head)), ih rest, ?_⟩
    intro _ repeated later member
    rw [eq_of_mem_replicate repeated]
    exact first later (mem_of_mem_copies member)

theorem copies_eq_cons (irreflexive : ∀ item, ¬ before item item)
    (ordered : items.Pairwise before) (member : item ∈ items)
    (first : ∀ other ∈ items, before other item → number other = 0)
    (fewer : number item = left item + 1) (same : ∀ other ∈ items, other ≠ item → left other = number other) :
    copies items number = item :: copies items left := by
  induction items with
  | nil => cases member
  | cons _ items ih =>
    obtain ⟨ahead, rest⟩ := pairwise_cons.mp ordered
    obtain ⟨headFirst, restFirst⟩ := forall_mem_cons.mp first
    obtain ⟨headSame, restSame⟩ := forall_mem_cons.mp same
    rw [copies_cons, copies_cons]
    rcases mem_cons.mp member with rfl | later
    · have behind : copies items number = copies items left := copies_congr fun other listed =>
        (restSame other listed fun equal => irreflexive item (equal ▸ ahead other listed)).symm
      rw [fewer, behind]
      rfl
    · have precedes := ahead item later
      have none := headFirst precedes
      rw [headSame fun equal => irreflexive item (equal ▸ precedes), none, ih rest later restFirst restSame]
      rfl

end MonkeyOS.Lib
