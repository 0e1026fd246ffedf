import Mathlib.Data.List.Pairwise
import Mathlib.Data.Set.Lattice
import Mathlib.Order.CompletePartialOrder

/-! Lists of sets no two of which meet, and how they change: sets are replaced by
separate parts of them, and sets clear of the others are added. -/

set_option autoImplicit false

namespace MonkeyOS.Lib

variable {α : Type}

abbrev Separate (sets : List (Set α)) : Prop := sets.Pairwise Disjoint

theorem Separate.perm {sets other : List (Set α)} (separate : Separate sets) (same : sets.Perm other) :
    Separate other :=
  (same.pairwise_iff fun apart => apart.symm).mp separate

theorem Separate.insert {front back : List (Set α)} {added : Set α} (separate : Separate (front ++ back))
    (clear : ∀ set ∈ front ++ back, Disjoint added set) : Separate (front ++ [added] ++ back) := by
  have first : Separate (added :: (front ++ back)) := List.pairwise_cons.mpr ⟨clear, separate⟩
  refine first.perm ?_
  rw [List.append_assoc]
  exact List.perm_middle.symm

theorem Separate.unique {ι : Type} {items : List ι} {range : ι → Set α} (separate : Separate (items.map range))
    {left right : ι} (leftMember : left ∈ items) (rightMember : right ∈ items) {element : α}
    (inLeft : element ∈ range left) (inRight : element ∈ range right) : left = right := by
  by_contra different
  have apart := (List.pairwise_map.mp separate).forall leftMember rightMember different
  exact Set.disjoint_left.mp apart inLeft inRight

inductive Fragments : List (Set α) → List (Set α) → Prop where
  | nil : Fragments [] []
  | cons {set : Set α} {sets parts rest : List (Set α)} (separate : Separate parts)
      (inside : ∀ part ∈ parts, part ⊆ set) (later : Fragments rest sets) :
      Fragments (parts ++ rest) (set :: sets)

namespace Fragments

theorem refl (sets : List (Set α)) : Fragments sets sets := by
  induction sets with
  | nil => exact .nil
  | cons set sets ih => exact .cons (List.pairwise_singleton _ set) (by simp) ih

theorem append {front back front' back' : List (Set α)} (left : Fragments front' front)
    (right : Fragments back' back) : Fragments (front' ++ back') (front ++ back) := by
  induction left with
  | nil => exact right
  | cons separate inside _ ih => rw [List.append_assoc]; exact .cons separate inside ih

variable {parts sets : List (Set α)} (fragments : Fragments parts sets)
include fragments

theorem subset {part : Set α} (member : part ∈ parts) : ∃ set ∈ sets, part ⊆ set := by
  induction fragments with
  | nil => cases member
  | cons _ inside _ ih =>
    rcases List.mem_append.mp member with here | later
    · exact ⟨_, by simp, inside part here⟩
    · obtain ⟨set, found, contained⟩ := ih later
      exact ⟨set, by simp [found], contained⟩

theorem clear {other : Set α} (apart : ∀ set ∈ sets, Disjoint other set) : ∀ part ∈ parts, Disjoint other part := by
  intro _ member
  obtain ⟨set, found, contained⟩ := fragments.subset member
  exact (apart set found).mono_right contained

theorem separate (apart : Separate sets) : Separate parts := by
  induction fragments with
  | nil => exact .nil
  | @cons _ _ _ _ separate inside later ih =>
    obtain ⟨first, others⟩ := List.pairwise_cons.mp apart
    refine List.pairwise_append.mpr ⟨separate, ih others, fun part member other found => ?_⟩
    exact (later.clear first other found).mono_left (inside part member)

end Fragments

end MonkeyOS.Lib
