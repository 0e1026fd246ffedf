import MonkeyOS.User.AddressSpace

/-! Cutting a range out of the areas takes exactly its addresses away. No
alignment is needed, and the range may be empty. -/

set_option autoImplicit false

namespace MonkeyOS.Tasks

open Lib MemArea

namespace MemArea

variable {area piece : MemArea} {start last : Nat}

theorem remains_mtype (member : piece ∈ area.remains start last) : piece.mtype = area.mtype := by
  unfold remains sub at member
  split at member
  · cases Cut.mem_pieces member with
    | inl front => rw [front.1]
    | inr back => cases back
  · split at member
    · cases Cut.mem_pieces member with
      | inl front => rw [front.1]
      | inr back => cases back; rfl
    · split at member
      · cases Cut.mem_pieces member with
        | inl front => rw [front.1]
        | inr back => cases back
      · cases Cut.mem_pieces member with
        | inl front =>
          rw [front.1]
          split
          · rfl
          · split <;> rfl
        | inr back => cases back

theorem remains_positive (member : piece ∈ area.remains start last) : 0 < piece.len := by
  cases Cut.mem_pieces member with
  | inl front =>
    rw [front.1]
    exact pos_of_ne_zero front.2
  | inr back =>
    unfold sub at back
    split at back
    · cases back
    · split at back
      · next hole =>
        cases back
        exact Nat.sub_pos_of_lt hole.2.2
      · split at back <;> cases back

theorem remains_contains (bounded : area.start + area.len < usizeBound) (ordered : start ≤ last) {address : Nat}
    (inside : area.contains address) (outside : ¬ within start last address) :
    ∃ piece ∈ area.remains start last, piece.contains address := by
  have first : ∀ {cut : Cut}, cut.area.contains address → ∃ piece ∈ cut.pieces, piece.contains address := by
    intro cut here
    refine ⟨cut.area, List.mem_append_left _ ?_, here⟩
    rw [if_pos (length_ne_zero_of_contains here)]
    exact List.mem_singleton_self _
  by_cases splits : area.Splits start last
  · have finish : area.finish = area.start + area.len := wrapAdd_eq bounded
    have front := wrapAdd_eq (show area.start + (start - area.start) < usizeBound by omega)
    have rear := wrapAdd_eq (show last + (area.finish - last) < usizeBound by omega)
    rw [remains, sub, if_neg (not_not.mpr splits.1), if_pos splits.2]
    by_cases early : address < start
    · refine first ?_
      change within area.start (wrapAdd area.start (start - area.start)) address
      omega
    · refine ⟨_, List.mem_append_right _ (List.mem_singleton_self _), ?_⟩
      change within last (wrapAdd last (area.finish - last)) address
      omega
  · exact first ((sub_contains ordered splits _ _).mpr ⟨inside, outside⟩)

end MemArea

namespace MemSet

/-- The areas hold exactly what they held outside the range, each address with
its type, and are again nonempty and apart. -/
structure Clears (before : MemSet) (start last : Nat) (after : MemSet) : Prop where
  covers : ∀ address, (∃ area ∈ after, area.contains address) ↔
    (∃ area ∈ before, area.contains address) ∧ ¬ within start last address
  mtypes : ∀ address, ∀ area ∈ before, ∀ piece ∈ after, area.contains address → piece.contains address →
    piece.mtype = area.mtype
  separate : Separate after.ranges
  positive : ∀ area ∈ after, 0 < area.len

theorem subArea_clears {memset : MemSet} {start last : Nat} {table : PageTable} {strongCount : Nat → Nat}
    (separate : Separate memset.ranges) (bounded : ∀ area ∈ memset, area.start + area.len < usizeBound)
    (ordered : start ≤ last) :
    Clears memset start last (subArea strongCount memset start last table).1 := by
  have same := @subArea_perm start last strongCount memset table
  have source : ∀ {piece}, piece ∈ (subArea strongCount memset start last table).1 →
      ∃ area ∈ memset, piece ∈ area.remains start last := fun member =>
    List.mem_flatMap.mp (same.mem_iff.mp member)
  have parts := fun area => (@remains_range area start last ordered).2
  constructor
  · intro address
    constructor
    · rintro ⟨piece, member, inside⟩
      obtain ⟨area, found, remains⟩ := source member
      obtain ⟨within_area, outside⟩ := parts area piece remains
      exact ⟨⟨area, found, within_area inside⟩, fun cut => Set.disjoint_left.mp outside cut inside⟩
    · rintro ⟨⟨area, found, inside⟩, outside⟩
      obtain ⟨piece, remains, contained⟩ := remains_contains (bounded area found) ordered inside outside
      exact ⟨piece, same.mem_iff.mpr (List.mem_flatMap.mpr ⟨area, found, remains⟩), contained⟩
  · intro address area found piece member inside contained
    obtain ⟨owner, ownerFound, remains⟩ := source member
    have owned := (parts owner piece remains).1 contained
    rw [separate.unique found ownerFound inside owned]
    exact remains_mtype remains
  · exact ((fragments_remains ordered memset).separate separate).perm (same.map range).symm
  · intro piece member
    obtain ⟨area, _, remains⟩ := source member
    exact remains_positive remains

def neighbours : MemSet :=
  [{ mtype := .Mmap, mtrackers := [], file := none, offset := 0, start := 0x1000, len := 0x3000 },
    { mtype := .Stack, mtrackers := [], file := none, offset := 0, start := 0x4000, len := 0x1000 }]

theorem subArea_clears_neighbours :
    Clears neighbours 0x2000 0x4800 (subArea (fun _ => 1) neighbours 0x2000 0x4800 PageTable.empty).1 := by
  refine subArea_clears (List.pairwise_pair.mpr (Set.disjoint_left.mpr fun address left right => ?_)) (by decide)
    (by decide)
  have below : address < 0x4000 := left.2
  have above : 0x4000 ≤ address := right.1
  omega

end MemSet

end MonkeyOS.Tasks
