import MonkeyOS.Lib.Separate
import MonkeyOS.Tasks.MemSetProperties
import MonkeyOS.User.Layout

/-!
# The ranges of a process

Areas and attached segments as sets of addresses, and what the memory calls,
faults and forks do to them.
-/

set_option autoImplicit false

namespace MonkeyOS

open Lib Set

namespace Tasks

def MemArea.range (area : MemArea) : Set Nat := Set.Ico area.start area.finish

def MapedSharedMemory.range (shm : MapedSharedMemory) : Set Nat :=
  Set.Ico shm.start (wrapAdd shm.start shm.size)

def MemSet.ranges (memset : MemSet) : List (Set Nat) := memset.map MemArea.range

def ProcessControlBlock.ranges (pcb : ProcessControlBlock) : List (Set Nat) :=
  pcb.memset.ranges ++ pcb.shms.map MapedSharedMemory.range

theorem MemSet.ranges_of_layout {memset other : MemSet} (same : other.layout = memset.layout) :
    other.ranges = memset.ranges := by
  have bare : ∀ memset : MemSet, memset.ranges = memset.layout.map MemArea.range := by
    intro memset
    simp only [ranges, layout, List.map_map]
    rfl
  rw [bare, bare, same]

/-! ## Cutting a range out -/

namespace MemArea

variable {area : MemArea} {start last : Nat} {cut : Cut}

private theorem range_outside {piece : MemArea}
    (covers : ∀ address, piece.contains address → area.contains address ∧ ¬ within start last address) :
    piece.range ⊆ area.range ∧ Disjoint (Set.Ico start last) piece.range :=
  ⟨fun address inside => (covers address inside).1,
    disjoint_left.mpr fun address cut inside => (covers address inside).2 cut⟩

private theorem piece_outside (whole : cut.split = none)
    (covers : ∀ address, cut.area.contains address → area.contains address ∧ ¬ within start last address) :
    Separate (cut.pieces.map range) ∧
      ∀ piece ∈ cut.pieces, piece.range ⊆ area.range ∧ Disjoint (Set.Ico start last) piece.range := by
  simp only [Cut.pieces, whole, Option.toList_none, List.append_nil]
  split
  · simpa using range_outside covers
  · simp

private theorem hole_outside {back : MemArea} (ordered : start ≤ last)
    (starts : area.contains start) (ends : area.contains last) (split : cut.split = some back)
    (front : cut.area.range = Set.Ico area.start (wrapAdd area.start (start - area.start)))
    (rear : back.range = Set.Ico last (wrapAdd last (area.finish - last))) :
    Separate (cut.pieces.map range) ∧
      ∀ piece ∈ cut.pieces, piece.range ⊆ area.range ∧ Disjoint (Set.Ico start last) piece.range := by
  rw [finish_front starts] at front
  rw [finish_back (le_of_lt ends.2)] at rear
  have frontCut : cut.area.range ⊆ area.range ∧ Disjoint (Set.Ico start last) cut.area.range := by
    refine range_outside fun address inside => ?_
    have early : address ∈ Set.Ico area.start start := front ▸ inside
    have bounds := mem_Ico.mp early
    omega
  have rearCut : back.range ⊆ area.range ∧ Disjoint (Set.Ico start last) back.range := by
    refine range_outside fun address inside => ?_
    have late : address ∈ Set.Ico last area.finish := rear ▸ inside
    have bounds := mem_Ico.mp late
    omega
  have apart : Disjoint cut.area.range back.range := by
    rw [front, rear]
    exact disjoint_left.mpr fun address early late => by
      have before := mem_Ico.mp early
      have after := mem_Ico.mp late
      omega
  simp only [Cut.pieces, split, Option.toList_some]
  split
  · simp [frontCut, rearCut, apart]
  · simp [rearCut]

/-- Whatever the area, the pieces that stay are separate parts of it outside the range. -/
theorem remains_range (ordered : start ≤ last) :
    Separate ((area.remains start last).map range) ∧
      ∀ piece ∈ area.remains start last, piece.range ⊆ area.range ∧ Disjoint (Set.Ico start last) piece.range := by
  by_cases splits : area.Splits start last
  · rw [remains, sub, if_neg (not_not.mpr splits.1), if_pos splits.2]
    exact hole_outside ordered splits.2.1 splits.2.2 rfl rfl rfl
  · refine piece_outside ?_ fun address => (sub_contains ordered splits _ address).mp
    unfold sub
    split
    · rfl
    next touched =>
      rw [if_neg fun ends => splits ⟨not_not.mp touched, ends⟩]
      split <;> rfl

end MemArea

theorem MemSet.fragments_remains {start last : Nat} (ordered : start ≤ last) (memset : MemSet) :
    Fragments (MemSet.ranges (memset.flatMap fun area => area.remains start last)) memset.ranges := by
  induction memset with
  | nil => exact .nil
  | cons area _ ih =>
    obtain ⟨separate, outside⟩ := MemArea.remains_range ordered
    simp only [MemSet.ranges, List.flatMap_cons, List.map_append, List.map_cons] at ih ⊢
    refine .cons separate (fun _ member => ?_) ih
    obtain ⟨piece, found, rfl⟩ := List.mem_map.mp member
    exact (outside piece found).1

theorem MemSet.remains_clear {start last : Nat} (ordered : start ≤ last) (memset : MemSet) :
    ∀ set ∈ MemSet.ranges (memset.flatMap fun area => area.remains start last), Disjoint (Set.Ico start last) set := by
  intro _ member
  obtain ⟨piece, found, rfl⟩ := List.mem_map.mp member
  obtain ⟨area, _, remains⟩ := List.mem_flatMap.mp found
  exact ((MemArea.remains_range ordered).2 piece remains).2

variable {after pcb : ProcessControlBlock}

theorem separate_of_layout (separate : Separate pcb.ranges) (shms : after.shms = pcb.shms)
    (layout : after.memset.layout = pcb.memset.layout) :
    Separate after.ranges := by
  unfold ProcessControlBlock.ranges at *
  rwa [shms, MemSet.ranges_of_layout layout]

theorem ranges_of_area {area : MemArea} (shms : after.shms = pcb.shms)
    (layout : after.memset.layout = pcb.memset.layout ++ [area.bare]) :
    after.ranges = pcb.memset.ranges ++ [area.range] ++ pcb.shms.map MapedSharedMemory.range := by
  have same : after.memset.layout = (pcb.memset ++ [area]).layout := by
    simpa [MemSet.layout] using layout
  rw [ProcessControlBlock.ranges, shms, MemSet.ranges_of_layout same]
  simp [MemSet.ranges]

theorem separate_of_area {pcb after : ProcessControlBlock} {area : MemArea}
    (separate : Separate pcb.ranges) (shms : after.shms = pcb.shms)
    (layout : after.memset.layout = pcb.memset.layout ++ [area.bare])
    (clear : ∀ set ∈ pcb.ranges, Disjoint area.range set) : Separate after.ranges := by
  rw [ranges_of_area shms layout]
  exact separate.insert clear

end Tasks

namespace User

open Tasks

variable {around : Surroundings} {taskId vaddr : Nat}

theorem UserSpace.subArea_clear (space : UserSpace) {start last : Nat} (ordered : start ≤ last) :
    ∀ set ∈ (space.subArea around start last).1.process.pcb.memset.ranges, Disjoint (Set.Ico start last) set := by
  have same := (@MemSet.subArea_perm start last (strongCount around space.process)
    space.process.pcb.memset space.process.pageTable).map MemArea.range
  exact fun set member => MemSet.remains_clear ordered space.process.pcb.memset set (same.mem_iff.mp member)

theorem UserSpace.subArea_separate {space : UserSpace} {start last : Nat} (ordered : start ≤ last)
    (separate : Separate space.process.pcb.ranges) :
    let after := (space.subArea around start last).1
    after.process.pcb.shms = space.process.pcb.shms ∧ Separate after.process.pcb.ranges ∧
      ∀ set ∈ after.process.pcb.memset.ranges, Disjoint (Set.Ico start last) set := by
  have same := (@MemSet.subArea_perm start last (strongCount around space.process)
    space.process.pcb.memset space.process.pageTable).map MemArea.range
  have fragments := MemSet.fragments_remains ordered space.process.pcb.memset
  refine ⟨rfl, ?_, space.subArea_clear ordered⟩
  have kept := (fragments.append (Fragments.refl
    (space.process.pcb.shms.map MapedSharedMemory.range))).separate separate
  exact kept.perm (same.symm.append_right _)

end User

end MonkeyOS
