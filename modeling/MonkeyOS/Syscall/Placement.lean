import Mathlib.Order.Interval.Set.Disjoint
import MonkeyOS.Syscall.Disjointness

/-!
# Where mappings are placed

A mapping that the kernel places itself starts behind every area and every attached
segment, the stack excepted, and in no case below `MAP_AREA_START`.
-/

set_option autoImplicit false

namespace MonkeyOS.Syscall

open Lib Tasks User

private theorem le_foldl {α : Type} {step : Nat → α → Nat} {value : α → Nat}
    (grows : ∀ last item, last ≤ step last item ∧ value item ≤ step last item) (items : List α) (first : Nat) :
    first ≤ items.foldl step first ∧ ∀ item ∈ items, value item ≤ items.foldl step first := by
  induction items generalizing first with
  | nil => exact ⟨le_refl _, List.forall_mem_nil _⟩
  | cons item items ih =>
    obtain ⟨kept, behind⟩ := ih (step first item)
    obtain ⟨earlier, here⟩ := grows first item
    exact ⟨earlier.trans kept, List.forall_mem_cons.mpr ⟨here.trans kept, behind⟩⟩

section Fresh

variable {process : Process} {area : MemArea}

theorem finish_le_getLastFreeAddr (member : area ∈ process.pcb.memset)
    (kind : area.mtype ≠ .Stack) : area.finish ≤ process.getLastFreeAddr := by
  have listed : area ∈ process.pcb.memset.filter fun area => area.mtype ≠ .Stack :=
    List.mem_filter.mpr ⟨member, decide_eq_true kind⟩
  exact ((le_foldl (fun _ _ => ⟨le_max_left _ _, le_max_right _ _⟩) _ 0).2 area listed).trans (le_max_left _ _)

theorem segment_le_getLastFreeAddr {shm : MapedSharedMemory} (member : shm ∈ process.pcb.shms) :
    wrapAdd shm.start shm.size ≤ process.getLastFreeAddr := by
  have value : ∀ (last : Nat) (shm : MapedSharedMemory), last ≤ max (wrapAdd shm.start shm.size) last ∧
      wrapAdd shm.start shm.size ≤ max (wrapAdd shm.start shm.size) last :=
    fun _ _ => ⟨le_max_right _ _, le_max_left _ _⟩
  exact ((le_foldl value _ 0).2 shm member).trans (le_max_right _ _)

/-- The stack of a process ends below the addresses that the kernel hands out. -/
def StackBelow (process : Process) : Prop :=
  ∀ area ∈ process.pcb.memset, area.mtype = .Stack → area.finish ≤ mapAreaStart

theorem finish_le_mmapAddr (stack : StackBelow process) (member : area ∈ process.pcb.memset) :
    area.finish ≤ mmapAddr process 0 := by
  by_cases kind : area.mtype = .Stack
  · exact (stack area member kind).trans (le_max_right _ _)
  · exact (finish_le_getLastFreeAddr member kind).trans (le_max_left _ _)

end Fresh

/-- The range chosen for a mapping without an address meets no area and no attached
segment. The call answers `EINVAL` only if the file it reads does. -/
theorem mmap_placement_fresh {context : MmContext} {taskId : Nat} {space : UserSpace} {len prot flags fd off : Nat}
    (stack : StackBelow space.process)
    (areasFit : ∀ area ∈ space.process.pcb.memset, area.start + area.len < usizeBound)
    (segmentsFit : ∀ shm ∈ space.process.pcb.shms, shm.start + shm.size < usizeBound)
    (fits : mmapAddr space.process 0 + alignup len pageSize < usizeBound) :
    let addr := mmapAddr space.process 0
    let last := addr + alignup len pageSize
    (∀ area ∈ space.process.pcb.memset,
        Disjoint (Set.Ico addr last) (Set.Ico area.start (area.start + area.len))) ∧
      (∀ shm ∈ space.process.pcb.shms, Disjoint (Set.Ico addr last) (Set.Ico shm.start (shm.start + shm.size))) ∧
      ¬ space.process.pcb.memset.overlapping addr last ∧
      ∀ after writes, sysMmap context taskId space 0 len prot flags fd off = some (.error .EINVAL, after, writes) →
        ∃ inode, mmapFile space.process flags fd = some (some inode) ∧
          context.around.files.readat inode off (alignup len pageSize) = .error .EINVAL := by
  have apart : ¬ space.process.pcb.memset.overlapping (mmapAddr space.process 0)
      (mmapAddr space.process 0 + alignup len pageSize) := by
    rintro ⟨area, member, meets⟩
    have behind := finish_le_mmapAddr stack member
    exact meets (.inr ⟨behind, behind.trans (Nat.le_add_right _ _)⟩)
  refine ⟨fun area member => ?_, fun shm member => ?_, apart, fun after writes done => ?_⟩
  · have behind := finish_le_mmapAddr stack member
    rw [MemArea.finish, wrapAdd_eq (areasFit area member)] at behind
    exact Set.Ico_disjoint_Ico.mpr ((min_le_right _ _).trans (behind.trans (le_max_left _ _)))
  · have behind := (segment_le_getLastFreeAddr member).trans (le_max_left _ mapAreaStart)
    rw [wrapAdd_eq (segmentsFit shm member)] at behind
    exact Set.Ico_disjoint_Ico.mpr ((min_le_right _ _).trans (behind.trans (le_max_left _ _)))
  · have room : makeRoom context space (mmapAddr space.process 0)
        (wrapAdd (mmapAddr space.process 0) (alignup len pageSize)) = (space, []) := by
      rw [wrapAdd_eq fits, makeRoom, if_neg apart]
    obtain ⟨file, named, outcome⟩ := sysMmap_outcome done
    generalize answered : Except.error Errno.EINVAL = answer at outcome
    cases outcome with
    | empty | anonymous | beyond | refused => cases answered
    | overlaps _ meets => exact absurd (wrapAdd_eq fits ▸ meets) apart
    | @read inode middle answer after undone maps reading =>
      subst answered
      refine ⟨inode, named, ?_⟩
      rw [room, context.written_nil, readMapped] at reading
      split at reading
      · next errno failed =>
        cases reading
        exact failed
      · obtain ⟨stored, -, ⟨⟩⟩ := Option.bind_eq_some_iff.mp reading

def furnished : UserSpace :=
  { blank with
    process := { blank.process with pcb := { blank.process.pcb with
      memset :=
        [{ mtype := .Stack, mtrackers := [], file := none, offset := 0, start := 0x70000000, len := 0x10000000 },
          { mtype := .Mmap, mtrackers := [], file := none, offset := 0, start := mapAreaStart, len := pageSize }]
      shms := [{ key := 1, mem := [0x90000000], start := 0x200004000, size := pageSize }] } } }

theorem mmap_placement_fresh_furnished :
    mmapAddr furnished.process 0 = 0x200005000 ∧
      ¬ furnished.process.pcb.memset.overlapping 0x200005000 (0x200005000 + 0x2000) := by
  have addr : mmapAddr furnished.process 0 = 0x200005000 := by decide
  obtain ⟨-, -, apart, -⟩ := @mmap_placement_fresh tinyContext 1 furnished 0x1001 3 0x22 0 0
    (by unfold StackBelow; decide) (by decide) (by decide) (by decide)
  exact ⟨addr, addr ▸ apart⟩

end MonkeyOS.Syscall
