import MonkeyOS.Runtime.FrameProperties

/-! Histories of requests and releases against one allocator. The ledger of
handed-out frames is not kernel state: it records what the callers hold. -/

set_option autoImplicit false

namespace MonkeyOS.Runtime

open Lib List FrameAllocator FrameRegionMap

inductive FrameOp where
  | alloc
  | allocMuch (pages : Nat)
  | dealloc (paddr : Nat)

structure FrameState where
  allocator : FrameAllocator
  held : List Nat

namespace FrameState

def boot (regions : List (Nat × Nat)) : FrameState :=
  { allocator := build regions, held := [] }

def apply (state : FrameState) : FrameOp → FrameState
  | .alloc =>
    match state.allocator.alloc with
    | some (frame, allocator) => { allocator, held := frame :: state.held }
    | none => state
  | .allocMuch pages =>
    match state.allocator.allocMuch pages with
    | some (frames, allocator) => { allocator, held := frames ++ state.held }
    | none => state
  | .dealloc paddr =>
    { allocator := state.allocator.dealloc paddr, held := state.held.erase paddr }

/-- Callers give back only what they hold. -/
inductive Step : FrameState → FrameOp → FrameState → Prop where
  | alloc {state} : Step state .alloc (state.apply .alloc)
  | allocMuch {state pages} : Step state (.allocMuch pages) (state.apply (.allocMuch pages))
  | dealloc {state paddr} : paddr ∈ state.held → Step state (.dealloc paddr) (state.apply (.dealloc paddr))

/-- Every held frame is registered and marked, and the free pages make up the rest. -/
structure Owned (regions : List (Nat × Nat)) (state : FrameState) : Prop where
  bounds : state.allocator.bounds = regions
  wellFormed : state.allocator.WellFormed
  distinct : state.held.Nodup
  registered : ∀ frame ∈ state.held, state.allocator.Registered frame
  marked : ∀ frame ∈ state.held, ¬ state.allocator.Free frame
  count : state.allocator.getFreePageCount + state.held.length =
    (regions.map fun region => (region.2 - region.1) / pageSize).sum

end FrameState

/-! ## Frames in use -/

namespace FrameAllocator

variable {allocator after : FrameAllocator} {finish start frame : Nat} {held frames : List Nat}

/-- The frames are used, each of them once. -/
structure InUse (allocator : FrameAllocator) (held : List Nat) : Prop where
  wellFormed : allocator.WellFormed
  distinct : held.Nodup
  registered : ∀ frame ∈ held, allocator.Registered frame
  marked : ∀ frame ∈ held, ¬ allocator.Free frame

theorem InUse.perm {others : List Nat} (inUse : allocator.InUse held) (same : held.Perm others) :
    allocator.InUse others where
  wellFormed := inUse.wellFormed
  distinct := same.nodup_iff.mp inUse.distinct
  registered frame member := inUse.registered frame (same.mem_iff.mpr member)
  marked frame member := inUse.marked frame (same.mem_iff.mpr member)

theorem InUse.grant (inUse : allocator.InUse held) (granted : allocator.Grants frames after) :
    after.InUse (frames ++ held) := by
  refine ⟨granted.wellFormed, ?_, fun frame member => ?_, fun frame member free => ?_⟩
  · refine nodup_append.mpr ⟨granted.distinct, inUse.distinct, ?_⟩
    rintro frame new _ old rfl
    exact inUse.marked frame old (granted.free frame new)
  · rcases mem_append.mp member with new | old
    · exact (granted.free frame new).registered.of_bounds granted.bounds
    · exact (inUse.registered frame old).of_bounds granted.bounds
  · obtain ⟨before, outside⟩ := (granted.rest frame).mp free
    rcases mem_append.mp member with new | old
    · exact outside new
    · exact inUse.marked frame old before

theorem InUse.dealloc (inUse : allocator.InUse (frame :: held)) :
    (allocator.dealloc frame).InUse held ∧
      ∀ other, (allocator.dealloc frame).Free other ↔ allocator.Free other ∨ other = frame := by
  obtain ⟨bounds, wellFormed, free, -⟩ := dealloc_returns inUse.wellFormed
    (inUse.registered frame mem_cons_self) (inUse.marked frame mem_cons_self)
  obtain ⟨different, distinct⟩ := nodup_cons.mp inUse.distinct
  refine ⟨⟨wellFormed, distinct, fun other member => ?_, fun other member isFree => ?_⟩, free⟩
  · exact (inUse.registered other (mem_cons_of_mem _ member)).of_bounds bounds
  · rcases (free other).mp isFree with before | rfl
    · exact inUse.marked other (mem_cons_of_mem _ member) before
    · exact different member

theorem InUse.release (inUse : allocator.InUse (frames ++ held)) :
    (frames.foldl FrameAllocator.dealloc allocator).InUse held ∧
      ∀ other, (frames.foldl FrameAllocator.dealloc allocator).Free other ↔ allocator.Free other ∨ other ∈ frames := by
  induction frames generalizing allocator with
  | nil => exact ⟨inUse, fun other => by simp⟩
  | cons _ frames ih =>
    obtain ⟨kept, free⟩ := inUse.dealloc
    obtain ⟨left, returned⟩ := ih kept
    exact ⟨left, fun other => by rw [foldl_cons, returned, free, mem_cons, or_assoc]⟩

/-! ## The booted allocator -/

theorem build_eq_map (regions : List (Nat × Nat)) :
    build regions = regions.map fun region => new region.1 region.2 := by
  have fold : ∀ (rest : List (Nat × Nat)) (done : FrameAllocator),
      rest.foldl (fun allocator region => addMemoryRegion allocator region.1 region.2) done =
        done ++ rest.map fun region => new region.1 region.2 := by
    intro rest
    induction rest with
    | nil => simp
    | cons region rest ih =>
      intro done
      rw [foldl_cons, ih, addMemoryRegion, map_cons, append_assoc, singleton_append]
  simpa [build] using fold regions []

theorem addMemoryRegion_wellFormed (wellFormed : allocator.WellFormed) (formed : (new start finish).WellFormed)
    (apart : ∀ region ∈ allocator, Apart region (.new start finish)) :
    (allocator.addMemoryRegion start finish).WellFormed := by
  refine ⟨fun region member => ?_, ?_⟩
  · rcases mem_append.mp member with old | new
    · exact wellFormed.regions region old
    · rw [mem_singleton.mp new]
      exact formed
  · refine pairwise_append.mpr ⟨wellFormed.apart, pairwise_singleton _ _, fun region old _ new => ?_⟩
    rw [mem_singleton.mp new]
    exact apart region old

theorem addMemoryRegion_registered (registered : allocator.Registered frame) :
    (allocator.addMemoryRegion start finish).Registered frame := by
  obtain ⟨region, member, page⟩ := registered
  exact ⟨region, mem_append_left _ member, page⟩

theorem addMemoryRegion_free (free : (allocator.addMemoryRegion start finish).Free frame) :
    allocator.Free frame ∨ (new start finish).Registered frame := by
  obtain ⟨region, member, index, page, clear⟩ := free
  rcases mem_append.mp member with old | new
  · exact .inl ⟨region, old, index, page, clear⟩
  · rw [mem_singleton.mp new] at page
    exact .inr ⟨index, page⟩

end FrameAllocator

namespace FrameState

theorem boot_owned {regions : List (Nat × Nat)}
    (aligned : ∀ region ∈ regions, region.1 % pageSize = 0 ∧ region.2 % pageSize = 0)
    (ordered : ∀ region ∈ regions, region.1 ≤ region.2)
    (apart : regions.Pairwise fun left right => left.2 ≤ right.1 ∨ right.2 ≤ left.1) :
    (boot regions).Owned regions := by
  have built := build_eq_map regions
  refine ⟨?_, ⟨?_, ?_⟩, by simp [boot], by simp [boot], by simp [boot], ?_⟩
  · simp [boot, built, bounds, new, Function.comp_def]
  · intro region member
    simp only [boot, built, mem_map] at member
    obtain ⟨range, rangeMember, rfl⟩ := member
    obtain ⟨start, finish⟩ := aligned range rangeMember
    exact new_wellFormed start finish (ordered range rangeMember)
  · simp only [boot, built, pairwise_map]
    exact apart.imp fun separated => separated
  · simp only [boot, built, getFreePageCount_eq_sum, map_map, length_nil, add_zero]
    congr 1
    exact map_congr_left fun region _ => new_getFreePageCount

/-! ## One step -/

variable {regions : List (Nat × Nat)}

variable {state : FrameState} (owned : state.Owned regions)
include owned

private theorem Owned.inUse : state.allocator.InUse state.held :=
  ⟨owned.wellFormed, owned.distinct, owned.registered, owned.marked⟩

private theorem Owned.grant {frames : List Nat} {allocator : FrameAllocator}
    (granted : state.allocator.Grants frames allocator) :
    Owned regions { allocator, held := frames ++ state.held } := by
  obtain ⟨wellFormed, distinct, registered, marked⟩ := owned.inUse.grant granted
  refine ⟨granted.bounds.trans owned.bounds, wellFormed, distinct, registered, marked, ?_⟩
  have before := owned.count
  have count := granted.count
  simp only [length_append]
  omega

private theorem Owned.release {paddr : Nat} (held : paddr ∈ state.held) :
    (state.apply (.dealloc paddr)).Owned regions := by
  obtain ⟨bounds, -, -, count⟩ := dealloc_returns owned.wellFormed
    (owned.registered paddr held) (owned.marked paddr held)
  obtain ⟨⟨wellFormed, distinct, registered, marked⟩, -⟩ := (owned.inUse.perm (perm_cons_erase held)).dealloc
  refine ⟨bounds.trans owned.bounds, wellFormed, distinct, registered, marked, ?_⟩
  have before := owned.count
  have shorter := length_erase_add_one held
  simp only [apply]
  omega

omit owned

theorem Owned.step {before after : FrameState} {op : FrameOp} (owned : before.Owned regions)
    (step : Step before op after) : after.Owned regions := by
  cases step with
  | alloc =>
    simp only [apply]
    split
    · next allocated =>
      exact owned.grant (alloc_grants owned.wellFormed allocated)
    · exact owned
  | allocMuch =>
    simp only [apply]
    split
    · next allocated =>
      exact owned.grant (allocMuch_grants owned.wellFormed allocated).2
    · exact owned
  | dealloc held => exact owned.release held

theorem Owned.add (owned : state.Owned regions) {start finish : Nat} (formed : (new start finish).WellFormed)
    (apart : ∀ region ∈ state.allocator, FrameAllocator.Apart region (.new start finish)) :
    Owned (regions ++ [(start, finish)]) { state with allocator := state.allocator.addMemoryRegion start finish } := by
  have unmarked : ∀ frame ∈ state.held, ¬ (new start finish).Registered frame := by
    rintro frame held ⟨_, page⟩
    obtain ⟨region, member, _, page'⟩ := owned.registered frame held
    have inside := formed.page_inside page
    have inside' := (owned.wellFormed.regions region member).page_inside page'
    have positive := pageSize_pos
    rcases apart region member with before | before <;> omega
  refine ⟨?_, FrameAllocator.addMemoryRegion_wellFormed owned.wellFormed formed apart, owned.distinct,
    fun frame held => FrameAllocator.addMemoryRegion_registered (owned.registered frame held), ?_, ?_⟩
  · rw [← owned.bounds]
    simp [FrameAllocator.bounds, FrameAllocator.addMemoryRegion, new]
  · intro frame held free
    rcases FrameAllocator.addMemoryRegion_free free with old | new
    · exact owned.marked frame held old
    · exact unmarked frame held new
  · have count := owned.count
    have added := @new_getFreePageCount start finish
    simp only [FrameAllocator.getFreePageCount_eq_sum] at count ⊢
    simp only [FrameAllocator.addMemoryRegion, map_append, sum_append, map_singleton, sum_singleton]
    omega

/-! ## Every history -/

/-- Frames handed out and not returned are distinct whole pages of registered
memory, and exactly the other registered pages are counted as free. -/
theorem held_frames_owned {regions : List (Nat × Nat)}
    (aligned : ∀ region ∈ regions, region.1 % pageSize = 0 ∧ region.2 % pageSize = 0)
    (ordered : ∀ region ∈ regions, region.1 ≤ region.2)
    (apart : regions.Pairwise fun left right => left.2 ≤ right.1 ∨ right.2 ≤ left.1)
    {ops : List FrameOp} {state : FrameState} (run : Run Step (boot regions) ops state) :
    state.held.Nodup ∧
      (∀ frame ∈ state.held, frame % pageSize = 0 ∧
        ∃ region ∈ regions, region.1 ≤ frame ∧ frame + pageSize ≤ region.2) ∧
      state.allocator.getFreePageCount + state.held.length =
        (regions.map fun region => (region.2 - region.1) / pageSize).sum := by
  have owned := run.preserves (fun owned step => Owned.step owned step) (boot_owned aligned ordered apart)
  refine ⟨owned.distinct, ?_, owned.count⟩
  intro frame member
  obtain ⟨region, regionMember, index, page⟩ := owned.registered frame member
  obtain ⟨wholePage, lower, upper⟩ :=
    (owned.wellFormed.regions region regionMember).page_inside page
  refine ⟨wholePage, (region.paddr, region.paddrEnd), ?_, lower, upper⟩
  rw [← owned.bounds]
  exact mem_map_of_mem regionMember

theorem held_frames_owned_two_regions :
    let state := (((boot [(0x1000, 0x2000), (0x4000, 0x6000)]).apply .alloc).apply
      (.allocMuch 2)).apply (.dealloc 0x1000)
    state.held = [0x4000, 0x5000] ∧ state.allocator.getFreePageCount + state.held.length = 3 := by
  refine ⟨by decide +kernel, ?_⟩
  exact (held_frames_owned (by decide) (by decide) (by decide)
    (.cons .alloc (.cons .allocMuch (.cons (.dealloc (by decide +kernel)) .refl)))).2.2

end FrameState

end MonkeyOS.Runtime
