import MonkeyOS.Runtime.FirstFit
import MonkeyOS.Runtime.FrameOwnership

/-!
# Buffers of the virtio devices

`dma_alloc` and `dma_dealloc` of `driver/kvirtio/src/virtio_impl.rs`. The frames of all
buffers are kept in one container, and a frame that leaves it is given back to the
allocator. What the frames hold is left out.
-/

set_option autoImplicit false

namespace MonkeyOS.Driver

open Lib MonkeyOS.Runtime FrameAllocator

structure Dma where
  allocator : FrameAllocator
  container : List Nat

namespace Dma

/-- The call panics without enough frames, and without a first one. -/
def dmaAlloc (dma : Dma) (pages : Nat) : Option (Nat × Dma) :=
  (dma.allocator.allocMuch pages).bind fun (trackers, allocator) =>
    trackers.head?.map fun paddr => (paddr, { allocator, container := dma.container ++ trackers })

/-- The range of page numbers is asked for the address of a frame. -/
def selects (paddr pages calcPage : Nat) : Bool :=
  let phyPage := paddr >>> 12
  phyPage ≤ calcPage ∧ calcPage < wrapAdd phyPage pages

def released (dma : Dma) (paddr pages : Nat) : List Nat := dma.container.filter (selects paddr pages)

def dmaDealloc (dma : Dma) (paddr pages : Nat) : Dma :=
  { allocator := (dma.released paddr pages).foldl dealloc dma.allocator
    container := dma.container.filter fun frame => !selects paddr pages frame }

end Dma

/-- The live allocations, by address and pages, are what the drivers hold. -/
structure DmaState extends Dma where
  live : List (Nat × Nat)

inductive DmaEvent where
  | alloc (pages paddr : Nat)
  | dealloc (paddr pages : Nat) (released : List Nat)
  | elsewhere

structure Keeps (allocator : FrameAllocator) (frames : List Nat) : Prop where
  wellFormed : allocator.WellFormed
  registered : ∀ frame ∈ frames, allocator.Registered frame
  marked : ∀ frame ∈ frames, ¬ allocator.Free frame

def extent (allocation : Nat × Nat) : List Nat :=
  (List.range allocation.2).map fun page => allocation.1 + page * pageSize

namespace DmaState

/-- Drivers give back only what they hold, as does the rest of the kernel. -/
inductive Step : DmaState → DmaEvent → DmaState → Prop where
  | alloc {before pages paddr after} (done : before.dmaAlloc pages = some (paddr, after)) :
      Step before (.alloc pages paddr) ⟨after, (paddr, pages) :: before.live⟩
  | dealloc {before paddr pages} (holds : (paddr, pages) ∈ before.live) :
      Step before (.dealloc paddr pages (before.released paddr pages))
        ⟨before.dmaDealloc paddr pages, before.live.erase (paddr, pages)⟩
  | elsewhere {before allocator} (keeps : Keeps allocator before.container) :
      Step before .elsewhere ⟨⟨allocator, before.container⟩, before.live⟩

def Exact (state : DmaState) : Prop := state.container.Perm (state.live.flatMap extent)

end DmaState

/-- A buffer that is given back takes its own frames along, and no others. -/
def DmaEvent.Precise : DmaEvent → Prop
  | .dealloc paddr pages released => released.Perm (extent (paddr, pages))
  | _ => True

/-- A single page at address 0 is the one buffer whose page number and address agree. -/
def DmaEvent.AtZero : DmaEvent → Prop
  | .dealloc paddr pages _ => paddr = 0 ∧ pages = 1
  | _ => True

namespace DmaState

variable {before after : DmaState} {event : DmaEvent}

structure Tidy (state : DmaState) : Prop where
  keeps : Keeps state.allocator state.container
  distinct : state.container.Nodup
  exact : state.Exact

/-- A buffer has a page, since `trackers[0]` is there. -/
theorem dmaAlloc_cases {dma after : Dma} {pages paddr : Nat} (done : dma.dmaAlloc pages = some (paddr, after)) :
    1 ≤ pages ∧ ∃ frames allocator, dma.allocator.allocMuch pages = some (frames, allocator) ∧
      frames.head? = some paddr ∧ after = { allocator, container := dma.container ++ frames } := by
  obtain ⟨⟨frames, allocator⟩, allocated, kept⟩ := Option.bind_eq_some_iff.mp done
  obtain ⟨_, first, ⟨⟩⟩ := Option.map_eq_some_iff.mp kept
  refine ⟨?_, frames, allocator, allocated, first, rfl⟩
  rw [← (allocMuch_bounds allocated).2.1]
  exact List.length_pos_of_mem (List.mem_of_head? first)

theorem Tidy.inUse (tidy : before.Tidy) : before.allocator.InUse before.container :=
  ⟨tidy.keeps.wellFormed, tidy.distinct, tidy.keeps.registered, tidy.keeps.marked⟩

theorem Tidy.of_inUse (inUse : before.allocator.InUse before.container) (exact : before.Exact) : before.Tidy :=
  ⟨⟨inUse.wellFormed, inUse.registered, inUse.marked⟩, inUse.distinct, exact⟩

theorem Tidy.alloc (tidy : before.Tidy) {pages paddr : Nat} {dma : Dma}
    (done : before.dmaAlloc pages = some (paddr, dma)) : Tidy ⟨dma, (paddr, pages) :: before.live⟩ := by
  obtain ⟨nonempty, frames, _, allocated, first, rfl⟩ := dmaAlloc_cases done
  have wellFormed := tidy.keeps.wellFormed
  have granted := (allocMuch_grants wellFormed allocated).2
  refine .of_inUse ((tidy.inUse.grant granted).perm List.perm_append_comm) ?_
  have extent : frames = extent (paddr, pages) :=
    allocMuch_consecutive wellFormed.regions nonempty allocated first
  rw [Exact, List.flatMap_cons, ← extent]
  exact List.perm_append_comm.trans (tidy.exact.append_left frames)

theorem selects_first : Dma.selects 0 1 = fun frame => decide (frame = 0) := by
  have one : wrapAdd 0 1 = 1 := by decide
  funext frame
  simp [Dma.selects, one]

theorem Tidy.dealloc (tidy : before.Tidy) (holds : (0, 1) ∈ before.live) :
    Tidy ⟨before.dmaDealloc 0 1, before.live.erase (0, 1)⟩ ∧ before.released 0 1 = extent (0, 1) := by
  have own : before.container.Perm (0 :: (before.live.erase (0, 1)).flatMap extent) :=
    tidy.exact.trans ((List.perm_cons_erase holds).flatMap_right extent)
  have member : 0 ∈ before.container := own.mem_iff.mpr List.mem_cons_self
  have released : before.released 0 1 = [0] := by
    rw [Dma.released, selects_first, List.filter_eq, tidy.distinct.count, if_pos member]
    rfl
  have container : (before.dmaDealloc 0 1).container = before.container.erase 0 := by
    rw [tidy.distinct.erase_eq_filter, Dma.dmaDealloc, selects_first]
    refine List.filter_congr fun _ _ => ?_
    simp [bne, beq_eq_decide]
  have allocator : (before.dmaDealloc 0 1).allocator = before.allocator.dealloc 0 := by
    rw [Dma.dmaDealloc, released]
    rfl
  obtain ⟨kept, -⟩ := (tidy.inUse.perm (List.perm_cons_erase member)).dealloc
  refine ⟨.of_inUse ?_ ?_, released⟩
  · rw [allocator, container]
    exact kept
  · rw [Exact, container]
    exact (own.erase 0).trans (by rw [List.erase_cons_head])

theorem Tidy.step (tidy : before.Tidy) (step : Step before event after) (atZero : event.AtZero) :
    after.Tidy ∧ event.Precise := by
  cases step with
  | alloc done => exact ⟨tidy.alloc done, trivial⟩
  | dealloc holds =>
    obtain ⟨rfl, rfl⟩ := atZero
    obtain ⟨next, released⟩ := tidy.dealloc holds
    exact ⟨next, released ▸ .refl _⟩
  | elsewhere keeps => exact ⟨⟨keeps, tidy.distinct, tidy.exact⟩, trivial⟩

/-- The last own frame lies in the range of page numbers only if it is the first frame of the memory. -/
theorem Step.atZero (step : Step before event after) (nonempty : ∀ allocation ∈ before.live, 1 ≤ allocation.2)
    (precise : event.Precise) : event.AtZero := by
  cases step with
  | alloc _ | elsewhere _ => exact trivial
  | @dealloc paddr pages holds =>
    have positive : 1 ≤ pages := nonempty _ holds
    have last : paddr + (pages - 1) * pageSize ∈ before.released paddr pages :=
      precise.mem_iff.mpr (List.mem_map.mpr ⟨pages - 1, List.mem_range.mpr (by omega), rfl⟩)
    have selected := (List.mem_filter.mp last).2
    have wrapped : wrapAdd (paddr / 2 ^ 12) pages ≤ paddr / 2 ^ 12 + pages := Nat.mod_le _ _
    simp only [Dma.selects, Nat.shiftRight_eq_div_pow, decide_eq_true_eq, pageSize] at selected
    exact ⟨by omega, by omega⟩

theorem Step.nonempty (step : Step before event after) (nonempty : ∀ allocation ∈ before.live, 1 ≤ allocation.2) :
    ∀ allocation ∈ after.live, 1 ≤ allocation.2 := by
  cases step with
  | alloc done => exact List.forall_mem_cons.mpr ⟨(dmaAlloc_cases done).1, nonempty⟩
  | dealloc _ => exact fun allocation left => nonempty allocation (List.mem_of_mem_erase left)
  | elsewhere _ => exact nonempty

variable {start finish : DmaState} {events : List DmaEvent}

theorem Tidy.run (tidy : start.Tidy) (run : Run Step start events finish) (atZero : ∀ event ∈ events, event.AtZero) :
    Run (fun before event after => Step before event after ∧ after.Exact ∧ event.Precise) start events finish := by
  induction run with
  | refl => exact .refl
  | cons step _ ih =>
    obtain ⟨first, rest⟩ := List.forall_mem_cons.mp atZero
    obtain ⟨next, precise⟩ := tidy.step step first
    exact .cons ⟨step, next.exact, precise⟩ (ih next rest)

theorem atZero_of_run (nonempty : ∀ allocation ∈ start.live, 1 ≤ allocation.2)
    (run : Run (fun before event after => Step before event after ∧ event.Precise) start events finish) :
    ∀ event ∈ events, event.AtZero := by
  induction run with
  | refl => exact List.forall_mem_nil _
  | cons step _ ih =>
    exact List.forall_mem_cons.mpr ⟨step.1.atZero nonempty step.2, ih (step.1.nonempty nonempty)⟩

/-- Exactly the frames of the live allocations are kept, and each one given back releases its own, as long as
nothing but a single page at address 0 is given back. -/
theorem buffers_returned_iff {allocator : FrameAllocator} {events : List DmaEvent} {finish : DmaState}
    (wellFormed : allocator.WellFormed) (run : Run Step ⟨⟨allocator, []⟩, []⟩ events finish) :
    Run (fun before event after => Step before event after ∧ after.Exact ∧ event.Precise)
      ⟨⟨allocator, []⟩, []⟩ events finish ↔ ∀ event ∈ events, event.AtZero := by
  constructor
  · exact fun exact => atZero_of_run (by simp) (exact.mono fun step => ⟨step.1, step.2.2⟩)
  · exact Tidy.run ⟨⟨wellFormed, by simp, by simp⟩, .nil, .nil⟩ run

def fullPage (paddr : Nat) : FrameAllocator :=
  [{ bits := [BitVec.allOnes 64], paddr, paddrEnd := paddr + 0x1000 }]

theorem buffers_returned_iff_zero :
    ∃ finish, Run (fun before event after => Step before event after ∧ after.Exact ∧ event.Precise)
      ⟨⟨[.new 0 0x1000], []⟩, []⟩ [.alloc 1 0, .dealloc 0 1 [0]] finish := by
  have allocated : Dma.dmaAlloc ⟨[.new 0 0x1000], []⟩ 1 = some (0, ⟨fullPage 0, [0]⟩) := by
    have granted : allocMuch [.new 0 0x1000] 1 = some ([0], fullPage 0) := by decide +kernel
    simp [Dma.dmaAlloc, granted]
  have wellFormed : FrameAllocator.WellFormed [.new 0 0x1000] :=
    ⟨by simpa using FrameRegionMap.new_wellFormed (by decide) (by decide) (by decide), List.pairwise_singleton _ _⟩
  exact ⟨_, (buffers_returned_iff wellFormed (.cons (.alloc allocated) (.cons (.dealloc (.head _)) .refl))).mpr
    (by simp [DmaEvent.AtZero])⟩

/-- The only frame of a small memory is given back, stays in the container, and the next request panics. -/
theorem returned_buffer_kept :
    ∃ finish, Run Step ⟨⟨[.new 0x1000 0x2000], []⟩, []⟩ [.alloc 1 0x1000, .dealloc 0x1000 1 []] finish ∧
      ¬ finish.Exact ∧ finish.dmaAlloc 1 = none := by
  have allocated : Dma.dmaAlloc ⟨[.new 0x1000 0x2000], []⟩ 1 = some (0x1000, ⟨fullPage 0x1000, [0x1000]⟩) := by
    have granted : allocMuch [.new 0x1000 0x2000] 1 = some ([0x1000], fullPage 0x1000) := by
      decide +kernel
    simp [Dma.dmaAlloc, granted]
  have exhausted : allocMuch (fullPage 0x1000) 1 = none := by decide +kernel
  refine ⟨_, .cons (.alloc allocated) (.cons (.dealloc (.head _)) .refl), fun exact => ?_, ?_⟩
  · exact absurd exact.length_eq (by decide)
  · exact congrArg (Option.bind · _) exhausted

end DmaState

end MonkeyOS.Driver
