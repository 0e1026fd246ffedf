import MonkeyOS.Runtime.FirstFit
import MonkeyOS.Runtime.FrameOwnership

/-!
# Large kernel allocations

`LargeAllocator` of `crates/runtime/src/heap.rs`, which serves what the heap has no room
for from whole frames. Trackers that are dropped give their frames back. What is logged
is left out.
-/

set_option autoImplicit false

namespace MonkeyOS.Runtime

open Lib List FrameAllocator Nat

structure Allocation where
  ptrAddr : Nat
  size : Nat
  frameTrackers : List Nat

structure LargeAllocator where
  frames : FrameAllocator
  allocations : List Allocation

namespace LargeAllocator

/-- The call panics if no page is needed, which only a size past the last page boundary
of the address space brings about. -/
def alloc (large : LargeAllocator) (size align : Nat) : Option (Option Nat × LargeAllocator) :=
  let pagesNeeded := wrapSub (wrapAdd size pageSize) 1 / pageSize
  match large.frames.allocMuch pagesNeeded with
  | none => some (none, large)
  | some (frameTrackers, frames) =>
    frameTrackers.head?.map fun ptrAddr =>
      if alignUp ptrAddr align ≠ ptrAddr then
        (none, { large with frames := frameTrackers.foldl dealloc frames })
      else
        (some ptrAddr, { frames, allocations := large.allocations ++ [{ ptrAddr, size, frameTrackers }] })

def exactly (ptrAddr size : Nat) (allocation : Allocation) : Bool :=
  allocation.ptrAddr == ptrAddr && allocation.size == size

def containing (ptrAddr : Nat) (allocation : Allocation) : Bool :=
  allocation.ptrAddr ≤ ptrAddr ∧ ptrAddr < wrapAdd allocation.ptrAddr allocation.size

/-- One of the two loops: the first allocation that matches is removed. -/
def remove (large : LargeAllocator) (matching : Allocation → Bool) : Option LargeAllocator :=
  (large.allocations.find? matching).map fun found =>
    { frames := found.frameTrackers.foldl dealloc large.frames
      allocations := large.allocations.eraseP matching }

def dealloc (large : LargeAllocator) (ptrAddr size : Nat) : LargeAllocator :=
  (large.remove (exactly ptrAddr size)).getD ((large.remove (containing ptrAddr)).getD large)

end LargeAllocator

/-- The live allocations, by address and size, are what the callers hold. -/
structure HeapState extends LargeAllocator where
  live : List (Nat × Nat)

inductive HeapEvent where
  | alloc (size align : Nat) (answer : Option Nat)
  | dealloc (ptrAddr size : Nat)
  | elsewhere

def HeapState.held (state : HeapState) : List Nat := state.allocations.flatMap Allocation.frameTrackers

/-- The pages that the bytes of an allocation lie on. -/
def pagesOf (ptrAddr size : Nat) : List Nat :=
  (List.range (divCeil size pageSize)).map fun page => ptrAddr + page * pageSize

namespace HeapState

/-- Callers give back what they hold, with its size; others leave the frames in use alone. -/
inductive Step : HeapState → HeapEvent → HeapState → Prop where
  | alloc {before size align answer after} (nonempty : 1 ≤ size) (word : size < usizeBound)
      (done : before.alloc size align = some (answer, after)) :
      Step before (.alloc size align answer) ⟨after, before.live ++ answer.toList.map (·, size)⟩
  | dealloc {before ptrAddr size} (holds : (ptrAddr, size) ∈ before.live) :
      Step before (.dealloc ptrAddr size) ⟨before.dealloc ptrAddr size, before.live.erase (ptrAddr, size)⟩
  | elsewhere {before frames} (inUse : frames.InUse before.held) :
      Step before .elsewhere ⟨⟨frames, before.allocations⟩, before.live⟩

def Apart (left right : Allocation) : Prop :=
  left.ptrAddr + left.size ≤ right.ptrAddr ∨ right.ptrAddr + right.size ≤ left.ptrAddr

/-- The records are those of the live allocations, and no two of these overlap. -/
structure Tracked (state : HeapState) : Prop where
  live : state.allocations.map (fun allocation => (allocation.ptrAddr, allocation.size)) = state.live
  apart : state.allocations.Pairwise Apart

end HeapState

/-- A refused request changes no free frame; what is given back is found by its address and
size, and takes its own frames along. -/
def HeapEvent.Precise (before after : HeapState) : HeapEvent → Prop
  | .alloc _ _ none => ∀ frame, after.frames.Free frame ↔ before.frames.Free frame
  | .dealloc ptrAddr size =>
    before.remove (LargeAllocator.exactly ptrAddr size) = some after.toLargeAllocator ∧
      ∀ frame, after.frames.Free frame ↔ before.frames.Free frame ∨ frame ∈ pagesOf ptrAddr size
  | _ => True

namespace HeapState

variable {before after : HeapState} {event : HeapEvent} {ptrAddr size align : Nat} {large next : LargeAllocator}

structure Tidy (state : HeapState) : Prop where
  inUse : state.frames.InUse state.held
  pages : ∀ allocation ∈ state.allocations,
    1 ≤ allocation.size ∧ allocation.frameTrackers = pagesOf allocation.ptrAddr allocation.size
  live : state.allocations.map (fun allocation => (allocation.ptrAddr, allocation.size)) = state.live

theorem pagesNeeded_eq (word : size < usizeBound) (some : 1 ≤ wrapSub (wrapAdd size pageSize) 1 / pageSize) :
    wrapSub (wrapAdd size pageSize) 1 / pageSize = divCeil size pageSize := by
  unfold wrapSub wrapAdd divCeil usizeBound pageSize at *
  split <;> omega

/-- How a request ends. Without a page there is no first one. -/
theorem alloc_cases (wellFormed : large.frames.WellFormed) (word : size < usizeBound) {answer : Option Nat}
    (done : large.alloc size align = some (answer, next)) :
    answer = none ∧ next = large ∨
      ∃ ptrAddr frames, large.frames.Grants (pagesOf ptrAddr size) frames ∧
        (answer = none ∧ next = { large with frames := (pagesOf ptrAddr size).foldl dealloc frames } ∨
          answer = some ptrAddr ∧ next =
            { frames, allocations := large.allocations ++ [⟨ptrAddr, size, pagesOf ptrAddr size⟩] }) := by
  unfold LargeAllocator.alloc at done
  dsimp only at done
  split at done
  · cases done
    exact .inl ⟨rfl, rfl⟩
  · next frameTrackers frames allocated =>
    obtain ⟨ptrAddr, first, answered⟩ := Option.map_eq_some_iff.mp done
    obtain ⟨count, granted⟩ := allocMuch_grants wellFormed allocated
    have needed := pagesNeeded_eq word (count ▸ length_pos_of_mem (mem_of_head? first))
    have pages : frameTrackers = pagesOf ptrAddr size := by
      rw [pagesOf, ← needed]
      exact allocMuch_consecutive wellFormed.regions (count ▸ length_pos_of_mem (mem_of_head? first)) allocated first
    subst pages
    refine .inr ⟨ptrAddr, frames, granted, ?_⟩
    split at answered
    · cases answered
      exact .inl ⟨rfl, rfl⟩
    · cases answered
      exact .inr ⟨rfl, rfl⟩

theorem Tidy.alloc (tidy : before.Tidy) (nonempty : 1 ≤ size) (word : size < usizeBound) {answer : Option Nat}
    (done : before.alloc size align = some (answer, next)) :
    Tidy ⟨next, before.live ++ answer.toList.map (·, size)⟩ ∧
      (answer = none → ∀ frame, next.frames.Free frame ↔ before.frames.Free frame) := by
  obtain ⟨rfl, rfl⟩ | ⟨_, _, granted, ⟨rfl, rfl⟩ | ⟨rfl, rfl⟩⟩ :=
    alloc_cases tidy.inUse.wellFormed word done
  · rw [Option.toList_none, map_nil, append_nil]
    exact ⟨tidy, fun _ _ => .rfl⟩
  · obtain ⟨kept, free⟩ := (tidy.inUse.grant granted).release
    rw [Option.toList_none, map_nil, append_nil]
    refine ⟨⟨kept, tidy.pages, tidy.live⟩, fun _ frame => ?_⟩
    rw [free, granted.rest]
    have before := granted.free frame
    tauto
  · refine ⟨⟨?_, ?_, ?_⟩, nofun⟩
    · have kept := (tidy.inUse.grant granted).perm perm_append_comm
      simpa [held] using kept
    · exact forall_mem_append.mpr ⟨tidy.pages, by simpa using nonempty⟩
    · simp [tidy.live]

theorem remove_first {matching : Allocation → Bool} {front back : List Allocation} {found : Allocation}
    (split : large.allocations = front ++ found :: back) (skipped : ∀ allocation ∈ front, !matching allocation)
    (first : matching found) :
    large.remove matching = some ⟨found.frameTrackers.foldl dealloc large.frames, front ++ back⟩ := by
  have absent : ∀ allocation ∈ front, ¬ matching allocation := fun allocation member => by
    simpa using skipped allocation member
  rw [LargeAllocator.remove, split, find?_append, find?_eq_none.mpr absent, Option.none_or,
    find?_cons_of_pos first, eraseP_append_right _ absent, eraseP_cons_of_pos first, Option.map_some]

theorem Tidy.dealloc (tidy : before.Tidy) (holds : (ptrAddr, size) ∈ before.live) :
    Tidy ⟨before.dealloc ptrAddr size, before.live.erase (ptrAddr, size)⟩ ∧
      HeapEvent.Precise before ⟨before.dealloc ptrAddr size, before.live.erase (ptrAddr, size)⟩
        (.dealloc ptrAddr size) := by
  rw [← tidy.live, mem_map] at holds
  obtain ⟨own, recorded, key⟩ := holds
  cases key
  have present : (before.allocations.find? (LargeAllocator.exactly own.ptrAddr own.size)).isSome :=
    find?_isSome.mpr ⟨own, recorded, by simp [LargeAllocator.exactly]⟩
  obtain ⟨found, search⟩ := Option.isSome_iff_exists.mp present
  obtain ⟨first, front, back, split, skipped⟩ := find?_eq_some_iff_append.mp search
  have removed := remove_first split skipped first
  have same : found.ptrAddr = own.ptrAddr ∧ found.size = own.size := by
    simpa [LargeAllocator.exactly] using first
  have pages : found.frameTrackers = pagesOf own.ptrAddr own.size := by
    rw [← same.1, ← same.2]
    exact (tidy.pages found (by simp [split])).2
  have order : before.held.Perm (found.frameTrackers ++ (front ++ back).flatMap Allocation.frameTrackers) := by
    rw [held, split, ← flatMap_cons]
    exact perm_middle.flatMap_right _
  obtain ⟨kept, free⟩ := (tidy.inUse.perm order).release
  rw [LargeAllocator.dealloc, removed, Option.getD_some]
  refine ⟨⟨kept, fun allocation left => tidy.pages allocation ?_, ?_⟩, removed, fun _ => ?_⟩
  · rw [split]
    exact perm_middle.mem_iff.mpr (mem_cons_of_mem _ left)
  · rw [← tidy.live, split, map_append, map_append, erase_append_right]
    · rw [map_cons, same.1, same.2, erase_cons_head]
    · intro listed
      obtain ⟨other, earlier, key⟩ := mem_map.mp listed
      simpa [LargeAllocator.exactly, Prod.mk.inj key] using skipped other earlier
  · rw [free, pages]

theorem mem_pagesOf {address : Nat} (lower : ptrAddr ≤ address) (upper : address < ptrAddr + size)
    (aligned : ptrAddr % pageSize = 0) (addressAligned : address % pageSize = 0) : address ∈ pagesOf ptrAddr size := by
  have pages := le_divCeil_mul size pageSize_pos
  refine mem_map.mpr ⟨(address - ptrAddr) / pageSize, mem_range.mpr ?_, ?_⟩
  · exact Nat.div_lt_of_lt_mul (by rw [Nat.mul_comm]; omega)
  · unfold pageSize at *
    omega

/-- An allocation starts on a page of its own, so it starts inside no other. -/
theorem Tidy.apart (tidy : before.Tidy) : before.allocations.Pairwise Apart := by
  have own : ∀ allocation ∈ before.allocations, allocation.ptrAddr ∈ allocation.frameTrackers ∧
      allocation.ptrAddr % pageSize = 0 := by
    intro allocation recorded
    obtain ⟨_, pages⟩ := tidy.pages allocation recorded
    have first : allocation.ptrAddr ∈ allocation.frameTrackers := by
      rw [pages]
      exact mem_map.mpr ⟨0, mem_range.mpr (divCeil_pos (by omega)), by rw [zero_mul, add_zero]⟩
    have inUse := tidy.inUse.registered allocation.ptrAddr (mem_flatMap.mpr ⟨allocation, recorded, first⟩)
    exact ⟨first, inUse.aligned tidy.inUse.wellFormed⟩
  refine (nodup_flatMap.mp tidy.inUse.distinct).2.imp_of_mem fun {left right} leftIn rightIn disjoint => ?_
  obtain ⟨leftFirst, leftAligned⟩ := own left leftIn
  obtain ⟨rightFirst, rightAligned⟩ := own right rightIn
  by_contra overlap
  rw [Apart, not_or, not_le, not_le] at overlap
  rcases le_total left.ptrAddr right.ptrAddr with below | above
  · refine disjoint ?_ rightFirst
    rw [(tidy.pages left leftIn).2]
    exact mem_pagesOf below overlap.1 leftAligned rightAligned
  · refine disjoint leftFirst ?_
    rw [(tidy.pages right rightIn).2]
    exact mem_pagesOf above overlap.2 rightAligned leftAligned

theorem Tidy.step (tidy : before.Tidy) (step : Step before event after) : after.Tidy ∧ event.Precise before after := by
  cases step with
  | @alloc _ _ answer _ nonempty word done =>
    obtain ⟨kept, refused⟩ := tidy.alloc nonempty word done
    refine ⟨kept, ?_⟩
    cases answer with
    | none => exact refused rfl
    | some => trivial
  | dealloc holds => exact tidy.dealloc holds
  | elsewhere inUse => exact ⟨⟨inUse, tidy.pages, tidy.live⟩, trivial⟩

theorem Tidy.run {start finish : HeapState} {events : List HeapEvent} (tidy : start.Tidy)
    (run : Run Step start events finish) :
    Run (fun before event after => Step before event after ∧ after.Tracked ∧ event.Precise before after)
      start events finish := by
  induction run with
  | refl => exact .refl
  | cons step _ ih =>
    obtain ⟨next, precise⟩ := tidy.step step
    exact .cons ⟨step, ⟨next.live, next.apart⟩, precise⟩ (ih next)

/-- The records stay exact, the second loop of `dealloc` is never reached, and every frame
goes back to the allocator with its allocation. -/
theorem large_allocations_tracked {frames : FrameAllocator} {events : List HeapEvent} {finish : HeapState}
    (wellFormed : frames.WellFormed) (run : Run Step ⟨⟨frames, []⟩, []⟩ events finish) :
    Run (fun before event after => Step before event after ∧ after.Tracked ∧ event.Precise before after)
      ⟨⟨frames, []⟩, []⟩ events finish :=
  Tidy.run ⟨⟨wellFormed, .nil, forall_mem_nil _, forall_mem_nil _⟩, forall_mem_nil _, rfl⟩ run

theorem large_allocations_tracked_two_pages :
    ∃ finish, Run (fun before event after => Step before event after ∧ after.Tracked ∧ event.Precise before after)
      ⟨⟨[.new 0x1000 0x4000], []⟩, []⟩ [.alloc 5000 4096 (some 0x1000), .dealloc 0x1000 5000] finish := by
  have answer : (LargeAllocator.alloc ⟨[.new 0x1000 0x4000], []⟩ 5000 4096).map Prod.fst = some (some 0x1000) := by
    decide +kernel
  obtain ⟨⟨_, next⟩, done, rfl⟩ := Option.map_eq_some_iff.mp answer
  have wellFormed : FrameAllocator.WellFormed [.new 0x1000 0x4000] :=
    ⟨by simpa using FrameRegionMap.new_wellFormed (by decide) (by decide) (by decide), pairwise_singleton _ _⟩
  exact ⟨_, large_allocations_tracked wellFormed
    (.cons (.alloc (by decide) (by decide) done) (.cons (.dealloc (.head _)) .refl))⟩

end HeapState

end MonkeyOS.Runtime
