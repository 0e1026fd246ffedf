import MonkeyOS.Runtime.FirstFit
import MonkeyOS.Runtime.FrameOwnership
import MonkeyOS.Tasks.MachineProperties
import MonkeyOS.Tasks.Paging

/-!
# Mapping allocation

`frame_alloc` tracks and maps all the pages it was asked for, or leaves the
process and the free frames as they were. The address it returns is that of the
first frame; the others follow it only if the frames came in one run.
-/

set_option autoImplicit false

namespace MonkeyOS

open Tasks Process List Option Machine MapTrack Nat

structure PageTable.Maps (table : PageTable) (vaddr : Nat) (frames : List Nat) (flags : MappingFlags)
    (after : PageTable) : Prop where
  pages : ∀ page frame, frames[page]? = some frame → after (vaddr + page * pageSize) = some { paddr := frame, flags }
  others : ∀ address, (∀ page < frames.length, address ≠ vaddr + page * pageSize) → after address = table address

theorem PageTable.mapPresent_maps {table : PageTable} {vaddr : Nat} {frames : List Nat} {flags : MappingFlags}
    (aligned : vaddr % pageSize = 0) (nonzero : vaddr ≠ 0)
    (fits : vaddr + frames.length * pageSize < usizeBound) :
    table.Maps vaddr frames flags (table.mapPresent vaddr (trackersAt vaddr frames) flags) := by
  have present : (trackersAt vaddr frames).filter (fun track => track.vaddr ≠ 0) = trackersAt vaddr frames := by
    refine filter_eq_self.mpr fun track member => ?_
    obtain ⟨page, -, place⟩ := mem_trackersAt nonzero fits member
    exact decide_eq_true (by omega)
  have onPages : ∀ track ∈ trackersAt vaddr frames, track.vaddr % pageSize = 0 := by
    intro track member
    obtain ⟨page, -, place⟩ := mem_trackersAt nonzero fits member
    rw [place, add_mul_mod_self_right]
    exact aligned
  rw [mapPresent, if_pos nonzero, present]
  constructor
  · intro page frame found
    have tracked : { vaddr := vaddr + page * pageSize, tracker := frame } ∈ trackersAt vaddr frames :=
      mem_of_getElem? (by rw [getElem?_trackersAt nonzero fits, found, map_some])
    rcases mapAll_cases onPages (vaddr + page * pageSize) with ⟨track, member, same, mapped⟩ | ⟨untracked, -⟩
    · obtain ⟨other, frame', place⟩ := mem_trackersAt nonzero fits member
      have equal : other = page :=
        eq_of_mul_eq_mul_right pageSize_pos (add_left_cancel (place.symm.trans same))
      rw [equal, found, Option.some.injEq] at frame'
      rw [mapped, frame']
    · exact absurd rfl (untracked _ tracked)
  · intro address outside
    rcases @mapAll_cases table _ flags onPages address with ⟨track, member, same, -⟩ | ⟨-, kept⟩
    · obtain ⟨page, found, place⟩ := mem_trackersAt nonzero fits member
      exact absurd (same.symm.trans place) (outside page (List.getElem?_eq_some_iff.mp found).1)
    · exact kept

namespace Tasks

open MonkeyOS.Runtime

/-! ## Placing areas -/

/-- The trackers stand in an area of their own, or behind those of the stack; every
other area is as it was. -/
inductive MemSet.Gains (memset : MemSet) (tracks : List MapTrack) : MemSet → Prop where
  | area {area} : area.mtrackers = tracks → Gains memset tracks (memset ++ [area])
  | stack {front area back} : memset = front ++ area :: back → area.mtype = .Stack →
      Gains memset tracks (front ++ { area with mtrackers := area.mtrackers ++ tracks } :: back)

variable {memset : MemSet} {tracks left right : List MapTrack} {count pages : Nat} {allocator after : FrameAllocator}
  {remaining : Nat} {frames : List Nat}

theorem MemSet.extendStack_eq_some {after : MemSet} (extended : memset.extendStack tracks = some after) :
    ∃ front area back, memset = front ++ area :: back ∧ area.mtype = .Stack ∧
      after = front ++ { area with mtrackers := area.mtrackers ++ tracks } :: back := by
  induction memset generalizing after with
  | nil => cases extended
  | cons head rest ih =>
    unfold extendStack at extended
    split at extended
    · next stack =>
      cases extended
      exact ⟨[], head, rest, rfl, stack, rfl⟩
    · obtain ⟨_, recursive, rfl⟩ := map_eq_some_iff.mp extended
      obtain ⟨front, area, back, rfl, stack, rfl⟩ := ih recursive
      exact ⟨head :: front, area, back, rfl, stack, rfl⟩

theorem MemSet.place_gains (memset : MemSet) (area : MemArea) : memset.Gains area.mtrackers (memset.place area) := by
  unfold place
  split
  · cases extended : memset.extendStack area.mtrackers with
    | none => exact .area rfl
    | some _ =>
      obtain ⟨_, stack, _, split, isStack, rfl⟩ := extendStack_eq_some extended
      exact .stack split isStack
  · exact .area rfl

private theorem MemSet.extendStack_inj {after : MemSet} (leftDone : memset.extendStack left = some after)
    (rightDone : memset.extendStack right = some after) :
    left = right := by
  induction memset generalizing after with
  | nil => cases leftDone
  | cons _ _ ih =>
    unfold extendStack at leftDone rightDone
    split at leftDone
    · next stack =>
      rw [if_pos stack, Option.some.injEq] at rightDone
      cases leftDone
      simp only [List.cons.injEq, MemArea.mk.injEq, append_cancel_left_eq, true_and, and_true] at rightDone
      exact rightDone.symm
    · next other =>
      rw [if_neg other] at rightDone
      obtain ⟨_, leftRest, rfl⟩ := map_eq_some_iff.mp leftDone
      obtain ⟨_, rightRest, ⟨⟩⟩ := map_eq_some_iff.mp rightDone
      exact ih leftRest rightRest

theorem MemSet.place_allocArea_inj {mtype : MemType} {vaddr : Nat}
    (same : memset.place (allocArea mtype vaddr count left) = memset.place (allocArea mtype vaddr count right)) :
    left = right := by
  by_cases stack : mtype = .Stack
  · simp only [place, allocArea, stack, if_true] at same
    by_cases absent : ∀ area ∈ memset, area.mtype ≠ .Stack
    · simpa [extendStack_eq_none_iff.mpr absent] using same
    · obtain ⟨_, leftDone⟩ := ne_none_iff_exists'.mp (mt extendStack_eq_none_iff.mp absent)
      obtain ⟨_, rightDone⟩ := ne_none_iff_exists'.mp (mt extendStack_eq_none_iff.mp absent)
      rw [leftDone, rightDone, getD_some, getD_some] at same
      exact extendStack_inj leftDone (same ▸ rightDone)
  · simpa [place, allocArea, stack] using same

/-! ## Frames in a row -/

def frameRun (first count : Nat) : List Nat :=
  (List.range count).map fun page => first + page * pageSize

@[simp] theorem length_frameRun (first count : Nat) : (frameRun first count).length = count := by
  simp [frameRun]

theorem getElem?_frameRun {first page : Nat} (bound : page < count) :
    (frameRun first count)[page]? = some (first + page * pageSize) := by
  simp [frameRun, bound]

theorem frameRun_add (first front back : Nat) :
    frameRun first (front + back) = frameRun first front ++ frameRun (first + front * pageSize) back := by
  simp [frameRun, range_add, Function.comp_def, add_mul, add_assoc]

theorem head?_frameRun {first : Nat} (positive : 0 < count) : (frameRun first count).head? = some first := by
  rw [head?_eq_getElem?, getElem?_frameRun positive, zero_mul, add_zero]

/-- Pieces of the sizes of the fallback, taken from the allocator one after the other,
lie end to end from `first` on. -/
inductive EndToEnd : FrameAllocator → (remaining first : Nat) → Prop where
  | done {allocator first} : EndToEnd allocator 0 first
  | piece {allocator after remaining first frames} : remaining ≠ 0 →
      allocator.allocMuch (segmentSize remaining) = some (frames, after) → frames.head? = some first →
      EndToEnd after (remaining - segmentSize remaining) (first + segmentSize remaining * pageSize) →
      EndToEnd allocator remaining first

theorem endToEnd_iff {first : Nat} (more : remaining ≠ 0) :
    EndToEnd allocator remaining first ↔
      ∃ frames after, allocator.allocMuch (segmentSize remaining) = some (frames, after) ∧ frames.head? = some first ∧
        EndToEnd after (remaining - segmentSize remaining) (first + segmentSize remaining * pageSize) := by
  constructor
  · intro pieces
    cases pieces with
    | done => exact absurd rfl more
    | piece _ allocated head rest => exact ⟨_, _, allocated, head, rest⟩
  · rintro ⟨_, _, allocated, head, rest⟩
    exact .piece more allocated head rest

theorem allocMuch_frameRun (padded : allocator.Padded)
    (positive : 1 ≤ pages) (allocated : allocator.allocMuch pages = some (frames, after)) :
    ∃ first, frames = frameRun first pages := by
  obtain ⟨_, region, _, _, -, -, -, start, -, -, rfl, -⟩ :=
    FrameAllocator.allocMuch_firstFit padded positive allocated
  exact ⟨region.paddr + start * pageSize, rfl⟩

theorem allocMuch_padded (padded : allocator.Padded)
    (allocated : allocator.allocMuch pages = some (frames, after)) : after.Padded := by
  have step : FrameAllocator.Step allocator (.allocMuch pages) (allocator.apply (.allocMuch pages)) := .call trivial
  have result := padded.step step
  simpa only [FrameAllocator.apply, allocated] using result

theorem Machine.Gathers.run {machine after : Machine} {left : Nat} (padded : machine.frames.Padded)
    (pieces : machine.Gathers remaining frames after left) (whole : left = 0) (first : Nat) :
    frames = frameRun first remaining ↔ EndToEnd machine.frames remaining first := by
  induction pieces generalizing first with
  | stop =>
    subst whole
    exact ⟨fun _ => .done, fun _ => rfl⟩
  | @piece _ _ _ remaining _ _ _ more allocation _ ih =>
    obtain ⟨positive, bound⟩ := segmentSize_bounds more
    obtain ⟨⟨_, _⟩, allocating, ⟨⟩⟩ := map_eq_some_iff.mp allocation
    obtain ⟨start, rfl⟩ := allocMuch_frameRun padded positive allocating
    have joined := ih (allocMuch_padded padded allocating) whole
    have split : frameRun first remaining = frameRun first (segmentSize remaining) ++
        frameRun (first + segmentSize remaining * pageSize) (remaining - segmentSize remaining) := by
      rw [← frameRun_add, Nat.add_sub_cancel' bound]
    rw [endToEnd_iff more, split]
    constructor
    · intro run
      obtain ⟨here, later⟩ := append_inj run (by simp)
      exact ⟨_, _, allocating, by rw [here, head?_frameRun positive], (joined _).mp later⟩
    · rintro ⟨_, _, allocated', head, pieces⟩
      rw [allocating, Option.some.injEq, Prod.mk.injEq] at allocated'
      obtain ⟨rfl, rfl⟩ := allocated'
      rw [head?_frameRun positive, Option.some.injEq] at head
      rw [(joined _).mpr pieces, head]

theorem EndToEnd.free {first : Nat} (wellFormed : allocator.WellFormed)
    (pieces : EndToEnd allocator remaining first) : ∀ frame ∈ frameRun first remaining, allocator.Free frame := by
  induction pieces with
  | done => simp [frameRun]
  | @piece _ _ _ _ _ more allocated head rest ih =>
    obtain ⟨positive, bound⟩ := segmentSize_bounds more
    obtain ⟨-, grants⟩ := FrameAllocator.allocMuch_grants wellFormed allocated
    obtain ⟨_, rfl⟩ := allocMuch_frameRun wellFormed.regions positive allocated
    rw [head?_frameRun positive, Option.some.injEq] at head
    subst head
    intro frame member
    rw [← Nat.add_sub_cancel' bound, frameRun_add, mem_append] at member
    rcases member with here | later
    · exact grants.free frame here
    · exact ((grants.rest frame).mp (ih grants.wellFormed frame later)).1

/-- A run of free frames that no region holds alone passes from one region into the
next: the pieces lie end to end only where two regions touch. -/
theorem EndToEnd.touches {first : Nat} (wellFormed : allocator.WellFormed)
    (pieces : EndToEnd allocator count first) (positive : 0 < count)
    (scattered : ∀ region ∈ allocator, ∀ start, ¬ region.FreeRun start count) :
    ∃ left ∈ allocator, ∃ right ∈ allocator, left.paddrEnd = right.paddr := by
  by_contra! apart
  have free : ∀ page < count, allocator.Free (first + page * pageSize) := fun page bound =>
    pieces.free wellFormed _ (mem_map.mpr ⟨page, mem_range.mpr bound, rfl⟩)
  obtain ⟨region, member, start, startPage, startClear⟩ := free 0 positive
  -- Every page of the run is one of the region that holds the first.
  have inside : ∀ page < count, region.PageAt (start + page) (first + page * pageSize) ∧
      region.bits.getBit (start + page) = false := by
    intro page bound
    induction page with
    | zero => exact ⟨startPage, startClear⟩
    | succ page ih =>
      obtain ⟨here, -⟩ := ih (by omega)
      obtain ⟨other, otherMember, index, next, clear⟩ := free (page + 1) bound
      have below := (wellFormed.regions region member).page_inside here
      have above := (wellFormed.regions other otherMember).page_inside next
      rw [succ_mul] at above next ⊢
      by_cases same : other = region
      · subst same
        have follows : index = start + (page + 1) := by
          have left := here.2
          have right := next.2
          refine eq_of_mul_eq_mul_right pageSize_pos ?_
          rw [← add_assoc, succ_mul]
          omega
        subst follows
        exact ⟨next, clear⟩
      · have positive := pageSize_pos
        have separate := apart region member other otherMember
        have symmetric : Std.Symm FrameAllocator.Apart := ⟨fun _ _ => Or.symm⟩
        rcases wellFormed.apart.forall member otherMember (Ne.symm same) with _ | _ <;> omega
  refine scattered region member start ⟨?_, ?_⟩
  · have last := (inside (count - 1) (by omega)).1.1
    omega
  · intro page lower _
    have here := (inside (page - start) (by omega)).2
    rwa [Nat.add_sub_cancel' lower] at here

/-! ## Small memories -/

def Machine.booted : Machine :=
  { frames := (FrameState.boot [(0x1000, 0x4000)]).allocator, mem := fun _ => 0 }

theorem Machine.booted_wellFormed : booted.frames.WellFormed :=
  (FrameState.boot_owned (by decide) (by decide) (by decide)).wellFormed

def Machine.scattered : Machine :=
  { frames := ((((FrameState.boot [(0x1000, 0x4000)]).apply (.allocMuch 3)).apply (.dealloc 0x1000)).apply
      (.dealloc 0x3000)).allocator
    mem := fun _ => 0 }

theorem Machine.scattered_wellFormed : scattered.frames.WellFormed := by
  have run : Lib.Run FrameState.Step (FrameState.boot [(0x1000, 0x4000)])
      [.allocMuch 3, .dealloc 0x1000, .dealloc 0x3000] _ :=
    .cons .allocMuch (.cons (.dealloc (by decide +kernel)) (.cons (.dealloc (by decide +kernel)) .refl))
  have owned := run.preserves (fun owned step => FrameState.Owned.step owned step)
    (FrameState.boot_owned (by decide) (by decide) (by decide))
  simpa only [scattered] using owned.wellFormed

/-- `frame_alloc` finds its frames: in one run or, for several `Mmap` pages, in pieces. -/
def Machine.HasFrames (machine : Machine) (mtype : MemType) (vaddr count : Nat) : Prop :=
  (machine.frameAllocMuch count).isSome ∨
    mtype = .Mmap ∧ 1 < count ∧ (allocSegments count machine count vaddr []).1.isSome

namespace Process

variable {process after : Process} {machine machine' : Machine} {vaddr count : Nat} {mtype : MemType}

/-! ## All or nothing -/

structure Receives (process : Process) (vaddr : Nat) (frames : List Nat) (flags : MappingFlags) (after : Process) :
    Prop where
  tracks : process.pcb.memset.Gains
    (frames.zipIdx.map fun (frame, page) => { vaddr := vaddr + page * pageSize, tracker := frame }) after.pcb.memset
  pages : process.pageTable.Maps vaddr frames flags after.pageTable
  rest : after = { process.withMemset after.pcb.memset with pageTable := after.pageTable }

theorem placed_receives {frames : List Nat} {area : MemArea} {flags : MappingFlags} (aligned : vaddr % pageSize = 0)
    (nonzero : vaddr ≠ 0) (fits : vaddr + frames.length * pageSize < usizeBound)
    (tracks : area.mtrackers = trackersAt vaddr frames) :
    process.Receives vaddr frames flags (process.placed area vaddr flags) := by
  refine ⟨?_, ?_, rfl⟩
  · rw [← trackersAt_eq nonzero fits, ← tracks]
    exact MemSet.place_gains process.pcb.memset area
  · simp only [placed, tracks]
    exact PageTable.mapPresent_maps aligned nonzero fits

variable {ppn len offset start : Nat} {flags : MappingFlags} {tracks : List MapTrack} {file : Option Inode}

theorem frameAlloc_receives (wellFormed : machine.frames.WellFormed) (aligned : vaddr % pageSize = 0)
    (nonzero : vaddr ≠ 0) (fits : vaddr + count * pageSize < usizeBound)
    (done : process.frameAlloc machine vaddr mtype count = some (some ppn, after, machine')) :
    ∃ frames, frames.length = count ∧ frames.head? = some ppn ∧ machine.Supplies frames machine' ∧
      process.Receives vaddr frames (allocFlags mtype) after := by
  rcases frameAlloc_outcome done with ⟨declined, -⟩ | ⟨_, obtained, head, -, -, rfl⟩
  · cases declined
  · obtain ⟨frames, length, rfl, supplied⟩ := obtained.supplies wellFormed fits
    refine ⟨frames, length, ?_, supplied, ?_⟩
    · rw [head, ← head?_map, map_tracker_trackersAt]
    · exact placed_receives aligned nonzero (by rw [length]; exact fits) mtrackers_allocArea

/-! ## When frames are found -/

theorem frameAlloc_elim {motive : Option (Option Nat × Process × Machine) → Prop}
    (found : machine.HasFrames mtype vaddr count)
    (placed : ∀ {tracks filled}, machine.Obtains vaddr count tracks filled →
      motive (process.placeMmap filled vaddr count tracks))
    (mapped : (machine.frameAllocMuch count).isSome → motive (process.mapFrames machine vaddr mtype count none 0 vaddr
      (wrapMul count pageSize) (allocFlags mtype))) :
    motive (process.frameAlloc machine vaddr mtype count) := by
  unfold frameAlloc
  split
  · cases allocated : machine.frameAllocMuch count with
    | some granted => exact placed (.inl ⟨granted.1, allocated, rfl⟩)
    | none =>
      dsimp only
      split
      · next gathered => exact placed (.inr gathered)
      · next declined =>
        rcases found with run | ⟨-, -, pieces⟩
        · rw [allocated] at run
          cases run
        · rw [declined] at pieces
          cases pieces
  · next single =>
    rcases found with run | ⟨kind, several, -⟩
    · exact mapped run
    · exact absurd ⟨kind, several⟩ single

theorem mapFrames_lacking (positive : 0 < count) (lacking : machine.frameAllocMuch count = none) :
    process.mapFrames machine vaddr mtype count file offset start len flags = some (none, process, machine) := by
  simp only [mapFrames, if_neg (ne_of_gt positive), lacking]

theorem frameAlloc_lacking (positive : 0 < count) (lacking : ¬ machine.HasFrames mtype vaddr count) :
    ∃ machine', process.frameAlloc machine vaddr mtype count = some (none, process, machine') := by
  have none : machine.frameAllocMuch count = none :=
    not_isSome_iff_eq_none.mp fun run => lacking (.inl run)
  unfold frameAlloc
  split
  · next multiple =>
    simp only [none]
    split
    · next gathered => exact absurd (.inr ⟨multiple.1, multiple.2, by rw [gathered]; rfl⟩) lacking
    · exact ⟨_, rfl⟩
  · exact ⟨machine, mapFrames_lacking positive none⟩

variable (aligned : vaddr % pageSize = 0) (positive : 0 < count) (fits : vaddr + count * pageSize < usizeBound)
include aligned positive fits

theorem mapFrames_found {offset start len : Nat} (found : (machine.frameAllocMuch count).isSome) :
    ∃ ppn after machine', process.mapFrames machine vaddr mtype count file offset start len flags =
      some (some ppn, after, machine') := by
  obtain ⟨⟨ppn, after, machine'⟩, done⟩ := isSome_iff_exists.mp (mapFrames_isSome aligned fits positive :
    (process.mapFrames machine vaddr mtype count file offset start len flags).isSome)
  obtain ⟨⟨_, _⟩, allocated⟩ := isSome_iff_exists.mp found
  cases ppn with
  | some ppn => exact ⟨ppn, after, machine', done⟩
  | none =>
    simp only [mapFrames, if_neg (ne_of_gt positive), allocated, bind_eq_some,
      Option.some.injEq, Prod.mk.injEq, reduceCtorEq, false_and, and_false, exists_false] at done

theorem frameAlloc_found (found : machine.HasFrames mtype vaddr count) :
    ∃ ppn after machine', process.frameAlloc machine vaddr mtype count = some (some ppn, after, machine') := by
  refine frameAlloc_elim (motive := fun answer => ∃ ppn after machine', answer = some (some ppn, after, machine'))
    found (fun {tracks filled} obtained => ?_) (mapFrames_found aligned positive fits)
  obtain ⟨-, pages, _⟩ := obtained.within aligned fits
  obtain ⟨_, done⟩ := isSome_iff_exists.mp
    (placeMmap_isSome pages (by omega) : (process.placeMmap filled vaddr count tracks).isSome)
  rw [done]
  simp only [placeMmap, bind_eq_some] at done
  obtain ⟨_, -, _, -, ⟨⟩⟩ := done
  exact ⟨_, _, _, rfl⟩

omit aligned positive fits

/-! ## One run of frames -/

structure BackedFrom (process : Process) (vaddr : Nat) (mtype : MemType) (count ppn : Nat) (after : Process) :
    Prop where
  tracked : ∃ tracks, after.pcb.memset = process.pcb.memset.place (allocArea mtype vaddr count tracks) ∧
    tracks.map tracker = frameRun ppn count
  mapped : vaddr ≠ 0 → vaddr + count * pageSize < usizeBound → ∀ page < count,
    after.pageTable (vaddr + page * pageSize) = some { paddr := ppn + page * pageSize, flags := allocFlags mtype }

theorem placed_backedFrom
    (listed : vaddr ≠ 0 → vaddr + count * pageSize < usizeBound → tracks = trackersAt vaddr (tracks.map tracker))
    (aligned : vaddr ≠ 0 → vaddr + count * pageSize < usizeBound → vaddr % pageSize = 0) :
    process.BackedFrom vaddr mtype count ppn
        (process.placed (allocArea mtype vaddr count tracks) vaddr (allocFlags mtype)) ↔
      tracks.map tracker = frameRun ppn count := by
  constructor
  · rintro ⟨⟨_, same, run⟩, -⟩
    rw [MemSet.place_allocArea_inj same]
    exact run
  · intro run
    refine ⟨⟨tracks, rfl, run⟩, fun nonzero fits page bound => ?_⟩
    have maps := @PageTable.mapPresent_maps process.pageTable vaddr (frameRun ppn count) (allocFlags mtype)
      (aligned nonzero fits) nonzero (by rw [length_frameRun]; exact fits)
    rw [← run, ← listed nonzero fits] at maps
    simp only [placed, mtrackers_allocArea]
    exact maps.pages page _ (by rw [run, getElem?_frameRun bound])

private theorem granted_run (wellFormed : machine.frames.WellFormed)
    (allocated : machine.frameAllocMuch count = some (frames, machine')) (head : frames.head? = some ppn) :
    frames = frameRun ppn count ∧ ∃ region ∈ machine.frames, ∃ start, region.FreeRun start count := by
  have padded : machine.frames.Padded := wellFormed.regions
  obtain ⟨⟨_, _⟩, allocating, ⟨⟩⟩ := map_eq_some_iff.mp allocated
  have positive : 1 ≤ count := by
    rw [← (FrameAllocator.allocMuch_grants wellFormed allocating).1]
    exact length_pos_of_mem (mem_of_mem_head? head)
  refine ⟨?_, (FrameAllocator.allocMuch_isSome_iff padded positive).mp (by rw [allocating]; rfl)⟩
  obtain ⟨_, rfl⟩ := allocMuch_frameRun padded positive allocating
  rw [head?_frameRun positive, Option.some.injEq] at head
  rw [head]

private theorem gathered_run_iff (padded : machine.frames.Padded) (several : 1 < count)
    (gathered : allocSegments count machine count vaddr [] = (some tracks, machine'))
    (head : (tracks.map tracker).head? = some ppn) :
    tracks.map tracker = frameRun ppn count ↔ ∃ first, EndToEnd machine.frames count first := by
  rcases allocSegments_gathers (le_refl count) gathered with ⟨_, ⟨⟩, taken, -⟩ | ⟨⟨⟩, _⟩
  have joined := taken.run padded rfl
  rw [nil_append] at head ⊢
  constructor
  · intro run
    exact ⟨ppn, (joined ppn).mp run⟩
  · rintro ⟨first, pieces⟩
    have run := (joined first).mpr pieces
    rw [run, head?_frameRun (by omega), Option.some.injEq] at head
    rwa [← head]

/-- The address returned starts a run of frames unless several `Mmap` pages are asked
for and no region has as many free pages in a row; then only if the pieces that
are taken instead happen to lie end to end. -/
theorem returned_frame_starts_run_iff {ppn : Nat} (wellFormed : machine.frames.WellFormed)
    (done : process.frameAlloc machine vaddr mtype count = some (some ppn, after, machine')) :
    process.BackedFrom vaddr mtype count ppn after ↔
      mtype ≠ .Mmap ∨ count = 1 ∨ (∃ region ∈ machine.frames, ∃ start, region.FreeRun start count) ∨
        ∃ first, EndToEnd machine.frames count first := by
  have padded : machine.frames.Padded := wellFormed.regions
  rcases frameAlloc_cases done with ⟨none, -⟩ | ⟨tracks, source, head, -, aligned, rfl⟩
  · cases none
  rw [← head?_map] at head
  have listed : vaddr ≠ 0 → vaddr + count * pageSize < usizeBound →
      ∃ frames : List Nat, frames.length = count ∧ tracks = trackersAt vaddr frames := by
    intro nonzero fits
    obtain ⟨frames, length, same, -⟩ := Machine.Obtains.supplies wellFormed fits (source.imp_right And.right)
    exact ⟨frames, length, same⟩
  rw [placed_backedFrom]
  · rcases source with ⟨frames, allocated, rfl⟩ | ⟨⟨rfl, several, refused⟩, gathered⟩
    · rw [map_tracker_trackersAt] at head ⊢
      obtain ⟨run, free⟩ := granted_run wellFormed allocated head.symm
      exact iff_of_true run (.inr (.inr (.inl free)))
    · have scattered : ¬ ∃ region ∈ machine.frames, ∃ start, region.FreeRun start count := by
        rw [← FrameAllocator.allocMuch_isSome_iff padded (by omega), not_isSome_iff_eq_none]
        exact map_eq_none_iff.mp refused
      rw [gathered_run_iff padded several gathered head.symm]
      simp [scattered, ne_of_gt several]
  · intro nonzero fits
    obtain ⟨frames, -, rfl⟩ := listed nonzero fits
    rw [map_tracker_trackersAt]
  · intro nonzero fits
    obtain ⟨frames, length, rfl⟩ := listed nonzero fits
    rw [map_tracker_trackersAt, head?_eq_getElem?] at head
    have first := getElem?_trackersAt nonzero (by rw [length]; exact fits) 0
    rw [← head, map_some, zero_mul, add_zero] at first
    exact (aligned nonzero _ (mem_of_getElem? first) nonzero).2

theorem returned_frame_starts_run_iff_booted :
    ∃ after machine', (new 7 []).frameAlloc booted 0x10000 .Mmap 2 =
        some (some 0x1000, after, machine') ∧
      (new 7 []).BackedFrom 0x10000 .Mmap 2 0x1000 after := by
  have address : ((new 7 []).frameAlloc booted 0x10000 .Mmap 2).map Prod.fst = some (some 0x1000) := by decide +kernel
  obtain ⟨⟨ppn, after, machine'⟩, done, rfl⟩ := map_eq_some_iff.mp address
  refine ⟨after, machine', done, (returned_frame_starts_run_iff booted_wellFormed done).mpr ?_⟩
  refine .inr (.inr (.inl ⟨_, mem_singleton.mpr rfl, 0, by decide, ?_⟩))
  decide +kernel

/-- The frame behind the first one is in use; the second page got another one. -/
theorem returned_frame_of_scattered_memory :
    ∃ after machine', (new 7 []).frameAlloc scattered 0x10000 .Mmap 2 =
        some (some 0x1000, after, machine') ∧
      after.pageTable 0x11000 = some { paddr := 0x3000, flags := .urwx } ∧
      ¬ (new 7 []).BackedFrom 0x10000 .Mmap 2 0x1000 after := by
  have evaluated : ((new 7 []).frameAlloc scattered 0x10000 .Mmap 2).map
      (fun answer => (answer.1, answer.2.1.pageTable 0x11000)) =
      some (some 0x1000, some { paddr := 0x3000, flags := .urwx }) := by decide +kernel
  obtain ⟨⟨ppn, after, machine'⟩, done, same⟩ := map_eq_some_iff.mp evaluated
  obtain ⟨rfl, mapped⟩ := Prod.mk.inj same
  refine ⟨after, machine', done, mapped, fun backed => ?_⟩
  have expected := backed.mapped (by decide) (by decide) 1 (by decide)
  rw [show 0x10000 + 1 * pageSize = 0x11000 from rfl, mapped] at expected
  exact absurd expected (by decide)

end Process

end Tasks

end MonkeyOS
