import MonkeyOS.User.MappedWindow
import MonkeyOS.User.Paging
import MonkeyOS.User.Pointers

/-!
# Frames in use

The frames a process maps or tracks are held, and are none of those the kernel
keeps for itself. Allocation, page faults and stores keep this, so that a fresh
frame is never one that is in use.
-/

set_option autoImplicit false

namespace MonkeyOS

open Lib Tasks Process List MemSet

structure Runtime.FrameAllocator.Holds (allocator : Runtime.FrameAllocator) (frame : Nat) : Prop where
  registered : allocator.Registered frame
  used : ¬ allocator.Free frame

/-! ## Frames of a process -/

def PageTable.Reaches (table : PageTable) (frame : Nat) : Prop :=
  ∃ page mapping, table page = some mapping ∧ mapping.paddr = frame

variable {flags : MappingFlags}

theorem PageTable.reaches_mapPage {table : PageTable} {page frame other : Nat}
    (reached : (table.mapPage page frame flags).Reaches other) : table.Reaches other ∨ other = frame := by
  obtain ⟨place, mapping, found, rfl⟩ := reached
  simp only [mapPage, Function.update_apply] at found
  split at found
  · exact .inr (Option.some.inj found ▸ rfl)
  · exact .inl ⟨place, mapping, found, rfl⟩

theorem PageTable.Maps.reaches {table after : PageTable} {vaddr frame : Nat} {frames : List Nat}
    (maps : table.Maps vaddr frames flags after) (reached : after.Reaches frame) :
    table.Reaches frame ∨ frame ∈ frames := by
  obtain ⟨place, mapping, found, rfl⟩ := reached
  by_cases inside : ∃ page < frames.length, place = vaddr + page * pageSize
  · obtain ⟨page, bound, rfl⟩ := inside
    rw [maps.pages page frames[page] (getElem?_eq_getElem bound)] at found
    exact .inr (Option.some.inj found ▸ getElem_mem bound)
  · rw [maps.others place (by simpa using inside)] at found
    exact .inl ⟨place, mapping, found, rfl⟩

namespace Tasks

def MemSet.Tracks (memset : MemSet) (frame : Nat) : Prop :=
  ∃ area ∈ memset, ∃ track ∈ area.mtrackers, track.tracker = frame

variable {frame other vaddr : Nat} {memset : MemSet}

theorem MemSet.Gains.tracks {after : MemSet} {tracks : List MapTrack} (gains : memset.Gains tracks after)
    (tracked : after.Tracks frame) :
    memset.Tracks frame ∨ frame ∈ tracks.map MapTrack.tracker := by
  obtain ⟨area, member, track, listed, rfl⟩ := tracked
  cases gains with
  | area own =>
    rcases mem_append.mp member with before | added
    · exact .inl ⟨area, before, track, listed, rfl⟩
    · rw [mem_singleton.mp added, own] at listed
      exact .inr (mem_map_of_mem listed)
  | @stack _ owner _ split _ =>
    subst split
    simp only [mem_append, mem_cons] at member
    rcases member with before | rfl | behind
    · exact .inl ⟨area, by simp [before], track, listed, rfl⟩
    · rcases mem_append.mp listed with old | new
      · exact .inl ⟨owner, by simp, track, old, rfl⟩
      · exact .inr (mem_map_of_mem new)
    · exact .inl ⟨area, by simp [behind], track, listed, rfl⟩

theorem MemSet.tracks_updateOwner {update : MemArea → MemArea}
    (tracked : MemSet.Tracks (User.updateOwner vaddr update memset) other)
    (gains : ∀ area, ∀ track ∈ (update area).mtrackers,
      (∃ old ∈ area.mtrackers, old.tracker = track.tracker) ∨ track.tracker = frame) :
    memset.Tracks other ∨ other = frame := by
  obtain ⟨area, member, track, listed, rfl⟩ := tracked
  rcases User.mem_updateOwner member with before | ⟨owner, found, rfl⟩
  · exact .inl ⟨area, before, track, listed, rfl⟩
  · exact (gains owner track listed).imp_left fun old => ⟨owner, mem_of_find?_eq_some found, old⟩

def Process.Uses (process : Process) (frame : Nat) : Prop :=
  process.pageTable.Reaches frame ∨ process.pcb.memset.Tracks frame

theorem Process.Receives.uses {process after : Process} {frames : List Nat}
    (received : process.Receives vaddr frames flags after) (used : after.Uses frame) :
    process.Uses frame ∨ frame ∈ frames := by
  rcases used with reached | tracked
  · exact (received.pages.reaches reached).imp_left .inl
  · rcases received.tracks.tracks tracked with before | added
    · exact .inl (.inr before)
    · refine .inr ?_
      simpa [map_map, Function.comp_def] using added

end Tasks

namespace User

/-- Free frames are blank, and those in use are held and are not kept by the kernel. No
area has a file. -/
structure OwnFrames (kept : List Nat) (space : UserSpace) : Prop where
  clean : space.machine.Clean
  holds : ∀ frame ∈ kept, space.machine.frames.Holds frame
  used : ∀ frame, space.process.Uses frame → space.machine.frames.Holds frame ∧ frame ∉ kept
  anonymous : ∀ area ∈ space.process.pcb.memset.layout, area.file = none

theorem anonymous_place {memset : MemSet} (anonymous : ∀ area ∈ memset.layout, area.file = none) {mtype : MemType}
    {vaddr count : Nat} (tracks : List MapTrack) :
    ∀ area ∈ layout (memset.place (allocArea mtype vaddr count tracks)), area.file = none := by
  rw [layout_place]
  split
  · exact anonymous
  · intro area member
    rcases mem_append.mp member with before | added
    · exact anonymous area before
    · rw [mem_singleton.mp added, MemArea.bare, allocArea]
      split <;> rfl

namespace OwnFrames

variable {around : Surroundings} {taskId vaddr : Nat} {kept frames : List Nat} {space after : UserSpace}

variable {granted machine : Machine}

variable (own : OwnFrames kept space)
include own

theorem grow (supplied : space.machine.Supplies frames granted) (allocator : after.machine.frames = granted.frames)
    (others : ∀ frame, frame % pageSize = 0 → frame ∉ frames →
      pageAt after.machine.mem frame = pageAt space.machine.mem frame)
    (uses : ∀ frame, after.process.Uses frame → space.process.Uses frame ∨ frame ∈ frames)
    (anonymous : ∀ area ∈ after.process.pcb.memset.layout, area.file = none) : OwnFrames kept after := by
  have grants := supplied.grants
  have keeps : ∀ frame, space.machine.frames.Holds frame → after.machine.frames.Holds frame := by
    intro frame held
    constructor
    · rw [allocator]
      exact held.registered.of_bounds grants.bounds
    · rw [allocator, grants.rest]
      exact fun free => held.used free.1
  refine ⟨⟨allocator ▸ grants.wellFormed, fun frame free => ?_⟩,
    fun frame member => keeps frame (own.holds frame member), fun frame used => ?_, anonymous⟩
  · rw [allocator, grants.rest] at free
    rw [others frame (free.1.registered.aligned own.clean.wellFormed) free.2]
    exact own.clean.blank frame free.1
  · rcases uses frame used with before | fresh
    · exact ⟨keeps frame (own.used frame before).1, (own.used frame before).2⟩
    · have free := grants.free frame fresh
      refine ⟨⟨?_, ?_⟩, fun member => (own.holds frame member).used free⟩
      · rw [allocator]
        exact free.registered.of_bounds grants.bounds
      · rw [allocator, grants.rest]
        exact fun still => still.2 fresh

theorem restored (restores : space.machine.Restores machine) : OwnFrames kept { space with machine } := by
  have keeps : ∀ frame, space.machine.frames.Holds frame → machine.frames.Holds frame := fun frame held =>
    ⟨held.registered.of_bounds restores.bounds, fun free => held.used ((restores.free frame).mp free)⟩
  exact ⟨restores.clean own.clean, fun frame member => keeps frame (own.holds frame member),
    fun frame used => ⟨keeps frame (own.used frame used).1, (own.used frame used).2⟩, own.anonymous⟩

theorem frameAlloc {start count : Nat} {mtype : MemType} {ppn : Option Nat} {process : Process}
    (aligned : start % pageSize = 0) (nonzero : start ≠ 0) (fits : start + count * pageSize < usizeBound)
    (done : space.process.frameAlloc space.machine start mtype count = some (ppn, process, machine)) :
    OwnFrames kept { space with process, machine } := by
  cases ppn with
  | none =>
    rcases frameAlloc_outcome done with ⟨-, rfl, declined⟩ | ⟨_, _, _, present, _⟩
    · exact own.restored (declined.restores own.clean)
    · cases present
  | some ppn =>
    obtain ⟨_, _, _, supplied, received⟩ :=
      frameAlloc_receives own.clean.wellFormed aligned nonzero fits done
    refine own.grow supplied rfl (fun _ _ _ => by rw [supplied.mem]) (fun _ used => received.uses used) ?_
    rcases frameAlloc_outcome done with ⟨missing, _⟩ | ⟨tracks, _, _, _, _, rfl⟩
    · cases missing
    · exact anonymous_place own.anonymous tracks

theorem fill {frame offset : Nat} (used : space.process.Uses frame) (inside : offset < pageSize) (byte : UInt8) :
    OwnFrames kept (space.fill (frame + offset) [byte]) := by
  have held := (own.used frame used).1
  have aligned := held.registered.aligned own.clean.wellFormed
  refine ⟨⟨own.clean.wellFormed, fun other free => ?_⟩, own.holds, own.used, own.anonymous⟩
  refine (pageAt_overlay_of_ne aligned (free.registered.aligned own.clean.wellFormed) (fun same => ?_)
    inside).trans (own.clean.blank other free)
  exact held.used (same ▸ free)

omit own

/-! ## Page faults -/

theorem elfSegment_none {memset : MemSet} (anonymous : ∀ area ∈ memset.layout, area.file = none) (address : Nat) :
    elfSegment memset address = none := by
  have files : ∀ area ∈ memset, area.file = none := fun area member =>
    anonymous area.bare (mem_map_of_mem member)
  have gap : gapSegment address memset = none := by
    clear anonymous
    induction memset with
    | nil => rfl
    | cons _ rest ih =>
      obtain ⟨here, later⟩ := forall_mem_cons.mp files
      cases rest with
      | nil => rfl
      | cons _ rest => simp [gapSegment, here, ih later]
  have search : memset.find? (fun area => area.contains address ∧ area.file.isSome) = none :=
    find?_eq_none.mpr fun area member => by simp [files area member]
  simp only [elfSegment, gap, search]

variable (own : OwnFrames kept space)
include own

theorem layout_fault (fault : Fault around taskId vaddr space after) :
    ∀ area ∈ after.process.pcb.memset.layout, area.file = none := by
  obtain ⟨-, same | ⟨-, gone | ⟨_, tracks, -, layout⟩⟩⟩ := fault.layout_change
  · rw [same]
    exact own.anonymous
  · rw [gone]
    exact nofun
  · rw [layout]
    exact anonymous_place own.anonymous tracks

theorem gainsPage {page frame : Nat} {bytes : List UInt8}
    (allocated : space.machine.frameAlloc = some (frame, granted)) (short : bytes.length ≤ pageSize)
    (machine : after.machine = { granted with mem := overlay granted.mem frame bytes })
    (table : after.process.pageTable = space.process.pageTable.mapPage page frame flags)
    (tracks : ∀ other, after.process.pcb.memset.Tracks other → space.process.pcb.memset.Tracks other ∨ other = frame)
    (anonymous : ∀ area ∈ after.process.pcb.memset.layout, area.file = none) : OwnFrames kept after := by
  have supplied := Machine.frameAlloc_supplies own.clean.wellFormed allocated
  refine own.grow supplied (by rw [machine]) (fun other aligned different => ?_) (fun other used => ?_) anonymous
  · rw [machine]
    exact (supplied.fill own.clean (mem_singleton_self frame) short).2 other aligned (by simpa using different)
  · rw [mem_singleton]
    rcases used with reached | tracked
    · rw [table] at reached
      exact (PageTable.reaches_mapPage reached).imp_left .inl
    · exact (tracks other tracked).imp_left .inr

theorem fault {write : Bool} (missing : target space.process.pageTable vaddr write = none)
    (served : target after.process.pageTable vaddr write ≠ none) (fault : Fault around taskId vaddr space after) :
    OwnFrames kept after := by
  have anonymous := own.layout_fault fault
  cases fault with
  | idle _ table _ =>
    rw [table] at served
    exact absurd missing served
  | ended _ _ _ _ exited =>
    rw [exited, (exit_keeps _ _).1] at served
    exact absurd missing served
  | remapped area track owner tracked _ pcb table machine =>
    refine own.grow (.nil own.clean.wellFormed) (by rw [machine]) (fun _ _ _ => by rw [machine])
      (fun frame used => ?_) anonymous
    rw [Process.Uses, pcb, table] at used
    rcases used with reached | listed
    · rcases PageTable.reaches_mapPage reached with before | rfl
      · exact .inl (.inl before)
      · exact .inl (.inr ⟨area, mem_of_find?_eq_some owner, track, mem_of_find?_eq_some tracked, rfl⟩)
    · exact .inl (.inr listed)
  | copied area track _ granted _ _ _ allocated pcb table machine =>
    refine own.gainsPage allocated (by simp) machine table (fun frame tracked => ?_) anonymous
    rw [pcb] at tracked
    refine tracks_updateOwner tracked fun _ _ listed => ?_
    obtain ⟨old, known, -, same | new⟩ := User.mem_replaceTrack listed
    · exact .inl ⟨old, known, same.symm⟩
    · exact .inr new
  | touched area frame granted _ _ allocated pcb table machine =>
    refine own.gainsPage allocated (firstBytes_length ..) machine table (fun other tracked => ?_) anonymous
    rw [pcb] at tracked
    refine tracks_updateOwner tracked fun _ _ listed => ?_
    rcases mem_append.mp listed with old | new
    · exact .inl ⟨_, old, rfl⟩
    · exact .inr (by rw [mem_singleton.mp new])
  | placed plan first tracks granted _ planned obtained pcb table machine =>
    obtain ⟨-, -, short, -⟩ := windowPlan_bounds planned
    obtain ⟨nonzero, fits⟩ := windowPlan_fits planned
    obtain ⟨frames, length, tracked, supplied⟩ := obtained.supplies own.clean.wellFormed fits
    have listed : first.tracker ∈ frames := by
      rw [← Machine.map_tracker_trackersAt (pageFloor vaddr) frames, ← tracked]
      exact mem_map_of_mem mem_cons_self
    have received := @placed_receives space.process _ frames
      (plan.area vaddr (first :: tracks)) .urwx (pageFloor_mod vaddr) nonzero
      (by rwa [length]) (by rw [← tracked, mtrackers_allocArea])
    refine own.grow supplied (by rw [machine]) (fun frame aligned other => ?_) (fun frame used => ?_) anonymous
    · rw [machine]
      exact (supplied.fill own.clean listed short).2 frame aligned fun same => other (same ▸ listed)
    · rw [Process.Uses, pcb, table] at used
      exact received.uses used

/-! ## Stores -/

theorem storeByte {byte : UInt8} (stored : space.storeByte around taskId vaddr byte = some after) :
    OwnFrames kept after := by
  obtain ⟨paddr, middle, accessed, rfl⟩ := UserSpace.storeByte_access stored
  have step : OwnFrames kept middle ∧ target middle.process.pageTable vaddr true = some paddr := by
    rcases UserSpace.access_cases accessed with ⟨-, found, rfl⟩ | ⟨missing, served, found⟩
    · exact ⟨own, found⟩
    · have readable : SegmentReadable around.files space.process.pcb.memset vaddr := by
        intro _ _ _ _ _ _ segment
        rw [elfSegment_none own.anonymous] at segment
        cases segment
      have fault := userCowInt_fault served fun _ => readable
      exact ⟨own.fault missing (by rw [found]; exact Option.some_ne_none _) fault, found⟩
  obtain ⟨mapping, mapped, rfl, -⟩ := target_eq_some step.2
  exact step.1.fill (.inl ⟨_, mapping, mapped, rfl⟩) (Nat.mod_lt _ pageSize_pos) byte

theorem storeBytes {bytes : List UInt8} (stored : space.storeBytes around taskId vaddr bytes = some after) :
    OwnFrames kept after :=
  UserSpace.storeBytes_preserves (fun _ own stored => storeByte own stored) stored own

end OwnFrames

end User

end MonkeyOS
