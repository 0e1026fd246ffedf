import MonkeyOS.Tasks.Allocation
import MonkeyOS.User.Layout

/-!
# Pages that a fault leaves alone

A fault maps the page of its address and, in the window of the heap, the eleven
pages behind it, whoever tracks them. A fault that ends the last thread of a
process takes all areas away.
-/

set_option autoImplicit false

namespace MonkeyOS

open List PageTable Nat

namespace Tasks

variable {memset middle after : MemSet} {page : Nat}

/-- Area by area, the trackers of every page but one are still there. -/
def MemSet.Spares (page : Nat) (memset after : MemSet) : Prop :=
  ∀ (index : Nat) (area : MemArea), memset[index]? = some area →
    ∃ tracks, after[index]? = some { area with mtrackers := tracks } ∧
      ∀ track ∈ area.mtrackers, track.vaddr ≠ page → track ∈ tracks

namespace MemSet.Spares

theorem refl (page : Nat) (memset : MemSet) : memset.Spares page memset :=
  fun _ area found => ⟨area.mtrackers, found, fun _ member _ => member⟩

theorem trans (first : memset.Spares page middle) (second : middle.Spares page after) : memset.Spares page after := by
  intro index area found
  obtain ⟨_, kept, members⟩ := first index area found
  obtain ⟨tracks', kept', members'⟩ := second index _ kept
  exact ⟨tracks', kept', fun track member other => members' track (members track member other) other⟩

theorem of_gains {tracks : List MapTrack} (gains : memset.Gains tracks after) : memset.Spares page after := by
  intro index area found
  have bound := (List.getElem?_eq_some_iff.mp found).1
  cases gains with
  | area _ => exact ⟨area.mtrackers, (List.getElem?_append_left bound).trans found, fun _ member _ => member⟩
  | @stack front stack _ split _ =>
    subst split
    by_cases inFront : index < front.length
    · rw [List.getElem?_append_left inFront] at found
      exact ⟨area.mtrackers, (List.getElem?_append_left inFront).trans found, fun _ member _ => member⟩
    · obtain ⟨place, rfl⟩ := Nat.exists_eq_add_of_le (Nat.le_of_not_lt inFront)
      rw [List.getElem?_append_right (by omega), Nat.add_sub_cancel_left] at found ⊢
      cases place with
      | zero =>
        cases found
        exact ⟨_, rfl, fun _ member _ => List.mem_append_left _ member⟩
      | succ place => exact ⟨area.mtrackers, found, fun _ member _ => member⟩

end MemSet.Spares

end Tasks

namespace User

open Lib Tasks
open MonkeyOS.Runtime

variable {around : Surroundings} {taskId vaddr page : Nat}

theorem mem_replaceTrack_of_ne {frame : Nat} {tracks : List MapTrack} {track : MapTrack}
    (member : track ∈ tracks) (other : track.vaddr ≠ page) : track ∈ replaceTrack page frame tracks := by
  induction tracks with
  | nil => cases member
  | cons _ _ ih =>
    unfold replaceTrack
    rcases mem_cons.mp member with rfl | listed
    · rw [if_neg other]
      exact .head _
    · split
      · exact .tail _ listed
      · exact .tail _ (ih listed)

theorem updateOwner_spares {change : List MapTrack → List MapTrack}
    (kept : ∀ tracks, ∀ track ∈ tracks, track.vaddr ≠ page → track ∈ change tracks) (memset : MemSet) :
    memset.Spares page (updateOwner vaddr (fun area => { area with mtrackers := change area.mtrackers }) memset) := by
  induction memset with
  | nil => exact .refl page []
  | cons head _ ih =>
    intro index area found
    unfold updateOwner
    split
    · cases index with
      | zero =>
        cases found
        exact ⟨_, rfl, kept head.mtrackers⟩
      | succ index => exact ⟨area.mtrackers, found, fun _ member _ => member⟩
    · cases index with
      | zero =>
        cases found
        exact ⟨_, rfl, fun _ member _ => member⟩
      | succ index => exact ih index area found

theorem retrack_spares (frame : Nat) (memset : MemSet) : memset.Spares (pageFloor vaddr) (retrack vaddr frame memset) :=
  updateOwner_spares (fun _ _ => mem_replaceTrack_of_ne) memset

theorem track_spares (frame : Nat) (memset : MemSet) : memset.Spares (pageFloor vaddr) (track vaddr frame memset) :=
  updateOwner_spares (fun _ _ member _ => mem_append_left _ member) memset

/-! ## One fault -/

/-- The trackers of every page but that of the address are still there, and of the
page table only `count` pages from there on may have changed. -/
structure SparesPages (vaddr count : Nat) (before after : UserSpace) : Prop where
  areas : before.process.pcb.memset.Spares (pageFloor vaddr) after.process.pcb.memset
  pages : ∀ page, (∀ offset < count, page ≠ pageFloor vaddr + offset * pageSize) →
    after.process.pageTable page = before.process.pageTable page

namespace SparesPages

variable {count : Nat} {before middle after : UserSpace}

theorem of_same (memset : after.process.pcb.memset = before.process.pcb.memset)
    (table : after.process.pageTable = before.process.pageTable) : SparesPages vaddr count before after :=
  ⟨memset ▸ .refl _ _, fun _ _ => by rw [table]⟩

theorem trans (first : SparesPages vaddr count before middle) (second : SparesPages vaddr count middle after) :
    SparesPages vaddr count before after :=
  ⟨first.areas.trans second.areas, fun page outside => (second.pages page outside).trans (first.pages page outside)⟩

theorem mapPage {frame : Nat} {flags : MappingFlags}
    (areas : before.process.pcb.memset.Spares (pageFloor vaddr) after.process.pcb.memset)
    (table : after.process.pageTable = before.process.pageTable.mapPage (pageFloor vaddr) frame flags) :
    SparesPages vaddr 1 before after := by
  refine ⟨areas, fun _ outside => ?_⟩
  have different := outside 0 one_pos
  rw [zero_mul, add_zero] at different
  rw [table, PageTable.mapPage, pageFloor_of_aligned (pageFloor_mod vaddr), Function.update_of_ne different]

end SparesPages

namespace UserSpace

variable {space after : UserSpace} {mtype : MemType} {count : Nat} {ppn : Option Nat}

theorem placed_spares {machine granted : Machine} {tracks : List MapTrack} {flags : MappingFlags}
    (fits : pageFloor vaddr + count * pageSize < usizeBound)
    (obtained : machine.Obtains (pageFloor vaddr) count tracks granted)
    (pcb : after.process.pcb =
      (space.process.placed (allocArea mtype (pageFloor vaddr) count tracks) (pageFloor vaddr) flags).pcb)
    (table : after.process.pageTable =
      (space.process.placed (allocArea mtype (pageFloor vaddr) count tracks) (pageFloor vaddr) flags).pageTable) :
    SparesPages vaddr count space after := by
  obtain ⟨-, pages, -⟩ := obtained.within (pageFloor_mod vaddr) fits
  refine ⟨?_, fun page outside => ?_⟩
  · rw [pcb]
    exact .of_gains (MemSet.place_gains _ _)
  · have listed : ∀ track ∈ tracks.filter (fun track => track.vaddr ≠ 0),
        track.vaddr % pageSize = 0 ∧ track.vaddr ≠ page := by
      intro track member
      obtain ⟨⟨-, aligned⟩, _⟩ := pages track (mem_filter.mp member).1
      refine ⟨aligned, fun same => ?_⟩
      have floor := pageFloor_mod vaddr
      unfold pageSize at *
      exact outside ((page - pageFloor vaddr) / 4096) (by omega) (by omega)
    rw [table, Process.placed, mtrackers_allocArea]
    rw [mapPresent]
    split
    · rcases @mapAll_cases space.process.pageTable _ flags
        (fun track member => (listed track member).1) page with ⟨track, member, same, -⟩ | ⟨-, kept⟩
      · exact absurd same (listed track member).2
      · exact kept
    · rfl

theorem frameAlloc_spares (fits : pageFloor vaddr + count * pageSize < usizeBound)
    (done : space.frameAlloc vaddr mtype count = some (ppn, after)) : SparesPages vaddr count space after := by
  rcases frameAlloc_outcome done with ⟨-, process, -⟩ | ⟨_, _, rfl, obtained, process⟩
  · exact .of_same (by rw [process]) (by rw [process])
  · exact placed_spares fits obtained (by rw [process]) (by rw [process])

/-- A segment that cannot be read gives way to a blank page. -/
theorem segmentPage_spares (unreadable : ¬ SegmentReadable around.files space.process.pcb.memset vaddr)
    (served : space.segmentPage around taskId vaddr = some after) : SparesPages vaddr 1 space after := by
  simp only [SegmentReadable, Classical.not_forall, not_not] at unreadable
  obtain ⟨_, _, _, _, _, _, segment, sized, inFile, read⟩ := unreadable
  have fits : pageFloor vaddr + 1 * pageSize < usizeBound := by
    have floor := pageFloor_le vaddr
    unfold pageSize usizeBound
    omega
  have blank : ∀ {middle : UserSpace}, middle.blankPages taskId vaddr .Mmap 1 = some after →
      SparesPages vaddr 1 middle after := by
    intro middle served
    simp only [blankPages, bind_eq_some] at served
    obtain ⟨⟨ppn, _⟩, allocated, ⟨⟩⟩ := served
    have spared := frameAlloc_spares fits allocated
    split
    · exact spared
    · exact spared.trans (.of_same rfl rfl)
  simp only [segmentPage, Process.getElfSegmentForAddr, segment, sized, if_neg (Nat.not_le_of_lt inFile), read,
    bind_eq_some] at served
  obtain ⟨⟨ppn, middle⟩, allocated, served⟩ := served
  have spared := frameAlloc_spares fits allocated
  cases ppn with
  | none => exact spared.trans (blank served)
  | some _ => exact spared.trans (blank served)

/-! ## Ends of tasks -/

def LastThread (around : Surroundings) (taskId : Nat) (process : Process) : Prop :=
  taskId = process.processId ∧
    (process.pcb.threads.filter fun other => around.alive other && other != taskId).length = 0

theorem exit_memset (space : UserSpace) (code : Nat) :
    (LastThread around taskId space.process → (space.exit around taskId code).process.pcb.memset = []) ∧
      (¬ LastThread around taskId space.process →
        (space.exit around taskId code).process.pcb.memset = space.process.pcb.memset) := by
  obtain ⟨_, cleared⟩ := space.process.clearChildTid_fst space.machine.mem taskId
  simp only [UserSpace.exit, Process.exit, Process.leaveThreads, cleared]
  split
  · next last => exact ⟨fun _ => rfl, fun more => absurd last more⟩
  · next more => exact ⟨fun last => absurd last more, fun _ => rfl⟩

theorem exit_spares (more : ¬ LastThread around taskId space.process) (code : Nat) :
    SparesPages vaddr count space (space.exit around taskId code) :=
  .of_same ((exit_memset space code).2 more) (exit_keeps space code).1

/-- The ways in which a fault outside all areas changes more than its own page. -/
def Overreaches (around : Surroundings) (taskId vaddr : Nat) (space after : UserSpace) : Prop :=
  (EndsTask space taskId vaddr ∧ LastThread around taskId space.process) ∨
    within 0x1000000 0x2000000 vaddr ∧ space.machine.HasFrames .Mmap (pageFloor vaddr) 12 ∧
      SparesPages vaddr 12 space after

end UserSpace

/-! ## Other pages -/

/-- The pages that areas track are mapped to the frames they track. -/
def TracksMapped (process : Process) : Prop :=
  ∀ area ∈ process.pcb.memset, ∀ track ∈ area.mtrackers,
    ∃ flags, process.pageTable track.vaddr = some { paddr := track.tracker, flags }

/-- Every page but that of the address is tracked by the area it was tracked by, and
mapped to the same frame. -/
def Undisturbed (around : Surroundings) (taskId vaddr : Nat) (space : UserSpace) : Prop :=
  ∀ after, space.userCowInt around taskId vaddr = some after →
    ∀ (index : Nat) (area : MemArea), space.process.pcb.memset[index]? = some area →
      ∀ track ∈ area.mtrackers, track.vaddr ≠ pageFloor vaddr →
        (∃ tracks, after.process.pcb.memset[index]? = some { area with mtrackers := tracks } ∧ track ∈ tracks) ∧
          ∃ flags, after.process.pageTable track.vaddr = some { paddr := track.tracker, flags }

/-- Outside all areas: the fault ends the last thread of a process that has other
pages, or it is in the window of the heap, finds twelve frames, and one of the eleven
pages behind that of the address is tracked. -/
def DisturbsPages (around : Surroundings) (taskId vaddr : Nat) (space : UserSpace) : Prop :=
  (∀ area ∈ space.process.pcb.memset, ¬ area.contains vaddr) ∧
    ∃ area ∈ space.process.pcb.memset, ∃ track ∈ area.mtrackers,
      (EndsTask space taskId vaddr ∧ UserSpace.LastThread around taskId space.process ∧
        track.vaddr ≠ pageFloor vaddr) ∨
      (within 0x1000000 0x2000000 vaddr ∧ space.machine.HasFrames .Mmap (pageFloor vaddr) 12 ∧
        ∃ offset, 0 < offset ∧ offset < 12 ∧ track.vaddr = pageFloor vaddr + offset * pageSize)

section Disturbance

open UserSpace

variable {space after : UserSpace}

theorem Fault.spares (fault : Fault around taskId vaddr space after) :
    SparesPages vaddr 1 space after ∨ (∀ area ∈ space.process.pcb.memset, ¬ area.contains vaddr) ∧
      Overreaches around taskId vaddr space after := by
  cases fault with
  | idle pcb table => exact .inl (.of_same (by rw [pcb]) table)
  | remapped _ _ _ _ _ pcb table => exact .inl (.mapPage (by rw [pcb]; exact .refl _ _) table)
  | copied _ _ _ _ _ _ _ _ pcb table => exact .inl (.mapPage (by rw [pcb]; exact retrack_spares _ _) table)
  | touched _ _ _ _ _ _ pcb table => exact .inl (.mapPage (by rw [pcb]; exact track_spares _ _) table)
  | placed _ _ _ _ unowned planned obtained pcb table =>
    have spared := placed_spares (windowPlan_fits planned).2 obtained pcb table
    obtain ⟨-, one | ⟨twelve, heap⟩, -⟩ := windowPlan_bounds planned
    · exact .inl (one ▸ spared)
    · rw [twelve] at obtained spared
      refine .inr ⟨by simpa using unowned, .inr ⟨heap, ?_, spared⟩⟩
      rcases obtained with ⟨_, allocated, -⟩ | gathered
      · exact .inl (by rw [allocated]; rfl)
      · exact .inr ⟨rfl, by decide, by rw [gathered]; rfl⟩
  | ended code tls unowned ends exited =>
    subst exited
    by_cases last : LastThread around taskId space.process
    · exact .inr ⟨by simpa using unowned, .inl ⟨ends, last⟩⟩
    · have spared := @exit_spares around taskId vaddr { space with tls } 1 last code
      exact .inl ⟨spared.areas, spared.pages⟩

theorem userCowInt_unowned (unowned : ∀ area ∈ space.process.pcb.memset, ¬ area.contains vaddr)
    (outside : ¬ within 0x70000000 0x80000000 vaddr) :
    space.userCowInt around taskId vaddr = space.serveWindows around taskId vaddr := by
  have none : space.process.pcb.memset.areaAt vaddr = none := by
    simpa using unowned
  rw [UserSpace.userCowInt, none]
  exact if_neg outside

theorem userCowInt_cases (served : space.userCowInt around taskId vaddr = some after) :
    SparesPages vaddr 1 space after ∨ (∀ area ∈ space.process.pcb.memset, ¬ area.contains vaddr) ∧
      Overreaches around taskId vaddr space after := by
  by_cases readable : SegmentReadable around.files space.process.pcb.memset vaddr
  · exact (userCowInt_fault served fun _ => readable).spares
  · by_cases unowned : ∀ area ∈ space.process.pcb.memset, ¬ area.contains vaddr
    · have inside : within 0x10000 0x100000 vaddr ∨ within 0x200a0000 0x300b0000 vaddr :=
        by_contra fun outside => readable fun within => absurd within outside
      have page : space.userCowInt around taskId vaddr = space.segmentPage around taskId vaddr := by
        rw [userCowInt_unowned unowned (by omega), serveWindows, if_neg (by omega)]
        rcases inside with low | gap
        · rw [if_pos low]
        · rw [if_neg (by omega), if_neg (by omega), if_neg (by omega), if_pos gap]
      exact .inl (segmentPage_spares readable (page ▸ served))
    · exact (userCowInt_fault served fun free => absurd (by simpa using free) unowned).spares

theorem userCowInt_ends (unowned : ∀ area ∈ space.process.pcb.memset, ¬ area.contains vaddr)
    (ends : EndsTask space taskId vaddr) (last : LastThread around taskId space.process) :
    ∃ after, space.userCowInt around taskId vaddr = some after ∧ after.process.pcb.memset = [] := by
  rcases ends with ⟨low, pending⟩ | ⟨inside, again, _⟩
  · refine ⟨space.exit around taskId (128 + SIGSEGV), ?_, (exit_memset space _).1 last⟩
    rw [userCowInt_unowned unowned (by omega), serveWindows, if_pos low, nullAccess, if_pos pending]
  · refine ⟨{ space with tls := { space.tls with count := space.tls.count + 1 } }.exit around taskId 1, ?_,
      (exit_memset _ _).1 last⟩
    have more : space.tls.count + 1 > 3 := by omega
    rw [userCowInt_unowned unowned (by omega), serveWindows, if_neg (by omega), if_neg (by omega),
      if_neg (by omega), if_pos inside, tlsPage, if_pos again]
    exact if_pos more

theorem userCowInt_heap (wellFormed : space.machine.frames.WellFormed)
    (unowned : ∀ area ∈ space.process.pcb.memset, ¬ area.contains vaddr) (inside : within 0x1000000 0x2000000 vaddr)
    (found : space.machine.HasFrames .Mmap (pageFloor vaddr) 12) :
    ∃ after, space.userCowInt around taskId vaddr = some after ∧ ∀ offset < 12,
      ∃ frame flags, space.machine.frames.Free frame ∧
        after.process.pageTable (pageFloor vaddr + offset * pageSize) = some { paddr := frame, flags } := by
  have floor := pageFloor_mod vaddr
  have lower := pageFloor_le vaddr
  have nonzero : pageFloor vaddr ≠ 0 := by
    unfold pageFloor pageSize
    omega
  have fits : pageFloor vaddr + 12 * pageSize < usizeBound := by
    unfold pageSize usizeBound
    omega
  obtain ⟨_, process, machine, done⟩ :=
    @Process.frameAlloc_found space.process _ _ _ _ floor (by decide : 0 < 12) fits found
  obtain ⟨frames, _, -, supplied, received⟩ := Process.frameAlloc_receives wellFormed floor nonzero fits done
  refine ⟨{ space with process, machine }, ?_, fun offset _ => ?_⟩
  · rw [userCowInt_unowned unowned (by omega), serveWindows, if_neg (by omega), if_neg (by omega), if_pos inside]
    simp only [blankPages, UserSpace.frameAlloc, done, Option.bind_eq_bind, Option.bind_some]
    rfl
  · have listed : frames[offset]? = some frames[offset] := getElem?_eq_getElem (by omega)
    exact ⟨frames[offset], _, supplied.grants.free _ (getElem_mem _), received.pages.pages offset _ listed⟩

/-- A fault disturbs no other page unless it ends the process or fills a stretch of
the heap with tracked pages in it. Where tracked frames are not free, it does
disturb one then. -/
theorem fault_undisturbed_iff (mapped : TracksMapped space.process) :
    (¬ DisturbsPages around taskId vaddr space → Undisturbed around taskId vaddr space) ∧
      (space.machine.frames.WellFormed →
        (∀ area ∈ space.process.pcb.memset, ∀ track ∈ area.mtrackers, ¬ space.machine.frames.Free track.tracker) →
        Undisturbed around taskId vaddr space → ¬ DisturbsPages around taskId vaddr space) := by
  constructor
  · intro calm after served index area found track member other
    have listed := mem_of_getElem? found
    obtain ⟨flags, before⟩ := mapped area listed track member
    -- Only the pages that a fault maps from its address on need care.
    have keep : ∀ count, SparesPages vaddr count space after →
        (∀ offset < count, track.vaddr ≠ pageFloor vaddr + offset * pageSize) →
        (∃ tracks, after.process.pcb.memset[index]? = some { area with mtrackers := tracks } ∧ track ∈ tracks) ∧
          ∃ flags, after.process.pageTable track.vaddr = some { paddr := track.tracker, flags } := by
      intro count spared outside
      obtain ⟨tracks, kept, members⟩ := spared.areas index area found
      exact ⟨⟨tracks, kept, members track member other⟩, flags, (spared.pages track.vaddr outside).trans before⟩
    rcases userCowInt_cases served with spared | ⟨unowned, ⟨ends, last⟩ | ⟨heap, frames, spared⟩⟩
    · refine keep 1 spared fun offset bound same => ?_
      obtain rfl : offset = 0 := by omega
      exact other (by rw [same, zero_mul, add_zero])
    · exact absurd ⟨unowned, area, listed, track, member, .inl ⟨ends, last, other⟩⟩ calm
    · refine keep 12 spared fun offset bound same => ?_
      obtain rfl | positive := Nat.eq_zero_or_pos offset
      · exact other (by rw [same, zero_mul, add_zero])
      · exact calm ⟨unowned, area, listed, track, member, .inr ⟨heap, frames, offset, positive, bound, same⟩⟩
  · rintro wellFormed held calm ⟨unowned, area, listed, track, member, ⟨ends, last, other⟩ |
      ⟨heap, found, offset, positive, bound, same⟩⟩
    · obtain ⟨index, found⟩ := getElem?_of_mem listed
      obtain ⟨after, served, gone⟩ := @userCowInt_ends around taskId vaddr space unowned ends last
      obtain ⟨⟨tracks, kept, -⟩, -⟩ := calm after served index area found track member other
      rw [gone] at kept
      cases kept
    · obtain ⟨index, listed'⟩ := getElem?_of_mem listed
      obtain ⟨after, served, pages⟩ := @userCowInt_heap around taskId vaddr space wellFormed unowned heap found
      obtain ⟨frame, flags, free, fresh⟩ := pages offset bound
      have other : track.vaddr ≠ pageFloor vaddr := by
        have far := mul_pos positive pageSize_pos
        omega
      obtain ⟨-, flags', kept⟩ := calm after served index area listed' track member other
      rw [same, fresh, Option.some.injEq, Mapping.mk.injEq] at kept
      exact held area listed track member (kept.1 ▸ free)

def crowdedHeap : UserSpace :=
  let process := Process.new 7 []
  { process :=
      { process.withMemset
          [{ mtype := .Mmap, mtrackers := [{ vaddr := 0x1001000, tracker := 0x1000 }], file := none
             offset := 0, start := 0x1001000, len := 0x1000 }] with
        pageTable := empty.mapPage 0x1001000 0x1000 .urwx }
    machine := { frames := ((FrameState.boot [(0x1000, 0xf000)]).apply (.allocMuch 1)).allocator, mem := fun _ => 0 }
    tls := { lastAddr := 0, count := 0 } }

theorem crowdedHeap_mapped : TracksMapped crowdedHeap.process := by
  intro _ listed _ member
  obtain rfl := mem_singleton.mp listed
  obtain rfl := mem_singleton.mp member
  exact ⟨.urwx, by decide⟩

theorem fault_undisturbed_iff_behind : Undisturbed .alone 7 0x1002000 crowdedHeap := by
  refine (fault_undisturbed_iff crowdedHeap_mapped).1 ?_
  rintro ⟨-, area, listed, track, member, ⟨ends, -⟩ | ⟨-, -, offset, -, -, same⟩⟩
  · rcases ends with ⟨low, -⟩ | ⟨inside, -⟩ <;> omega
  · obtain rfl := mem_singleton.mp listed
    obtain rfl := mem_singleton.mp member
    simp only [pageFloor, pageSize] at same
    omega

/-- A fault on the page before the tracked one maps a fresh frame over it. -/
theorem fault_replaces_neighbour :
    TracksMapped crowdedHeap.process ∧
      (crowdedHeap.userCowInt .alone 7 0x1000000).map (fun after =>
        (after.process.pcb.memset.map fun area => (area.start, area.len, area.mtrackers.map MapTrack.tracker),
          after.process.pageTable 0x1001000)) =
        some ([(0x1001000, 0x1000, [0x1000]), (0x1000000, 0xc000, frameRun 0x2000 12)],
          some { paddr := 0x3000, flags := .urwx }) ∧
      ¬ Undisturbed .alone 7 0x1000000 crowdedHeap := by
  refine ⟨crowdedHeap_mapped, (and_iff_left_of_imp fun served calm => ?_).mpr (by decide +kernel)⟩
  obtain ⟨after, done, shown⟩ := Option.map_eq_some_iff.mp served
  obtain ⟨-, flags, kept⟩ := calm after done 0 _ rfl _ (.head _) (by decide)
  have fresh := (Prod.mk.inj shown).2
  rw [fresh, Option.some.injEq, Mapping.mk.injEq] at kept
  exact absurd kept.1 (by decide)

end Disturbance

end User

end MonkeyOS
