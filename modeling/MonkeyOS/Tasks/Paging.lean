import MonkeyOS.Tasks.MachineProperties
import MonkeyOS.Tasks.MemSetProperties

/-!
# Areas on page boundaries

An area is paged if it starts and ends on a page boundary and its trackers name
pages of it and frames. What keeps areas so: cutting an aligned range out of them,
unless the range is a hole with tracked pages, and adding the areas that
`frame_alloc` makes at an aligned address. Mapping the trackers of paged areas never
fails.
-/

set_option autoImplicit false

namespace MonkeyOS.Tasks

open MonkeyOS.Runtime List Option MemArea FrameAllocator Machine Nat

structure MemArea.Paged (area : MemArea) : Prop extends MemArea.WellFormed area where
  frames : ∀ track ∈ area.mtrackers, track.tracker % pageSize = 0

abbrev MemSet.Paged (memset : MemSet) : Prop := ∀ area ∈ memset, area.Paged

/-- No page is tracked where a range cuts a hole. -/
def MemSet.Untouched (memset : MemSet) (start last : Nat) : Prop :=
  ∀ area ∈ memset, area.Hole start last → ∀ track ∈ area.mtrackers, ¬ within start last track.vaddr

/-! ## Cutting a range out -/

namespace MemArea

variable {area : MemArea} {start last : Nat}

theorem Paged.finish_aligned (paged : area.Paged) : area.finish % pageSize = 0 := by
  have startAligned := paged.startAligned
  have lenAligned := paged.lenAligned
  rw [paged.finish_eq]
  unfold pageSize at *
  omega

/-- `Drop` subtracts the start from the address of a tracked page, and what is left
from the length. -/
def DropFits (area : MemArea) : Prop :=
  ∀ track ∈ area.mtrackers, area.start ≤ track.vaddr ∧ track.vaddr - area.start ≤ area.len

theorem Paged.dropFits (paged : area.Paged) : area.DropFits := by
  intro track member
  have inside := paged.trackInside track member
  have finish := paged.finish_eq
  omega

theorem Paged.part (paged : area.Paged) {piece : MemArea} {first : Nat} (ordered : first ≤ last)
    (high : last ≤ area.finish) (firstAligned : first % pageSize = 0) (lastAligned : last % pageSize = 0)
    (start : piece.start = first) (len : piece.len = last - first)
    (tracked : ∀ track ∈ piece.mtrackers, track ∈ area.mtrackers ∧
      (within first last track.vaddr ∨ piece.contains track.vaddr)) : piece.Paged := by
  have bounded := paged.bounded
  have finish := paged.finish_eq
  have fits : piece.start + piece.len < usizeBound := by omega
  have ends : piece.finish = last := by
    rw [MemArea.finish, wrapAdd_eq fits]
    omega
  refine ⟨⟨start ▸ firstAligned, ?_, fits, fun track member => ?_, fun track member => ?_⟩, fun track member => ?_⟩
  · unfold pageSize at *
    omega
  · exact paged.trackAligned track (tracked track member).1
  · rcases (tracked track member).2 with inside | inside
    · rw [contains, start, ends]
      exact inside
    · exact inside
  · exact paged.frames track (tracked track member).1

variable (paged : area.Paged) (startAligned : start % pageSize = 0) (lastAligned : last % pageSize = 0)
  (ordered : start ≤ last)
  (untouched : area.Hole start last → ∀ track ∈ area.mtrackers, ¬ within start last track.vaddr)
include paged startAligned lastAligned ordered untouched

theorem Paged.sub (table : PageTable) :
    (area.sub start last table).area.Paged ∧ ∀ piece, (area.sub start last table).split = some piece → piece.Paged := by
  have areaStart := paged.startAligned
  have areaFinish := paged.finish_aligned
  have finish := paged.finish_eq
  have bound : area.finish < usizeBound := mod_lt _ (by decide)
  unfold MemArea.sub
  split
  · exact ⟨paged, nofun⟩
  · split
    next hole =>
      refine ⟨?_, fun _ back => ?_⟩
      · refine paged.part hole.1.1 (le_of_lt hole.1.2) areaStart startAligned rfl rfl fun track tracked => ?_
        simp only [mem_filter, decide_eq_true_eq] at tracked
        have inside := paged.trackInside track tracked.1.1
        have outside := untouched ⟨hole.1.1, hole.2.2⟩ track tracked.1.1
        exact ⟨tracked.1.1, .inl (by omega)⟩
      · cases back
        refine paged.part (le_of_lt hole.2.2) (le_refl _) lastAligned areaFinish rfl rfl fun track tracked => ?_
        simp only [mem_filter, decide_eq_true_eq] at tracked
        exact ⟨tracked.1.1, .inl tracked.2⟩
    · split
      · exact ⟨paged.part (Nat.le_refl area.start) (by omega) areaStart areaStart rfl (Nat.sub_self _).symm nofun,
          nofun⟩
      · refine ⟨?_, nofun⟩
        have tracked {shrunk : MemArea} {track : MapTrack}
            (member : track ∈ area.mtrackers.filter fun track => shrunk.contains track.vaddr) :
            track ∈ area.mtrackers ∧ shrunk.contains track.vaddr := by
          simpa only [mem_filter, decide_eq_true_eq] using member
        split
        next starts =>
          exact paged.part starts.1 (le_of_lt starts.2) areaStart startAligned rfl rfl
            fun track member => ⟨(tracked member).1, .inr (tracked member).2⟩
        · split
          · have ends : last ≤ area.finish := by omega
            exact paged.part ends (le_refl _) lastAligned areaFinish rfl (wrapSub_eq ends bound)
              fun track member => ⟨(tracked member).1, .inr (tracked member).2⟩
          · exact paged.part (by omega) (le_refl _) areaStart areaFinish rfl (by omega)
              fun track member => ⟨(tracked member).1, .inr (tracked member).2⟩

theorem Paged.remains : ∀ piece ∈ area.remains start last, piece.Paged := by
  intro piece member
  obtain ⟨front, back⟩ := paged.sub startAligned lastAligned ordered untouched PageTable.empty
  rcases Cut.mem_pieces member with ⟨rfl, _⟩ | split
  · exact front
  · exact back piece split

end MemArea

variable {last start vaddr first current fuel remaining : Nat} {memset : MemSet} {allocated : List MapTrack}
  {area : MemArea}

theorem MemSet.Paged.subArea (paged : memset.Paged) (startAligned : start % pageSize = 0)
    (lastAligned : last % pageSize = 0) (ordered : start ≤ last) (untouched : memset.Untouched start last)
    (strongCount : Nat → Nat) (table : PageTable) :
    MemSet.Paged (memset.subArea strongCount start last table).1 := by
  intro area member
  obtain ⟨origin, found, piece⟩ :=
    mem_flatMap.mp ((subArea_perm strongCount memset table).mem_iff.mp member)
  exact (paged origin found).remains startAligned lastAligned ordered (untouched origin found) area piece

/-- No area that a cut shrinks to nothing is dropped with pages it does not have. -/
def MemSet.DropsFit (memset : MemSet) (start last : Nat) : Prop :=
  ∀ area ∈ memset, (area.sub start last .empty).area.len = 0 → (area.sub start last .empty).area.DropFits

theorem MemSet.Paged.dropsFit (paged : memset.Paged) (startAligned : start % pageSize = 0)
    (lastAligned : last % pageSize = 0) (ordered : start ≤ last) (untouched : memset.Untouched start last) :
    memset.DropsFit start last :=
  fun area member _ =>
    ((paged area member).sub startAligned lastAligned ordered (untouched area member) .empty).1.dropFits

/-! ## Frames -/

namespace Machine

def Paged (machine : Machine) : Prop := ∀ bound ∈ machine.frames.bounds, bound.1 % pageSize = 0

variable {machine after : Machine}

theorem Paged.congr (paged : machine.Paged) (same : after.frames.bounds = machine.frames.bounds) : after.Paged := by
  unfold Paged at *
  rwa [same]

theorem frameAlloc_bounds {frame : Nat} (allocated : machine.frameAlloc = some (frame, after)) :
    after.frames.bounds = machine.frames.bounds ∧ (machine.Paged → frame % pageSize = 0) := by
  obtain ⟨⟨_, _⟩, allocating, ⟨⟩⟩ := map_eq_some_iff.mp allocated
  obtain ⟨bounds, bound, member, residue⟩ := alloc_bounds allocating
  exact ⟨bounds, fun paged => residue.trans (paged bound member)⟩

theorem dropFrames_bounds (machine : Machine) (frames : List Nat) :
    (frames.foldl dropFrame machine).frames.bounds = machine.frames.bounds := by
  induction frames generalizing machine with
  | nil => rfl
  | cons frame frames ih => exact (ih (machine.dropFrame frame)).trans (dealloc_bounds _ frame)

end Machine

def PagesWithin (first last : Nat) (tracks : List MapTrack) : Prop :=
  ∀ track ∈ tracks, (track.tracker % pageSize = 0 ∧ track.vaddr % pageSize = 0) ∧ within first last track.vaddr

theorem PagesWithin.nil (first last : Nat) : PagesWithin first last [] := by simp [PagesWithin]

theorem trackersAt_within {frames : List Nat} (aligned : vaddr % pageSize = 0)
    (fits : vaddr + frames.length * pageSize < usizeBound) (paged : ∀ frame ∈ frames, frame % pageSize = 0) :
    PagesWithin vaddr (vaddr + frames.length * pageSize) (trackersAt vaddr frames) := by
  intro _ member
  obtain ⟨⟨frame, index⟩, listed, rfl⟩ := mem_map.mp member
  have bound : index < frames.length := snd_lt_of_mem_zipIdx listed
  have below : index * pageSize + pageSize ≤ frames.length * pageSize := by
    rw [← succ_mul]
    exact mul_le_mul_right pageSize bound
  have positive := pageSize_pos
  refine ⟨⟨paged frame (fst_mem_of_mem_zipIdx listed), ?_⟩, ?_⟩
  · dsimp only
    split
    · exact aligned
    · rw [wrapAdd_eq (by omega), add_mul_mod_self_right, aligned]
  · dsimp only
    split
    · omega
    · rw [wrapAdd_eq (by omega)]
      omega

theorem PagesWithin.mono {low high : Nat} {tracks : List MapTrack} (within : PagesWithin first last tracks)
    (lower : low ≤ first) (upper : last ≤ high) : PagesWithin low high tracks := by
  intro track member
  obtain ⟨aligned, _⟩ := within track member
  exact ⟨aligned, by omega⟩

theorem Machine.Gathers.bounds {machine after : Machine} {frames : List Nat} {left : Nat}
    (pieces : machine.Gathers remaining frames after left) :
    after.frames.bounds = machine.frames.bounds ∧ ∀ frame ∈ frames, frame % pageSize = 0 := by
  induction pieces with
  | stop => simp
  | piece _ allocated _ ih =>
    obtain ⟨bounds, -, paged⟩ := frameAllocMuch_bounds allocated
    exact ⟨ih.1.trans bounds, forall_mem_append.mpr ⟨paged, ih.2⟩⟩

section Obtained

variable {machine after : Machine} {vaddr count : Nat} {tracks : List MapTrack}

theorem Machine.Obtains.within (aligned : vaddr % pageSize = 0) (fits : vaddr + count * pageSize < usizeBound)
    (obtained : machine.Obtains vaddr count tracks after) :
    after.frames.bounds = machine.frames.bounds ∧ PagesWithin vaddr (vaddr + count * pageSize) tracks ∧
      tracks.length = count := by
  rcases obtained with ⟨_, allocated, rfl⟩ | gathered
  · obtain ⟨bounds, rfl, paged⟩ := frameAllocMuch_bounds allocated
    exact ⟨bounds, trackersAt_within aligned fits paged, by simp [trackersAt]⟩
  · rcases allocSegments_gathers (le_refl count) gathered with ⟨tracks, ⟨⟩, pieces, length, placed⟩ | ⟨⟨⟩, _⟩
    obtain ⟨bounds, paged⟩ := pieces.bounds
    have inside := @trackersAt_within vaddr (tracks.map MapTrack.tracker) aligned (by rwa [length_map, length]) paged
    rw [length_map, length, ← placed fits] at inside
    exact ⟨bounds, inside, length⟩

theorem Machine.Declines.bounds (declined : machine.Declines count after) :
    after.frames.bounds = machine.frames.bounds := by
  rcases declined with rfl | ⟨_, _, gathered⟩
  · rfl
  · rcases allocSegments_gathers (le_refl count) gathered with ⟨_, ⟨⟩, _⟩ | ⟨-, _, _, _, pieces, rfl⟩
    rw [dropFrames_bounds, pieces.bounds.1]

end Obtained

/-! ## Mapping and placing pages -/

namespace Process

variable {process after : Process} {machine machine' : Machine} {ppn : Option Nat} {vaddr count : Nat}
  {mtype : MemType} {tracks : List MapTrack} {flags : MappingFlags}

variable (aligned : ∀ track ∈ tracks, track.tracker % pageSize = 0 ∧ track.vaddr % pageSize = 0)
include aligned

theorem mapTracks_eq :
    process.mapTracks tracks flags = some { process with pageTable := process.pageTable.mapAll tracks flags } := by
  induction tracks generalizing process with
  | nil => rfl
  | cons _ tracks ih =>
    obtain ⟨here, later⟩ := forall_mem_cons.mp aligned
    rw [mapTracks, foldlM_cons, map, if_pos here]
    exact ih later

theorem mapPresent_eq :
    process.mapPresent vaddr tracks flags =
      some { process with pageTable := process.pageTable.mapPresent vaddr tracks flags } := by
  unfold mapPresent PageTable.mapPresent
  split
  · exact mapTracks_eq fun track member => aligned track (mem_filter.mp member).1
  · rfl

omit aligned

theorem mapFrames_isSome {file : Option Inode} {offset len : Nat} (aligned : vaddr % pageSize = 0)
    (fits : vaddr + count * pageSize < usizeBound) (positive : 0 < count) :
    (process.mapFrames machine vaddr mtype count file offset start len flags).isSome := by
  unfold mapFrames
  rw [if_neg (by omega)]
  cases allocated : machine.frameAllocMuch count with
  | none => rfl
  | some granted =>
    obtain ⟨_, length, paged⟩ := frameAllocMuch_bounds allocated
    have pages := trackersAt_within aligned (by rw [length]; exact fits) paged
    cases frames : granted.1 with
    | nil =>
      rw [frames] at length
      exact absurd length (by simp; omega)
    | cons _ _ =>
      rw [frames] at pages
      simp [frames, mapPresent_eq fun track member => (pages track member).1]

theorem placeMmap_isSome (pages : PagesWithin vaddr (vaddr + count * pageSize) tracks) (positive : 0 < tracks.length) :
    (process.placeMmap machine vaddr count tracks).isSome := by
  cases tracks with
  | nil => cases positive
  | cons track tracks => simp [placeMmap, mapPresent_eq fun track member => (pages track member).1]

theorem frameAlloc_isSome (aligned : vaddr % pageSize = 0) (fits : vaddr + count * pageSize < usizeBound)
    (positive : 0 < count) : (process.frameAlloc machine vaddr mtype count).isSome := by
  unfold frameAlloc
  split
  · cases allocated : machine.frameAllocMuch count with
    | some granted =>
      obtain ⟨frames, after⟩ := granted
      obtain ⟨_, pages, length⟩ := Machine.Obtains.within aligned fits (.inl ⟨frames, allocated, rfl⟩)
      exact placeMmap_isSome pages (by omega)
    | none =>
      dsimp only
      split
      next _ after gathered =>
        obtain ⟨_, pages, length⟩ := Machine.Obtains.within aligned fits (.inr gathered)
        exact placeMmap_isSome pages (by omega)
      · rfl
  · exact mapFrames_isSome aligned fits positive

end Process

theorem MemSet.Paged.append (paged : memset.Paged) (new : area.Paged) : MemSet.Paged (memset ++ [area]) := by
  intro other member
  rcases mem_append.mp member with old | added
  · exact paged other old
  · exact mem_singleton.mp added ▸ new

theorem MemSet.Paged.place (paged : memset.Paged) (new : area.Paged)
    (only : area.mtype = .Stack → ∀ other ∈ memset, other.mtype ≠ .Stack) : MemSet.Paged (memset.place area) := by
  unfold MemSet.place
  split
  next stack =>
    rw [extendStack_eq_none_iff.mpr (only stack)]
    exact paged.append new
  · exact paged.append new

theorem MemArea.paged_of_pages (startAligned : area.start % pageSize = 0) (lenAligned : area.len % pageSize = 0)
    (bounded : area.start + area.len < usizeBound)
    (pages : PagesWithin area.start (area.start + area.len) area.mtrackers) : area.Paged where
  startAligned := startAligned
  lenAligned := lenAligned
  bounded := bounded
  trackAligned track member := (pages track member).1.2
  trackInside track member := by
    rw [contains, finish, wrapAdd_eq bounded]
    exact (pages track member).2
  frames track member := (pages track member).1.1

theorem allocArea_paged {mtype : MemType} {count : Nat} {tracks : List MapTrack} (aligned : vaddr % pageSize = 0)
    (fits : vaddr + count * pageSize < usizeBound) (pages : PagesWithin vaddr (vaddr + count * pageSize) tracks)
    (window : mtype = .Stack → 0x70000000 ≤ vaddr ∧ vaddr + count * pageSize ≤ 0x80000000) :
    (allocArea mtype vaddr count tracks).Paged := by
  unfold allocArea
  split
  next stack =>
    obtain ⟨low, _⟩ := window stack
    have inside : PagesWithin 0x70000000 (0x70000000 + 0x10000000) tracks := pages.mono low (by omega)
    exact paged_of_pages (show 0x70000000 % pageSize = 0 by decide) (show 0x10000000 % pageSize = 0 by decide)
      (show 0x70000000 + 0x10000000 < usizeBound by decide) inside
  · have len : wrapMul count pageSize = count * pageSize := mod_eq_of_lt (by omega)
    rw [len]
    exact paged_of_pages aligned (mul_mod_left _ _) fits pages

namespace Process

variable {process after : Process} {machine machine' : Machine} {ppn : Option Nat} {vaddr count : Nat} {mtype : MemType}

variable (paged : process.pcb.memset.Paged) (aligned : vaddr % pageSize = 0)
  (fits : vaddr + count * pageSize < usizeBound)
include paged aligned fits

theorem frameAlloc_paged
    (window : mtype = .Stack → (0x70000000 ≤ vaddr ∧ vaddr + count * pageSize ≤ 0x80000000) ∧
      ∀ area ∈ process.pcb.memset, area.mtype ≠ .Stack)
    (done : process.frameAlloc machine vaddr mtype count = some (ppn, after, machine')) :
    after.pcb.memset.Paged ∧ after.pcb.shms = process.pcb.shms ∧
      machine'.frames.bounds = machine.frames.bounds ∧ ∀ frame, ppn = some frame → frame % pageSize = 0 := by
  rcases frameAlloc_outcome done with ⟨rfl, rfl, declined⟩ | ⟨_, obtained, first, _, _, rfl⟩
  · exact ⟨paged, rfl, declined.bounds, nofun⟩
  · obtain ⟨bounds, pages, _⟩ := obtained.within aligned fits
    have new := allocArea_paged aligned fits pages fun stack => (window stack).1
    refine ⟨paged.place new fun stack => (window ?_).2, rfl, bounds, fun _ given => ?_⟩
    · by_contra other
      simp [allocArea, other] at stack
    · obtain ⟨track, head, rfl⟩ := map_eq_some_iff.mp (first.symm.trans given)
      exact (pages track (mem_of_head? head)).1.1

theorem mapFrames_paged {file : Option Inode} {offset : Nat} {flags : MappingFlags}
    (done : process.mapFrames machine vaddr .ShareFile count file offset vaddr (count * pageSize) flags =
      some (ppn, after, machine')) :
    after.pcb.memset.Paged ∧ after.pcb.shms = process.pcb.shms ∧ machine'.frames.bounds = machine.frames.bounds := by
  rcases mapFrames_outcome done with ⟨_, rfl, rfl⟩ | ⟨frames, allocated, _, _, _, rfl⟩
  · exact ⟨paged, rfl, rfl⟩
  · obtain ⟨bounds, pages, _⟩ := Machine.Obtains.within aligned fits (.inl ⟨frames, allocated, rfl⟩)
    have new : MemArea.Paged
        { mtype := .ShareFile, mtrackers := trackersAt vaddr frames, file, offset, start := vaddr
          len := count * pageSize } := paged_of_pages aligned (mul_mod_left _ _) fits pages
    exact ⟨paged.place new nofun, rfl, bounds⟩

end Process

/-- The kernel counts the pages of a range in two ways. -/
theorem page_count {addr length : Nat} (aligned : length % pageSize = 0) (fits : addr + length < usizeBound)
    (nonempty : length ≠ 0) :
    ∃ count, 0 < count ∧ length = count * pageSize ∧ length / pageSize = count ∧ divCeil length pageSize = count ∧
      wrapAdd length (pageSize - 1) / pageSize = count := by
  refine ⟨length / pageSize, ?_, ?_, rfl, ?_, ?_⟩
  · unfold pageSize at *
    omega
  · exact (Nat.div_mul_cancel (Nat.dvd_of_mod_eq_zero aligned)).symm
  · rw [divCeil, if_pos aligned, add_zero]
  · unfold wrapAdd usizeBound pageSize at *
    omega

/-! ## Forks -/

structure MapedSharedMemory.Paged (shm : MapedSharedMemory) : Prop where
  start : shm.start % pageSize = 0
  size : shm.size % pageSize = 0
  frames : ∀ frame ∈ shm.mem, frame % pageSize = 0

theorem wrapAdd_aligned {left right : Nat} (leftAligned : left % pageSize = 0) (rightAligned : right % pageSize = 0) :
    wrapAdd left right % pageSize = 0 := by
  unfold wrapAdd usizeBound pageSize at *
  omega

theorem MapedSharedMemory.Paged.tracks {shm : MapedSharedMemory} (paged : shm.Paged) :
    ∀ track ∈ shm.tracks, track.tracker % pageSize = 0 ∧ track.vaddr % pageSize = 0 := by
  intro _ member
  obtain ⟨⟨frame, _⟩, listed, rfl⟩ := mem_map.mp member
  exact ⟨paged.frames frame (fst_mem_of_mem_zipIdx listed), wrapAdd_aligned paged.start (mul_mod_left _ _)⟩

theorem isSome_bind {α β : Type} {first : Option α} {rest : α → Option β} (present : first.isSome)
    (later : ∀ value, first = some value → (rest value).isSome) : (first >>= rest).isSome := by
  obtain ⟨value, rfl⟩ := isSome_iff_exists.mp present
  exact later value rfl

theorem isSome_foldlM {α σ : Type} {step : σ → α → Option σ} {items : List α}
    (steps : ∀ item ∈ items, ∀ state, (step state item).isSome) (state : σ) :
    (items.foldlM step state).isSome := by
  induction items generalizing state with
  | nil => rfl
  | cons _ items ih =>
    obtain ⟨here, later⟩ := forall_mem_cons.mp steps
    exact isSome_bind (here state) fun middle _ => ih later middle

namespace Process

variable {process : Process}

theorem foldlM_map_isSome {ppn vaddr count : Nat} {flags : MappingFlags} (ppnAligned : ppn % pageSize = 0)
    (aligned : vaddr % pageSize = 0) :
    ((List.range count).foldlM (fun (process : Process) index =>
      process.map (wrapAdd ppn (index * pageSize)) (wrapAdd vaddr (index * pageSize)) flags) process).isSome := by
  refine isSome_foldlM (fun _ _ _ => ?_) process
  rw [map, if_pos ⟨wrapAdd_aligned ppnAligned (mul_mod_left _ _), wrapAdd_aligned aligned (mul_mod_left _ _)⟩]
  rfl

theorem mapSegment_isSome {shm : MapedSharedMemory} (paged : shm.Paged) : (process.mapSegment shm).isSome := by
  have same : process.mapSegment shm = process.mapTracks shm.tracks .urwx := by
    rw [mapSegment, mapTracks, MapedSharedMemory.tracks, foldlM_map]
  rw [same, mapTracks_eq paged.tracks]
  rfl

theorem mapArea_isSome (paged : area.Paged) : (process.mapArea area).isSome := by
  rw [mapArea, mapTracks_eq fun track member => ⟨paged.frames track member, paged.trackAligned track member⟩]
  rfl

theorem cowFork_isSome (areas : process.pcb.memset.Paged) (segments : ∀ shm ∈ process.pcb.shms, shm.Paged)
    (taskId childId : Nat) :
    (process.cowFork taskId childId).isSome := by
  refine isSome_bind (isSome_foldlM (fun area member _ => mapArea_isSome (areas area member)) _) fun _ _ => ?_
  refine isSome_bind (isSome_foldlM (fun area member _ => ?_) _) fun _ _ => ?_
  · exact isSome_bind (mapArea_isSome (areas area member)) fun _ _ => rfl
  · exact isSome_bind (isSome_foldlM (fun shm member _ => mapSegment_isSome (segments shm member)) _) fun _ _ => rfl

end Process

end MonkeyOS.Tasks
