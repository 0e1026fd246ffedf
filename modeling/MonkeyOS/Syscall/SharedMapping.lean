import MonkeyOS.Ramfs.FileRefinement
import MonkeyOS.Runtime.FrameProperties
import MonkeyOS.Syscall.Memory
import MonkeyOS.Tasks.Allocation
import MonkeyOS.User.SharedWindow

/-!
# Shared mappings of files

What a shared mapping of a file shows, and which writes unmapping it makes.
-/

set_option autoImplicit false

namespace MonkeyOS.Syscall

open Lib Tasks User Ramfs List MemArea Nat

def Shows (files : Files) (inode : Inode) (file : RamFile) : Prop :=
  ∀ offset bufferLen count bytes, file.readat offset bufferLen = some (count, bytes) →
    files.readat inode offset bufferLen = .ok bytes

/-- A successful shared mapping of a file. `room` is the process once a fixed
mapping has taken the range from other areas, and `file` the file as it is then. -/
structure SharedMapping (context : MmContext) (taskId : Nat) (space : UserSpace)
    (start len prot flags fd off : Nat) (room : UserSpace) (inode : Inode) (file : RamFile)
    (mapped : UserSpace) : Prop where
  shared : MAP_SHARED flags = true
  named : mmapFile space.process flags fd = some (some inode)
  word : len < usizeBound
  nonempty : 0 < alignup len pageSize
  fits : mmapAddr space.process start + alignup len pageSize < usizeBound
  offsetAligned : off % pageSize = 0
  offsetFits : off + alignup len pageSize < usizeBound
  cleared : (makeRoom context space (mmapAddr space.process start)
    (mmapAddr space.process start + alignup len pageSize)).1 = room
  vacant : ¬ room.process.pcb.memset.overlapping (mmapAddr space.process start)
    (mmapAddr space.process start + alignup len pageSize)
  occupied : ∀ area ∈ room.process.pcb.memset, area.len ≠ 0
  frames : room.machine.frames.WellFormed
  unheld : ∀ frame, room.machine.frames.Free frame → strongCount context.around room.process frame = 0
  shows : Shows (context.written (makeRoom context space (mmapAddr space.process start)
    (mmapAddr space.process start + alignup len pageSize)).2) inode file
  backed : file.len ≤ file.pages.length * pageSize
  done : ∃ answer writes, sysMmap context taskId space start len prot flags fd off = some (.ok answer, mapped, writes)

section Mapping

variable {context : MmContext} {taskId : Nat} {space room mapped : UserSpace}
  {start len prot flags fd off : Nat} {inode : Inode} {file : RamFile}

def mappedArea (addr len off : Nat) (inode : Inode) (frames : List Nat) : MemArea :=
  { mtype := .ShareFile, mtrackers := trackersAt addr frames, file := some inode, offset := off
    start := addr, len }

theorem mmapAddr_ne_zero (process : Process) (start : Nat) : mmapAddr process start ≠ 0 := by
  unfold mmapAddr mapAreaStart
  split <;> omega

theorem window_placed {addr length : Nat} {frames : List Nat} {flags : MappingFlags}
    {machine' : Machine} (nonzero : addr ≠ 0) (nonempty : 0 < length) (aligned : length % pageSize = 0)
    (fits : addr + length < usizeBound)
    (vacant : ¬ room.process.pcb.memset.overlapping addr (addr + length))
    (wellFormed : room.machine.frames.WellFormed)
    (allocated : room.machine.frameAllocMuch (length / pageSize) = some (frames, machine'))
    (pageAligned : ∀ track ∈ trackersAt addr frames, track.vaddr ≠ 0 →
      track.tracker % pageSize = 0 ∧ track.vaddr % pageSize = 0) :
    SharedWindow
        { room with
          process := room.process.placed (mappedArea addr length off inode frames) addr flags
          machine := machine' }
        room.process.pcb.memset (mappedArea addr length off inode frames) frames ∧
      ∀ frame ∈ frames, room.machine.frames.Free frame := by
  obtain ⟨count, ⟨grants, -⟩⟩ := Machine.frameAllocMuch_supplies wellFormed allocated
  have total : frames.length * pageSize = length := by
    rw [count]
    exact Nat.div_mul_cancel (Nat.dvd_of_mod_eq_zero aligned)
  have some : 0 < frames.length := pos_of_ne_zero fun empty => by rw [empty] at total; omega
  have first := getElem?_trackersAt nonzero (total ▸ fits) 0
  rw [getElem?_eq_getElem some, Option.map_some] at first
  have addrAligned : addr % pageSize = 0 := by
    simpa using (pageAligned _ (mem_of_getElem? first) (by simpa using nonzero)).2
  have received := @Process.placed_receives room.process addr frames (mappedArea addr length off inode frames) flags
    addrAligned nonzero (total ▸ fits) rfl
  refine ⟨⟨rfl, .inr rfl, rfl, total.symm, fits, addrAligned, nonzero, fun other member _ bound inside => ?_,
    fun frame member => (grants.free frame member).registered.aligned wellFormed, grants.distinct,
    fun page frame present _ found => ?_⟩, grants.free⟩
  · refine vacant ⟨other, member, ?_⟩
    obtain ⟨low, high⟩ := inside
    simp only [mappedArea] at low high bound
    omega
  · cases (received.pages.pages page frame present).symm.trans found
    rfl

theorem SharedMapping.mapped_window
    (mapping : SharedMapping context taskId space start len prot flags fd off room inode file mapped) :
    let addr := mmapAddr space.process start
    ∃ frames, SharedWindow mapped room.process.pcb.memset
        (mappedArea addr (alignup len pageSize) off inode frames) frames ∧
      (∀ frame ∈ frames, room.machine.frames.Free frame) ∧
      ∀ index < alignup len pageSize, off + index < file.len →
        shownBytes mapped frames index = RamFile.bytes file.pages (off + index) := by
  obtain ⟨shared, named, _, nonempty, fits, _, _, cleared, vacant, _, wellFormed, _, shows, backed,
    answer, writes, done⟩ := mapping
  have aligned := alignup_aligned len
  have nonzero := mmapAddr_ne_zero space.process start
  have last := wrapAdd_eq fits
  simp only [sysMmap, named, Option.bind_eq_bind, Option.bind_some] at done
  generalize mmapAddr space.process start = addr at *
  generalize alignup len pageSize = length at *
  rw [last, if_neg (by omega)] at done
  have refused : ∀ {errno : Errno} {before : UserSpace} {early : List FileWrite},
      some (Except.error errno, before, early) ≠ some (Except.ok answer, mapped, writes) := by
    intro errno before early same
    cases same
  split at done
  · exact absurd done refused
  split at done
  · exact absurd done refused
  generalize makeRoom context space addr (addr + length) = made at *
  subst cleared
  simp only [shared, mapRange, Option.bind_eq_bind, Option.bind_eq_some_iff, Option.some.injEq] at done
  obtain ⟨⟨_, _⟩, ⟨⟨_, process, machine⟩, placing, same⟩, done⟩ := done
  obtain ⟨rfl, rfl⟩ := Prod.mk.inj same
  rcases Process.mapFrames_outcome placing with ⟨rfl, _⟩ | ⟨frames, allocated, _, present, pageAligned, rfl⟩
  · exact absurd done refused
  have count : wrapAdd length (pageSize - 1) / pageSize = length / pageSize := by
    rw [wrapAdd_eq (by unfold usizeBound pageSize at *; omega)]
    unfold pageSize at *
    omega
  rw [count] at allocated
  obtain ⟨window, free⟩ := window_placed nonzero nonempty aligned fits vacant wellFormed allocated (pageAligned nonzero)
  simp only [present, Option.bind_eq_some_iff] at done
  obtain ⟨⟨_, _, _⟩, reading, ⟨⟩⟩ := done
  have read := shows off length _ _ (RamFile.readat_refines backed off length)
  simp only [readMapped, read, bind_eq_some] at reading
  obtain ⟨_, storing, ⟨⟩⟩ := reading
  obtain ⟨_, shown, cells⟩ := window.storeBytes (by simp [mappedArea]) storing
  refine ⟨frames, shown, free, fun index bound _ => ?_⟩
  have present : index < ((file.contents.drop off).take length).length := by simp; omega
  refine (cells index bound).trans ?_
  simp only [overlay, Nat.not_lt_zero, if_false, Nat.sub_zero, getElem?_eq_getElem present,
    Option.getD_some, getElem_take, getElem_drop, RamFile.contents_getElem]

end Mapping

/-! ## What unmapping writes -/

section Unmapping

variable {addr length len off page : Nat} {inode : Inode} {frames : List Nat} {space : UserSpace}

private theorem page_below (total : length = frames.length * pageSize)
    (tail : length < len + pageSize) (present : page < frames.length) : page * pageSize < len := by
  have scaled := mul_le_mul_right pageSize (succ_le_of_lt present)
  rw [succ_mul] at scaled
  omega

private theorem wrapSub_wrapAdd {base index : Nat} (based : base < usizeBound)
    (fits : off + index < usizeBound) : wrapSub (wrapAdd (base + index) off) base = off + index := by
  unfold wrapSub wrapAdd usizeBound at *
  omega

section

variable (nonzero : addr ≠ 0) (fits : addr + length < usizeBound)
include nonzero fits

private theorem mem_mappedTracks
    (total : length = frames.length * pageSize) (tail : length < len + pageSize) {track : MapTrack}
    (member : track ∈ trackersAt addr frames) :
    within addr (addr + len) track.vaddr ∧ track.tracker ∈ frames := by
  rw [trackersAt_eq nonzero (total ▸ fits)] at member
  obtain ⟨⟨_, page⟩, listed, rfl⟩ := mem_map.mp member
  have below : page * pageSize < len := page_below total tail (snd_lt_of_mem_zipIdx listed)
  exact ⟨⟨Nat.le_add_right _ _, Nat.add_lt_add_left below _⟩, fst_mem_of_mem_zipIdx listed⟩

private theorem writePages_mappedArea
    (offsetFits : off + length < usizeBound) (total : length = frames.length * pageSize)
    (short : len ≤ length) (tail : length < len + pageSize) (rest : Nat) :
    (mappedArea addr rest off inode frames).writePages addr (addr + len) =
      frames.zipIdx.map fun (frame, page) =>
        { file := inode, offset := off + page * pageSize, frame, len := pageSize } := by
  have every : (trackersAt addr frames).filter (fun track => within addr (addr + len) track.vaddr) =
      trackersAt addr frames :=
    filter_eq_self.mpr fun track member =>
      decide_eq_true (mem_mappedTracks nonzero fits total tail member).1
  simp only [writePages, mappedArea, every]
  rw [trackersAt_eq nonzero (total ▸ fits), map_map]
  refine map_congr_left fun (frame, page) listed => ?_
  have below : page * pageSize < len := page_below total tail (snd_lt_of_mem_zipIdx listed)
  simp only [Function.comp_apply, writePage, WriteBack.mk.injEq, true_and, and_true]
  exact wrapSub_wrapAdd (by omega) (by omega)

private theorem drop_mappedArea (total : length = frames.length * pageSize) {strongCount : Nat → Nat}
    (single : ∀ frame ∈ frames, strongCount frame ≤ 1) :
    (mappedArea addr 0 off inode frames).drop strongCount =
      frames.zipIdx.map fun (frame, page) =>
        { file := inode, offset := page * pageSize, frame, len := if page = 0 then 0 else pageSize } := by
  have positive := pageSize_pos
  have every : (trackersAt addr frames).filter (fun track => strongCount track.tracker ≤ 1) = trackersAt addr frames :=
    filter_eq_self.mpr fun track member =>
      decide_eq_true (single _ (@mem_mappedTracks addr length length frames nonzero fits total (by omega) _ member).2)
  simp only [MemArea.drop, mappedArea, every]
  rw [trackersAt_eq nonzero (total ▸ fits), map_map]
  refine map_congr_left fun (frame, page) listed => ?_
  have bound : page < frames.length := snd_lt_of_mem_zipIdx listed
  have below := mul_le_mul_right pageSize (succ_le_of_lt bound)
  rw [succ_mul] at below
  have place : wrapSub (addr + page * pageSize) addr = page * pageSize := by
    rw [wrapSub_eq (by omega) (by omega)]
    omega
  simp only [Function.comp_apply, place, WriteBack.mk.injEq, true_and]
  split
  · next first => simp [first, wrapSub]
  · next later =>
    have scaled := mul_le_mul_right pageSize (one_le_iff_ne_zero.mpr later)
    rw [wrapSub, mod_eq_of_lt (by omega)]
    omega

/-- Unmapping a mapping writes each of its pages at its place in the file. If the
length has a partial page, the area keeps its trackers and its drop writes the
pages again, all but the first, without the offset of the mapping. -/
theorem sub_mappedArea (offsetFits : off + length < usizeBound) (total : length = frames.length * pageSize)
    (positive : 0 < len) (short : len ≤ length) (tail : length < len + pageSize)
    (table : PageTable) {strongCount : Nat → Nat} (single : ∀ frame ∈ frames, strongCount frame ≤ 1) :
    let cut := (mappedArea addr length off inode frames).sub addr (addr + len) table
    cut.area.len = 0 ∧
      cut.writes = frames.zipIdx.map (fun (frame, page) =>
        { file := inode, offset := off + page * pageSize, frame, len := pageSize }) ∧
      cut.area.drop strongCount = if len = length then [] else
        frames.zipIdx.map fun (frame, page) =>
          { file := inode, offset := page * pageSize, frame, len := if page = 0 then 0 else pageSize } := by
  have finish : (mappedArea addr length off inode frames).finish = addr + length := wrapAdd_eq fits
  have start : (mappedArea addr length off inode frames).start = addr := rfl
  have pages := @writePages_mappedArea addr length len off inode frames nonzero fits offsetFits total short tail
  by_cases whole : len = length
  · subst whole
    have cut := @sub_whole (mappedArea addr len off inode frames) positive fits table
    simp only [mappedArea] at cut pages ⊢
    rw [cut, if_pos trivial]
    exact ⟨rfl, pages 0, rfl⟩
  · have every : (trackersAt addr frames).filter
        (fun track => ¬ within (addr + len) (addr + length) track.vaddr) = trackersAt addr frames := by
      refine filter_eq_self.mpr fun track member => decide_eq_true fun _ => ?_
      have early := (mem_mappedTracks nonzero fits total tail member).1.2
      omega
    have tracks : (mappedArea addr length off inode frames).mtrackers = trackersAt addr frames := rfl
    unfold sub
    rw [if_neg (by omega), if_pos (by omega), if_neg whole]
    simp only [start, finish, Nat.sub_self, tracks, every]
    exact ⟨trivial, pages 0, drop_mappedArea nonzero fits total single⟩

end

def pageWrites (inode : Inode) (cells : Nat → UInt8) (base first count : Nat) : List FileWrite :=
  (List.range' first count).map fun page =>
    { file := inode, offset := base + page * pageSize, bytes := window cells (page * pageSize) pageSize }

theorem window_shownBytes {frame : Nat} (present : frames[page]? = some frame) :
    window space.machine.mem frame pageSize = window (shownBytes space frames) (page * pageSize) pageSize := by
  refine map_congr_left fun index member => ?_
  have bound := mem_range.mp member
  have quotient : (page * pageSize + index) / pageSize = page := by unfold pageSize at *; omega
  have remainder : (page * pageSize + index) % pageSize = index := by unfold pageSize at *; omega
  simp only [shownBytes, place, quotient, remainder, getD_eq_getElem?_getD, present, Option.getD_some]

private theorem map_pages (base : Nat) :
    (frames.zipIdx.map fun (frame, page) =>
        ({ file := inode, offset := base + page * pageSize
           bytes := window space.machine.mem frame pageSize } : FileWrite)) =
      pageWrites inode (shownBytes space frames) base 0 frames.length := by
  refine ext_getElem (by simp [pageWrites]) fun page left _ => ?_
  have bound : page < frames.length := by simpa using left
  simp only [pageWrites, getElem_map, getElem_zipIdx, getElem_range', zero_add,
    one_mul, window_shownBytes (getElem?_eq_getElem bound)]

private theorem map_pages_again (nonempty : 0 < frames.length) :
    (frames.zipIdx.map fun (frame, page) =>
        ({ file := inode, offset := page * pageSize
           bytes := window space.machine.mem frame (if page = 0 then 0 else pageSize) } : FileWrite)) =
      { file := inode, offset := 0, bytes := [] } ::
        pageWrites inode (shownBytes space frames) 0 1 (frames.length - 1) := by
  refine ext_getElem (by simp [pageWrites]; omega) fun page left _ => ?_
  have bound : page < frames.length := by simpa using left
  cases page with
  | zero => simp [window]
  | succ page =>
    simp only [pageWrites, getElem_cons_succ, getElem_map, getElem_zipIdx,
      getElem_range', zero_add, one_mul, add_comm 1 page, succ_ne_zero, if_false,
      window_shownBytes (getElem?_eq_getElem bound)]

theorem sysMunmap_writes {context : MmContext} {rest : MemSet}
    (shown : SharedWindow space rest (mappedArea addr length off inode frames) frames)
    (vacant : ¬ MemSet.overlapping rest addr (addr + length)) (occupied : ∀ area ∈ rest, area.len ≠ 0)
    (single : ∀ frame ∈ frames, strongCount context.around space.process frame ≤ 1)
    (offsetFits : off + length < usizeBound) (positive : 0 < len) (short : len ≤ length)
    (tail : length < len + pageSize) :
    (sysMunmap context space addr len).2 =
      pageWrites inode (shownBytes space frames) off 0 frames.length ++
        if len = length then []
        else { file := inode, offset := 0, bytes := [] } ::
          pageWrites inode (shownBytes space frames) 0 1 (frames.length - 1) := by
  have fits : addr + length < usizeBound := shown.fits
  have apart : ∀ area ∈ rest, ¬ area.overlapping addr (addr + len) := fun area member _ =>
    vacant ⟨area, member, by omega⟩
  obtain ⟨empty, pages, dropped⟩ := @sub_mappedArea addr length len off inode frames shown.nonzero fits
    offsetFits shown.len positive short tail space.process.pageTable _ single
  have none : rest.filter (fun area => area.len = 0) = [] :=
    filter_eq_nil_iff.mpr fun area member empty => occupied area member (of_decide_eq_true empty)
  simp only [sysMunmap, UserSpace.subArea, MemSet.subArea, wrapAdd_eq (by omega : addr + len < usizeBound),
    shown.memset, MemSet.subEach_apart apart, none, flatMap_nil, nil_append]
  simp only [MemSet.subEach, empty, ne_eq, not_true, if_false, pages, dropped, append_nil,
    map_append, map_map, Function.comp_def, map_pages]
  refine congrArg _ ?_
  split
  · rfl
  · have nonempty : 0 < frames.length := pos_of_ne_zero fun none => by
      have total : length = frames.length * pageSize := shown.len
      rw [none] at total
      omega
    rw [map_map]
    exact map_pages_again nonempty

end Unmapping

end MonkeyOS.Syscall
