import MonkeyOS.Syscall.SharedMapping

/-!
# Where the pages of a mapped file are written back

The life of a shared file mapping after `sys_mmap`: unmappings of parts of it,
and the exit that drops what is left. A write-back is known by the frame it
takes its bytes from.
-/

set_option autoImplicit false

namespace MonkeyOS.Tasks

open List MemArea PageTable Nat

namespace MemArea

variable {area : MemArea} {start last : Nat}

/-- The writes an area makes when a range is cut out of it: those of the cut and,
if the area has become empty, those of its drop. -/
def cutWrites (strongCount : Nat → Nat) (start last : Nat) (area : MemArea) : List WriteBack :=
  let cut := area.sub start last empty
  cut.writes ++ if cut.area.len ≠ 0 then [] else cut.area.drop strongCount

/-- The cut takes the head of the area, up to a point inside it. The area is then
dropped together with the trackers it does not give up. -/
def Beheads (area : MemArea) (start last : Nat) (track : MapTrack) : Prop :=
  start = area.start ∧ start < last ∧ last < area.finish ∧ ¬ within last area.finish track.vaddr

structure Cropped (area : MemArea) (start last : Nat) (cut : Cut) : Prop where
  front : ∃ len mtrackers, cut.area = { area with len, mtrackers } ∧ len ≤ area.len ∧
    (∀ track ∈ mtrackers, track ∈ area.mtrackers) ∧
    (len = 0 → ∀ track, track ∈ mtrackers ↔ track ∈ area.mtrackers ∧ area.Beheads start last track) ∧
    ∀ track, area.Beheads start last track → len = 0
  back : ∀ piece, cut.split = some piece → piece.mtrackers = []
  writes : ∀ write ∈ cut.writes, ∃ file track,
    area.file = some file ∧ track ∈ area.mtrackers ∧ write = area.writePage file track

variable {write : WriteBack} {strongCount : Nat → Nat}

private theorem mem_writePages (member : write ∈ area.writePages start last) :
    ∃ file track, area.file = some file ∧ track ∈ area.mtrackers ∧ write = area.writePage file track := by
  unfold writePages at member
  split at member
  · cases member
  · next file named =>
    obtain ⟨track, listed, rfl⟩ := mem_map.mp member
    exact ⟨file, track, named, mem_of_mem_filter listed, rfl⟩

theorem sub_cropped (positive : 0 < area.len) (bounded : area.start + area.len < usizeBound)
    (ordered : start ≤ last) (inside : area.start ≤ start ∨ last ≤ area.start) (table : PageTable) :
    Cropped area start last (area.sub start last table) := by
  have finish : area.finish = area.start + area.len := wrapAdd_eq bounded
  unfold sub
  split
  · next untouched =>
    have whole : ∀ track, ¬ area.Beheads start last track := by
      rintro track ⟨first, below, beyond, _⟩
      refine untouched ?_
      omega
    refine ⟨⟨area.len, area.mtrackers, rfl, le_refl _, fun _ member => member, ?_, ?_⟩, nofun, nofun⟩
    · intro empty
      omega
    · exact fun track beheaded => absurd beheaded (whole track)
  · have starts : area.contains start := by omega
    split
    · next hole =>
      refine ⟨⟨start - area.start, _, rfl, by omega, ?_, ?_, ?_⟩, ?_, ?_⟩
      · exact fun track member => mem_of_mem_filter (mem_of_mem_filter member)
      · intro empty track
        simp only [filter_filter, Bool.and_self, mem_filter, decide_eq_true_eq, Beheads]
        exact and_congr_right fun _ => ⟨fun outside => ⟨by omega, by omega, hole.2.2, outside⟩,
          fun beheaded => beheaded.2.2.2⟩
      · rintro track ⟨first, _⟩
        omega
      · intro _ same
        cases same
        refine filter_eq_nil_iff.mpr fun track member => ?_
        rw [decide_eq_true_eq]
        exact of_decide_eq_true (mem_filter.mp member).2
      · exact fun write member => mem_writePages member
    · next noHole =>
      have kept : ∀ track, ¬ area.Beheads start last track := by
        rintro track ⟨first, below, beyond, _⟩
        exact noHole ⟨starts, by omega, beyond⟩
      split
      · exact ⟨⟨0, [], rfl, zero_le _, nofun, fun _ track => by simp [kept track], fun _ _ => rfl⟩,
          nofun, fun write member => mem_writePages member⟩
      · refine ⟨⟨start - area.start, _, rfl, by omega, ?_, ?_, ?_⟩, nofun, ?_⟩
        · exact fun track member => mem_of_mem_filter member
        · intro empty track
          have bound := mod_le area.start usizeBound
          simp only [mem_filter, decide_eq_true_eq, contains, within, MemArea.finish, wrapAdd,
            empty, add_zero, kept track, and_false, iff_false]
          omega
        · exact fun track beheaded => absurd beheaded (kept track)
        · exact fun write member => mem_writePages member

theorem sub_tracked (start last : Nat) (table : PageTable) :
    (∀ piece ∈ (area.sub start last table).area :: (area.sub start last table).split.toList,
      ∀ track ∈ piece.mtrackers, track ∈ area.mtrackers) ∧
    ∀ write ∈ (area.sub start last table).writes, ∃ track ∈ area.mtrackers, write.frame = track.tracker := by
  have written : ∀ {shrunk : MemArea}, shrunk.mtrackers = area.mtrackers →
      ∀ write ∈ shrunk.writePages start last, ∃ track ∈ area.mtrackers, write.frame = track.tracker := by
    intro shrunk same write member
    obtain ⟨_, track, _, listed, rfl⟩ := mem_writePages member
    exact ⟨track, same ▸ listed, rfl⟩
  unfold sub
  split
  · simp
  · split
    · refine ⟨fun piece member track listed => ?_, written rfl⟩
      rcases mem_cons.mp member with rfl | back
      · exact mem_of_mem_filter (mem_of_mem_filter listed)
      · rw [mem_singleton.mp back] at listed
        exact mem_of_mem_filter (mem_of_mem_filter listed)
    · split
      · refine ⟨fun piece member track listed => ?_, written rfl⟩
        rw [mem_singleton.mp member] at listed
        cases listed
      · refine ⟨fun piece member track listed => ?_, written ?_⟩
        · rw [mem_singleton.mp member] at listed
          exact mem_of_mem_filter listed
        · split
          · rfl
          · split <;> rfl

theorem mem_drop (member : write ∈ area.drop strongCount) :
    ∃ file, ∃ track ∈ area.mtrackers, area.file = some file ∧ strongCount track.tracker ≤ 1 ∧
      write.file = file ∧ write.frame = track.tracker ∧ write.offset = wrapSub track.vaddr area.start := by
  unfold drop at member
  split at member
  · next file _ named =>
    obtain ⟨track, listed, rfl⟩ := mem_map.mp member
    obtain ⟨tracked, single⟩ := mem_filter.mp listed
    exact ⟨file, track, tracked, named, of_decide_eq_true single, rfl, rfl, rfl⟩
  · cases member

theorem remains_tracked {piece : MemArea} {track : MapTrack} (member : piece ∈ area.remains start last)
    (tracked : track ∈ piece.mtrackers) : track ∈ area.mtrackers := by
  refine (sub_tracked start last empty).1 piece ?_ track tracked
  rcases Cut.mem_pieces member with ⟨rfl, _⟩ | back
  · exact mem_cons_self
  · exact mem_cons_of_mem _ (Option.mem_toList.mpr back)

theorem cutWrites_tracked (member : write ∈ area.cutWrites strongCount start last) :
    ∃ track ∈ area.mtrackers, write.frame = track.tracker := by
  obtain ⟨pieces, writes⟩ := sub_tracked start last empty
  rcases mem_append.mp member with cut | dropped
  · exact writes write cut
  · split at dropped
    · cases dropped
    · obtain ⟨_, track, tracked, _, _, _, frame, _⟩ := mem_drop dropped
      exact ⟨track, pieces _ mem_cons_self track tracked, frame⟩

end MemArea

namespace MemSet

private theorem sub_cutWrites {area : MemArea} (strongCount : Nat → Nat) (start last : Nat) (table : PageTable) :
    (area.sub start last table).writes ++ (if (area.sub start last table).area.len ≠ 0 then []
      else (area.sub start last table).area.drop strongCount) = area.cutWrites strongCount start last := by
  unfold cutWrites sub
  split
  · rfl
  · split
    · rfl
    · split <;> rfl

theorem subArea_writes (strongCount : Nat → Nat) (memset : MemSet) (start last : Nat) (table : PageTable) :
    (subArea strongCount memset start last table).2.2 = memset.flatMap (cutWrites strongCount start last) := by
  simp only [subArea]
  induction memset generalizing table with
  | nil => rfl
  | cons area _ ih =>
    rw [flatMap_cons, ← sub_cutWrites strongCount start last table]
    simp only [subEach]
    rw [← ih (area.sub start last table).table]
    split
    · rw [append_nil]
    · rfl

end MemSet

namespace Process

/-- What may end pages of a mapping: `sys_munmap`, or `exit` of a thread. -/
inductive Unmapping where
  | munmap (start len : Nat)
  | exit (mem : PhysMem) (alive : Nat → Bool) (taskId exitCode : Nat)

def unmap (process : Process) (strongCount : Nat → Nat) : Unmapping → Process × List WriteBack
  | .munmap start len =>
    let (memset, pageTable, writes) :=
      process.pcb.memset.subArea strongCount start (wrapAdd start len) process.pageTable
    ({ process with pageTable, pcb := { process.pcb with memset } }, writes)
  | .exit mem alive taskId exitCode =>
    let ended := process.exit mem alive strongCount taskId exitCode
    (ended.process, ended.writes)

abbrev Last (process : Process) (alive : Nat → Bool) (taskId : Nat) : Prop :=
  taskId = process.processId ∧ (process.pcb.threads.filter fun other => alive other && other != taskId).length = 0

variable {before after : Process} {strongCount : Nat → Nat} {writes : List WriteBack}

theorem munmap_outcome {start len : Nat} (fits : start + len < usizeBound)
    (done : before.unmap strongCount (.munmap start len) = (after, writes)) :
    after.pcb.memset.Perm (before.pcb.memset.flatMap fun area => area.remains start (start + len)) ∧
      writes = before.pcb.memset.flatMap (cutWrites strongCount start (start + len)) := by
  unfold unmap at done
  dsimp only at done
  rw [wrapAdd_eq fits] at done
  cases done
  exact ⟨MemSet.subArea_perm strongCount _ _, MemSet.subArea_writes strongCount _ start (start + len) _⟩

theorem exit_outcome {mem : PhysMem} {alive : Nat → Bool} {taskId exitCode : Nat}
    (done : before.unmap strongCount (.exit mem alive taskId exitCode) = (after, writes)) :
    if before.Last alive taskId then
      after.pcb.memset = [] ∧ writes = before.pcb.memset.flatMap (drop strongCount)
    else after.pcb.memset = before.pcb.memset ∧ writes = [] := by
  obtain ⟨_, cleared⟩ := before.clearChildTid_fst mem taskId
  cases done
  simp only [exit, cleared, leaveThreads]
  split <;> exact ⟨rfl, rfl⟩

end Process

end MonkeyOS.Tasks

namespace MonkeyOS.Syscall

open Lib Tasks

structure FileMapping where
  addr : Nat
  off : Nat
  inode : Inode
  frames : List Nat
  nonzero : addr ≠ 0
  fits : addr + frames.length * pageSize < usizeBound
  word : off < usizeBound
  distinct : frames.Nodup

namespace FileMapping

def area (mapping : FileMapping) : MemArea :=
  mappedArea mapping.addr (mapping.frames.length * pageSize) mapping.off mapping.inode mapping.frames

/-- If the write takes a page of the mapping, it takes it where the page came from. -/
def InPlace (mapping : FileMapping) (write : WriteBack) : Prop :=
  ∀ page, mapping.frames[page]? = some write.frame →
    write.file = mapping.inode ∧ write.offset = wrapAdd mapping.off (page * pageSize)

/-- The unmapping does not start below the mapping and reach into it. -/
def Admits (mapping : FileMapping) : Process.Unmapping → Prop
  | .munmap start len => start + len < usizeBound ∧ (mapping.addr ≤ start ∨ start + len ≤ mapping.addr)
  | .exit .. => True

structure Event where
  unmapping : Process.Unmapping
  strongCount : Nat → Nat
  writes : List WriteBack

def Unmaps (mapping : FileMapping) (before : Process) (event : Event) (after : Process) : Prop :=
  mapping.Admits event.unmapping ∧ before.unmap event.strongCount event.unmapping = (after, event.writes)

def Drops (process : Process) (area : MemArea) (track : MapTrack) : Process.Unmapping → Prop
  | .munmap start len => area.Beheads start (wrapAdd start len) track
  | .exit _ alive taskId _ => process.Last alive taskId

/-- No page of the mapping loses its last holder by a drop. -/
def Quiet (mapping : FileMapping) (process : Process) (event : Event) : Prop :=
  ∀ area ∈ process.pcb.memset, ∀ track ∈ area.mtrackers, track.tracker ∈ mapping.frames →
    Drops process area track event.unmapping → 1 < event.strongCount track.tracker

structure Piece (mapping : FileMapping) (area : MemArea) : Prop where
  start : area.start = mapping.addr
  offset : area.offset = mapping.off
  file : area.file = some mapping.inode
  mtype : area.mtype = .ShareFile
  bound : area.len ≤ mapping.frames.length * pageSize

structure Keeps (mapping : FileMapping) (memset : MemSet) : Prop where
  piece : ∀ area ∈ memset, ∀ track ∈ area.mtrackers, track.tracker ∈ mapping.frames → mapping.Piece area ∧ 0 < area.len
  placed : ∀ area ∈ memset, ∀ track ∈ area.mtrackers, ∀ page : Nat,
    mapping.frames[page]? = some track.tracker → track.vaddr = mapping.addr + page * pageSize

variable {mapping : FileMapping} {area : MemArea} {strongCount : Nat → Nat}

theorem area_keeps (mapping : FileMapping) {others : MemSet}
    (fresh : ∀ area ∈ others, ∀ track ∈ area.mtrackers, track.tracker ∉ mapping.frames) :
    mapping.Keeps (others ++ [mapping.area]) := by
  constructor
  · intro area member track tracked owned
    rcases List.mem_append.mp member with other | self
    · exact absurd owned (fresh area other track tracked)
    · rw [List.mem_singleton.mp self]
      exact ⟨⟨rfl, rfl, rfl, rfl, le_refl _⟩, mul_pos (List.length_pos_of_mem owned) pageSize_pos⟩
  · intro area member track tracked _ present
    rcases List.mem_append.mp member with other | self
    · exact absurd (List.mem_of_getElem? present) (fresh area other track tracked)
    · rw [List.mem_singleton.mp self] at tracked
      obtain ⟨_, here, place⟩ := mem_trackersAt mapping.nonzero mapping.fits tracked
      have bound := (getElem?_eq_some_iff.mp here).1
      rw [place, (List.getElem?_inj bound mapping.distinct).mp (here.trans present.symm)]

theorem writePage_inPlace (piece : mapping.Piece area) {file : Inode} {track : MapTrack} (named : area.file = some file)
    (placed : ∀ page : Nat, mapping.frames[page]? = some track.tracker → track.vaddr = mapping.addr + page * pageSize) :
    mapping.InPlace (area.writePage file track) := by
  intro page present
  have fits := mapping.fits
  rw [piece.file] at named
  cases named
  refine ⟨rfl, ?_⟩
  simp only [MemArea.writePage, piece.start, piece.offset, placed page present, wrapSub, wrapAdd]
  unfold usizeBound at *
  omega

theorem drop_inPlace_iff (piece : mapping.Piece area)
    (placed : ∀ track ∈ area.mtrackers, ∀ page : Nat, mapping.frames[page]? = some track.tracker →
      track.vaddr = mapping.addr + page * pageSize) :
    (∀ write ∈ area.drop strongCount, mapping.InPlace write) ↔
      mapping.off = 0 ∨ ∀ track ∈ area.mtrackers, track.tracker ∈ mapping.frames → 1 < strongCount track.tracker := by
  have word := mapping.word
  constructor
  · intro inPlace
    by_contra bad
    simp only [not_or, not_forall, not_lt] at bad
    obtain ⟨_, track, tracked, owned, single⟩ := bad
    obtain ⟨page, present⟩ := List.getElem?_of_mem owned
    have written : ∃ write ∈ area.drop strongCount, write.frame = track.tracker ∧
        write.offset = wrapSub track.vaddr area.start := by
      simp only [MemArea.drop, piece.mtype, piece.file]
      exact ⟨_, List.mem_map_of_mem (List.mem_filter.mpr ⟨tracked, decide_eq_true single⟩), rfl, rfl⟩
    obtain ⟨write, member, frame, offset⟩ := written
    have same := (inPlace write member page (frame ▸ present)).2
    rw [offset, placed track tracked page present, piece.start] at same
    unfold wrapSub wrapAdd usizeBound at *
    omega
  · intro allowed write member page present
    obtain ⟨file, track, tracked, named, single, target, frame, offset⟩ := MemArea.mem_drop member
    rw [frame] at present
    rw [piece.file] at named
    refine ⟨target.trans (Option.some.inj named).symm, ?_⟩
    cases allowed with
    | inl unshifted =>
      rw [offset, placed track tracked page present, piece.start, unshifted]
      unfold wrapSub wrapAdd usizeBound at *
      omega
    | inr held =>
      have shared := held track tracked (List.mem_of_getElem? present)
      omega

private theorem inPlace_of_foreign {write : WriteBack} (foreign : write.frame ∉ mapping.frames) :
    mapping.InPlace write :=
  fun _ present => absurd (List.mem_of_getElem? present) foreign

variable {memset : MemSet} {start last : Nat}

section Crop

variable (keeps : mapping.Keeps memset) (ordered : start ≤ last) (inside : mapping.addr ≤ start ∨ last ≤ mapping.addr)
include keeps ordered inside

private theorem crop (member : area ∈ memset)
    (own : ∃ track ∈ area.mtrackers, track.tracker ∈ mapping.frames) (table : PageTable) :
    mapping.Piece area ∧ area.Cropped start last (area.sub start last table) := by
  obtain ⟨track, tracked, owned⟩ := own
  obtain ⟨piece, positive⟩ := keeps.piece area member track tracked owned
  have fits := mapping.fits
  have bound := piece.bound
  refine ⟨piece, MemArea.sub_cropped positive ?_ ordered ?_ table⟩
  · rw [piece.start]
    omega
  · rwa [piece.start]

theorem remains_keeps : mapping.Keeps (memset.flatMap fun area => area.remains start last) := by
  constructor
  · intro piece member track tracked owned
    obtain ⟨area, listed, rest⟩ := List.mem_flatMap.mp member
    have source := MemArea.remains_tracked rest tracked
    obtain ⟨own, cropped⟩ := crop keeps ordered inside listed ⟨track, source, owned⟩ PageTable.empty
    rcases MemArea.Cut.mem_pieces rest with ⟨rfl, nonempty⟩ | back
    · obtain ⟨_, _, same, short, _⟩ := cropped.front
      rw [same] at nonempty ⊢
      exact ⟨⟨own.start, own.offset, own.file, own.mtype, le_trans short own.bound⟩, pos_of_ne_zero nonempty⟩
    · rw [cropped.back piece back] at tracked
      cases tracked
  · intro piece member track tracked page present
    obtain ⟨area, listed, rest⟩ := List.mem_flatMap.mp member
    exact keeps.placed area listed track (MemArea.remains_tracked rest tracked) page present

theorem cutWrites_inPlace_iff (member : area ∈ memset) :
    (∀ write ∈ area.cutWrites strongCount start last, mapping.InPlace write) ↔
      mapping.off = 0 ∨ ∀ track ∈ area.mtrackers, track.tracker ∈ mapping.frames →
        area.Beheads start last track → 1 < strongCount track.tracker := by
  by_cases own : ∃ track ∈ area.mtrackers, track.tracker ∈ mapping.frames
  · obtain ⟨piece, cropped⟩ := crop keeps ordered inside member own PageTable.empty
    obtain ⟨len, mtrackers, same, short, tracks, emptied, beheaded⟩ := cropped.front
    have written : ∀ write ∈ (area.sub start last PageTable.empty).writes, mapping.InPlace write := by
      intro write listed
      obtain ⟨file, track, named, tracked, rfl⟩ := cropped.writes write listed
      exact writePage_inPlace piece named (keeps.placed area member track tracked)
    simp only [MemArea.cutWrites, same, List.forall_mem_append, and_iff_right written]
    by_cases empty : len = 0
    · have rest : mapping.Piece { area with len, mtrackers } :=
        ⟨piece.start, piece.offset, piece.file, piece.mtype, le_trans short piece.bound⟩
      rw [if_neg (not_not_intro empty), drop_inPlace_iff rest fun track tracked =>
        keeps.placed area member track (tracks track tracked)]
      simp only [emptied empty, and_imp]
      exact or_congr_right (forall₂_congr fun track tracked => forall_comm)
    · rw [if_pos empty]
      exact iff_of_true nofun (.inr fun track _ _ cut => absurd (beheaded track cut) empty)
  · have foreign : ∀ track ∈ area.mtrackers, track.tracker ∉ mapping.frames :=
      fun track tracked owned => own ⟨track, tracked, owned⟩
    refine iff_of_true (fun write listed => inPlace_of_foreign ?_)
      (.inr fun track tracked owned => absurd owned (foreign track tracked))
    obtain ⟨track, tracked, frame⟩ := MemArea.cutWrites_tracked listed
    rw [frame]
    exact foreign track tracked

end Crop

theorem dropped_inPlace_iff (keeps : mapping.Keeps memset) (member : area ∈ memset) :
    (∀ write ∈ area.drop strongCount, mapping.InPlace write) ↔
      mapping.off = 0 ∨ ∀ track ∈ area.mtrackers, track.tracker ∈ mapping.frames → 1 < strongCount track.tracker := by
  by_cases own : ∃ track ∈ area.mtrackers, track.tracker ∈ mapping.frames
  · obtain ⟨track, tracked, owned⟩ := own
    exact drop_inPlace_iff (keeps.piece area member track tracked owned).1 (keeps.placed area member)
  · refine iff_of_true (fun _ listed => inPlace_of_foreign fun owned => ?_)
      (.inr fun track tracked owned => absurd ⟨track, tracked, owned⟩ own)
    obtain ⟨_, track, tracked, _, _, _, frame, _⟩ := MemArea.mem_drop listed
    exact own ⟨track, tracked, frame ▸ owned⟩

private theorem flatMap_inPlace_iff {each : MemArea → List WriteBack} {held : MemArea → Prop}
    (areas : ∀ area ∈ memset, (∀ write ∈ each area, mapping.InPlace write) ↔ mapping.off = 0 ∨ held area) :
    (∀ write ∈ memset.flatMap each, mapping.InPlace write) ↔ mapping.off = 0 ∨ ∀ area ∈ memset, held area := by
  have split : (∀ write ∈ memset.flatMap each, mapping.InPlace write) ↔
      ∀ area ∈ memset, ∀ write ∈ each area, mapping.InPlace write := by
    simp only [List.mem_flatMap, forall_exists_index, and_imp]
    exact ⟨fun every area member write => every write area member,
      fun every write area member => every area member write⟩
  rw [split, forall₂_congr areas]
  by_cases unshifted : mapping.off = 0
  · exact iff_of_true (fun _ _ => .inl unshifted) (.inl unshifted)
  · simp only [unshifted, false_or]

variable {before after : Process} {event : Event}

variable (keeps : mapping.Keeps before.pcb.memset) (step : mapping.Unmaps before event after)
include keeps step

theorem unmaps_keeps : mapping.Keeps after.pcb.memset := by
  obtain ⟨admitted, done⟩ := step
  cases unmapping : event.unmapping with
  | munmap start len =>
    rw [unmapping] at admitted done
    obtain ⟨fits, inside⟩ := admitted
    obtain ⟨pieces, _⟩ := Process.munmap_outcome fits done
    have rest := remains_keeps keeps (Nat.le_add_right start len) inside
    exact ⟨fun area member => rest.piece area (pieces.mem_iff.mp member),
      fun area member => rest.placed area (pieces.mem_iff.mp member)⟩
  | exit _ _ _ _ =>
    rw [unmapping] at done
    have ended := Process.exit_outcome done
    split at ended
    · rw [ended.1]
      exact ⟨nofun, nofun⟩
    · rwa [ended.1]

theorem unmaps_inPlace_iff :
    (∀ write ∈ event.writes, mapping.InPlace write) ↔ mapping.off = 0 ∨ mapping.Quiet before event := by
  obtain ⟨admitted, done⟩ := step
  cases unmapping : event.unmapping with
  | munmap start len =>
    rw [unmapping] at admitted done
    obtain ⟨fits, inside⟩ := admitted
    obtain ⟨_, written⟩ := Process.munmap_outcome fits done
    simp only [Quiet, Drops, unmapping, wrapAdd_eq fits, written]
    exact flatMap_inPlace_iff fun area member =>
      cutWrites_inPlace_iff keeps (Nat.le_add_right start len) inside member
  | exit _ _ _ _ =>
    rw [unmapping] at done
    have ended := Process.exit_outcome done
    simp only [Quiet, Drops, unmapping]
    split at ended
    · next final =>
      rw [ended.2, flatMap_inPlace_iff fun area member => dropped_inPlace_iff keeps member]
      simp only [forall_prop_of_true final]
    · next other =>
      rw [ended.2]
      exact iff_of_true nofun (.inr fun _ _ _ _ _ final => absurd final other)

omit keeps step

/-- Along every life of a file mapping, its pages are written where they came
from exactly if the mapping has no offset, or no page loses its last holder by
the drop of an area. -/
theorem written_in_place_iff (mapping : FileMapping) {others : MemSet} {start finish : Process}
    {events : List Event} (mapped : start.pcb.memset = others ++ [mapping.area])
    (fresh : ∀ area ∈ others, ∀ track ∈ area.mtrackers, track.tracker ∉ mapping.frames)
    (run : Run mapping.Unmaps start events finish) :
    (∀ event ∈ events, ∀ write ∈ event.writes, mapping.InPlace write) ↔
      mapping.off = 0 ∨
        Run (fun before event after => mapping.Unmaps before event after ∧ mapping.Quiet before event)
          start events finish := by
  have keeps : mapping.Keeps start.pcb.memset := mapped ▸ mapping.area_keeps fresh
  clear mapped fresh
  induction run with
  | refl => exact iff_of_true nofun (.inr .refl)
  | cons step rest ih =>
    rw [List.forall_mem_cons]
    refine (and_congr (unmaps_inPlace_iff keeps step) (ih (unmaps_keeps keeps step))).trans ?_
    rw [← or_and_left]
    refine or_congr_right ⟨fun ⟨quiet, later⟩ => .cons ⟨step, quiet⟩ later, fun whole => ?_⟩
    cases whole with
    | cons first later =>
      -- the step determines the state after it
      obtain ⟨rfl, _⟩ := Prod.mk.inj (first.1.2.symm.trans step.2)
      exact ⟨first.2, later⟩

def unheld (process : Process) (unmapping : Process.Unmapping) : Event :=
  { unmapping, strongCount := fun _ => 1, writes := (process.unmap (fun _ => 1) unmapping).2 }

def twoPages (off : Nat) (word : off < usizeBound) : FileMapping where
  addr := mapAreaStart
  off
  inode := 0
  frames := [0x90000000, 0x90001000]
  nonzero := by decide
  fits := by decide
  word
  distinct := by decide

def owner (mapping : FileMapping) : Process := (Process.new 1 []).withMemset [mapping.area]

def exits : Process.Unmapping := .exit (fun _ => 0) (fun _ => true) 1 0

theorem written_in_place_iff_first_page :
    let mapping := twoPages 0 (by decide)
    let start := mapping.owner
    let first := unheld start (.munmap mapAreaStart pageSize)
    let middle := (start.unmap (fun _ => 1) first.unmapping).1
    first.writes.map (fun write => (write.frame, write.offset)) = [(0x90000000, 0), (0x90000000, 0)] ∧
      ∀ event ∈ [first, unheld middle exits], ∀ write ∈ event.writes, mapping.InPlace write := by
  refine ⟨by decide +kernel, ?_⟩
  have mapped : (twoPages 0 (by decide)).owner.pcb.memset = [] ++ [(twoPages 0 (by decide)).area] := rfl
  have inside : (twoPages 0 (by decide)).Admits (.munmap mapAreaStart pageSize) :=
    ⟨by decide, .inl (le_refl _)⟩
  have leaving : (twoPages 0 (by decide)).Admits exits := trivial
  exact (written_in_place_iff _ mapped (fun _ none => nomatch none)
    (.cons ⟨inside, rfl⟩ (.cons ⟨leaving, rfl⟩ .refl))).mpr (.inl rfl)

/-- With an offset of one page, the exit writes the first page to the start of the file. -/
theorem dropped_page_loses_offset :
    let mapping := twoPages pageSize (by decide)
    let event := unheld mapping.owner exits
    mapping.Unmaps mapping.owner event (mapping.owner.unmap (fun _ => 1) exits).1 ∧
      ∃ write ∈ event.writes, write.frame = 0x90000000 ∧ write.offset = 0 ∧ ¬ mapping.InPlace write := by
  refine ⟨⟨trivial, rfl⟩, { file := 0, offset := 0, frame := 0x90000000, len := pageSize }, by decide +kernel,
    rfl, rfl, fun inPlace => ?_⟩
  exact absurd (inPlace 0 rfl).2 (by decide)

end FileMapping

end MonkeyOS.Syscall
