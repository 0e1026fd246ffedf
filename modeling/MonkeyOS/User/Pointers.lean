import MonkeyOS.Lib.Sharing
import MonkeyOS.User.AddressSpace

/-!
# Which frame backs a page

The areas and attached segments of a process as pointers from pages to frames,
and what faults and forks do to them.
-/

set_option autoImplicit false

namespace MonkeyOS.User

open Lib Tasks List Option MemArea MapTrack

/-- The frame of a page: that of its tracker in the area around it, or that of the
segment attached there. -/
def pointer (pcb : ProcessControlBlock) (page : Nat) : Option (Pointer Nat) :=
  match pcb.memset.areaAt page with
  | some area =>
    (area.mtrackers.find? fun track => track.vaddr = page).map fun track =>
      { frame := track.tracker, shared := SharedType area.mtype }
  | none =>
    ((pcb.shms.flatMap MapedSharedMemory.tracks).find? fun track => track.vaddr = page).map fun track =>
      { frame := track.tracker, shared := true }

/-- Page-aligned areas and segments, apart from each other, with at most one
tracker for a page. -/
structure Tidy (pcb : ProcessControlBlock) : Prop where
  wellFormed : ∀ area ∈ pcb.memset, area.WellFormed
  single : ∀ area ∈ pcb.memset, (area.mtrackers.map vaddr).Nodup
  segments : ∀ shm ∈ pcb.shms, shm.start % pageSize = 0 ∧ shm.size = shm.mem.length * pageSize ∧
    shm.start + shm.size < usizeBound
  separate : Separate pcb.ranges

theorem find?_track {tracks : List MapTrack} (single : (tracks.map vaddr).Nodup) {track : MapTrack}
    (member : track ∈ tracks) : tracks.find? (fun other => other.vaddr = track.vaddr) = some track := by
  cases search : tracks.find? (fun other => other.vaddr = track.vaddr) with
  | none => simpa using find?_eq_none.mp search track member
  | some other =>
    have same : other.vaddr = track.vaddr := by simpa using find?_some search
    exact congrArg some (inj_on_of_nodup_map single (mem_of_find?_eq_some search) member same)

namespace Tidy

variable {pcb : ProcessControlBlock} {area : MemArea}

theorem areas_separate (tidy : Tidy pcb) : Separate (pcb.memset.map range) :=
  (pairwise_append.mp tidy.separate).1

theorem owner (tidy : Tidy pcb) (member : area ∈ pcb.memset) {address : Nat} (inside : area.contains address) :
    pcb.memset.areaAt address = some area := by
  cases found : pcb.memset.areaAt address with
  | none => simpa [inside] using find?_eq_none.mp found area member
  | some other =>
    have contained : other.contains address := by simpa using find?_some found
    exact congrArg some (tidy.areas_separate.unique (mem_of_find?_eq_some found) member contained inside)

variable {track : MapTrack}

theorem pointer_track (tidy : Tidy pcb) (member : area ∈ pcb.memset) (tracked : track ∈ area.mtrackers) :
    pointer pcb track.vaddr = some { frame := track.tracker, shared := SharedType area.mtype } := by
  have found := find?_track (tidy.single area member) tracked
  have inside := (tidy.wellFormed area member).trackInside track tracked
  simp only [pointer, tidy.owner member inside, found, map_some]

variable {shm : MapedSharedMemory} (tidy : Tidy pcb) (member : shm ∈ pcb.shms) (tracked : track ∈ shm.tracks)
include tidy member tracked

theorem segment_track :
    track.vaddr % pageSize = 0 ∧ track.vaddr ∈ shm.range ∧
      ∃ index, track.vaddr = shm.start + index * pageSize ∧ shm.mem[index]? = some track.tracker := by
  obtain ⟨aligned, _, fits⟩ := tidy.segments shm member
  obtain ⟨⟨_, index⟩, listed, rfl⟩ := mem_map.mp tracked
  have bound : index < shm.mem.length := snd_lt_of_mem_zipIdx listed
  have below : (index + 1) * pageSize ≤ shm.mem.length * pageSize := Nat.mul_le_mul_right _ bound
  have place : wrapAdd shm.start (index * pageSize) = shm.start + index * pageSize :=
    wrapAdd_eq (by unfold pageSize at *; omega)
  simp only [place, MapedSharedMemory.range, wrapAdd_eq fits, Set.mem_Ico]
  refine ⟨?_, ⟨Nat.le_add_right _ _, ?_⟩, index, rfl, ?_⟩
  · rw [Nat.add_mul_mod_self_right]
    exact aligned
  · unfold pageSize at *
    omega
  · obtain ⟨_, found⟩ := mem_zipIdx' listed
    rw [getElem?_eq_getElem bound, found]

theorem pointer_segment : pointer pcb track.vaddr = some { frame := track.tracker, shared := true } := by
  obtain ⟨_, segmentsApart, across⟩ := pairwise_append.mp tidy.separate
  obtain ⟨_, inside, index, _, held⟩ := tidy.segment_track member tracked
  have outside : pcb.memset.areaAt track.vaddr = none := by
    refine find?_eq_none.mpr fun area listed contained => ?_
    have apart := across area.range (mem_map_of_mem listed) shm.range (mem_map_of_mem member)
    exact Set.disjoint_left.mp apart (Set.mem_Ico.mpr (by simpa using contained)) inside
  have present : track ∈ pcb.shms.flatMap MapedSharedMemory.tracks := mem_flatMap.mpr ⟨shm, member, tracked⟩
  simp only [pointer, outside]
  cases search : (pcb.shms.flatMap MapedSharedMemory.tracks).find? (fun other => other.vaddr = track.vaddr) with
  | none => simpa using find?_eq_none.mp search track present
  | some other =>
    have same : other.vaddr = track.vaddr := by simpa using find?_some search
    obtain ⟨_, member', tracked'⟩ := mem_flatMap.mp (mem_of_find?_eq_some search)
    obtain ⟨_, inside', index', _, held'⟩ := tidy.segment_track member' tracked'
    obtain rfl := Separate.unique segmentsApart member' member inside' (same ▸ inside)
    have indices : index' = index := Nat.eq_of_mul_eq_mul_right pageSize_pos (by omega)
    rw [indices, held] at held'
    rw [map_some, Option.some.inj held']

end Tidy

theorem pointer_cases {pcb : ProcessControlBlock} {page : Nat} {target : Pointer Nat}
    (pointed : pointer pcb page = some target) :
    (∃ area ∈ pcb.memset, ∃ track ∈ area.mtrackers, track.vaddr = page ∧
        target = { frame := track.tracker, shared := SharedType area.mtype }) ∨
      ∃ shm ∈ pcb.shms, ∃ track ∈ shm.tracks, track.vaddr = page ∧
        target = { frame := track.tracker, shared := true } := by
  unfold pointer at pointed
  split at pointed
  · next area owner =>
    obtain ⟨track, found, rfl⟩ := map_eq_some_iff.mp pointed
    exact .inl ⟨area, mem_of_find?_eq_some owner, track, mem_of_find?_eq_some found,
      by simpa using find?_some found, rfl⟩
  · obtain ⟨track, found, rfl⟩ := map_eq_some_iff.mp pointed
    obtain ⟨shm, member, tracked⟩ := mem_flatMap.mp (mem_of_find?_eq_some found)
    exact .inr ⟨shm, member, track, tracked, by simpa using find?_some found, rfl⟩

/-! ## Other frames for pages of an area -/

section Owner

variable {vaddr : Nat} {update : MemArea → MemArea}

variable {area : MemArea} {memset : MemSet}

theorem contains_of_bare {other : MemArea} (same : other.bare = area.bare) (address : Nat) :
    other.contains address ↔ area.contains address := by
  have start : other.bare.start = area.bare.start := congrArg start same
  have len : other.bare.len = area.bare.len := congrArg len same
  simp only [bare] at start len
  rw [MemArea.contains, MemArea.contains, MemArea.finish, MemArea.finish, start, len]

theorem find?_updateOwner (same : ∀ area, (update area).bare = area.bare)
    (separate : Separate (memset.map range)) (address : Nat) :
    (updateOwner vaddr update memset).find? (fun area => area.contains address) =
      (memset.areaAt address).map fun area =>
        if area.contains vaddr then update area else area := by
  unfold MemSet.areaAt
  induction memset with
  | nil => rfl
  | cons area rest ih =>
    obtain ⟨apart, later⟩ := pairwise_cons.mp separate
    have here := contains_of_bare (same area) address
    by_cases owner : area.contains vaddr
    · rw [updateOwner, if_pos owner]
      by_cases inside : area.contains address
      · rw [find?_cons_of_pos (by simpa using here.mpr inside),
          find?_cons_of_pos (by simpa using inside), map_some, if_pos owner]
      · rw [find?_cons_of_neg (by simpa using mt here.mp inside), find?_cons_of_neg (by simpa using inside)]
        cases found : rest.find? (fun area => area.contains address) with
        | none => rfl
        | some other =>
          have disjoint := apart other.range (mem_map_of_mem (mem_of_find?_eq_some found))
          have elsewhere : ¬ other.contains vaddr := Set.disjoint_left.mp disjoint owner
          rw [map_some, if_neg elsewhere]
    · rw [updateOwner, if_neg owner]
      by_cases inside : area.contains address
      · rw [find?_cons_of_pos (by simpa using inside), find?_cons_of_pos (by simpa using inside),
          map_some, if_neg owner]
      · rw [find?_cons_of_neg (by simpa using inside), find?_cons_of_neg (by simpa using inside)]
        exact ih later

theorem mem_updateOwner (member : area ∈ updateOwner vaddr update memset) :
    area ∈ memset ∨ ∃ owner, memset.areaAt vaddr = some owner ∧ area = update owner := by
  induction memset with
  | nil => cases member
  | cons head _ ih =>
    unfold updateOwner at member
    split at member
    · next owner =>
      rcases mem_cons.mp member with rfl | later
      · exact .inr ⟨head, find?_cons_of_pos (by simpa using owner), rfl⟩
      · exact .inl (.tail _ later)
    · next other =>
      rcases mem_cons.mp member with rfl | later
      · exact .inl (.head _)
      · rcases ih later with listed | ⟨owner, found, changed⟩
        · exact .inl (.tail _ listed)
        · exact .inr ⟨owner, (find?_cons_of_neg (by simpa using other)).trans found, changed⟩

theorem find?_replaceTrack (page frame other : Nat) (tracks : List MapTrack) :
    (replaceTrack page frame tracks).find? (fun track => track.vaddr = other) =
      (tracks.find? fun track => track.vaddr = other).map fun track =>
        if other = page then { track with tracker := frame } else track := by
  induction tracks with
  | nil => rfl
  | cons track _ ih =>
    unfold replaceTrack
    by_cases here : track.vaddr = page
    · by_cases same : other = page
      · simp [here, same]
      · have different : ¬ page = other := fun equal => same equal.symm
        simp [here, same, different]
    · by_cases found : track.vaddr = other
      · have different : ¬ other = page := fun equal => here (found.trans equal)
        simp [found, different]
      · simp only [if_neg here]
        rw [find?_cons_of_neg (by simpa using found), find?_cons_of_neg (by simpa using found), ih]

@[simp] theorem map_vaddr_replaceTrack (page frame : Nat) (tracks : List MapTrack) :
    (replaceTrack page frame tracks).map MapTrack.vaddr = tracks.map MapTrack.vaddr := by
  induction tracks with
  | nil => rfl
  | cons track _ ih =>
    unfold replaceTrack
    split
    · rfl
    · exact congrArg (track.vaddr :: ·) ih

theorem wellFormed_tracks (wellFormed : area.WellFormed) {tracks : List MapTrack}
    (pages : ∀ track ∈ tracks, track.vaddr % pageSize = 0 ∧ area.contains track.vaddr) :
    { area with mtrackers := tracks }.WellFormed where
  startAligned := wellFormed.startAligned
  lenAligned := wellFormed.lenAligned
  bounded := wellFormed.bounded
  trackAligned := fun track member => (pages track member).1
  trackInside := fun track member => (pages track member).2

namespace Tidy

variable {pcb : ProcessControlBlock} {owner : MemArea} {frame : Nat} (tidy : Tidy pcb)
  (found : pcb.memset.areaAt vaddr = some owner)
include tidy found

theorem pointer_owner :
    pointer pcb (pageFloor vaddr) =
      (owner.trackAt vaddr).map fun track =>
        { frame := track.tracker, shared := SharedType owner.mtype } := by
  have member := mem_of_find?_eq_some found
  have inside : owner.contains vaddr := by simpa using find?_some found
  have page := ((tidy.wellFormed owner member).contains_pageFloor vaddr).mpr inside
  simp only [pointer, tidy.owner member page]

private theorem updateOwner (same : ∀ area, (update area).bare = area.bare)
    (wellFormed : (update owner).WellFormed) (single : ((update owner).mtrackers.map MapTrack.vaddr).Nodup) :
    Tidy { pcb with memset := User.updateOwner vaddr update pcb.memset } where
  wellFormed := by
    intro area member
    rcases mem_updateOwner member with listed | ⟨other, found', rfl⟩
    · exact tidy.wellFormed area listed
    · cases found.symm.trans found'
      exact wellFormed
  single := by
    intro area member
    rcases mem_updateOwner member with listed | ⟨other, found', rfl⟩
    · exact tidy.single area listed
    · cases found.symm.trans found'
      exact single
  segments := tidy.segments
  separate := by
    have ranges := MemSet.ranges_of_layout (@layout_updateOwner vaddr update same pcb.memset)
    simpa only [ProcessControlBlock.ranges, ranges] using tidy.separate

private theorem pointer_updateOwner (same : ∀ area, (update area).bare = area.bare)
    (here : (update owner).trackAt vaddr = some { vaddr := pageFloor vaddr, tracker := frame })
    (elsewhere : ∀ page, page ≠ pageFloor vaddr →
      (update owner).mtrackers.find? (fun track => track.vaddr = page) =
        owner.mtrackers.find? fun track => track.vaddr = page) :
    pointer { pcb with memset := User.updateOwner vaddr update pcb.memset } =
      Function.update (pointer pcb) (pageFloor vaddr) (some { frame, shared := SharedType owner.mtype }) := by
  have kind : (update owner).bare.mtype = owner.bare.mtype := congrArg mtype (same owner)
  simp only [bare] at kind
  have member := mem_of_find?_eq_some found
  have inside : owner.contains vaddr := by simpa using find?_some found
  funext page
  simp only [pointer, find?_updateOwner same tidy.areas_separate]
  by_cases at_page : page = pageFloor vaddr
  · subst at_page
    have contained := ((tidy.wellFormed owner member).contains_pageFloor vaddr).mpr inside
    simp only [tidy.owner member contained, map_some, if_pos inside, here, kind, Function.update_self]
  · rw [Function.update_of_ne at_page]
    simp only [pointer]
    cases search : pcb.memset.areaAt page with
    | none => rfl
    | some area =>
      simp only [map_some]
      split
      · next shared =>
        have listed := mem_of_find?_eq_some search
        obtain rfl := tidy.areas_separate.unique listed member shared inside
        simp only [elsewhere page at_page, kind]
      · rfl

theorem retrack {old : MapTrack} (tracked : owner.trackAt vaddr = some old) :
    Tidy { pcb with memset := User.retrack vaddr frame pcb.memset } ∧
      pointer { pcb with memset := User.retrack vaddr frame pcb.memset } =
        Function.update (pointer pcb) (pageFloor vaddr) (some { frame, shared := SharedType owner.mtype }) := by
  have member := mem_of_find?_eq_some found
  have wellFormed := tidy.wellFormed owner member
  have page : old.vaddr = pageFloor vaddr := by simpa using find?_some tracked
  refine ⟨updateOwner tidy found (fun _ => rfl) (wellFormed_tracks wellFormed fun track listed => ?_) ?_,
    pointer_updateOwner tidy found (fun _ => rfl) ?_ fun _ different => ?_⟩
  · have listed : track.vaddr ∈ owner.mtrackers.map MapTrack.vaddr := by
      rw [← map_vaddr_replaceTrack (pageFloor vaddr) frame]
      exact mem_map_of_mem listed
    obtain ⟨known, knownMember, same⟩ := mem_map.mp listed
    rw [← same]
    exact ⟨wellFormed.trackAligned known knownMember, wellFormed.trackInside known knownMember⟩
  · rw [map_vaddr_replaceTrack]
    exact tidy.single owner member
  · simp only [trackAt, find?_replaceTrack, tracked, map_some, if_true, page]
  · rw [find?_replaceTrack]
    simp [different]

theorem track (untracked : owner.trackAt vaddr = none) :
    Tidy { pcb with memset := User.track vaddr frame pcb.memset } ∧
      pointer { pcb with memset := User.track vaddr frame pcb.memset } =
        Function.update (pointer pcb) (pageFloor vaddr) (some { frame, shared := SharedType owner.mtype }) := by
  have member := mem_of_find?_eq_some found
  have wellFormed := tidy.wellFormed owner member
  have inside : owner.contains vaddr := by simpa using find?_some found
  refine ⟨updateOwner tidy found (fun _ => rfl) (wellFormed_tracks wellFormed fun track listed => ?_) ?_,
    pointer_updateOwner tidy found (fun _ => rfl) ?_ fun _ different => ?_⟩
  · rcases mem_append.mp listed with old | new
    · exact ⟨wellFormed.trackAligned track old, wellFormed.trackInside track old⟩
    · rw [mem_singleton.mp new]
      exact ⟨pageFloor_mod vaddr, (wellFormed.contains_pageFloor vaddr).mpr inside⟩
  · rw [map_append, nodup_append]
    refine ⟨tidy.single owner member, by simp, fun _ old _ new same => ?_⟩
    obtain ⟨known, knownMember, rfl⟩ := mem_map.mp old
    rw [map_singleton, mem_singleton] at new
    simpa [same, new] using find?_eq_none.mp untracked known knownMember
  · simp [trackAt, untracked]
  · simp [Ne.symm different]

end Tidy

end Owner

/-! ## Another area -/

section Added

variable {pcb : ProcessControlBlock} {area : MemArea} {page : Nat}

theorem find?_track_outside (wellFormed : area.WellFormed) (outside : ¬ area.contains page) :
    area.mtrackers.find? (fun track => track.vaddr = page) = none := by
  refine find?_eq_none.mpr fun track member same => outside ?_
  have inside := wellFormed.trackInside track member
  rwa [of_decide_eq_true same] at inside

theorem Tidy.pointer_clear (tidy : Tidy pcb) {range : Set Nat}
    (clear : ∀ set ∈ pcb.ranges, Disjoint range set) (inside : page ∈ range) :
    pointer pcb page = none := by
  cases pointed : pointer pcb page with
  | none => rfl
  | some _ =>
    exfalso
    rcases pointer_cases pointed with ⟨other, member, track, tracked, rfl, _⟩ | ⟨shm, member, track, tracked, rfl, _⟩
    · have contained := (tidy.wellFormed other member).trackInside track tracked
      exact Set.disjoint_left.mp (clear other.range (mem_append_left _ (mem_map_of_mem member))) inside contained
    · have contained := (tidy.segment_track member tracked).2.1
      exact Set.disjoint_left.mp (clear shm.range (mem_append_right _ (mem_map_of_mem member))) inside contained

theorem Tidy.add (tidy : Tidy pcb) (wellFormed : area.WellFormed) (single : (area.mtrackers.map vaddr).Nodup)
    (clear : ∀ set ∈ pcb.ranges, Disjoint area.range set) :
    Tidy { pcb with memset := pcb.memset ++ [area] } ∧
      ∀ page, pointer { pcb with memset := pcb.memset ++ [area] } page =
        (pointer pcb page).or ((area.mtrackers.find? fun track => track.vaddr = page).map fun track =>
          { frame := track.tracker, shared := SharedType area.mtype }) := by
  refine ⟨⟨fun other member => ?_, fun other member => ?_, tidy.segments, ?_⟩, fun page => ?_⟩
  · rcases mem_append.mp member with old | new
    · exact tidy.wellFormed other old
    · rw [mem_singleton.mp new]
      exact wellFormed
  · rcases mem_append.mp member with old | new
    · exact tidy.single other old
    · rw [mem_singleton.mp new]
      exact single
  · have inserted : Separate (pcb.memset.ranges ++ [area.range] ++ pcb.shms.map MapedSharedMemory.range) :=
      Separate.insert tidy.separate clear
    simpa only [ProcessControlBlock.ranges, MemSet.ranges, map_append, map_singleton] using inserted
  · by_cases inside : area.contains page
    · have outside : pcb.memset.areaAt page = none := by
        refine find?_eq_none.mpr fun other member contained => ?_
        have apart := clear other.range (mem_append_left _ (mem_map_of_mem member))
        exact Set.disjoint_left.mp apart inside (Set.mem_Ico.mpr (by simpa using contained))
      rw [tidy.pointer_clear clear inside, none_or]
      simp only [pointer, find?_append, outside, none_or]
      rw [find?_cons_of_pos (by simpa using inside)]
    · rw [find?_track_outside wellFormed inside, map_none, or_none]
      simp only [pointer, find?_append]
      rw [find?_cons_of_neg (by simpa using inside), find?_nil, or_none]

end Added

end MonkeyOS.User
