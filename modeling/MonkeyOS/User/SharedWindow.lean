import MonkeyOS.User.PageFaultProperties

/-!
# A shared mapping as a byte vector

Stores into a range that one shared area backs with its own frames. Whatever the
flags of its pages, a fault there maps the same frame again.
-/

set_option autoImplicit false

namespace MonkeyOS

open Function List Option PageTable

namespace User

open Lib Tasks

structure SharedWindow (space : UserSpace) (rest : MemSet) (area : MemArea) (frames : List Nat) :
    Prop where
  memset : space.process.pcb.memset = rest ++ [area]
  shared : SharedType area.mtype
  mtrackers : area.mtrackers = trackersAt area.start frames
  len : area.len = frames.length * pageSize
  fits : area.start + area.len < usizeBound
  aligned : area.start % pageSize = 0
  nonzero : area.start ≠ 0
  apart : ∀ other ∈ rest, ∀ index < area.len, ¬ other.contains (area.start + index)
  frameAligned : ∀ frame ∈ frames, frame % pageSize = 0
  distinct : frames.Nodup
  mapped : ∀ page frame, frames[page]? = some frame → ∀ mapping,
    space.process.pageTable (area.start + page * pageSize) = some mapping → mapping.paddr = frame

def UserSpace.remapped (space : UserSpace) (page frame : Nat) (flags : MappingFlags) : UserSpace :=
  { space with process := { space.process with pageTable := space.process.pageTable.mapPage page frame flags } }

def place (frames : List Nat) (index : Nat) : Nat :=
  frames.getD (index / pageSize) 0 + index % pageSize

variable {frames : List Nat} {bytes : List UInt8} {space : UserSpace} {area : MemArea} {rest : MemSet}

theorem place_inj (aligned : ∀ frame ∈ frames, frame % pageSize = 0) (distinct : frames.Nodup) {left right : Nat}
    (leftBound : left < frames.length * pageSize) (rightBound : right < frames.length * pageSize)
    (same : place frames left = place frames right) : left = right := by
  have present {index : Nat} (bound : index < frames.length * pageSize) :
      frames[index / pageSize]? = some (frames.getD (index / pageSize) 0) := by
    simp [(Nat.div_lt_iff_lt_mul pageSize_pos).mpr bound]
  have leftAligned := aligned _ (mem_of_getElem? (present leftBound))
  have rightAligned := aligned _ (mem_of_getElem? (present rightBound))
  have leftPresent := present leftBound
  have rightPresent := present rightBound
  unfold place at same
  generalize frames.getD (left / pageSize) 0 = leftFrame at *
  generalize frames.getD (right / pageSize) 0 = rightFrame at *
  have frame : leftFrame = rightFrame := by unfold pageSize at *; omega
  have page : left / pageSize = right / pageSize := by
    obtain ⟨inside, _⟩ := List.getElem?_eq_some_iff.mp leftPresent
    exact (getElem?_inj inside distinct).mp (by rw [leftPresent, rightPresent, frame])
  unfold pageSize at *
  omega

def shownBytes (space : UserSpace) (frames : List Nat) (index : Nat) : UInt8 :=
  space.machine.mem (place frames index)

namespace SharedWindow

variable {space : UserSpace} {rest : MemSet} {area : MemArea} {frames : List Nat}

variable (shown : SharedWindow space rest area frames)
include shown

theorem page_present {index : Nat} (bound : index < area.len) :
    frames[index / pageSize]? = some (frames.getD (index / pageSize) 0) := by
  have page : index / pageSize < frames.length :=
    (Nat.div_lt_iff_lt_mul pageSize_pos).mpr (shown.len ▸ bound)
  simp [page]

theorem pageFloor_eq (index : Nat) : pageFloor (area.start + index) = area.start + index / pageSize * pageSize := by
  have aligned := shown.aligned
  unfold pageFloor pageSize at *
  omega

theorem offset_eq (index : Nat) : (area.start + index) % pageSize = index % pageSize := by
  have aligned := shown.aligned
  unfold pageSize at *
  omega

variable {index : Nat} (bound : index < area.len)
include bound

theorem owner : space.process.pcb.memset.areaAt (area.start + index) = some area := by
  have finish : area.finish = area.start + area.len := wrapAdd_eq shown.fits
  have outside : rest.find? (fun other => other.contains (area.start + index)) = none := by
    refine find?_eq_none.mpr fun other member => ?_
    simpa using shown.apart other member index bound
  have inside : area.start + index < area.finish := by omega
  rw [shown.memset, MemSet.areaAt, find?_append, outside, none_or]
  simp [inside]

theorem tracked :
    area.trackAt (area.start + index) =
      some { vaddr := pageFloor (area.start + index), tracker := frames.getD (index / pageSize) 0 } := by
  rw [MemArea.trackAt, shown.mtrackers, shown.pageFloor_eq]
  exact find?_trackersAt shown.nonzero (by rw [← shown.len]; exact shown.fits) (shown.page_present bound)

theorem serves (around : Surroundings) (taskId : Nat) :
    space.userCowInt around taskId (area.start + index) =
      some (space.remapped (pageFloor (area.start + index)) (frames.getD (index / pageSize) 0)
        (ownedFlags area (area.start + index))) := by
  have frameAligned : frames.getD (index / pageSize) 0 % pageSize = 0 :=
    shown.frameAligned _ (mem_of_getElem? (shown.page_present bound))
  have shared : area.mtype = .Shared ∨ area.mtype = .ShareFile := shown.shared
  simp only [UserSpace.userCowInt, shown.owner bound, shown.tracked bound, UserSpace.serveTracked,
    if_pos shared, UserSpace.mapOwned, Process.map, frameAligned, pageFloor_mod, and_self, if_true]
  rfl

theorem remap (flags : MappingFlags) :
    SharedWindow (space.remapped (pageFloor (area.start + index)) (frames.getD (index / pageSize) 0) flags)
      rest area frames where
  memset := shown.memset
  shared := shown.shared
  mtrackers := shown.mtrackers
  len := shown.len
  fits := shown.fits
  aligned := shown.aligned
  nonzero := shown.nonzero
  apart := shown.apart
  frameAligned := shown.frameAligned
  distinct := shown.distinct
  mapped := by
    intro page frame present mapping found
    have floor := shown.pageFloor_eq index
    simp only [UserSpace.remapped, mapPage, pageFloor_of_aligned (pageFloor_mod _), update_apply] at found
    split at found
    · have pages : page = index / pageSize := Nat.eq_of_mul_eq_mul_right pageSize_pos (by omega)
      rw [pages, shown.page_present bound] at present
      rw [← Option.some.inj found, ← Option.some.inj present]
    · exact shown.mapped page frame present mapping found

theorem access (around : Surroundings) (taskId : Nat) :
    ∃ after, space.access around taskId (area.start + index) true = some (some (place frames index), after) ∧
      after.process.pcb = space.process.pcb ∧ after.machine = space.machine ∧
      SharedWindow after rest area frames := by
  have offset := shown.offset_eq index
  unfold UserSpace.access
  cases reached : target space.process.pageTable (area.start + index) true with
  | some _ =>
    refine ⟨space, ?_, rfl, rfl, shown⟩
    unfold target PageTable.translate at reached
    rw [shown.pageFloor_eq] at reached
    split at reached
    · cases reached
    · next mapping found =>
      have frame := shown.mapped _ _ (shown.page_present bound) mapping found
      split at reached
      · cases reached
      · rw [← Option.some.inj reached, frame, offset]
        rfl
  | none =>
    refine ⟨space.remapped (pageFloor (area.start + index)) (frames.getD (index / pageSize) 0)
      (ownedFlags area (area.start + index)), ?_, rfl, rfl, shown.remap bound _⟩
    have served : target (space.remapped (pageFloor (area.start + index))
        (frames.getD (index / pageSize) 0) (ownedFlags area (area.start + index))).process.pageTable
        (area.start + index) true = some (place frames index) := by
      simp [target, UserSpace.remapped, PageTable.translate, mapPage,
        pageFloor_of_aligned (pageFloor_mod _), ownedFlags_writable, offset, place]
    simp only [shown.serves bound around taskId, bind_eq_bind, bind_some, served]

omit bound in
theorem place_injective {left right : Nat} (leftBound : left < area.len) (rightBound : right < area.len)
    (same : place frames left = place frames right) : left = right :=
  place_inj shown.frameAligned shown.distinct (shown.len ▸ leftBound) (shown.len ▸ rightBound) same

theorem storeByte (around : Surroundings) (taskId : Nat) (byte : UInt8) :
    ∃ after, space.storeByte around taskId (area.start + index) byte = some after ∧
      after.process.pcb = space.process.pcb ∧ SharedWindow after rest area frames ∧
      ∀ other < area.len, shownBytes after frames other = update (shownBytes space frames) index byte other := by
  obtain ⟨accessed, access, pcb, machine, kept⟩ := shown.access bound around taskId
  refine ⟨accessed.fill (place frames index) [byte], ?_, pcb, ?_, fun other otherBound => ?_⟩
  · simp only [UserSpace.storeByte, access, bind_eq_bind, bind_some]
  · exact ⟨kept.memset, kept.shared, kept.mtrackers, kept.len, kept.fits, kept.aligned, kept.nonzero,
      kept.apart, kept.frameAligned, kept.distinct, kept.mapped⟩
  · simp only [shownBytes, UserSpace.fill, machine, update_apply]
    by_cases same : other = index
    · rw [same, if_pos rfl]
      exact @overlay_inside _ _ (place frames index) 0 [byte] (by simp)
    · rw [if_neg same]
      have elsewhere : place frames other ≠ place frames index :=
        fun clash => same (shown.place_injective otherBound bound clash)
      rcases lt_or_gt_of_ne elsewhere with before | after
      · exact overlay_before before
      · exact overlay_after after

end SharedWindow

/-- Stores at indices into a range, in order. -/
def UserSpace.storeAll (around : Surroundings) (taskId vaddr : Nat) (space : UserSpace)
    (stores : List (Nat × UInt8)) : Option UserSpace :=
  stores.foldlM (fun space (index, byte) => space.storeByte around taskId (vaddr + index) byte) space

def stored (cells : Nat → UInt8) (stores : List (Nat × UInt8)) : Nat → UInt8 :=
  stores.foldl (fun cells (index, byte) => update cells index byte) cells

theorem stored_congr {left right : Nat → UInt8} {count : Nat}
    (same : ∀ index < count, left index = right index) (stores : List (Nat × UInt8)) :
    ∀ index < count, stored left stores index = stored right stores index := by
  induction stores generalizing left right with
  | nil => exact same
  | cons _ stores ih =>
    refine ih fun index bound => ?_
    simp only [update_apply, same index bound]

theorem stored_elsewhere {cells : Nat → UInt8} {stores : List (Nat × UInt8)} {index : Nat}
    (elsewhere : ∀ store ∈ stores, store.1 ≠ index) : stored cells stores index = cells index := by
  induction stores generalizing cells with
  | nil => rfl
  | cons _ stores ih =>
    obtain ⟨here, later⟩ := forall_mem_cons.mp elsewhere
    exact (ih later).trans (update_of_ne here.symm ..)

theorem overlay_singleton (cells : Nat → UInt8) (start : Nat) (byte : UInt8) :
    overlay cells start [byte] = update cells start byte := by
  funext index
  rcases lt_trichotomy index start with before | rfl | after
  · rw [update_of_ne (by omega), overlay_before before]
  · rw [update_self]
    exact @overlay_inside _ cells index 0 [byte] (by simp)
  · rw [update_of_ne (by omega), overlay_after after]

theorem stored_zipIdx (cells : Nat → UInt8) (bytes : List UInt8) (start : Nat) :
    stored cells ((bytes.zipIdx start).map Prod.swap) = overlay cells start bytes := by
  induction bytes generalizing cells start with
  | nil => simp [stored]
  | cons byte bytes ih =>
    have rest := overlay_overlay cells start [byte] bytes
    rw [overlay_singleton, ← ih] at rest
    exact rest

theorem SharedWindow.storeAll
    (shown : SharedWindow space rest area frames) (around : Surroundings) (taskId : Nat) {stores : List (Nat × UInt8)}
    (inside : ∀ store ∈ stores, store.1 < area.len) :
    ∃ after, space.storeAll around taskId area.start stores = some after ∧
      after.process.pcb = space.process.pcb ∧ SharedWindow after rest area frames ∧
      ∀ index < area.len, shownBytes after frames index = stored (shownBytes space frames) stores index := by
  induction stores generalizing space with
  | nil => exact ⟨space, rfl, rfl, shown, fun _ _ => rfl⟩
  | cons store stores ih =>
    obtain ⟨_, first, pcb, kept, bytes⟩ :=
      shown.storeByte (inside store (by simp)) around taskId store.2
    obtain ⟨after, later, laterPcb, laterKept, laterBytes⟩ :=
      ih kept fun store member => inside store (by simp [member])
    refine ⟨after, ?_, laterPcb.trans pcb, laterKept, fun index bound => ?_⟩
    · simp only [UserSpace.storeAll, foldlM_cons, first, bind_eq_bind, bind_some]
      exact later
    · rw [laterBytes index bound]
      exact stored_congr bytes stores index bound

theorem UserSpace.storeBytes_eq (space : UserSpace) {around : Surroundings} {taskId vaddr : Nat}
    (fits : vaddr + bytes.length < usizeBound) :
    space.storeBytes around taskId vaddr bytes = space.storeAll around taskId vaddr (bytes.zipIdx.map Prod.swap) := by
  have bounded : ∀ pair ∈ bytes.zipIdx, vaddr + pair.2 < usizeBound := fun pair member => by
    have bound := snd_lt_of_mem_zipIdx member
    omega
  unfold storeBytes storeAll
  generalize bytes.zipIdx = pairs at bounded
  induction pairs generalizing space with
  | nil => rfl
  | cons pair pairs ih =>
    simp only [map_cons, foldlM_cons, Prod.fst_swap, Prod.snd_swap, wrapAdd_eq (bounded pair (by simp))]
    exact bind_congr fun middle => ih middle fun later member => bounded later (by simp [member])

theorem SharedWindow.stores (shown : SharedWindow space rest area frames) (around : Surroundings) (taskId : Nat)
    (short : bytes.length ≤ area.len) :
    ∃ after, space.storeBytes around taskId area.start bytes = some after ∧
      after.process.pcb = space.process.pcb ∧ SharedWindow after rest area frames ∧
      ∀ index < area.len, shownBytes after frames index = overlay (shownBytes space frames) 0 bytes index := by
  have fits := shown.fits
  have inside : ∀ store ∈ bytes.zipIdx.map Prod.swap, store.1 < area.len := by
    intro store member
    obtain ⟨_, listed, rfl⟩ := mem_map.mp member
    have bound := snd_lt_of_mem_zipIdx listed
    exact lt_of_lt_of_le bound short
  obtain ⟨stored, _, pcb, kept, cells⟩ := shown.storeAll around taskId inside
  rw [stored_zipIdx] at cells
  exact ⟨stored, by rwa [space.storeBytes_eq (by omega)], pcb, kept, cells⟩

theorem SharedWindow.storeBytes {space after : UserSpace} {rest : MemSet} {area : MemArea}
    {frames : List Nat} {around : Surroundings} {taskId : Nat} {bytes : List UInt8}
    (shown : SharedWindow space rest area frames) (short : bytes.length ≤ area.len)
    (done : space.storeBytes around taskId area.start bytes = some after) :
    after.process.pcb = space.process.pcb ∧ SharedWindow after rest area frames ∧
      ∀ index < area.len, shownBytes after frames index = overlay (shownBytes space frames) 0 bytes index := by
  obtain ⟨_, storing, result⟩ := shown.stores around taskId short
  cases storing.symm.trans done
  exact result

end User

end MonkeyOS
