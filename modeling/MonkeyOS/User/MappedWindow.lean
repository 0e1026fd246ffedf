import MonkeyOS.Tasks.Allocation
import MonkeyOS.User.SharedWindow

/-!
# Mapped pages as a byte vector

A range of pages that are mapped writable, each to a frame of its own. Accesses
there take no fault and change nothing but the bytes of these frames.
-/

set_option autoImplicit false

namespace MonkeyOS.User

open Lib Tasks Function List Option UserSpace PageTable Nat

structure MappedWindow (table : PageTable) (start : Nat) (frames : List Nat) : Prop where
  aligned : start % pageSize = 0
  fits : start + frames.length * pageSize < usizeBound
  frameAligned : ∀ frame ∈ frames, frame % pageSize = 0
  distinct : frames.Nodup
  mapped : ∀ page frame, frames[page]? = some frame →
    table (start + page * pageSize) = some { paddr := frame, flags := .urwx }

namespace UserSpace

def byteAt (space : UserSpace) (vaddr : Nat) : Option UInt8 :=
  (target space.process.pageTable vaddr false).map space.machine.mem

def withMem (space : UserSpace) (mem : PhysMem) : UserSpace :=
  { space with machine := { space.machine with mem } }

theorem byteAt_eq (space : UserSpace) (vaddr : Nat) :
    space.byteAt vaddr = (space.process.pageTable (pageFloor vaddr)).map fun mapping =>
      pageAt space.machine.mem mapping.paddr (vaddr % pageSize) := by
  have offset := mod_lt vaddr pageSize_pos
  cases mapped : space.process.pageTable (pageFloor vaddr) with
  | none => simp [byteAt, target, PageTable.translate, mapped]
  | some _ => simp [byteAt, target, PageTable.translate, mapped, pageAt, offset]

variable {around : Surroundings} {taskId start : Nat}

theorem storeAll_shift {space : UserSpace} {bytes : List UInt8} (offset first : Nat) :
    space.storeAll around taskId (start + offset) ((bytes.zipIdx first).map Prod.swap) =
      space.storeAll around taskId start ((bytes.zipIdx (offset + first)).map Prod.swap) := by
  induction bytes generalizing space first with
  | nil => simp only [storeAll, zipIdx_nil, map_nil, foldlM_nil]
  | cons _ bytes ih =>
    have rest (middle : UserSpace) := @ih middle (first + 1)
    simp only [storeAll, ← add_assoc] at rest
    simp only [storeAll, zipIdx_cons, map_cons, foldlM_cons, Prod.fst_swap, Prod.snd_swap, rest]
    rw [add_assoc start]

end UserSpace

theorem stored_map {cells : Nat → UInt8} {stores : List (Nat × UInt8)} {place : Nat → Nat} {count : Nat}
    (inside : ∀ store ∈ stores, store.1 < count)
    (injective : ∀ left < count, ∀ right < count, place left = place right → left = right) :
    ∀ index < count, stored cells (stores.map fun store => (place store.1, store.2)) (place index) =
      stored (fun index => cells (place index)) stores index := by
  induction stores generalizing cells with
  | nil => exact fun _ _ => rfl
  | cons store stores ih =>
    obtain ⟨here, later⟩ := forall_mem_cons.mp inside
    intro index bound
    refine (ih later index bound).trans (stored_congr (fun other otherBound => ?_) stores index bound)
    by_cases same : other = store.1
    · simp only [same, update_self]
    · have apart : place other ≠ place store.1 := fun clash => same (injective _ otherBound _ here clash)
      simp only [update_of_ne same, update_of_ne apart]

theorem place_ne {frames : List Nat} {frame offset index : Nat} (framesAligned : ∀ frame ∈ frames, frame % pageSize = 0)
    (aligned : frame % pageSize = 0) (outside : frame ∉ frames) (bound : offset < pageSize)
    (inside : index < frames.length * pageSize) : frame + offset ≠ place frames index := by
  have page : index / pageSize < frames.length := (div_lt_iff_lt_mul pageSize_pos).mpr inside
  have member := getElem_mem page
  have otherAligned := framesAligned _ member
  rw [place, getD_eq_getElem?_getD, getElem?_eq_getElem page, getD_some]
  intro _
  refine outside (Eq.mpr (congrArg (· ∈ frames) ?_) member)
  unfold pageSize at *
  omega

namespace MappedWindow

variable {table : PageTable} {start index : Nat} {frames : List Nat} {space : UserSpace} {around : Surroundings}
  {taskId offset : Nat}

theorem target_eq (shown : MappedWindow table start frames) (bound : index < frames.length * pageSize)
    (write : Bool) : target table (start + index) write = some (place frames index) := by
  have aligned := shown.aligned
  have floor : pageFloor (start + index) = start + index / pageSize * pageSize := by
    unfold pageFloor pageSize at *
    omega
  have rest : (start + index) % pageSize = index % pageSize := by
    unfold pageSize at *
    omega
  have present : frames[index / pageSize]? = some (frames.getD (index / pageSize) 0) := by
    simp [(div_lt_iff_lt_mul pageSize_pos).mpr bound]
  have writable : MappingFlags.urwx.w = true := rfl
  simp only [target, PageTable.translate, floor, shown.mapped _ _ present, writable, Bool.not_true, Bool.and_false,
    rest, place, Bool.false_eq_true, if_false]

variable {machine machine' : Machine}

theorem of_receives {process after : Process} (wellFormed : machine.frames.WellFormed)
    (aligned : start % pageSize = 0) (fits : start + frames.length * pageSize < usizeBound)
    (supplied : machine.Supplies frames machine') (received : process.Receives start frames .urwx after) :
    MappedWindow after.pageTable start frames where
  aligned := aligned
  fits := fits
  frameAligned frame member := (supplied.grants.free frame member).registered.aligned wellFormed
  distinct := supplied.grants.distinct
  mapped := received.pages.pages

theorem of_frameAlloc {process after : Process} {mtype : MemType} {count ppn : Nat} (clean : machine.Clean)
    (aligned : start % pageSize = 0) (nonzero : start ≠ 0) (fits : start + count * pageSize < usizeBound)
    (flags : Process.allocFlags mtype = .urwx)
    (done : process.frameAlloc machine start mtype count = some (some ppn, after, machine')) :
    ∃ frames, frames.length = count ∧ frames.head? = some ppn ∧ machine.Supplies frames machine' ∧
      process.Receives start frames .urwx after ∧ MappedWindow after.pageTable start frames ∧
      ∀ index < count * pageSize, machine'.mem (place frames index) = 0 := by
  obtain ⟨frames, length, head, supplied, received⟩ :=
    Process.frameAlloc_receives clean.wellFormed aligned nonzero fits done
  rw [flags] at received
  have grants := supplied.grants
  refine ⟨frames, length, head, supplied, received,
    .of_receives clean.wellFormed aligned (by rwa [length]) supplied received, fun index bound => ?_⟩
  have page : index / pageSize < frames.length := by
    rw [length]
    exact (div_lt_iff_lt_mul pageSize_pos).mpr bound
  have blank := congrFun (clean.blank _ (grants.free _ (getElem_mem page))) (index % pageSize)
  rw [pageAt, if_pos (mod_lt _ pageSize_pos)] at blank
  rw [supplied.mem, place, getD_eq_getElem?_getD, getElem?_eq_getElem page, getD_some]
  exact blank

variable (shown : MappedWindow space.process.pageTable start frames)
include shown

theorem byteAt (bound : index < frames.length * pageSize) :
    space.byteAt (start + index) = some (shownBytes space frames index) := by
  rw [UserSpace.byteAt, shown.target_eq bound, map_some, shownBytes]

theorem storeAll {stores : List (Nat × UInt8)} (inside : ∀ store ∈ stores, store.1 < frames.length * pageSize) :
    space.storeAll around taskId start stores =
      some (space.withMem (stored space.machine.mem (stores.map fun store => (place frames store.1, store.2)))) := by
  induction stores generalizing space with
  | nil => rfl
  | cons store stores ih =>
    obtain ⟨here, later⟩ := forall_mem_cons.mp inside
    have first : space.storeByte around taskId (start + store.1) store.2 =
        some (space.withMem (update space.machine.mem (place frames store.1) store.2)) := by
      simp only [storeByte, access, shown.target_eq here, bind_eq_bind, bind_some, fill, overlay_singleton]
      rfl
    have kept : MappedWindow (space.withMem (update space.machine.mem (place frames store.1)
      store.2)).process.pageTable start frames := shown
    simp only [storeAll, foldlM_cons, first, bind_eq_bind, bind_some]
    exact ih kept later

theorem storeBytes {bytes : List UInt8} (inside : offset + bytes.length ≤ frames.length * pageSize) :
    ∃ mem, space.storeBytes around taskId (start + offset) bytes = some (space.withMem mem) ∧
      (∀ index < frames.length * pageSize,
        mem (place frames index) = overlay (shownBytes space frames) offset bytes index) ∧
      ∀ frame, frame % pageSize = 0 → frame ∉ frames → pageAt mem frame = pageAt space.machine.mem frame := by
  have fits := shown.fits
  have indices : ∀ store ∈ (bytes.zipIdx (offset + 0)).map Prod.swap, store.1 < frames.length * pageSize := by
    intro store member
    obtain ⟨pair, listed, rfl⟩ := mem_map.mp member
    have bound := snd_lt_add_of_mem_zipIdx listed
    simp only [Prod.fst_swap]
    omega
  refine ⟨stored space.machine.mem (((bytes.zipIdx (offset + 0)).map Prod.swap).map fun store =>
    (place frames store.1, store.2)), ?_, fun index bound => ?_, fun _ aligned outside => ?_⟩
  · rw [space.storeBytes_eq (by omega), storeAll_shift offset 0, shown.storeAll indices]
  · rw [stored_map indices (fun _ leftBound _ rightBound =>
      place_inj shown.frameAligned shown.distinct leftBound rightBound) index bound, stored_zipIdx]
    rfl
  · funext byte
    simp only [pageAt]
    split
    · next bound =>
      refine stored_elsewhere fun store member => ?_
      obtain ⟨pair, listed, rfl⟩ := mem_map.mp member
      exact (place_ne shown.frameAligned aligned outside bound (indices pair listed)).symm
    · rfl

theorem loadBytes {count : Nat} (inside : offset + count ≤ frames.length * pageSize) :
    space.loadBytes around taskId (start + offset) count =
      some (window (shownBytes space frames) offset count, space) := by
  have fits := shown.fits
  induction count generalizing offset with
  | zero => rfl
  | succ count ih =>
    have first : space.loadByte around taskId (start + offset) = some (shownBytes space frames offset, space) := by
      simp only [loadByte, access, shown.target_eq (show offset < _ by omega), bind_eq_bind, bind_some, shownBytes]
    have rest := @ih (offset + 1) (by omega)
    rw [loadBytes, first]
    simp only [bind_eq_bind, bind_some, wrapAdd_eq (show start + offset + 1 < usizeBound by omega), add_assoc, rest]
    rw [add_comm count 1, ← window_append (shownBytes space frames) offset 1 count]
    rfl

end MappedWindow

end MonkeyOS.User
