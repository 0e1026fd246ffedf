import MonkeyOS.User.CopyOnWrite

/-! Loads and stores of a family of processes, against the same processes with
memory by value. -/

set_option autoImplicit false

namespace MonkeyOS.User

open Lib Tasks Function List Option MemArea Kernel

namespace Kernel

variable {kernel : Kernel} {index : Nat} {process : Process} {after : UserSpace} {track : MapTrack} {area : MemArea}

theorem live_eq_some_iff : kernel.live index = some process ↔
    kernel.processes[index]? = some process ∧ process.pcb.exitCode = none := by
  simp [live, filter_eq_some_iff]

variable (live : kernel.live index = some process)
include live

theorem live_put (other : Nat) :
    (kernel.put index after).live other =
      if other = index then (if after.process.pcb.exitCode = none then some after.process else none)
      else kernel.live other := by
  obtain ⟨bound, _⟩ := List.getElem?_eq_some_iff.mp (live_eq_some_iff.mp live).1
  simp only [Kernel.live, put]
  by_cases here : other = index
  · subst here
    rw [getElem?_set_self bound, if_pos rfl]
    by_cases ended : after.process.pcb.exitCode = none <;> simp [Option.filter, ended]
  · rw [getElem?_set_ne (Ne.symm here), if_neg here]

theorem points_put (alive : after.process.pcb.exitCode = none) (place : Nat × Nat) :
    (kernel.put index after).heap.points place =
      if place.1 = index then pointer after.process.pcb place.2 else kernel.heap.points place := by
  simp only [heap, live_put live, alive, if_true]
  split <;> rfl

theorem points_live (page : Nat) : kernel.heap.points (index, page) = pointer process.pcb page := by
  simp [heap, live]

omit live

/-! ## Counting holders -/

private theorem sum_map_pos {α : Type} {items : List α} {count : α → Nat} {item : α} (member : item ∈ items)
    (positive : 0 < count item) : 0 < (items.map count).sum := by
  induction member with
  | head _ =>
    rw [map_cons, sum_cons]
    omega
  | tail _ _ _ =>
    rw [map_cons, sum_cons]
    omega

private theorem two_le_countP {α : Type} {items : List α} {test : α → Bool} {left right : α}
    (leftMember : left ∈ items) (rightMember : right ∈ items) (different : left ≠ right)
    (leftTest : test left = true) (rightTest : test right = true) : 2 ≤ items.countP test := by
  rw [countP_eq_length_filter]
  have leftIn : left ∈ items.filter test := mem_filter.mpr ⟨leftMember, leftTest⟩
  have rightIn : right ∈ items.filter test := mem_filter.mpr ⟨rightMember, rightTest⟩
  generalize items.filter test = found at leftIn rightIn
  match found with
  | [] => cases leftIn
  | [only] => exact absurd ((mem_singleton.mp leftIn).trans (mem_singleton.mp rightIn).symm) different
  | _ :: _ :: _ => simp

theorem heldElsewhere_segment {other : Nat} {owner : Process} (live : kernel.live other = some owner)
    {shm : MapedSharedMemory} (member : shm ∈ owner.pcb.shms) {track : MapTrack} (tracked : track ∈ shm.tracks) :
    0 < kernel.heldElsewhere index track.tracker := by
  have listed : owner ∈ kernel.processes := mem_of_getElem? (live_eq_some_iff.mp live).1
  have held : track.tracker ∈ owner.pcb.shms.flatMap MapedSharedMemory.mem := by
    obtain ⟨⟨_, _⟩, zipped, rfl⟩ := mem_map.mp tracked
    exact mem_flatMap.mpr ⟨shm, member, fst_mem_of_mem_zipIdx zipped⟩
  have positive := @sum_map_pos _ _ (fun process : Process =>
    (process.pcb.shms.flatMap MapedSharedMemory.mem).count track.tracker) _ listed (count_pos_iff.mpr held)
  unfold heldElsewhere
  omega

theorem heldElsewhere_track {other : Nat} {owner : Process} (live : kernel.live other = some owner)
    (different : other ≠ index) (member : area ∈ owner.pcb.memset)
    (tracked : track ∈ area.mtrackers) : 0 < kernel.heldElsewhere index track.tracker := by
  have listed : owner ∈ kernel.processes.eraseIdx index :=
    mem_eraseIdx_iff_getElem?.mpr ⟨other, different, (live_eq_some_iff.mp live).1⟩
  have counted : 0 < (owner.pcb.memset.flatMap mtrackers).countP fun other =>
      other.tracker = track.tracker :=
    countP_pos_iff.mpr ⟨track, mem_flatMap.mpr ⟨area, member, tracked⟩, by simp⟩
  have positive := @sum_map_pos _ _ (fun process : Process =>
    (process.pcb.memset.flatMap mtrackers).countP fun other => other.tracker = track.tracker) _ listed counted
  unfold heldElsewhere
  omega

theorem heldElsewhere_pos {other page : Nat} {pointed : Pointer Nat} (different : other ≠ index)
    (points : kernel.heap.points (other, page) = some pointed) :
    0 < kernel.heldElsewhere index pointed.frame := by
  obtain ⟨_, live, points⟩ := bind_eq_some_iff.mp points
  rcases pointer_cases points with ⟨_, member, track, tracked, _, rfl⟩ | ⟨_, member, track, tracked, _, rfl⟩
  · exact heldElsewhere_track live different member tracked
  · exact heldElsewhere_segment live member tracked

theorem sole_of_strongCount {event : Event} (live : kernel.live event.index = some process)
    (tidy : Tidy process.pcb) (member : area ∈ process.pcb.memset)
    (tracked : track ∈ area.mtrackers)
    (single : strongCount (kernel.around event) process track.tracker ≤ 1) :
    kernel.heap.Sole (event.index, track.vaddr) := by
  rintro _ ⟨other, _⟩ _ here points same
  rw [points_live live, tidy.pointer_track member tracked] at here
  cases here
  simp only at same
  have listed : track ∈ process.pcb.memset.flatMap mtrackers := mem_flatMap.mpr ⟨area, member, tracked⟩
  have counted : 0 < (process.pcb.memset.flatMap mtrackers).countP fun other =>
      other.tracker = track.tracker := countP_pos_iff.mpr ⟨track, listed, by simp⟩
  unfold strongCount around at single
  simp only at single
  by_cases elsewhere : other = event.index
  · subst elsewhere
    rw [points_live live] at points
    rcases pointer_cases points with
      ⟨area', member', track', tracked', rfl, rfl⟩ | ⟨_, member', track', tracked', _, rfl⟩
    · by_contra different
      have twice := @two_le_countP _ _ (fun other : MapTrack => other.tracker = track.tracker) _ _ listed
        (mem_flatMap.mpr ⟨area', member', tracked'⟩) (fun equal => different (by rw [equal])) (by simp)
        (by simpa using same)
      omega
    · have held := @heldElsewhere_segment kernel event.index _ _ live _ member' _ tracked'
      simp only at same
      rw [same] at held
      omega
  · have held := heldElsewhere_pos elsewhere points
    rw [same] at held
    omega

end Kernel

/-! ## Replacing a process -/

/-- What a change of one process has to show. Its pages point where they did or
to fresh frames, all of one kind. -/
structure Evolves (kernel : Kernel) (index : Nat) (process : Process) (kind : Bool) (after : UserSpace) :
    Prop where
  alive : after.process.pcb.exitCode = none
  tidy : Tidy after.process.pcb
  fresh : ∀ page target, pointer after.process.pcb page = some target →
    pointer process.pcb page = some target ∨ target.shared = kind ∧ kernel.heap.Unused target.frame
  mapped : ∀ page mapping, after.process.pageTable page = some mapping →
    ∃ target, pointer after.process.pcb page = some target ∧ target.frame = mapping.paddr
  attached : ∀ shm ∈ after.process.pcb.shms, ∀ track ∈ shm.tracks,
    ∃ mapping, after.process.pageTable track.vaddr = some mapping ∧ mapping.flags.w = true
  exclusive : ∀ page mapping, after.process.pageTable page = some mapping → mapping.flags.w = true →
    pointer after.process.pcb page = some { frame := mapping.paddr, shared := false } →
    kernel.heap.Sole (index, page) ∧ pointer process.pcb page = pointer after.process.pcb page ∨
      kernel.heap.Unused mapping.paddr ∧ ∀ other target, pointer after.process.pcb other = some target →
        target.frame = mapping.paddr → other = page
  bounds : after.machine.frames.bounds = kernel.machine.frames.bounds
  free : ∀ frame, after.machine.frames.Free frame → kernel.machine.frames.Free frame
  held : ∀ page target, pointer after.process.pcb page = some target → kernel.heap.Unused target.frame →
    after.machine.frames.Registered target.frame ∧ ¬ after.machine.frames.Free target.frame
  clean : after.machine.Clean

section Evolving

variable {kernel : Kernel} {index page : Nat} {process : Process} {kind : Bool} {after : UserSpace}

section Replaced

variable (evolves : Evolves kernel index process kind after) (live : kernel.live index = some process)
include evolves live

variable {place : Nat × Nat}

private theorem Evolves.points {target : Pointer Nat}
    (points : (kernel.put index after).heap.points place = some target) :
    kernel.heap.points place = some target ∨
      place.1 = index ∧ pointer after.process.pcb place.2 = some target ∧ target.shared = kind ∧
        kernel.heap.Unused target.frame := by
  rw [points_put live evolves.alive] at points
  split at points
  · next here =>
    rcases evolves.fresh place.2 target points with old | ⟨shared, unused⟩
    · refine .inl ?_
      subst here
      rw [points_live live]
      exact old
    · exact .inr ⟨here, points, shared, unused⟩
  · exact .inl points

private theorem Evolves.sole (sole : kernel.heap.Sole place)
    (same : (kernel.put index after).heap.points place = kernel.heap.points place) :
    (kernel.put index after).heap.Sole place := by
  intro target other otherTarget points otherPoints frames
  rw [same] at points
  rcases evolves.points live otherPoints with old | ⟨_, _, _, unused⟩
  · exact sole target other otherTarget points old frames
  · exact absurd frames.symm (unused place target points)

theorem Sound.put (sound : Sound kernel) : Sound (kernel.put index after) := by
  have cases_live : ∀ {other owner}, (kernel.put index after).live other = some owner →
      other = index ∧ owner = after.process ∨ other ≠ index ∧ kernel.live other = some owner := by
    intro other owner present
    rw [live_put live, evolves.alive, if_pos rfl] at present
    split at present
    · next here => exact .inl ⟨here, (Option.some.inj present).symm⟩
    · next elsewhere => exact .inr ⟨elsewhere, present⟩
  refine ⟨fun other owner present => ?_, fun other owner present => ?_, fun other owner present => ?_,
    fun other owner present page mapping found writable points => ?_,
    fun left right leftTarget rightTarget leftPoints rightPoints same => ?_,
    fun place target points => ?_, evolves.clean⟩
  · rcases cases_live present with ⟨_, rfl⟩ | ⟨_, present⟩
    · exact evolves.tidy
    · exact sound.tidy other owner present
  · rcases cases_live present with ⟨_, rfl⟩ | ⟨_, present⟩
    · exact evolves.mapped
    · exact sound.mapped other owner present
  · rcases cases_live present with ⟨_, rfl⟩ | ⟨_, present⟩
    · exact evolves.attached
    · exact sound.attached other owner present
  · rcases cases_live present with ⟨rfl, rfl⟩ | ⟨elsewhere, present⟩
    · rcases evolves.exclusive page mapping found writable points with ⟨sole, same⟩ | ⟨unused, unique⟩
      · refine evolves.sole live sole ?_
        rw [points_put live evolves.alive, points_live live, if_pos rfl]
        exact same.symm
      · intro target place otherTarget here otherPoints frames
        rw [points_put live evolves.alive, if_pos rfl, points] at here
        cases here
        rcases evolves.points live otherPoints with old | ⟨there, pointed, _⟩
        · exact absurd frames (unused place otherTarget old)
        · exact Prod.ext there (unique place.2 otherTarget pointed frames)
    · refine evolves.sole live (sound.exclusive other owner present page mapping found writable points) ?_
      rw [points_put live evolves.alive, if_neg elsewhere]
  · rcases evolves.points live leftPoints with left' | ⟨_, _, leftKind, leftUnused⟩ <;>
      rcases evolves.points live rightPoints with right' | ⟨_, _, rightKind, rightUnused⟩
    · exact sound.sorted left right leftTarget rightTarget left' right' same
    · exact absurd same (rightUnused left leftTarget left')
    · exact absurd same.symm (leftUnused right rightTarget right')
    · rw [leftKind, rightKind]
  · rcases evolves.points live points with old | ⟨_, here, _, unused⟩
    · obtain ⟨registered, used⟩ := sound.held place target old
      exact ⟨registered.of_bounds evolves.bounds, fun free => used (evolves.free _ free)⟩
    · exact evolves.held place.2 target here unused

end Replaced

theorem Kernel.not_unused (live : kernel.live index = some process) {target : Pointer Nat}
    (pointed : pointer process.pcb page = some target) : ¬ kernel.heap.Unused target.frame :=
  fun unused => unused (index, page) target ((points_live live page).trans pointed) rfl

variable (sound : Sound kernel) (live : kernel.live index = some process)
  (alive : after.process.pcb.exitCode = none) (tidy : Tidy after.process.pcb)
  (shms : after.process.pcb.shms = process.pcb.shms)
  (bounds : after.machine.frames.bounds = kernel.machine.frames.bounds)
  (free : ∀ frame, after.machine.frames.Free frame → kernel.machine.frames.Free frame)
  (clean : after.machine.Clean)
include sound live alive tidy shms bounds free clean

/-- Page by page: a page is as before, or mapped writable to its old frame or to a
fresh one, which no other page has. -/
theorem Evolves.of_pages
    (pages : ∀ page,
      (∃ frame flags, pointer after.process.pcb page = some { frame, shared := kind } ∧
        after.process.pageTable page = some { paddr := frame, flags } ∧ flags.w = true ∧
        (pointer process.pcb page = some { frame, shared := kind } ∧ (kind = false → kernel.heap.Sole (index, page)) ∨
          kernel.heap.Unused frame ∧
            (after.machine.frames.Registered frame ∧ ¬ after.machine.frames.Free frame) ∧
            ∀ other target, pointer after.process.pcb other = some target → target.frame = frame → other = page)) ∨
      pointer after.process.pcb page = pointer process.pcb page ∧
        after.process.pageTable page = process.pageTable page) :
    Evolves kernel index process kind after := by
  refine ⟨alive, tidy, fun page target pointed => ?_, fun page mapping found => ?_,
    fun shm member track tracked => ?_, fun page mapping found writable pointed => ?_, bounds, free,
    fun page target pointed unused => ?_, clean⟩
  · rcases pages page with ⟨frame, flags, here, _, _, taken⟩ | ⟨same, _⟩
    · cases here.symm.trans pointed
      exact taken.imp And.left fun fresh => ⟨rfl, fresh.1⟩
    · exact .inl (same ▸ pointed)
  · rcases pages page with ⟨frame, flags, here, entry, _⟩ | ⟨same, entry⟩
    · cases entry.symm.trans found
      exact ⟨_, here, rfl⟩
    · rw [same]
      exact sound.mapped index process live page mapping (entry ▸ found)
  · rcases pages track.vaddr with ⟨frame, flags, _, entry, writable, _⟩ | ⟨_, entry⟩
    · exact ⟨_, entry, writable⟩
    · rw [entry]
      exact sound.attached index process live shm (shms ▸ member) track tracked
  · rcases pages page with ⟨frame, flags, here, entry, _, taken⟩ | ⟨same, entry⟩
    · cases here.symm.trans pointed
      exact taken.imp (fun old => ⟨old.2 rfl, old.1.trans here.symm⟩) fun fresh => ⟨fresh.1, fresh.2.2⟩
    · rw [same] at pointed ⊢
      exact .inl ⟨sound.exclusive index process live page mapping (entry ▸ found) writable pointed, rfl⟩
  · rcases pages page with ⟨frame, flags, here, _, _, ⟨old, _⟩ | ⟨_, held, _⟩⟩ | ⟨same, _⟩
    · cases here.symm.trans pointed
      exact absurd unused (not_unused live old)
    · cases here.symm.trans pointed
      exact held
    · exact absurd unused (not_unused live (same ▸ pointed))

private theorem Evolves.repoint {frame : Nat} {flags : MappingFlags} (aligned : page % pageSize = 0)
    (writable : flags.w = true)
    (points : pointer after.process.pcb = update (pointer process.pcb) page (some { frame, shared := kind }))
    (table : after.process.pageTable = process.pageTable.mapPage page frame flags)
    (taken : pointer process.pcb page = some { frame, shared := kind } ∧
        (kind = false → kernel.heap.Sole (index, page)) ∨
      kernel.heap.Unused frame ∧ after.machine.frames.Registered frame ∧ ¬ after.machine.frames.Free frame) :
    Evolves kernel index process kind after := by
  rw [PageTable.mapPage, pageFloor_of_aligned aligned] at table
  refine .of_pages sound live alive tidy shms bounds free clean fun other => ?_
  rw [table]
  by_cases same : other = page
  · subst same
    refine .inl ⟨frame, flags, by rw [points, update_self], update_self .., writable,
      taken.imp_right fun fresh => ⟨fresh.1, fresh.2, fun _ _ pointed same => ?_⟩⟩
    by_contra different
    rw [points, update_of_ne different] at pointed
    exact not_unused live pointed (same ▸ fresh.1)
  · exact .inr ⟨by rw [points, update_of_ne same], update_of_ne same ..⟩

end Evolving

/-! ## Faults inside an area -/

section Faults

variable {kernel : Kernel} {system : System} {event : Event} {process : Process} {after : UserSpace} {vaddr : Nat}

variable {index frame : Nat} {target : Pointer Nat}

theorem Models.put {system' : System} (models : Models kernel system) (live : kernel.live index = some process)
    (alive : after.process.pcb.exitCode = none)
    (layouts : system'.layouts = system.layouts.set index after.process.pcb.memset.layout)
    (store : (kernel.put index after).heap.Represents system'.store) :
    Models (kernel.put index after) system' where
  count := by
    rw [layouts, length_set, models.count]
    exact (length_set ..).symm
  layouts := by
    intro other owner present
    obtain ⟨bound, _⟩ := List.getElem?_eq_some_iff.mp (models.layouts index process live)
    rw [live_put live, alive, if_pos rfl] at present
    rw [layouts]
    split at present
    · next here =>
      cases present
      rw [here, getElem?_set_self bound]
    · next elsewhere =>
      rw [getElem?_set_ne (Ne.symm elsewhere)]
      exact models.layouts other owner present
  store := store

theorem Models.layouts_kept (models : Models kernel system) (live : kernel.live index = some process)
    (layout : after.process.pcb.memset.layout = process.pcb.memset.layout) :
    system.layouts = system.layouts.set index after.process.pcb.memset.layout := by
  obtain ⟨_, here⟩ := List.getElem?_eq_some_iff.mp (models.layouts index process live)
  rw [layout, ← here, set_getElem_self]

theorem Kernel.heap_repoint {page : Nat} {target : Option (Pointer Nat)} (live : kernel.live index = some process)
    (alive : after.process.pcb.exitCode = none)
    (points : pointer after.process.pcb = update (pointer process.pcb) page target) :
    (kernel.put index after).heap =
      { points := update kernel.heap.points (index, page) target
        contents := pageAt after.machine.mem } := by
  have same : (kernel.put index after).heap.points = update kernel.heap.points (index, page) target := by
    funext place
    obtain ⟨other, _⟩ := place
    rw [points_put live alive, points, update_apply, update_apply]
    by_cases here : other = index
    · subst here
      simp only [points_live live, Prod.mk.injEq, true_and, if_true]
    · simp [here]
  rw [← same]
  rfl

theorem Sound.aligned (sound : Sound kernel) {place : Nat × Nat}
    (points : kernel.heap.points place = some target) : target.frame % pageSize = 0 :=
  (sound.held place target points).1.aligned sound.clean.wellFormed

theorem Sound.unused (sound : Sound kernel) (free : kernel.machine.frames.Free frame) :
    kernel.heap.Unused frame := fun place target points same =>
  (sound.held place target points).2 (same ▸ free)

/-- The family goes on as the system does after touching the page. -/
def Advances (kernel : Kernel) (system : System) (event : Event) (vaddr : Nat) (after : UserSpace) : Prop :=
  Sound (kernel.put event.index after) ∧
    ∃ system', system.touch event.files event.index vaddr = some system' ∧ Models (kernel.put event.index after) system'

theorem touch_pointed (models : Models kernel system) (live : kernel.live event.index = some process)
    (points : pointer process.pcb (pageFloor vaddr) = some target) :
    system.touch event.files event.index vaddr = some system := by
  unfold System.touch
  cases cell : system.store.cells (event.index, pageFloor vaddr) with
  | some _ => rfl
  | none =>
    rw [models.store.cells_none_iff, points_live live, points] at cell
    cases cell

private theorem Evolves.grant (sound : Sound kernel) (live : kernel.live event.index = some process) {area : MemArea}
    {granted : Machine} {bytes : List UInt8} {memset : MemSet}
    (allocated : kernel.machine.frameAlloc = some (frame, granted)) (short : bytes.length ≤ pageSize)
    (updated : Tidy { process.pcb with memset } ∧ pointer { process.pcb with memset } =
      update (pointer process.pcb) (pageFloor vaddr)
        (some { frame, shared := SharedType area.mtype })) (pcb : after.process.pcb = { process.pcb with memset })
    (table : after.process.pageTable = process.pageTable.mapPage (pageFloor vaddr) frame (ownedFlags area vaddr))
    (machine : after.machine = { granted with mem := overlay granted.mem frame bytes }) :
    Evolves kernel event.index process (SharedType area.mtype) after ∧
      kernel.heap.Agrees (pageAt after.machine.mem) ∧ kernel.heap.Unused frame ∧
      pageAt granted.mem frame = Page.zero ∧
      (kernel.put event.index after).heap =
        { points := update kernel.heap.points (event.index, pageFloor vaddr)
            (some { frame, shared := SharedType area.mtype })
          contents := pageAt after.machine.mem } := by
  obtain ⟨tidy, points⟩ := updated
  have supplied := Machine.frameAlloc_supplies sound.clean.wellFormed allocated
  have grants := supplied.grants
  have member : frame ∈ [frame] := by simp
  have free := grants.free frame member
  have unused := sound.unused free
  obtain ⟨clean, others⟩ := supplied.fill sound.clean member short
  have alive : after.process.pcb.exitCode = none := by rw [pcb]; exact (live_eq_some_iff.mp live).2
  rw [← pcb] at tidy points
  refine ⟨?_, fun place target points => ?_, unused, ?_, heap_repoint live alive points⟩
  · refine .repoint sound live alive tidy (by rw [pcb]) (by rw [machine]; exact grants.bounds) (fun other now => ?_)
      (machine ▸ clean) (pageFloor_mod vaddr) (ownedFlags_writable ..) points table (.inr ⟨unused, ?_, ?_⟩)
    · rw [machine] at now
      exact ((grants.rest other).mp now).1
    · rw [machine]
      exact free.registered.of_bounds grants.bounds
    · rw [machine]
      exact fun now => ((grants.rest frame).mp now).2 member
  · rw [machine]
    exact others target.frame (sound.aligned points) (unused place target points)
  · rw [supplied.mem]
    exact sound.clean.blank frame free

variable {area : MemArea} {granted : Machine} (sound : Sound kernel)
  (models : Models kernel system) (live : kernel.live event.index = some process)
  (owner : process.pcb.memset.areaAt vaddr = some area)
include sound models live owner

section Tracked

variable {track : MapTrack} (tracked : area.trackAt vaddr = some track)
include tracked

/-- The page is mapped to its own frame, which nobody else has if it is private. -/
theorem remapped_advances
    (exclusive : SharedType area.mtype ∨ strongCount (kernel.around event) process track.tracker ≤ 1)
    (pcb : after.process.pcb = process.pcb)
    (table : after.process.pageTable =
      process.pageTable.mapPage (pageFloor vaddr) track.tracker (ownedFlags area vaddr))
    (machine : after.machine = kernel.machine) : Advances kernel system event vaddr after := by
  have tidy := sound.tidy event.index process live
  have alive : after.process.pcb.exitCode = none := by rw [pcb]; exact (live_eq_some_iff.mp live).2
  have pointed := tidy.pointer_owner owner
  rw [tracked, map_some] at pointed
  have same : pointer after.process.pcb = update (pointer process.pcb) (pageFloor vaddr)
      (some { frame := track.tracker, shared := SharedType area.mtype }) := by
    rw [pcb, ← pointed, update_eq_self]
  have evolves : Evolves kernel event.index process (SharedType area.mtype) after := by
    refine .repoint sound live alive (pcb ▸ tidy) (by rw [pcb]) (by rw [machine]) (by rw [machine]; exact fun _ => id)
      (machine ▸ sound.clean) (pageFloor_mod vaddr) (ownedFlags_writable ..) same table
      (.inl ⟨pointed, fun isPrivate => ?_⟩)
    have page : track.vaddr = pageFloor vaddr := by simpa using find?_some tracked
    rw [← page]
    exact sole_of_strongCount live tidy (mem_of_find?_eq_some owner)
      (mem_of_find?_eq_some tracked) (exclusive.resolve_left (of_decide_eq_false isPrivate))
  refine ⟨sound.put evolves live, system, touch_pointed models live pointed,
    models.put live alive (models.layouts_kept live (by rw [pcb])) ?_⟩
  have heap : (kernel.put event.index after).heap = kernel.heap := by
    rw [heap_repoint live alive same, ← pointed, ← points_live live, update_eq_self, machine]
    rfl
  rw [heap]
  exact models.store

/-- A private page with other holders is copied first. -/
theorem copied_advances {dst : Nat} (isPrivate : ¬ SharedType area.mtype)
    (allocated : kernel.machine.frameAlloc = some (dst, granted))
    (pcb : after.process.pcb = { process.pcb with memset := retrack vaddr dst process.pcb.memset })
    (table : after.process.pageTable = process.pageTable.mapPage (pageFloor vaddr) dst (ownedFlags area vaddr))
    (machine : after.machine =
      { granted with mem := overlay granted.mem dst (window granted.mem track.tracker pageSize) }) :
    Advances kernel system event vaddr after := by
  have tidy := sound.tidy event.index process live
  have supplied := Machine.frameAlloc_supplies sound.clean.wellFormed allocated
  have pointed := tidy.pointer_owner owner
  rw [tracked, map_some] at pointed
  obtain ⟨evolves, agrees, _, _, heap⟩ := Evolves.grant sound live allocated (by simp)
    (tidy.retrack owner tracked) pcb table machine
  have layout : after.process.pcb.memset.layout = process.pcb.memset.layout := by rw [pcb]; simp
  refine ⟨sound.put evolves live, system, touch_pointed models live pointed,
    models.put live evolves.alive (models.layouts_kept live layout) ?_⟩
  rw [heap]
  have kind : decide (SharedType area.mtype) = false := decide_eq_false isPrivate
  rw [kind] at pointed ⊢
  refine models.store.move ((points_live live _).trans pointed) agrees ?_
  rw [machine]
  refine (pageAt_copy _).trans ?_
  rw [supplied.mem]
  rfl

end Tracked

/-- The first access to a page of an area. -/
theorem touched_advances (untracked : area.trackAt vaddr = none)
    (allocated : kernel.machine.frameAlloc = some (frame, granted))
    (pcb : after.process.pcb = { process.pcb with memset := track vaddr frame process.pcb.memset })
    (table : after.process.pageTable = process.pageTable.mapPage (pageFloor vaddr) frame (ownedFlags area vaddr))
    (machine : after.machine = { granted with mem := overlay granted.mem frame (firstBytes event.files area vaddr) }) :
    Advances kernel system event vaddr after := by
  have tidy := sound.tidy event.index process live
  have unpointed := tidy.pointer_owner owner
  rw [untracked, map_none] at unpointed
  have short := firstBytes_length event.files area vaddr
  obtain ⟨evolves, agrees, unused, blank, heap⟩ := Evolves.grant sound live allocated short
    (tidy.track owner untracked) pcb table machine
  have layout : after.process.pcb.memset.layout = process.pcb.memset.layout := by rw [pcb]; simp
  have value : pageAt after.machine.mem frame = frontPage (firstBytes event.files area vaddr) := by
    rw [machine]
    exact pageAt_fill blank
  let system' : System :=
    { system with
      store := system.store.create (event.index, pageFloor vaddr) (SharedType area.mtype)
        (frontPage (firstBytes event.files area vaddr)) }
  have touched : system.touch event.files event.index vaddr = some system' := by
    have cell := (models.store.cells_none_iff (event.index, pageFloor vaddr)).mpr ((points_live live _).trans unpointed)
    simp only [System.touch, cell, models.layouts event.index process live, bind_eq_bind, bind_some,
      find?_layout, owner, map_some]
    rfl
  refine ⟨sound.put evolves live, system', touched, models.put live evolves.alive (models.layouts_kept live layout) ?_⟩
  rw [heap]
  by_cases shared : SharedType area.mtype
  · simp only [system', shared, decide_true, ← value]
    exact models.store.create_shared _ unused agrees
  · simp only [system', shared, decide_false, ← value]
    exact models.store.create_own _ _ agrees

end Faults

end MonkeyOS.User
