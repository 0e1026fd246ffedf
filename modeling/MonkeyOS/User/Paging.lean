import MonkeyOS.Tasks.Paging
import MonkeyOS.User.Layout

/-!
# A process on page boundaries

Areas, attached segments and the registered memory of a process all start on page
boundaries. Faults, forks, cuts and the end of a task keep a process so, and while
it is so none of them tries to map an address inside a page.
-/

set_option autoImplicit false

namespace MonkeyOS.User

open Lib Tasks List Option Machine

/-! ## Trackers of an area -/

section Owner

variable {vaddr frame : Nat} {memset : MemSet}

theorem updateOwner_paged {update : MemArea → MemArea} (paged : memset.Paged)
    (kept : ∀ area : MemArea, area.Paged → area.contains vaddr → (update area).Paged) :
    MemSet.Paged (updateOwner vaddr update memset) := by
  induction memset with
  | nil => exact nofun
  | cons area _ ih =>
    obtain ⟨here, later⟩ := forall_mem_cons.mp paged
    unfold updateOwner
    split
    next inside => exact forall_mem_cons.mpr ⟨kept area here inside, later⟩
    · exact forall_mem_cons.mpr ⟨here, ih later⟩

theorem mem_replaceTrack {page : Nat} {tracks : List MapTrack} {track : MapTrack}
    (member : track ∈ replaceTrack page frame tracks) :
    ∃ old ∈ tracks, track.vaddr = old.vaddr ∧ (track.tracker = old.tracker ∨ track.tracker = frame) := by
  induction tracks with
  | nil => cases member
  | cons first _ ih =>
    unfold replaceTrack at member
    split at member
    · rcases mem_cons.mp member with rfl | listed
      · exact ⟨first, by simp, rfl, .inr rfl⟩
      · exact ⟨track, by simp [listed], rfl, .inl rfl⟩
    · rcases mem_cons.mp member with rfl | listed
      · exact ⟨track, by simp, rfl, .inl rfl⟩
      · obtain ⟨old, found, same⟩ := ih listed
        exact ⟨old, by simp [found], same⟩

theorem retrack_paged (paged : memset.Paged) (aligned : frame % pageSize = 0) :
    MemSet.Paged (retrack vaddr frame memset) := by
  refine updateOwner_paged paged fun _ owned _ => ?_
  refine ⟨⟨owned.startAligned, owned.lenAligned, owned.bounded, fun track member => ?_, fun track member => ?_⟩,
    fun track member => ?_⟩
  all_goals obtain ⟨old, found, place, content⟩ := mem_replaceTrack member
  · rw [place]
    exact owned.trackAligned old found
  · rw [place]
    exact owned.trackInside old found
  · rcases content with same | new
    · rw [same]
      exact owned.frames old found
    · rw [new]
      exact aligned

theorem track_paged (paged : memset.Paged) (aligned : frame % pageSize = 0) :
    MemSet.Paged (track vaddr frame memset) := by
  refine updateOwner_paged paged fun area owned inside => ?_
  have page : area.contains (pageFloor vaddr) := (owned.contains_pageFloor vaddr).mpr inside
  refine ⟨⟨owned.startAligned, owned.lenAligned, owned.bounded, fun track member => ?_, fun track member => ?_⟩,
    fun track member => ?_⟩
  all_goals rcases mem_append.mp member with old | new
  · exact owned.trackAligned track old
  · rw [mem_singleton.mp new]
    exact pageFloor_mod vaddr
  · exact owned.trackInside track old
  · rw [mem_singleton.mp new]
    exact page
  · exact owned.frames track old
  · rw [mem_singleton.mp new]
    exact aligned

end Owner

namespace UserSpace

structure Paged (space : UserSpace) : Prop where
  areas : MemSet.Paged space.process.pcb.memset
  segments : ∀ shm ∈ space.process.pcb.shms, shm.Paged
  memory : space.machine.Paged

variable {around : Surroundings} {taskId vaddr : Nat} {space after : UserSpace}

theorem Paged.of_areas (paged : space.Paged) (areas : MemSet.Paged after.process.pcb.memset)
    (shms : after.process.pcb.shms = space.process.pcb.shms)
    (bounds : after.machine.frames.bounds = space.machine.frames.bounds) : after.Paged where
  areas := areas
  segments := by
    rw [shms]
    exact paged.segments
  memory := paged.memory.congr bounds

def Returns (result : Option UserSpace) : Prop := ∃ after, result = some after ∧ after.Paged

theorem Paged.addSignal (paged : space.Paged) (number : Nat) : (space.addSignal taskId number).Paged :=
  paged.of_areas paged.areas rfl rfl

theorem Paged.fill (paged : space.Paged) (frame : Nat) (bytes : List UInt8) : (space.fill frame bytes).Paged :=
  paged.of_areas paged.areas rfl rfl

theorem Paged.withTls (paged : space.Paged) (tls : TlsLoop) : Paged { space with tls } :=
  paged.of_areas paged.areas rfl rfl

/-! ## Faults inside an area -/

theorem mapOwned_returns {area : MemArea} {ppn : Nat} (paged : space.Paged) (aligned : ppn % pageSize = 0) :
    Returns (space.mapOwned vaddr area ppn) := by
  unfold mapOwned Process.map
  rw [if_pos ⟨aligned, pageFloor_mod vaddr⟩]
  exact ⟨_, rfl, paged.of_areas paged.areas rfl rfl⟩

section Owned

variable {area : MemArea} {track : MapTrack}

theorem serveTracked_returns (paged : space.Paged) (aligned : track.tracker % pageSize = 0) :
    Returns (space.serveTracked around taskId vaddr area track) := by
  unfold serveTracked
  split
  · exact mapOwned_returns paged aligned
  · split
    · cases allocated : space.machine.frameAlloc with
      | none => exact ⟨_, rfl, paged.addSignal SIGSEGV⟩
      | some granted =>
        obtain ⟨bounds, frame⟩ := frameAlloc_bounds allocated
        have granted := frame paged.memory
        exact mapOwned_returns (paged.of_areas (retrack_paged paged.areas granted) rfl bounds) granted
    · exact mapOwned_returns paged aligned

theorem serveUntracked_returns (paged : space.Paged) : Returns (space.serveUntracked around taskId vaddr area) := by
  unfold serveUntracked
  split
  · exact ⟨_, rfl, paged.addSignal SIGSEGV⟩
  · cases allocated : space.machine.frameAlloc with
    | none => exact ⟨_, rfl, paged.addSignal SIGSEGV⟩
    | some granted =>
      obtain ⟨bounds, frame⟩ := frameAlloc_bounds allocated
      have granted := frame paged.memory
      exact mapOwned_returns (paged.of_areas (track_paged paged.areas granted) rfl bounds) granted

end Owned

/-! ## Cuts, forks and the end of a task -/

theorem Paged.subArea (paged : space.Paged) {start last : Nat} (startAligned : start % pageSize = 0)
    (lastAligned : last % pageSize = 0) (ordered : start ≤ last)
    (untouched : space.process.pcb.memset.Untouched start last) : (space.subArea around start last).1.Paged :=
  paged.of_areas (paged.areas.subArea startAligned lastAligned ordered untouched _ _) rfl (dropFrames_bounds _ _)

theorem Paged.exit (paged : space.Paged) (code : Nat) : (space.exit around taskId code).Paged := by
  obtain ⟨-, -, shms, same | gone⟩ := exit_keeps space code
  · exact paged.of_areas (by rw [same]; exact paged.areas) shms (dropFrames_bounds _ _)
  · exact paged.of_areas (by rw [gone]; exact nofun) shms (dropFrames_bounds _ _)

theorem Paged.fork (paged : space.Paged) {childId : Nat} {parent child : Process}
    (forked : space.process.cowFork taskId childId = some (parent, child)) (intoChild : Bool) :
    Paged { space with process := if intoChild then child else parent } := by
  obtain ⟨rfl, memset, shms, _⟩ := Process.cowFork_outcome forked
  cases intoChild with
  | false => exact paged.of_areas paged.areas rfl rfl
  | true => exact paged.of_areas (memset ▸ paged.areas) shms rfl

/-! ## Faults outside the areas -/

section Windows

variable {mtype : MemType} {count : Nat}

variable (paged : space.Paged)
include paged

theorem frameAlloc_returns (positive : 0 < count) (fits : vaddr + count * pageSize < usizeBound)
    (window : mtype = .Stack →
      (0x70000000 ≤ pageFloor vaddr ∧ pageFloor vaddr + count * pageSize ≤ 0x80000000) ∧
        ∀ area ∈ space.process.pcb.memset, area.mtype ≠ .Stack) :
    ∃ ppn after, space.frameAlloc vaddr mtype count = some (ppn, after) ∧ after.Paged := by
  have aligned := pageFloor_mod vaddr
  have floor : pageFloor vaddr + count * pageSize < usizeBound := by
    have below := pageFloor_le vaddr
    omega
  have present : (space.process.frameAlloc space.machine (pageFloor vaddr) mtype count).isSome :=
    Process.frameAlloc_isSome aligned floor positive
  obtain ⟨⟨ppn, process, machine⟩, done⟩ := isSome_iff_exists.mp present
  obtain ⟨areas, shms, bounds, _⟩ := Process.frameAlloc_paged paged.areas aligned floor window done
  refine ⟨ppn, { space with process, machine }, ?_, paged.of_areas areas shms bounds⟩
  rw [frameAlloc, done]
  rfl

theorem mmapPage_returns (fits : vaddr + 1 * pageSize < usizeBound) :
    ∃ ppn after, space.frameAlloc vaddr .Mmap 1 = some (ppn, after) ∧ after.Paged :=
  frameAlloc_returns paged one_pos fits nofun

theorem blankPages_returns (kind : mtype ≠ .Stack) (positive : 0 < count)
    (fits : vaddr + count * pageSize < usizeBound) : Returns (space.blankPages taskId vaddr mtype count) := by
  obtain ⟨_, _, allocated, kept⟩ := frameAlloc_returns paged positive fits fun stack => absurd stack kind
  rw [blankPages, allocated]
  refine ⟨_, rfl, ?_⟩
  split
  · exact kept
  · exact kept.addSignal SIGSEGV

theorem segmentPage_returns (fits : vaddr + 1 * pageSize < usizeBound) :
    Returns (space.segmentPage around taskId vaddr) := by
  have blank {space : UserSpace} (paged : space.Paged) : Returns (space.blankPages taskId vaddr .Mmap 1) :=
    blankPages_returns paged (by decide) one_pos fits
  unfold segmentPage
  split
  · exact blank paged
  · split
    · exact ⟨space, rfl, paged⟩
    · split
      · exact ⟨space, rfl, paged⟩
      · obtain ⟨ppn, _, allocated, kept⟩ := mmapPage_returns paged fits
        rw [allocated]
        cases ppn with
        | none => exact blank kept
        | some _ =>
          split
          · exact ⟨_, rfl, kept.fill _ _⟩
          · exact blank kept

theorem tlsPage_returns (fits : vaddr + 1 * pageSize < usizeBound) : Returns (space.tlsPage around taskId vaddr) := by
  unfold tlsPage
  dsimp only
  generalize (if space.tls.lastAddr = pageFloor vaddr then { space.tls with count := space.tls.count + 1 }
    else { lastAddr := pageFloor vaddr, count := 1 } : TlsLoop) = tls
  have counted := paged.withTls tls
  split
  · exact ⟨_, rfl, counted.exit 1⟩
  · obtain ⟨ppn, _, allocated, kept⟩ := mmapPage_returns counted fits
    rw [allocated]
    cases ppn with
    | none => exact ⟨_, rfl, kept.addSignal SIGSEGV⟩
    | some _ => exact ⟨_, rfl, (kept.fill _ _).withTls _⟩

theorem serveWindows_returns : Returns (space.serveWindows around taskId vaddr) := by
  have low {count : Nat} (below : vaddr < 0x300000000) (small : count ≤ 12) :
      vaddr + count * pageSize < usizeBound := by
    unfold pageSize usizeBound
    omega
  unfold serveWindows
  split
  · unfold nullAccess
    refine ⟨_, rfl, ?_⟩
    split
    · exact paged.exit _
    · exact paged.addSignal SIGSEGV
  · split
    · exact segmentPage_returns paged (low (by omega) (by decide))
    · split
      · exact blankPages_returns paged (by decide) (by decide) (low (by omega) (by decide))
      · split
        · exact tlsPage_returns paged (low (by omega) (by decide))
        · split
          · exact segmentPage_returns paged (low (by omega) (by decide))
          · exact ⟨_, rfl, paged.addSignal SIGSEGV⟩

end Windows

/-- A fault in the stack window outside the areas finds no stack area, so that its page
starts one. -/
def StackWhole (memset : MemSet) (vaddr : Nat) : Prop :=
  memset.areaAt vaddr = none → within 0x70000000 0x80000000 vaddr → ∀ area ∈ memset, area.mtype ≠ .Stack

theorem userCowInt_returns (paged : space.Paged) (whole : StackWhole space.process.pcb.memset vaddr) :
    Returns (space.userCowInt around taskId vaddr) := by
  unfold userCowInt
  split
  next area owner =>
    have owned := paged.areas area (mem_of_find?_eq_some owner)
    split
    next track tracked => exact serveTracked_returns paged (owned.frames track (mem_of_find?_eq_some tracked))
    · exact serveUntracked_returns paged
  next unowned =>
    split
    next stack =>
      have window : 0x70000000 ≤ pageFloor vaddr ∧ pageFloor vaddr + 1 * pageSize ≤ 0x80000000 := by
        unfold pageFloor pageSize
        omega
      have fits : vaddr + 1 * pageSize < usizeBound := by
        unfold pageSize usizeBound
        omega
      obtain ⟨_, after, allocated, kept⟩ :=
        frameAlloc_returns paged one_pos fits fun _ => ⟨window, whole unowned stack⟩
      rw [allocated]
      dsimp only [bind_eq_bind, bind_some]
      split
      · exact ⟨after, rfl, kept⟩
      · exact serveWindows_returns kept
    · exact serveWindows_returns paged

/-! ## Stores inside the areas -/

theorem Paged.access (paged : space.Paged) {write : Bool} {paddr : Option Nat}
    (inside : ∃ area ∈ space.process.pcb.memset, area.contains vaddr)
    (accessed : space.access around taskId vaddr write = some (paddr, after)) : after.Paged := by
  have whole : StackWhole space.process.pcb.memset vaddr := by
    intro unowned
    obtain ⟨area, member, contained⟩ := inside
    exact absurd contained (by simpa using find?_eq_none.mp unowned area member)
  rcases access_cases accessed with ⟨-, -, rfl⟩ | ⟨-, served, -⟩
  · exact paged
  · obtain ⟨_, serving, kept⟩ : Returns (space.userCowInt around taskId vaddr) := userCowInt_returns paged whole
    rw [serving, Option.some.injEq] at served
    exact served ▸ kept

theorem Paged.storeBytes (paged : space.Paged) {bytes : List UInt8}
    (inside : ∀ index < bytes.length, ∃ area ∈ space.process.pcb.memset, area.contains (wrapAdd vaddr index))
    (stored : space.storeBytes around taskId vaddr bytes = some after) : after.Paged := by
  refine (@storeBytes_preserves around taskId vaddr (fun after => after.Paged ∧
    after.process.pcb.memset.layout = space.process.pcb.memset.layout) space after bytes ?_ stored ⟨paged, rfl⟩).1
  rintro _ _ index _ bound ⟨kept, layout⟩ storing
  obtain ⟨paddr, _, accessed, rfl⟩ := storeByte_access storing
  have contained := contains_of_layout layout (inside index bound)
  exact ⟨(kept.access contained accessed).fill paddr _, (access_layout contained accessed).2.trans layout⟩

end UserSpace

end MonkeyOS.User
