import MonkeyOS.Syscall.Disjointness
import MonkeyOS.User.Paging

/-!
# Memory calls and page boundaries

`mmap` rounds the length it is given, but neither its address nor what `munmap` and
`shmat` are given. Runs whose arguments lie on page boundaries keep the areas of a
process there, as long as no hole is cut where pages are tracked and the stack area
stays whole.
-/

set_option autoImplicit false

namespace MonkeyOS.Syscall

open Lib Tasks User Process Option Nat List

section Calls

variable {context : MmContext} {taskId : Nat} {space after : UserSpace}

/-! ## Addresses the kernel chooses -/

private theorem max_aligned {left right : Nat} (leftAligned : left % pageSize = 0)
    (rightAligned : right % pageSize = 0) : max left right % pageSize = 0 := by
  rcases le_total left right with le | le
  · rwa [max_eq_right le]
  · rwa [max_eq_left le]

private theorem foldl_aligned {α : Type} {step : Nat → α → Nat} {items : List α}
    (steps : ∀ item ∈ items, ∀ last, last % pageSize = 0 → step last item % pageSize = 0) :
    items.foldl step 0 % pageSize = 0 :=
  List.foldlRecOn (motive := fun last => last % pageSize = 0) items step rfl
    fun last aligned item member => steps item member last aligned

theorem getLastFreeAddr_aligned (paged : space.Paged) : space.process.getLastFreeAddr % pageSize = 0 := by
  refine max_aligned (foldl_aligned fun area member last aligned => ?_)
    (foldl_aligned fun shm member last aligned => ?_)
  · exact max_aligned aligned (paged.areas area (mem_filter.mp member).1).finish_aligned
  · have segment := paged.segments shm member
    exact max_aligned (wrapAdd_aligned segment.start segment.size) aligned

variable {start shmaddr : Nat}

theorem mmapAddr_aligned (paged : space.Paged) (aligned : start % pageSize = 0) :
    mmapAddr space.process start % pageSize = 0 := by
  unfold mmapAddr
  split
  · exact max_aligned (getLastFreeAddr_aligned paged) (by decide)
  · exact aligned

theorem shmatAddr_aligned (paged : space.Paged) (aligned : shmaddr % pageSize = 0) :
    shmatAddr space.process shmaddr % pageSize = 0 := by
  unfold shmatAddr
  split
  · exact max_aligned (getLastFreeAddr_aligned paged) (by decide)
  · exact aligned

/-! ## Mapping a range -/

section Range

variable {addr len off last : Nat} {prot : MappingFlags} {memset : MemSet}

private theorem allocated_returns {count : Nat} {mtype : MemType} (paged : space.Paged) (aligned : addr % pageSize = 0)
    (fits : addr + count * pageSize < usizeBound) (positive : 0 < count) (kind : mtype ≠ .Stack) :
    ∃ ppn process machine, space.process.frameAlloc space.machine addr mtype count = some (ppn, process, machine) ∧
      UserSpace.Paged { space with process, machine } ∧ ∀ frame, ppn = some frame → frame % pageSize = 0 := by
  have present : (space.process.frameAlloc space.machine addr mtype count).isSome :=
    frameAlloc_isSome aligned fits positive
  obtain ⟨⟨ppn, process, machine⟩, done⟩ := isSome_iff_exists.mp present
  obtain ⟨areas, shms, bounds, frames⟩ :=
    frameAlloc_paged paged.areas aligned fits (fun stack => absurd stack kind) done
  exact ⟨ppn, process, machine, done, paged.of_areas areas shms bounds, frames⟩

theorem mapRange_returns (paged : space.Paged) (addrAligned : addr % pageSize = 0) (lenAligned : len % pageSize = 0)
    (fits : addr + len < usizeBound) (nonempty : len ≠ 0) (shared : Bool) (file : Option Inode) :
    ∃ mapped after, mapRange space addr len prot shared file off = some (mapped, after) ∧ after.Paged := by
  obtain ⟨count, positive, rfl, -, whole, rounded⟩ := page_count lenAligned fits nonempty
  unfold mapRange
  rw [whole, rounded]
  cases shared with
  | true =>
    cases file with
    | some file =>
      have present : (space.process.mapFrames space.machine addr .ShareFile count (some file) off addr
          (count * pageSize) prot).isSome := mapFrames_isSome addrAligned fits positive
      obtain ⟨⟨ppn, process, machine⟩, done⟩ := isSome_iff_exists.mp present
      obtain ⟨areas, shms, bounds⟩ := mapFrames_paged paged.areas addrAligned fits done
      simp only [done]
      exact ⟨_, _, rfl, paged.of_areas areas shms bounds⟩
    | none =>
      obtain ⟨ppn, process, machine, done, kept, frames⟩ :=
        @allocated_returns space addr count .Shared paged addrAligned fits positive (by decide)
      simp only [done]
      cases ppn with
      | none => exact ⟨_, _, rfl, kept⟩
      | some paddr =>
        -- Every page of the range is mapped from the first frame on.
        obtain ⟨_, done⟩ := isSome_iff_exists.mp
          (@foldlM_map_isSome process paddr addr count prot (frames paddr rfl) addrAligned)
        have pcb := foldlM_map_pcb done
        simp only [bind_eq_bind, bind_some, done]
        exact ⟨_, _, rfl, kept.of_areas (by rw [pcb]; exact kept.areas) (by rw [pcb]) rfl⟩
  | false =>
    cases file with
    | some file =>
      obtain ⟨ppn, process, machine, done, kept, _⟩ :=
        @allocated_returns space addr count .Mmap paged addrAligned fits positive (by decide)
      simp only [done]
      exact ⟨_, _, rfl, kept⟩
    | none =>
      have new : MemArea.Paged
          { mtype := .Mmap, mtrackers := [], file := none, offset := 0, start := addr, len := count * pageSize } :=
        MemArea.paged_of_pages addrAligned lenAligned fits (.nil _ _)
      exact ⟨_, _, rfl, paged.of_areas (paged.areas.append new) rfl rfl⟩

theorem no_hole_of_clear (nonempty : start < last) (clear : ∀ set ∈ memset.ranges, Disjoint (Set.Ico start last) set) :
    ∀ area ∈ memset, ¬ area.Hole start last := by
  intro area member hole
  have inside : start ∈ area.range := ⟨hole.1, lt_trans nonempty hole.2⟩
  exact Set.disjoint_left.mp (clear area.range (mem_map_of_mem member)) (Set.left_mem_Ico.mpr nonempty) inside

theorem mapRange_untouched {shared mapped : Bool} {file : Option Inode} (lenAligned : len % pageSize = 0)
    (fits : addr + len < usizeBound) (nonempty : len ≠ 0)
    (clear : ∀ set ∈ space.process.pcb.memset.ranges, Disjoint (Set.Ico addr (addr + len)) set)
    (done : mapRange space addr len prot shared file off = some (mapped, after)) :
    after.process.pcb.memset.Untouched addr (addr + len) := by
  have old := no_hole_of_clear (by omega) clear
  intro area member hole
  refine absurd hole ?_
  obtain ⟨_, ⟨_, memset⟩ | ⟨_, new, start, length, memset⟩⟩ := mapRange_area lenAligned (by omega) done
  · exact old area (memset ▸ member)
  · rcases mem_append.mp (memset ▸ member) with before | added
    · exact old area before
    · rintro ⟨_, past⟩
      rw [mem_singleton.mp added, MemArea.finish, start, length, wrapAdd_eq fits] at past
      omega

end Range

/-! ## The calls -/

theorem makeRoom_paged (paged : space.Paged) {last : Nat} (startAligned : start % pageSize = 0)
    (lastAligned : last % pageSize = 0) (ordered : start ≤ last)
    (untouched : space.process.pcb.memset.overlapping start last → space.process.pcb.memset.Untouched start last) :
    (makeRoom context space start last).1.Paged := by
  unfold makeRoom
  split
  next overlap => exact paged.subArea startAligned lastAligned ordered (untouched overlap)
  · exact paged

structure Maps (process : Process) (start len flags : Nat) : Prop where
  aligned : start % pageSize = 0
  fits : mmapAddr process start + alignup len pageSize < usizeBound
  untouched : MAP_FIXED flags = true →
    process.pcb.memset.Untouched (mmapAddr process start) (mmapAddr process start + alignup len pageSize)

section Mmap

variable {start len flags off prot : Nat}

variable (maps : Maps space.process start len flags) (paged : space.Paged)
include maps paged

theorem Maps.last_aligned : (mmapAddr space.process start + alignup len pageSize) % pageSize = 0 := by
  have addrAligned := mmapAddr_aligned paged maps.aligned
  have lenAligned := alignup_aligned len
  unfold pageSize at *
  omega

theorem Maps.mapRange {prot : MappingFlags} (nonempty : alignup len pageSize ≠ 0)
    (free : ¬ (¬ MAP_FIXED flags ∧ space.process.pcb.memset.overlapping (mmapAddr space.process start)
      (mmapAddr space.process start + alignup len pageSize)))
    (shared : Bool) (file : Option Inode) :
    ∃ mapped middle, Syscall.mapRange (makeRoom context space (mmapAddr space.process start)
        (mmapAddr space.process start + alignup len pageSize)).1 (mmapAddr space.process start)
        (alignup len pageSize) prot shared file off = some (mapped, middle) ∧ middle.Paged ∧
      middle.process.pcb.memset.Untouched (mmapAddr space.process start)
        (mmapAddr space.process start + alignup len pageSize) := by
  have addrAligned := mmapAddr_aligned paged maps.aligned
  have lenAligned := alignup_aligned len
  have lastAligned := maps.last_aligned paged
  have fits := maps.fits
  have untouched := maps.untouched
  generalize mmapAddr space.process start = addr at *
  generalize alignup len pageSize = len at *
  have room : (makeRoom context space addr (addr + len)).1.Paged :=
    makeRoom_paged paged addrAligned lastAligned (le_add_right _ _) fun overlap =>
      untouched (by by_contra unfixed; exact free ⟨unfixed, overlap⟩)
  have clear := @makeRoom_clear context space addr (addr + len) (le_add_right _ _)
  obtain ⟨mapped, middle, mapping, kept⟩ :=
    mapRange_returns room addrAligned lenAligned fits nonempty shared file
  exact ⟨mapped, middle, mapping, kept, mapRange_untouched lenAligned fits nonempty clear mapping⟩

theorem Maps.range {file : Option Inode} {mapped : Bool}
    (range : MapsRange context space (mmapAddr space.process start) (alignup len pageSize) prot flags file off
      mapped after) :
    after.Paged ∧ after.process.pcb.memset.Untouched (mmapAddr space.process start)
      (mmapAddr space.process start + alignup len pageSize) := by
  obtain ⟨nonempty, free, mapping⟩ := range
  rw [wrapAdd_eq maps.fits] at free mapping
  obtain ⟨_, _, returned, kept, untouched⟩ := Maps.mapRange maps paged nonempty free (MAP_SHARED flags) file
  cases returned.symm.trans mapping
  exact ⟨kept, untouched⟩

omit maps paged

theorem sysMmap_paged {fd : Nat} {answer : Except Errno Nat} {writes : List FileWrite}
    (paged : space.Paged) (maps : alignup len pageSize ≠ 0 → Maps space.process start len flags)
    (done : sysMmap context taskId space start len prot flags fd off = some (answer, after, writes)) :
    after.Paged := by
  obtain ⟨_, -, outcome⟩ := sysMmap_outcome done
  cases outcome with
  | empty | beyond | overlaps => exact paged
  | refused range | anonymous range => exact ((maps range.nonempty).range paged range).1
  | read range reading =>
    have maps := maps range.nonempty
    obtain ⟨kept, untouched⟩ := maps.range paged range
    have aligned := alignup_aligned len
    rcases readMapped_cases maps.fits (mapRange_covers aligned maps.fits range.mapping) reading with
      rfl | ⟨_, inside, storing⟩
    · have addrAligned := mmapAddr_aligned paged maps.aligned
      refine kept.subArea addrAligned ?_ (le_add_right _ _) untouched
      unfold pageSize at *
      omega
    · exact kept.storeBytes inside storing

end Mmap

private theorem sbrk_pages_paged {first count : Nat} (bounded : (first + count) * pageSize < usizeBound)
    (paged : space.Paged) :
    ∃ process machine, (List.range' first count).foldlM sbrkPage (space.process, space.machine) =
        some (process, machine) ∧
      UserSpace.Paged { space with process, machine } := by
  induction count generalizing first space with
  | zero => exact ⟨_, _, rfl, paged⟩
  | succ count ih =>
    have next : (first + 1 + count) * pageSize < usizeBound := by rwa [add_right_comm, add_assoc]
    have page : first * pageSize + 1 * pageSize ≤ (first + 1 + count) * pageSize := by
      rw [← add_mul]
      exact mul_le_mul_right _ (le_add_right _ _)
    have start : wrapMul first pageSize = first * pageSize := mod_eq_of_lt (by omega)
    obtain ⟨_, _, _, done, kept, _⟩ := @allocated_returns space (first * pageSize) 1 .Mmap paged
      (mul_mod_left _ _) (by omega) one_pos (by decide)
    obtain ⟨grown, rest, growing, final⟩ := ih next kept
    refine ⟨grown, rest, ?_, final⟩
    rw [range'_succ, foldlM_cons, sbrkPage, start, done]
    exact growing

theorem sysBrk_returns {addr : Nat} (paged : space.Paged) (bounded : divCeil addr pageSize * pageSize < usizeBound) :
    ∃ answer after, sysBrk space addr = some (answer, after) ∧ after.Paged := by
  unfold sysBrk
  split
  · exact ⟨_, _, rfl, paged⟩
  · have looped : ∃ process machine, (List.range' (divCeil space.process.pcb.heap pageSize)
          (divCeil addr pageSize - divCeil space.process.pcb.heap pageSize)).foldlM sbrkPage
          (space.process, space.machine) = some (process, machine) ∧
        UserSpace.Paged { space with process, machine } := by
      rcases le_total (divCeil space.process.pcb.heap pageSize) (divCeil addr pageSize) with growth | shrinking
      · exact sbrk_pages_paged (by rwa [add_sub_of_le growth]) paged
      · rw [Nat.sub_eq_zero_of_le shrinking]
        exact ⟨_, _, rfl, paged⟩
    obtain ⟨process, machine, grown, kept⟩ := looped
    rw [sbrk_eq, grown]
    exact ⟨_, _, rfl, kept.of_areas kept.areas rfl rfl⟩

theorem sysShmat_returns {shmid : Nat} (paged : space.Paged) (aligned : shmaddr % pageSize = 0)
    (frames : ∀ trackers, context.sharedMemory shmid = some trackers → ∀ frame ∈ trackers, frame % pageSize = 0) :
    ∃ answer after, sysShmat context space shmid shmaddr = some (answer, after) ∧ after.Paged := by
  unfold sysShmat
  cases found : context.sharedMemory shmid with
  | none => exact ⟨_, _, rfl, paged⟩
  | some trackers =>
    dsimp only
    generalize segment : MapedSharedMemory.mk shmid trackers (shmatAddr space.process shmaddr)
      (wrapMul trackers.length pageSize) = shm
    have attached : shm.Paged := by
      rw [← segment]
      refine ⟨shmatAddr_aligned paged aligned, ?_, frames trackers found⟩
      rw [wrapMul, mod_mod_of_dvd _ (by decide)]
      exact mul_mod_left _ _
    have mapping : (space.process.mapSegment shm).isSome := mapSegment_isSome attached
    obtain ⟨process, mapped⟩ := isSome_iff_exists.mp mapping
    have pcb : process.pcb = space.process.pcb := by rw [mapSegment_eq_some mapped]
    rw [mapped]
    refine ⟨_, _, rfl, ?_, fun other member => ?_, paged.memory⟩
    · exact pcb ▸ paged.areas
    · rcases mem_append.mp member with old | new
      · exact paged.segments other (pcb ▸ old)
      · exact mem_singleton.mp new ▸ attached

end Calls

/-! ## Runs -/

/-- The arguments lie on page boundaries, the range does not wrap, and it cuts no
tracked page out of the middle of an area; a fault in the stack window outside all
areas finds no stack area. -/
def Occasion.OnPages (space : UserSpace) : Occasion → Prop
  | ⟨_, _, .mmap start len _ flags _ _⟩ => alignup len pageSize ≠ 0 → Maps space.process start len flags
  | ⟨_, _, .munmap start len⟩ => start % pageSize = 0 ∧ len % pageSize = 0 ∧ start + len < usizeBound ∧
      space.process.pcb.memset.Untouched start (start + len)
  | ⟨_, _, .brk addr⟩ => divCeil addr pageSize * pageSize < usizeBound
  | ⟨context, _, .shmat shmid shmaddr⟩ => shmaddr % pageSize = 0 ∧
      ∀ trackers, context.sharedMemory shmid = some trackers → ∀ frame ∈ trackers, frame % pageSize = 0
  | ⟨_, _, .fault vaddr⟩ => UserSpace.StackWhole space.process.pcb.memset vaddr
  | _ => True

/-- Nothing the event does fails an assertion of `map`, or drops an area with pages
past its length. -/
def Occasion.Safe (space : UserSpace) : Occasion → Prop
  | ⟨context, _, .mmap start len prot flags _ off⟩ =>
    let addr := mmapAddr space.process start
    let last := wrapAdd addr (alignup len pageSize)
    alignup len pageSize ≠ 0 → ¬ (¬ MAP_FIXED flags ∧ space.process.pcb.memset.overlapping addr last) →
      (space.process.pcb.memset.overlapping addr last → space.process.pcb.memset.DropsFit addr last) ∧
      ∀ file, ∃ mapped middle, mapRange (makeRoom context space addr last).1 addr (alignup len pageSize)
        (protFlags prot) (MAP_SHARED flags) file off = some (mapped, middle) ∧
        middle.process.pcb.memset.DropsFit addr last
  | ⟨_, _, .munmap start len⟩ => space.process.pcb.memset.DropsFit start (wrapAdd start len)
  | ⟨_, _, .brk addr⟩ => (sysBrk space addr).isSome
  | ⟨context, _, .shmat shmid shmaddr⟩ => (sysShmat context space shmid shmaddr).isSome
  | ⟨context, taskId, .fault vaddr⟩ => (space.userCowInt context.around taskId vaddr).isSome
  | ⟨_, taskId, .fork childId _⟩ => (space.process.cowFork taskId childId).isSome
  | ⟨_, _, .elsewhere⟩ => True

inductive Activity where
  | memory (occasion : Occasion)
  | exit (around : Surroundings) (taskId code : Nat)

inductive Acts : UserSpace → Activity → UserSpace → Prop where
  /-- The memory given to the allocator at boot stays what it is, also while others run. -/
  | memory {space occasion after} (step : Step space occasion after)
      (registered : after.machine.frames.bounds = space.machine.frames.bounds) :
      Acts space (.memory occasion) after
  | exit {space around taskId code} : Acts space (.exit around taskId code) (space.exit around taskId code)

def Activity.OnPages (space : UserSpace) : Activity → Prop
  | .memory occasion => occasion.OnPages space
  | .exit _ _ _ => True

def Activity.Safe (space : UserSpace) : Activity → Prop
  | .memory occasion => occasion.Safe space
  | .exit _ _ _ => ∀ area ∈ space.process.pcb.memset, area.DropFits

variable {after space : UserSpace} {occasion : Occasion}

theorem Step.paged (paged : space.Paged) (step : Step space occasion after)
    (onPages : occasion.OnPages space) (registered : after.machine.frames.bounds = space.machine.frames.bounds) :
    after.Paged := by
  cases step with
  | mmap done => exact sysMmap_paged paged onPages done
  | munmap =>
    obtain ⟨startAligned, _, fits, untouched⟩ := onPages
    rw [sysMunmap, wrapAdd_eq fits]
    refine paged.subArea startAligned ?_ (le_add_right _ _) untouched
    unfold pageSize at *
    omega
  | brk _ done =>
    obtain ⟨_, _, returned, kept⟩ := sysBrk_returns paged onPages
    rw [returned] at done
    cases done
    exact kept
  | shmat done =>
    obtain ⟨_, _, returned, kept⟩ := sysShmat_returns paged onPages.1 onPages.2
    rw [returned] at done
    cases done
    exact kept
  | fault served =>
    obtain ⟨_, returned, kept⟩ := UserSpace.userCowInt_returns paged onPages
    rw [returned] at served
    cases served
    exact kept
  | fork forked => exact paged.fork forked _
  | elsewhere => exact paged.of_areas paged.areas rfl registered

theorem Acts.paged {activity : Activity} (paged : space.Paged) (acts : Acts space activity after)
    (onPages : activity.OnPages space) : after.Paged := by
  cases acts with
  | memory step registered => exact step.paged paged onPages registered
  | exit => exact paged.exit _

theorem Occasion.OnPages.safe (paged : space.Paged) (onPages : occasion.OnPages space) : occasion.Safe space := by
  obtain ⟨_, taskId, event⟩ := occasion
  cases event with
  | mmap start len _ flags _ _ =>
    intro nonempty
    have maps := onPages nonempty
    rw [wrapAdd_eq maps.fits]
    have addrAligned := mmapAddr_aligned paged maps.aligned
    have lastAligned := maps.last_aligned paged
    intro free
    refine ⟨fun overlap => ?_, fun file => ?_⟩
    · have untouched := maps.untouched (by by_contra unfixed; exact free ⟨unfixed, overlap⟩)
      exact paged.areas.dropsFit addrAligned lastAligned (le_add_right _ _) untouched
    · obtain ⟨mapped, middle, mapping, kept, untouched⟩ := maps.mapRange paged nonempty free (MAP_SHARED flags) file
      exact ⟨mapped, middle, mapping, kept.areas.dropsFit addrAligned lastAligned (le_add_right _ _) untouched⟩
  | munmap start len =>
    obtain ⟨startAligned, _, fits, untouched⟩ := onPages
    change MemSet.DropsFit _ _ (wrapAdd start len)
    rw [wrapAdd_eq fits]
    refine paged.areas.dropsFit startAligned ?_ (le_add_right _ _) untouched
    unfold pageSize at *
    omega
  | brk _ =>
    obtain ⟨_, _, returned, _⟩ := sysBrk_returns paged onPages
    exact isSome_of_eq_some returned
  | shmat _ _ =>
    obtain ⟨_, _, returned, _⟩ := sysShmat_returns paged onPages.1 onPages.2
    exact isSome_of_eq_some returned
  | fault _ =>
    obtain ⟨_, returned, _⟩ := UserSpace.userCowInt_returns paged onPages
    exact isSome_of_eq_some returned
  | fork childId _ => exact cowFork_isSome paged.areas paged.segments taskId childId
  | elsewhere => trivial

/-- An area on page boundaries that tracks only pages of its own, so that the fault
handler and `Drop` subtract no address from a smaller one. -/
structure OnPages (area : MemArea) : Prop where
  start : area.start % pageSize = 0
  finish : area.finish % pageSize = 0
  tracked : ∀ track ∈ area.mtrackers, track.vaddr % pageSize = 0 ∧ area.contains track.vaddr
  floor : ∀ vaddr, area.contains vaddr → area.start ≤ pageFloor vaddr
  drops : area.DropFits

theorem OnPages.of_paged {area : MemArea} (paged : area.Paged) : OnPages area where
  start := paged.startAligned
  finish := paged.finish_aligned
  tracked track member := ⟨paged.trackAligned track member, paged.trackInside track member⟩
  floor vaddr inside := ((paged.contains_pageFloor vaddr).mpr inside).1
  drops := paged.dropFits

/-- From a process on page boundaries on, in every run that keeps to them, every area
stays on page boundaries, and whatever comes next and keeps to them is safe. -/
theorem areas_stay_on_pages {start finish : UserSpace} {activities : List Activity} (paged : start.Paged)
    (run : Run (fun before activity after => Acts before activity after ∧ activity.OnPages before)
      start activities finish) :
    (∀ area ∈ finish.process.pcb.memset, OnPages area) ∧
      ∀ activity : Activity, activity.OnPages finish → activity.Safe finish := by
  have kept : finish.Paged := run.preserves (fun paged step => step.1.paged paged step.2) paged
  refine ⟨fun area member => .of_paged (kept.areas area member), fun activity onPages => ?_⟩
  cases activity with
  | memory occasion => exact onPages.safe kept
  | exit around taskId code => exact fun area member => (kept.areas area member).dropFits

theorem blank_paged : blank.Paged :=
  ⟨nofun, nofun, show ∀ bound ∈ blank.machine.frames.bounds, bound.1 % pageSize = 0 by decide +kernel⟩

theorem areas_stay_on_pages_touched :
    ∃ finish, (∀ area ∈ finish.process.pcb.memset, OnPages area) ∧
      Run (fun before activity after => Acts before activity after ∧ activity.OnPages before) blank
        [.memory ⟨tinyContext, 1, .mmap 0 0x2000 3 0x22 (2 ^ 64 - 1) 0⟩,
          .memory ⟨tinyContext, 1, .fault 0x200000000⟩] finish := by
  have evaluated : ((do
      let mapped ← sysMmap tinyContext 1 blank 0 0x2000 3 0x22 (2 ^ 64 - 1) 0
      let touched ← mapped.2.1.userCowInt tinyContext.around 1 0x200000000
      some (mapped.2.1.machine.frames.bounds, touched.machine.frames.bounds)) : Option _) =
      some (blank.machine.frames.bounds, blank.machine.frames.bounds) := by decide +kernel
  simp only [bind_eq_some, Option.some.injEq, Prod.mk.injEq] at evaluated
  obtain ⟨⟨_, mapped, _⟩, mapping, touched, touching, kept, keptToo⟩ := evaluated
  have maps : Maps blank.process 0 0x2000 0x22 := ⟨by decide, by decide +kernel, nofun⟩
  have run : Run (fun before activity after => Acts before activity after ∧ activity.OnPages before) blank
      [.memory ⟨tinyContext, 1, .mmap 0 0x2000 3 0x22 (2 ^ 64 - 1) 0⟩,
        .memory ⟨tinyContext, 1, .fault 0x200000000⟩] touched :=
    .cons ⟨.memory (.mmap mapping) kept, fun _ => maps⟩
      (.cons ⟨.memory (.fault touching) (keptToo.trans kept.symm), fun _ stack => absurd stack (by decide)⟩ .refl)
  exact ⟨touched, (areas_stay_on_pages blank_paged run).1, run⟩

/-- A page is mapped in the middle of another, and touched: the area tracks a page that
starts before it does. -/
theorem unaligned_area_tracks_outside :
    blank.Paged ∧ ∃ finish, Run Acts blank
        [.memory ⟨tinyContext, 1, .mmap 0x300800 0x1000 3 0x22 (2 ^ 64 - 1) 0⟩,
          .memory ⟨tinyContext, 1, .fault 0x300800⟩] finish ∧
      ∃ area ∈ finish.process.pcb.memset, area.start % pageSize ≠ 0 ∧ area.finish % pageSize ≠ 0 ∧
        (∃ track ∈ area.mtrackers, track.vaddr < area.start) ∧
        area.contains 0x300800 ∧ pageFloor 0x300800 < area.start := by
  have evaluated : ((do
      let mapped ← sysMmap tinyContext 1 blank 0x300800 0x1000 3 0x22 (2 ^ 64 - 1) 0
      let touched ← mapped.2.1.userCowInt tinyContext.around 1 0x300800
      some (mapped.2.1.machine.frames.bounds, touched.machine.frames.bounds,
        decide (∃ area ∈ touched.process.pcb.memset, area.start % pageSize ≠ 0 ∧ area.finish % pageSize ≠ 0 ∧
          (∃ track ∈ area.mtrackers, track.vaddr < area.start) ∧
          area.contains 0x300800 ∧ pageFloor 0x300800 < area.start))) : Option _) =
      some (blank.machine.frames.bounds, blank.machine.frames.bounds, true) := by decide +kernel
  simp only [bind_eq_some, Option.some.injEq, Prod.mk.injEq, decide_eq_true_eq] at evaluated
  obtain ⟨⟨_, mapped, _⟩, mapping, touched, touching, kept, keptToo, broken⟩ := evaluated
  exact ⟨blank_paged, touched, .cons (.memory (.mmap mapping) kept)
    (.cons (.memory (.fault touching) (keptToo.trans kept.symm)) .refl), broken⟩

end MonkeyOS.Syscall
