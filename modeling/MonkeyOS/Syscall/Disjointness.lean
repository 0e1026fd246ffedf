import MonkeyOS.Syscall.Memory
import MonkeyOS.Tasks.ExecLayout

/-! Runs of memory calls, faults and forks, and when they keep the ranges of a
process apart. -/

set_option autoImplicit false

namespace MonkeyOS.Syscall

open Lib Tasks User Process List Option MemSet UserSpace Set Nat

/-! ## How `mmap` ends -/

/-- `mmap` gets as far as mapping `length` bytes at `addr`, and whether there were frames. -/
structure MapsRange (context : MmContext) (space : UserSpace) (addr length prot flags : Nat) (file : Option Inode)
    (off : Nat) (mapped : Bool) (after : UserSpace) : Prop where
  nonempty : length ≠ 0
  free : ¬ (¬ MAP_FIXED flags ∧ space.process.pcb.memset.overlapping addr (wrapAdd addr length))
  mapping : mapRange (makeRoom context space addr (wrapAdd addr length)).1 addr length (protFlags prot)
    (MAP_SHARED flags) file off = some (mapped, after)

inductive MmapOutcome (context : MmContext) (taskId : Nat) (space : UserSpace) (addr length prot flags : Nat)
    (off : Nat) : Option Inode → Except Errno Nat → UserSpace → List FileWrite → Prop where
  | empty {file} : length = 0 → MmapOutcome context taskId space addr length prot flags off file (.ok addr) space []
  | beyond {file} : MmapOutcome context taskId space addr length prot flags off file (.error .ENOMEM) space []
  | overlaps {file} : ¬ MAP_FIXED flags → space.process.pcb.memset.overlapping addr (wrapAdd addr length) →
      MmapOutcome context taskId space addr length prot flags off file (.error .EINVAL) space []
  | refused {file after} : MapsRange context space addr length prot flags file off false after →
      MmapOutcome context taskId space addr length prot flags off file (.error .EFAULT) after
        (makeRoom context space addr (wrapAdd addr length)).2
  | anonymous {after} : MapsRange context space addr length prot flags none off true after →
      MmapOutcome context taskId space addr length prot flags off none (.ok addr) after
        (makeRoom context space addr (wrapAdd addr length)).2
  | read {inode middle answer after undone} :
      MapsRange context space addr length prot flags (some inode) off true middle →
      readMapped context taskId (context.written (makeRoom context space addr (wrapAdd addr length)).2)
        middle addr length off inode = some (answer, after, undone) →
      MmapOutcome context taskId space addr length prot flags off (some inode) answer after
        ((makeRoom context space addr (wrapAdd addr length)).2 ++ undone)

/-! ## What the calls do to the layout -/

section Layout

variable {context : MmContext} {taskId : Nat} {space after : UserSpace}

theorem foldlM_map_pcb {indices : List Nat} {process after : Process} {paddr vaddr : Nat → Nat} {flags : MappingFlags}
    (mapped : indices.foldlM (fun process index => process.map (paddr index) (vaddr index) flags) process =
      some after) : after.pcb = process.pcb := by
  induction indices generalizing process with
  | nil => rw [Option.some.inj mapped]
  | cons _ indices ih =>
    simp only [foldlM_cons, bind_eq_some] at mapped
    obtain ⟨_, first, rest⟩ := mapped
    rw [ih rest, (map_eq_some first).2]

private theorem allocArea_len {mtype : MemType} (kind : mtype ≠ .Stack) {addr len : Nat}
    (aligned : len % pageSize = 0) (bounded : len < usizeBound) (tracks : List MapTrack) :
    (allocArea mtype addr (divCeil len pageSize) tracks).start = addr ∧
      (allocArea mtype addr (divCeil len pageSize) tracks).len = len := by
  simp only [allocArea, kind, if_false, true_and]
  rw [wrapMul, divCeil_mul_of_aligned aligned, mod_eq_of_lt bounded]

variable {addr len off start fd flags last : Nat} {file : Option Inode} {mapped shared : Bool} {prot : MappingFlags}
  {answer : Except Errno Nat} {writes : List FileWrite}

theorem mapRange_area (aligned : len % pageSize = 0) (bounded : len < usizeBound)
    (done : mapRange space addr len prot shared file off = some (mapped, after)) :
    after.process.pcb.shms = space.process.pcb.shms ∧
      (mapped = false ∧ after.process.pcb.memset = space.process.pcb.memset ∨
        mapped = true ∧ ∃ area : MemArea, area.start = addr ∧ area.len = len ∧
          after.process.pcb.memset = space.process.pcb.memset ++ [area]) := by
  have allocating : ∀ {mtype ppn process machine}, mtype ≠ .Stack →
      space.process.frameAlloc space.machine addr mtype (divCeil len pageSize) =
        some (ppn, process, machine) →
      process.pcb.shms = space.process.pcb.shms ∧
        (ppn = none ∧ process.pcb.memset = space.process.pcb.memset ∨
          ppn.isSome ∧ ∃ area : MemArea, area.start = addr ∧ area.len = len ∧
            process.pcb.memset = space.process.pcb.memset ++ [area]) := by
    intro mtype ppn process machine kind allocated
    rcases frameAlloc_outcome allocated with ⟨rfl, rfl, _⟩ | ⟨tracks, _, _, present, _, rfl⟩
    · exact ⟨rfl, .inl ⟨rfl, rfl⟩⟩
    · obtain ⟨start, length⟩ := allocArea_len kind aligned bounded tracks
      exact ⟨rfl, .inr ⟨present, _, start, length, placed_memset (by simp [allocArea, kind]) _ _⟩⟩
  unfold mapRange at done
  split at done
  · simp only [bind_eq_some] at done
    obtain ⟨⟨ppn, process, machine⟩, placed, ⟨⟩⟩ := done
    rcases mapFrames_outcome placed with ⟨rfl, rfl, _⟩ | ⟨_, _, _, present, _, rfl⟩
    · exact ⟨rfl, .inl ⟨rfl, rfl⟩⟩
    · exact ⟨rfl, .inr ⟨present, _, rfl, rfl, placed_memset (by simp) _ _⟩⟩
  · simp only [bind_eq_some] at done
    obtain ⟨⟨ppn, process, machine⟩, allocated, done⟩ := done
    obtain ⟨shms, ⟨rfl, kept⟩ | ⟨present, added⟩⟩ := allocating (by decide) allocated
    · cases done
      exact ⟨shms, .inl ⟨rfl, kept⟩⟩
    · obtain ⟨_, rfl⟩ := isSome_iff_exists.mp present
      simp only [bind_eq_some] at done
      obtain ⟨_, mapping, ⟨⟩⟩ := done
      have pcb := foldlM_map_pcb mapping
      exact ⟨by rw [pcb]; exact shms, .inr ⟨rfl, by rw [pcb]; exact added⟩⟩
  · simp only [bind_eq_some] at done
    obtain ⟨⟨ppn, process, machine⟩, allocated, ⟨⟩⟩ := done
    obtain ⟨shms, ⟨rfl, kept⟩ | ⟨present, added⟩⟩ := allocating (by decide) allocated
    · exact ⟨shms, .inl ⟨rfl, kept⟩⟩
    · exact ⟨shms, .inr ⟨present, added⟩⟩
  · cases done
    exact ⟨rfl, .inr ⟨rfl, _, rfl, rfl, rfl⟩⟩

theorem range_eq {area : MemArea} (fits : area.start + area.len < usizeBound) :
    area.range = Set.Ico area.start (area.start + area.len) := by
  rw [MemArea.range, MemArea.finish, wrapAdd_eq fits]

theorem readMapped_cases {files : Files} {file : Inode} (fits : addr + len < usizeBound)
    (covered : ∀ index < len, ∃ area ∈ space.process.pcb.memset, area.contains (addr + index))
    (done : readMapped context taskId files space addr len off file = some (answer, after, writes)) :
    after = (space.subArea context.around addr (addr + len)).1 ∨
      ∃ bytes : List UInt8,
        (∀ index < bytes.length, ∃ area ∈ space.process.pcb.memset, area.contains (wrapAdd addr index)) ∧
        space.storeBytes { context.around with files } taskId addr bytes = some after := by
  unfold readMapped at done
  cases read : files.readat file off len with
  | error _ =>
    simp only [read, wrapAdd_eq fits] at done
    cases done
    exact .inl rfl
  | ok bytes =>
    simp only [read, bind_eq_some] at done
    obtain ⟨_, storing, ⟨⟩⟩ := done
    have length := files.readat_fits read
    refine .inr ⟨bytes, fun index _ => ?_, storing⟩
    rw [wrapAdd_eq (by omega)]
    exact covered index (by omega)

theorem mapRange_covers (aligned : len % pageSize = 0) (fits : addr + len < usizeBound)
    (done : mapRange space addr len prot shared file off = some (true, after)) :
    ∀ index < len, ∃ area ∈ after.process.pcb.memset, area.contains (addr + index) := by
  obtain ⟨_, ⟨refused, _⟩ | ⟨_, area, _, _, memset⟩⟩ := mapRange_area aligned (by omega) done
  · cases refused
  · intro _ _
    refine ⟨area, by simp [memset], ?_⟩
    rw [MemArea.contains, MemArea.finish, wrapAdd_eq (by omega)]
    omega

theorem mapRange_separate (aligned : len % pageSize = 0) (fits : addr + len < usizeBound)
    (separate : Separate space.process.pcb.ranges)
    (clear : ∀ set ∈ space.process.pcb.ranges, Disjoint (Set.Ico addr (addr + len)) set)
    (done : mapRange space addr len prot shared file off = some (mapped, after)) :
    Separate after.process.pcb.ranges := by
  obtain ⟨shms, ⟨_, memset⟩ | ⟨_, area, start, length, memset⟩⟩ := mapRange_area aligned (by omega) done
  · exact separate_of_layout separate shms (by rw [memset])
  · have range : area.range = Set.Ico addr (addr + len) := by
      rw [range_eq (by omega), start, length]
    exact separate_of_area separate shms (by rw [memset]; exact layout_append _ _) (range ▸ clear)

theorem clear_of_not_overlapping {memset : MemSet} (apart : ¬ memset.overlapping start last) :
    ∀ set ∈ memset.ranges, Disjoint (Set.Ico start last) set := by
  intro _ member
  obtain ⟨area, found, rfl⟩ := mem_map.mp member
  have outside : ¬ area.overlapping start last := fun overlap => apart ⟨area, found, overlap⟩
  refine disjoint_left.mpr fun address cut inside => ?_
  have inCut := mem_Ico.mp cut
  have inArea : area.contains address := inside
  omega

theorem makeRoom_clear (space : UserSpace) {start last : Nat} (ordered : start ≤ last) :
    ∀ set ∈ (makeRoom context space start last).1.process.pcb.memset.ranges, Disjoint (Set.Ico start last) set := by
  unfold makeRoom
  split
  · exact space.subArea_clear ordered
  next apart => exact clear_of_not_overlapping apart

theorem makeRoom_separate (ordered : start ≤ last) (separate : Separate space.process.pcb.ranges) :
    (makeRoom context space start last).1.process.pcb.shms = space.process.pcb.shms ∧
      Separate (makeRoom context space start last).1.process.pcb.ranges := by
  unfold makeRoom
  split
  · obtain ⟨shms, kept, _⟩ := subArea_separate ordered separate
    exact ⟨shms, kept⟩
  · exact ⟨rfl, separate⟩

theorem sysMmap_outcome {prot : Nat}
    (done : sysMmap context taskId space start len prot flags fd off = some (answer, after, writes)) :
    ∃ file, mmapFile space.process flags fd = some file ∧
      MmapOutcome context taskId space (mmapAddr space.process start) (alignup len pageSize) prot flags off file
        answer after writes := by
  simp only [sysMmap, bind_eq_some] at done
  obtain ⟨file, named, done⟩ := done
  refine ⟨file, named, ?_⟩
  split at done
  · next empty =>
    cases done
    exact .empty empty
  split at done
  · cases done
    exact .beyond
  split at done
  · next refused =>
    cases done
    exact .overlaps refused.1 refused.2
  · next nonempty _ free =>
    simp only [bind_eq_some] at done
    obtain ⟨⟨mapped, _⟩, mapping, done⟩ := done
    cases mapped with
    | false =>
      cases done
      exact .refused ⟨nonempty, free, mapping⟩
    | true =>
      cases file with
      | none =>
        cases done
        exact .anonymous ⟨nonempty, free, mapping⟩
      | some _ =>
        simp only [bind_eq_some] at done
        obtain ⟨⟨_, _, _⟩, reading, ⟨⟩⟩ := done
        exact .read ⟨nonempty, free, mapping⟩ reading

theorem MapsRange.separate {length prot : Nat}
    (maps : MapsRange context space addr length prot flags file off mapped after)
    (separate : Separate space.process.pcb.ranges) (aligned : length % pageSize = 0)
    (fits : addr + length < usizeBound)
    (clear : ∀ shm ∈ space.process.pcb.shms, Disjoint (Set.Ico addr (addr + length)) shm.range) :
    Separate after.process.pcb.ranges := by
  obtain ⟨-, -, mapping⟩ := maps
  rw [wrapAdd_eq fits] at mapping
  obtain ⟨shms, roomSeparate⟩ :=
    makeRoom_separate (le_add_right _ _) separate
  refine mapRange_separate aligned fits roomSeparate (fun set member => ?_) mapping
  rcases mem_append.mp member with inAreas | inShms
  · exact makeRoom_clear space (le_add_right _ _) set inAreas
  · obtain ⟨shm, attached, rfl⟩ := mem_map.mp inShms
    exact clear shm (shms ▸ attached)

theorem sysMmap_separate {prot : Nat} (separate : Separate space.process.pcb.ranges)
    (fits : mmapAddr space.process start + alignup len pageSize < usizeBound)
    (clear : ∀ shm ∈ space.process.pcb.shms, Disjoint
      (Set.Ico (mmapAddr space.process start) (mmapAddr space.process start + alignup len pageSize)) shm.range)
    (done : sysMmap context taskId space start len prot flags fd off = some (answer, after, writes)) :
    Separate after.process.pcb.ranges := by
  have aligned := alignup_aligned len
  obtain ⟨_, -, outcome⟩ := sysMmap_outcome done
  cases outcome with
  | empty | beyond | overlaps => exact separate
  | refused maps | anonymous maps => exact maps.separate separate aligned fits clear
  | read maps reading =>
    have separate := maps.separate separate aligned fits clear
    rcases readMapped_cases fits (mapRange_covers aligned fits maps.mapping) reading with rfl | ⟨_, inside, storing⟩
    · exact (subArea_separate (le_add_right _ _) separate).2.1
    · obtain ⟨shms, layout⟩ := storeBytes_layout inside storing
      exact separate_of_layout separate shms layout

theorem sysMunmap_separate (separate : Separate space.process.pcb.ranges) (fits : start + len < usizeBound) :
    Separate (sysMunmap context space start len).1.process.pcb.ranges := by
  refine (subArea_separate ?_ separate).2.1
  rw [wrapAdd_eq fits]
  exact le_add_right _ _

def brkRange (process : Process) (addr : Nat) : Set Nat :=
  Set.Ico (divCeil process.pcb.heap pageSize * pageSize) (divCeil addr pageSize * pageSize)

theorem sbrk_pages {first count : Nat} {process process' : Process} {machine machine' : Machine}
    (bounded : (first + count) * pageSize ≤ usizeBound)
    (separate : Separate process.pcb.ranges)
    (clear : ∀ set ∈ process.pcb.ranges, Disjoint (Set.Ico (first * pageSize) ((first + count) * pageSize)) set)
    (grown : (List.range' first count).foldlM sbrkPage (process, machine) = some (process', machine')) :
    Separate process'.pcb.ranges := by
  induction count generalizing first process machine with
  | zero =>
    cases Option.some.inj grown
    exact separate
  | succ count ih =>
    have split : (first + (count + 1)) * pageSize = (first + 1 + count) * pageSize := by
      rw [add_right_comm, add_assoc]
    have next : (first + 1) * pageSize = first * pageSize + pageSize := succ_mul _ _
    have ordered : (first + 1) * pageSize ≤ (first + 1 + count) * pageSize :=
      mul_le_mul_right _ (le_add_right _ _)
    have positive := pageSize_pos
    rw [split] at bounded clear
    have laterClear : ∀ set ∈ process.pcb.ranges,
        Disjoint (Set.Ico ((first + 1) * pageSize) ((first + 1 + count) * pageSize)) set :=
      fun set member => (clear set member).mono_left (Set.Ico_subset_Ico_left (by omega))
    simp only [range'_succ, foldlM_cons, sbrkPage, bind_eq_some] at grown
    obtain ⟨⟨_, machine⟩, ⟨⟨_, _, _⟩, allocated, same⟩, rest⟩ := grown
    cases Option.some.inj same
    rcases frameAlloc_outcome allocated with ⟨_, rfl, _⟩ | ⟨tracks, _, _, _, _, rfl⟩
    · exact ih bounded separate laterClear rest
    · have start : wrapMul first pageSize = first * pageSize := mod_eq_of_lt (by omega)
      rw [start] at rest
      set area := allocArea .Mmap (first * pageSize) 1 tracks
      have shms : (process.placed area (first * pageSize) .urwx).pcb.shms = process.pcb.shms := rfl
      have layout : (process.placed area (first * pageSize) .urwx).pcb.memset.layout =
        process.pcb.memset.layout ++ [area.bare] := layout_append _ _
      have range : area.range ⊆ Set.Ico (first * pageSize) ((first + 1) * pageSize) := by
        refine Set.Ico_subset_Ico_right ?_
        rw [next]
        exact mod_le _ _
      refine ih bounded (separate_of_area separate shms layout fun set member => ?_) ?_ rest
      · exact (clear set member).mono_left (range.trans (Set.Ico_subset_Ico_right ordered))
      · intro set member
        rw [ranges_of_area shms layout] at member
        rcases mem_append.mp member with inFront | inShms
        · rcases mem_append.mp inFront with inAreas | added
          · exact laterClear set (mem_append_left _ inAreas)
          · rw [mem_singleton.mp added]
            refine Disjoint.mono_right range (disjoint_left.mpr fun _ late early => ?_)
            have later := (mem_Ico.mp late).1
            have earlier := (mem_Ico.mp early).2
            omega
        · exact laterClear set (mem_append_right _ inShms)

theorem sysBrk_separate {answer : Nat} (word : addr < usizeBound) (separate : Separate space.process.pcb.ranges)
    (clear : ∀ set ∈ space.process.pcb.ranges, Disjoint (brkRange space.process addr) set)
    (done : sysBrk space addr = some (answer, after)) : Separate after.process.pcb.ranges := by
  unfold sysBrk at done
  split at done
  · exact (Prod.mk.inj (Option.some.inj done)).2 ▸ separate
  · simp only [sbrk_eq, bind_eq_some, bind_eq_some_iff] at done
    obtain ⟨⟨_, process, _⟩, ⟨⟨grown, _⟩, growing, _, rfl, _⟩, ⟨⟩⟩ := done
    rcases le_total (divCeil space.process.pcb.heap pageSize) (divCeil addr pageSize) with
      growth | shrinking
    · have pages := add_sub_of_le growth
      have bounded : divCeil addr pageSize * pageSize ≤ usizeBound :=
        Nat.mul_le_mul_right pageSize ((@divCeil_le_iff addr pageSize (2 ^ 52) pageSize_pos).mpr (le_of_lt word))
      have kept : Separate grown.pcb.ranges :=
        sbrk_pages (by rwa [pages]) separate (by rwa [pages]) growing
      exact kept
    · rw [Nat.sub_eq_zero_of_le shrinking] at growing
      cases Option.some.inj growing
      exact separate

theorem sysShmat_separate {shmid shmaddr : Nat} (separate : Separate space.process.pcb.ranges)
    (clear : ∀ trackers, context.sharedMemory shmid = some trackers →
      ∀ set ∈ space.process.pcb.ranges, Disjoint
        (Set.Ico (shmatAddr space.process shmaddr)
          (wrapAdd (shmatAddr space.process shmaddr) (wrapMul trackers.length pageSize))) set)
    (done : sysShmat context space shmid shmaddr = some (answer, after)) :
    Separate after.process.pcb.ranges := by
  unfold sysShmat at done
  cases found : context.sharedMemory shmid with
  | none =>
    simp only [found, Option.some.injEq, Prod.mk.injEq] at done
    exact done.2 ▸ separate
  | some trackers =>
    simp only [found, bind_eq_some] at done
    obtain ⟨process, mapped, ⟨⟩⟩ := done
    have pcb : process.pcb = space.process.pcb := by rw [mapSegment_eq_some mapped]
    have added := Separate.insert (by rwa [append_nil]) (by rw [append_nil]; exact clear trackers found)
    simp only [ProcessControlBlock.ranges, append_nil, append_assoc] at added
    simpa only [ProcessControlBlock.ranges, pcb, map_append, map_cons, map_nil, MapedSharedMemory.range] using added

end Layout

/-! ## Runs -/

inductive Event where
  | mmap (start len prot flags fd off : Nat)
  | munmap (start len : Nat)
  | brk (addr : Nat)
  | shmat (shmid shmaddr : Nat)
  | fault (vaddr : Nat)
  /-- A fork, followed on the side of the parent or of the child. -/
  | fork (childId : Nat) (intoChild : Bool)
  /-- Other processes and the rest of the kernel run. -/
  | elsewhere

structure Occasion where
  context : MmContext
  taskId : Nat
  event : Event

inductive Step : UserSpace → Occasion → UserSpace → Prop where
  | mmap {context taskId space start len prot flags fd off answer after writes}
      (done : sysMmap context taskId space start len prot flags fd off = some (answer, after, writes)) :
      Step space ⟨context, taskId, .mmap start len prot flags fd off⟩ after
  | munmap {context taskId space start len} :
      Step space ⟨context, taskId, .munmap start len⟩ (sysMunmap context space start len).1
  | brk {context taskId space addr answer after} (word : addr < usizeBound)
      (done : sysBrk space addr = some (answer, after)) :
      Step space ⟨context, taskId, .brk addr⟩ after
  | shmat {context taskId space shmid shmaddr answer after}
      (done : sysShmat context space shmid shmaddr = some (answer, after)) :
      Step space ⟨context, taskId, .shmat shmid shmaddr⟩ after
  | fault {context taskId space vaddr after} (served : space.userCowInt context.around taskId vaddr = some after) :
      Step space ⟨context, taskId, .fault vaddr⟩ after
  | fork {context taskId space childId intoChild parent child}
      (forked : space.process.cowFork taskId childId = some (parent, child)) :
      Step space ⟨context, taskId, .fork childId intoChild⟩
        { space with process := if intoChild then child else parent }
  | elsewhere {context taskId space machine tls} : Step space ⟨context, taskId, .elsewhere⟩ { space with machine, tls }

/-- The event adds only addresses that no area and no segment has. -/
def Occasion.Clear (space : UserSpace) : Occasion → Prop
  | ⟨_, _, .mmap start len _ _ _ _⟩ =>
    let addr := mmapAddr space.process start
    addr + alignup len pageSize < usizeBound ∧ ∀ shm ∈ space.process.pcb.shms,
      Disjoint (Set.Ico addr (addr + alignup len pageSize)) shm.range
  | ⟨_, _, .munmap start len⟩ => start + len < usizeBound
  | ⟨_, _, .brk addr⟩ =>
    ∀ set ∈ space.process.pcb.ranges, Disjoint (brkRange space.process addr) set
  | ⟨context, _, .shmat shmid shmaddr⟩ =>
    let addr := shmatAddr space.process shmaddr
    ∀ trackers, context.sharedMemory shmid = some trackers → ∀ set ∈ space.process.pcb.ranges,
      Disjoint (Set.Ico addr (wrapAdd addr (wrapMul trackers.length pageSize))) set
  | ⟨context, _, .fault vaddr⟩ =>
    space.process.pcb.memset.areaAt vaddr = none →
      SegmentReadable context.around.files space.process.pcb.memset vaddr ∧
      ∀ plan, windowPlan context.around.files space.process.pcb.memset vaddr = some plan →
        (plan.mtype = .Stack ∧ ∃ area ∈ space.process.pcb.memset, area.mtype = .Stack) ∨
        ∀ set ∈ space.process.pcb.ranges, Disjoint (plan.area vaddr []).range set
  | _ => True

theorem fault_separate {context : MmContext} {taskId vaddr : Nat} {space after : UserSpace}
    (separate : Separate space.process.pcb.ranges)
    (clear : Occasion.Clear space ⟨context, taskId, .fault vaddr⟩)
    (served : space.userCowInt context.around taskId vaddr = some after) :
    Separate after.process.pcb.ranges := by
  obtain ⟨shms, same | ⟨unowned, gone | ⟨plan, tracks, planned, layout⟩⟩⟩ :=
    (userCowInt_fault served fun unowned => (clear unowned).1).layout_change
  · exact separate_of_layout separate shms same
  · rw [ProcessControlBlock.ranges, gone, shms]
    exact (pairwise_append.mp separate).2.1
  · rw [layout_place] at layout
    split at layout
    · exact separate_of_layout separate shms layout
    · next added =>
      refine separate_of_area separate shms layout ?_
      rcases (clear unowned).2 plan planned with stack | _
      · exact absurd ⟨by simp [allocArea, stack.1], stack.2⟩ added
      · have range : (plan.area vaddr tracks).range = (plan.area vaddr []).range := by
          simp only [allocArea, MemArea.range, MemArea.finish]
          split <;> rfl
        rwa [range]

theorem Step.separate {space after : UserSpace} {occasion : Occasion}
    (separate : Separate space.process.pcb.ranges) (step : Step space occasion after)
    (clear : occasion.Clear space) : Separate after.process.pcb.ranges := by
  cases step with
  | mmap done => exact sysMmap_separate separate clear.1 clear.2 done
  | munmap => exact sysMunmap_separate separate clear
  | brk word done => exact sysBrk_separate word separate clear done
  | shmat done => exact sysShmat_separate separate clear done
  | fault served => exact fault_separate separate clear served
  | @fork _ _ _ _ intoChild _ _ forked =>
    obtain ⟨rfl, memset, shms, _⟩ := cowFork_outcome forked
    cases intoChild with
    | false => exact separate
    | true => exact separate_of_layout separate shms (by rw [← memset]; rfl)
  | elsewhere => exact separate

/-- In separate ranges at most one area contains an address, so looking for the
first one that does is unambiguous. -/
theorem unambiguous {memset : MemSet} (separate : Separate memset.ranges) {area : MemArea}
    {address : Nat} (found : memset.areaAt address = some area) :
    memset.filter (fun area => area.contains address) = [area] := by
  induction memset with
  | nil => cases found
  | cons head rest ih =>
    obtain ⟨apart, later⟩ := pairwise_cons.mp separate
    by_cases inside : head.contains address
    · have first : head = area := by simpa [inside] using found
      have none : rest.filter (fun area => area.contains address) = [] := by
        refine filter_eq_nil_iff.mpr fun other member => ?_
        have disjoint := apart other.range (mem_map_of_mem member)
        simpa using fun low high => disjoint_left.mp disjoint inside ⟨low, high⟩
      rw [filter_cons, if_pos (decide_eq_true inside), none, first]
    · have skipped : rest.find? (fun area => area.contains address) = some area := by
        simpa [inside] using found
      simpa [inside] using ih later skipped

/-- From a fresh process on, in every run whose events add only free addresses,
areas and segments stay apart, and an address is in one area at most. -/
theorem ranges_stay_apart {environment : ExecEnvironment} {taskId : Nat} {start finish : UserSpace}
    {occasions : List Occasion} (fresh : Fresh environment taskId start.process)
    (run : Run (fun before occasion after => Step before occasion after ∧ occasion.Clear before)
      start occasions finish) :
    Separate finish.process.pcb.ranges ∧
      ∀ address area,
        finish.process.pcb.memset.find? (fun area => area.contains address) = some area →
        finish.process.pcb.memset.filter (fun area => area.contains address) = [area] := by
  have separate : Separate finish.process.pcb.ranges :=
    @Run.preserves _ _ _ (fun space => Separate space.process.pcb.ranges)
      (fun kept step => step.1.separate kept step.2) _ _ _ run fresh.separate
  exact ⟨separate, fun _ _ found => unambiguous (pairwise_append.mp separate).1 found⟩

def tinyProgram : TaskCacheTemplate where
  name := ["init"]
  entry := 0x1000
  maps := []
  base := 0
  heapBottom := 0x5000
  phCount := 1
  phEntrySize := 56
  phAddr := 0

def tinyEnvironment : ExecEnvironment where
  around := .alone
  openFile := fun _ => .error .ENOENT
  parseElf := fun _ => none
  caches := [tinyProgram]
  libcPath := ""
  dynPath := ""

def tinyContext : MmContext where
  around := .alone
  written := fun _ => Surroundings.alone.files
  written_nil := rfl
  sharedMemory := fun _ => none
  loongarch64 := false

def started : UserSpace :=
  (loadTemplate tinyEnvironment 1 blank [] ["init"] tinyProgram).get (by decide +kernel)

theorem started_fresh : Fresh tinyEnvironment 1 started.process :=
  .template rfl rfl (by simp [tinyProgram]) (by decide +kernel) (some_get (by decide +kernel)).symm

theorem ranges_stay_apart_remapped :
    ∃ finish, Separate finish.process.pcb.ranges ∧
      Run (fun before occasion after => Step before occasion after ∧ occasion.Clear before) started
        [⟨tinyContext, 1, .munmap 0x7fff0000 0x1000⟩,
          ⟨tinyContext, 1, .mmap 0 0x2000 3 0x22 (2 ^ 64 - 1) 0⟩] finish := by
  let unmapped := (sysMunmap tinyContext started 0x7fff0000 0x1000).1
  have present : (sysMmap tinyContext 1 unmapped 0 0x2000 3 0x22 (2 ^ 64 - 1) 0).isSome := by
    decide +kernel
  obtain ⟨⟨answer, finish, writes⟩, mapped⟩ := isSome_iff_exists.mp present
  have clear : Occasion.Clear unmapped ⟨tinyContext, 1, .mmap 0 0x2000 3 0x22 (2 ^ 64 - 1) 0⟩ := by
    have detached : unmapped.process.pcb.shms = [] := by decide +kernel
    exact ⟨by decide +kernel, by simp [detached]⟩
  exact ⟨finish, (and_iff_right_of_imp fun run => (ranges_stay_apart started_fresh run).1).mpr
    (.cons ⟨.munmap, show 0x7fff0000 + 0x1000 < usizeBound by decide⟩ (.cons ⟨.mmap mapped, clear⟩ .refl))⟩

/-- The break grows over a page, shrinks and grows again: the page is in two areas. -/
theorem regrown_break_overlaps :
    Fresh tinyEnvironment 1 started.process ∧ ∃ finish, Run Step started
        [⟨tinyContext, 1, .brk 0x6000⟩, ⟨tinyContext, 1, .brk 0x5000⟩, ⟨tinyContext, 1, .brk 0x6000⟩] finish ∧
      (finish.process.pcb.memset.filter fun area => area.contains 0x5000).length = 2 ∧
      ¬ Separate finish.process.pcb.ranges := by
  have evaluated : ((do
      let grown ← sysBrk started 0x6000
      let shrunk ← sysBrk grown.2 0x5000
      let regrown ← sysBrk shrunk.2 0x6000
      some (regrown.2.process.pcb.memset.filter fun area => area.contains 0x5000).length) : Option Nat) =
      some 2 := by decide +kernel
  simp only [bind_eq_some, Option.some.injEq] at evaluated
  obtain ⟨⟨_, grown⟩, growing, ⟨_, shrunk⟩, shrinking, ⟨_, regrown⟩, regrowing, twice⟩ := evaluated
  refine ⟨started_fresh, regrown, .cons (.brk (by decide) growing) (.cons (.brk (by decide) shrinking)
    (.cons (.brk (by decide) regrowing) .refl)), twice, fun separate => ?_⟩
  cases found : regrown.process.pcb.memset.areaAt 0x5000 with
  | none =>
    rw [filter_eq_nil_iff.mpr (find?_eq_none.mp found)] at twice
    cases twice
  | some area =>
    rw [unambiguous (pairwise_append.mp separate).1 found] at twice
    cases twice

end MonkeyOS.Syscall
