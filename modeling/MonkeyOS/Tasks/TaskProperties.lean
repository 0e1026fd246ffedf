import MonkeyOS.Tasks.Task

/-! What mapping, allocation and forks do to a process. -/

set_option autoImplicit false

namespace MonkeyOS

open Tasks List PageTable MapTrack Nat

/-! ## Mapping tracked pages -/

def PageTable.mapAll (table : PageTable) (tracks : List MapTrack) (flags : MappingFlags) : PageTable :=
  tracks.foldl (fun table track => table.mapPage track.vaddr track.tracker flags) table

def PageTable.mapPresent (table : PageTable) (vaddr : Nat) (tracks : List MapTrack)
    (flags : MappingFlags) : PageTable :=
  if vaddr ≠ 0 then table.mapAll (tracks.filter fun track => track.vaddr ≠ 0) flags else table

theorem PageTable.mapAll_cases {table : PageTable} {tracks : List MapTrack} {flags : MappingFlags}
    (aligned : ∀ track ∈ tracks, track.vaddr % pageSize = 0) (page : Nat) :
    (∃ track ∈ tracks, track.vaddr = page ∧
        table.mapAll tracks flags page = some { paddr := track.tracker, flags }) ∨
      ((∀ track ∈ tracks, track.vaddr ≠ page) ∧ table.mapAll tracks flags page = table page) := by
  induction tracks generalizing table with
  | nil => exact .inr ⟨nofun, rfl⟩
  | cons track tracks ih =>
    have floor := pageFloor_of_aligned (aligned track (by simp))
    rcases @ih (table.mapPage track.vaddr track.tracker flags)
        (fun later member => aligned later (by simp [member])) with
      ⟨later, member, same, found⟩ | ⟨others, found⟩
    · exact .inl ⟨later, by simp [member], same, found⟩
    · by_cases here : track.vaddr = page
      · subst here
        refine .inl ⟨track, by simp, rfl, found.trans ?_⟩
        simp [mapPage, floor]
      · refine .inr ⟨forall_mem_cons.mpr ⟨here, others⟩, found.trans ?_⟩
        simp [mapPage, floor, Function.update_of_ne (Ne.symm here)]

theorem PageTable.foldl_mapAll_cases {ι : Type} {items : List ι} {tracks : ι → List MapTrack}
    {flags : ι → MappingFlags} {table : PageTable}
    (aligned : ∀ item ∈ items, ∀ track ∈ tracks item, track.vaddr % pageSize = 0) (page : Nat) :
    let after := items.foldl (fun table item => table.mapAll (tracks item) (flags item)) table
    (∃ item ∈ items, ∃ track ∈ tracks item, track.vaddr = page ∧
        after page = some { paddr := track.tracker, flags := flags item }) ∨
      ((∀ item ∈ items, ∀ track ∈ tracks item, track.vaddr ≠ page) ∧ after page = table page) := by
  induction items generalizing table with
  | nil => exact .inr ⟨nofun, rfl⟩
  | cons item items ih =>
    rcases @ih (table.mapAll (tracks item) (flags item)) (fun later member => aligned later (by simp [member])) with
      ⟨later, member, track, tracked, same, found⟩ | ⟨others, found⟩
    · exact .inl ⟨later, by simp [member], track, tracked, same, found⟩
    · rcases @mapAll_cases table (tracks item) (flags item) (aligned item (by simp)) page with
        ⟨track, tracked, same, mapped⟩ | ⟨untracked, kept⟩
      · exact .inl ⟨item, by simp, track, tracked, same, found.trans mapped⟩
      · exact .inr ⟨forall_mem_cons.mpr ⟨untracked, others⟩, found.trans kept⟩

namespace Tasks

namespace Process

variable {flags : MappingFlags}

theorem map_eq_some {process after : Process} {paddr vaddr : Nat}
    (mapped : process.map paddr vaddr flags = some after) :
    (paddr % pageSize = 0 ∧ vaddr % pageSize = 0) ∧
      after = { process with pageTable := process.pageTable.mapPage vaddr paddr flags } := by
  unfold map at mapped
  split at mapped
  · next aligned => exact ⟨aligned, (Option.some.inj mapped).symm⟩
  · cases mapped

theorem mapTracks_eq_some {process after : Process} {tracks : List MapTrack}
    (mapped : process.mapTracks tracks flags = some after) :
    (∀ track ∈ tracks, track.tracker % pageSize = 0 ∧ track.vaddr % pageSize = 0) ∧
      after = { process with pageTable := process.pageTable.mapAll tracks flags } := by
  induction tracks generalizing process with
  | nil => exact ⟨nofun, (Option.some.inj mapped).symm⟩
  | cons _ tracks ih =>
    simp only [mapTracks, foldlM_cons, bind_eq_some] at mapped
    obtain ⟨_, first, rest⟩ := mapped
    obtain ⟨aligned, rfl⟩ := map_eq_some first
    obtain ⟨others, rfl⟩ := ih rest
    exact ⟨forall_mem_cons.mpr ⟨aligned, others⟩, rfl⟩

end Process

/-! ## Consecutive pages -/

section

variable {vaddr : Nat} {frames : List Nat} (nonzero : vaddr ≠ 0) (fits : vaddr + frames.length * pageSize < usizeBound)
include nonzero fits

theorem trackersAt_eq :
    trackersAt vaddr frames =
      frames.zipIdx.map fun (frame, page) => { vaddr := vaddr + page * pageSize, tracker := frame } := by
  refine map_congr_left fun (frame, page) member => ?_
  have bound : page < frames.length := snd_lt_of_mem_zipIdx member
  have below := mul_le_mul_right pageSize (le_of_lt bound)
  simp only [if_neg nonzero, wrapAdd_eq (by omega : vaddr + page * pageSize < usizeBound)]

theorem getElem?_trackersAt (page : Nat) :
    (trackersAt vaddr frames)[page]? =
      frames[page]?.map fun frame => { vaddr := vaddr + page * pageSize, tracker := frame } := by
  cases present : frames[page]? with
  | none => simp [trackersAt, getElem?_zipIdx, present]
  | some _ =>
    have bound := (List.getElem?_eq_some_iff.mp present).1
    have below : page * pageSize ≤ frames.length * pageSize :=
      mul_le_mul_right _ (le_of_lt bound)
    simp [trackersAt, getElem?_zipIdx, present, nonzero, wrapAdd_eq (by omega : vaddr + page * pageSize < usizeBound)]

theorem find?_trackersAt {page frame : Nat} (present : frames[page]? = some frame) :
    (trackersAt vaddr frames).find? (fun track => track.vaddr = vaddr + page * pageSize) =
      some { vaddr := vaddr + page * pageSize, tracker := frame } := by
  have at_page := getElem?_trackersAt nonzero fits page
  rw [present, Option.map_some] at at_page
  obtain ⟨bound, cell⟩ := List.getElem?_eq_some_iff.mp at_page
  refine find?_eq_some_iff_getElem.mpr ⟨by simp, page, bound, cell, fun earlier before => ?_⟩
  have listed := getElem?_trackersAt nonzero fits earlier
  rw [getElem?_eq_getElem (by omega)] at listed
  obtain ⟨_, _, same⟩ := Option.map_eq_some_iff.mp listed.symm
  have scaled := mul_lt_mul_of_pos_right before pageSize_pos
  have different : vaddr + earlier * pageSize ≠ vaddr + page * pageSize := by omega
  simpa only [← same, Bool.not_eq_true', decide_eq_false_iff_not] using different

theorem mem_trackersAt {track : MapTrack} (member : track ∈ trackersAt vaddr frames) :
    ∃ page : Nat, frames[page]? = some track.tracker ∧ track.vaddr = vaddr + page * pageSize := by
  obtain ⟨page, found⟩ := getElem?_of_mem member
  rw [getElem?_trackersAt nonzero fits] at found
  obtain ⟨_, present, rfl⟩ := Option.map_eq_some_iff.mp found
  exact ⟨page, present, rfl⟩

theorem nodup_trackersAt : ((trackersAt vaddr frames).map MapTrack.vaddr).Nodup := by
  have pages : (trackersAt vaddr frames).map MapTrack.vaddr =
      (List.range frames.length).map fun page => vaddr + page * pageSize := by
    rw [trackersAt_eq nonzero fits]
    exact ext_getElem (by simp) fun page _ _ => by simp
  rw [pages]
  refine List.Nodup.map (fun _ _ same => ?_) nodup_range
  exact eq_of_mul_eq_mul_right pageSize_pos (add_left_cancel same)

end

theorem trackersAt_append {vaddr : Nat} {front back : List Nat}
    (fits : vaddr + (front.length + back.length) * pageSize < usizeBound) :
    trackersAt vaddr (front ++ back) = trackersAt vaddr front ++
      trackersAt (if vaddr ≠ 0 then wrapAdd vaddr (front.length * pageSize) else vaddr) back := by
  rw [add_mul] at fits
  by_cases nonzero : vaddr ≠ 0
  · rw [if_pos nonzero, wrapAdd_eq (by omega), trackersAt_eq nonzero (by rw [length_append, add_mul]; omega),
      trackersAt_eq nonzero (by omega), trackersAt_eq (by omega) (by omega), zipIdx_append, map_append, zero_add]
    refine congrArg _ (ext_getElem (by simp) fun _ _ _ => ?_)
    simp [add_mul, add_assoc]
  · have unplaced : ∀ frames, trackersAt 0 frames = frames.map fun tracker => { vaddr := 0, tracker } :=
      fun frames => ext_getElem (by simp [trackersAt]) (by simp [trackersAt])
    rw [if_neg nonzero, not_not.mp nonzero, unplaced, unplaced, unplaced, map_append]

/-! ## Placing areas -/

/-- Stack pages go to the stack area there is; every other area is added. -/
def MemSet.place (memset : MemSet) (area : MemArea) : MemSet :=
  if area.mtype = .Stack then (memset.extendStack area.mtrackers).getD (memset ++ [area])
  else memset ++ [area]

theorem MemSet.extendStack_eq_none_iff {memset : MemSet} {tracks : List MapTrack} :
    memset.extendStack tracks = none ↔ ∀ area ∈ memset, area.mtype ≠ .Stack := by
  induction memset with
  | nil => simp [extendStack]
  | cons area _ ih =>
    by_cases stack : area.mtype = .Stack <;> simp [extendStack, stack, ih]

def allocArea (mtype : MemType) (vaddr count : Nat) (tracks : List MapTrack) : MemArea :=
  if mtype = .Stack then
    { mtype, mtrackers := tracks, file := none, offset := 0, start := 0x70000000, len := 0x10000000 }
  else
    { mtype, mtrackers := tracks, file := none, offset := 0, start := vaddr, len := wrapMul count pageSize }

@[simp] theorem mtrackers_allocArea {mtype : MemType} {vaddr count : Nat} {tracks : List MapTrack} :
    (allocArea mtype vaddr count tracks).mtrackers = tracks := by
  unfold allocArea
  split <;> rfl

/-- `count` frames for the pages from `vaddr` on, in one run or in pieces. -/
def Machine.Obtains (machine : Machine) (vaddr count : Nat) (tracks : List MapTrack) (after : Machine) :
    Prop :=
  (∃ frames, machine.frameAllocMuch count = some (frames, after) ∧ tracks = trackersAt vaddr frames) ∨
    Process.allocSegments count machine count vaddr [] = (some tracks, after)

/-- No frames were obtained; the pieces of a run that fell short were returned. -/
def Machine.Declines (machine : Machine) (count : Nat) (after : Machine) : Prop :=
  after = machine ∨ 1 < count ∧ ∃ vaddr, Process.allocSegments count machine count vaddr [] = (none, after)

def Process.placed (process : Process) (area : MemArea) (vaddr : Nat) (flags : MappingFlags) : Process :=
  { process.withMemset (process.pcb.memset.place area) with
    pageTable := process.pageTable.mapPresent vaddr area.mtrackers flags }

namespace Process

variable {process after : Process} {machine machine' : Machine} {ppn : Option Nat} {vaddr count : Nat} {mtype : MemType}
  {flags : MappingFlags}

theorem mapPresent_eq_some {tracks : List MapTrack} (mapped : process.mapPresent vaddr tracks flags = some after) :
    (vaddr ≠ 0 → ∀ track ∈ tracks, track.vaddr ≠ 0 →
        track.tracker % pageSize = 0 ∧ track.vaddr % pageSize = 0) ∧
      after = { process with pageTable := process.pageTable.mapPresent vaddr tracks flags } := by
  unfold mapPresent at mapped
  split at mapped
  · next present =>
    obtain ⟨aligned, rfl⟩ := mapTracks_eq_some mapped
    exact ⟨fun _ track member nonzero => aligned track (by simp [member, nonzero]),
      by simp [PageTable.mapPresent, present]⟩
  · next absent =>
    exact ⟨fun present => absurd present absent, by simp [PageTable.mapPresent, absent, ← Option.some.inj mapped]⟩

theorem mapFrames_outcome {file : Option Inode} {offset start len : Nat}
    (done : process.mapFrames machine vaddr mtype count file offset start len flags = some (ppn, after, machine')) :
    (ppn = none ∧ after = process ∧ machine' = machine) ∨
      ∃ frames, machine.frameAllocMuch count = some (frames, machine') ∧ ppn = frames.head? ∧
        ppn.isSome ∧
        (vaddr ≠ 0 → ∀ track ∈ trackersAt vaddr frames, track.vaddr ≠ 0 →
          track.tracker % pageSize = 0 ∧ track.vaddr % pageSize = 0) ∧
        after = process.placed
          (if mtype = .Stack then
            { mtype, mtrackers := trackersAt vaddr frames, file := none, offset := 0
              start := 0x70000000, len := 0x10000000 }
          else { mtype, mtrackers := trackersAt vaddr frames, file, offset, start, len }) vaddr flags := by
  unfold mapFrames at done
  split at done
  · cases done
  · cases allocated : machine.frameAllocMuch count with
    | none =>
      simp only [allocated] at done
      cases done
      exact .inl ⟨rfl, rfl, rfl⟩
    | some granted =>
      obtain ⟨frames, _⟩ := granted
      simp only [allocated, bind_eq_some] at done
      obtain ⟨_, mapping, _, head, ⟨⟩⟩ := done
      obtain ⟨aligned, rfl⟩ := mapPresent_eq_some mapping
      refine .inr ⟨frames, rfl, head.symm, rfl, aligned, ?_⟩
      by_cases stack : mtype = .Stack <;> simp [placed, MemSet.place, withMemset, stack]

/-- The area is placed with the trackers, and aligned pages are mapped. -/
def Installs (process : Process) (vaddr : Nat) (mtype : MemType) (count : Nat) (tracks : List MapTrack)
    (ppn : Option Nat) (after : Process) : Prop :=
  ppn = tracks.head?.map tracker ∧ ppn.isSome ∧
    (vaddr ≠ 0 → ∀ track ∈ tracks, track.vaddr ≠ 0 → track.tracker % pageSize = 0 ∧ track.vaddr % pageSize = 0) ∧
    after = process.placed (allocArea mtype vaddr count tracks) vaddr (allocFlags mtype)

variable (done : process.frameAlloc machine vaddr mtype count = some (ppn, after, machine'))
include done

/-- As `frameAlloc_outcome`, with where the frames come from: only a request for
several `Mmap` pages is met in pieces, if no run is free. -/
theorem frameAlloc_cases :
    (ppn = none ∧ after = process ∧ machine.Declines count machine') ∨
      ∃ tracks, ((∃ frames, machine.frameAllocMuch count = some (frames, machine') ∧ tracks = trackersAt vaddr frames) ∨
          (mtype = .Mmap ∧ 1 < count ∧ machine.frameAllocMuch count = none) ∧
            allocSegments count machine count vaddr [] = (some tracks, machine')) ∧
        process.Installs vaddr mtype count tracks ppn after := by
  unfold frameAlloc at done
  split at done
  · next multiple =>
    obtain ⟨rfl, several⟩ := multiple
    have placing : ∀ {tracks filled},
        process.placeMmap filled vaddr count tracks = some (ppn, after, machine') →
        filled = machine' ∧ process.Installs vaddr .Mmap count tracks ppn after := by
      intro tracks filled placed
      simp only [placeMmap, bind_eq_some] at placed
      obtain ⟨_, mapping, _, head, ⟨⟩⟩ := placed
      obtain ⟨aligned, rfl⟩ := mapPresent_eq_some mapping
      exact ⟨rfl, by simp [head], rfl, aligned, by simp [Process.placed, MemSet.place, allocArea, withMemset]⟩
    split at done
    · next frames filled allocated =>
      obtain ⟨rfl, placed⟩ := placing done
      exact .inr ⟨_, .inl ⟨frames, allocated, rfl⟩, placed⟩
    · next refused =>
      split at done
      · next tracks filled gathered =>
        obtain ⟨rfl, placed⟩ := placing done
        exact .inr ⟨tracks, .inr ⟨⟨rfl, several, refused⟩, gathered⟩, placed⟩
      · next filled declined =>
        cases done
        exact .inl ⟨rfl, rfl, .inr ⟨several, vaddr, declined⟩⟩
  · rcases mapFrames_outcome done with ⟨rfl, rfl, rfl⟩ | ⟨frames, allocated, head, present, aligned, placed⟩
    · exact .inl ⟨rfl, rfl, .inl rfl⟩
    · refine .inr ⟨trackersAt vaddr frames, .inl ⟨frames, allocated, rfl⟩, ?_, present, aligned, placed⟩
      rw [head]
      cases frames with
      | nil => rfl
      | cons _ frames => simp [trackersAt, zipIdx_cons]

theorem frameAlloc_outcome :
    (ppn = none ∧ after = process ∧ machine.Declines count machine') ∨
      ∃ tracks, machine.Obtains vaddr count tracks machine' ∧ process.Installs vaddr mtype count tracks ppn after := by
  rcases frameAlloc_cases done with declined | ⟨tracks, source, placed⟩
  · exact .inl declined
  · exact .inr ⟨tracks, source.imp_right And.right, placed⟩

end Process

/-! ## Forks -/

def MapedSharedMemory.tracks (shm : MapedSharedMemory) : List MapTrack :=
  shm.mem.zipIdx.map fun (frame, index) =>
    { vaddr := wrapAdd shm.start (index * pageSize), tracker := frame }

def forkTable (table : PageTable) (memset : MemSet) : PageTable :=
  memset.foldl (fun table area => table.mapAll area.mtrackers (Process.forkFlags area.mtype)) table

def attachTable (table : PageTable) (shms : List MapedSharedMemory) : PageTable :=
  shms.foldl (fun table shm => table.mapAll shm.tracks .urwx) table

namespace Process

variable {after process child parent : Process} {memset : MemSet}

theorem mapSegment_eq_some {shm : MapedSharedMemory} (mapped : process.mapSegment shm = some after) :
    after = { process with pageTable := process.pageTable.mapAll shm.tracks .urwx } := by
  have same : process.mapSegment shm = process.mapTracks shm.tracks .urwx := by
    rw [mapSegment, mapTracks, MapedSharedMemory.tracks, foldlM_map]
  exact (mapTracks_eq_some (same ▸ mapped)).2

private theorem foldlM_mapSegment {shms : List MapedSharedMemory}
    (mapped : shms.foldlM mapSegment process = some after) :
    after = { process with pageTable := attachTable process.pageTable shms } := by
  induction shms generalizing process with
  | nil => exact (Option.some.inj mapped).symm
  | cons _ shms ih =>
    simp only [foldlM_cons, bind_eq_some] at mapped
    obtain ⟨_, first, rest⟩ := mapped
    rw [ih rest, mapSegment_eq_some first]
    rfl

private theorem foldlM_mapArea (mapped : memset.foldlM mapArea process = some after) :
    after = { process with pageTable := forkTable process.pageTable memset } := by
  induction memset generalizing process with
  | nil => exact (Option.some.inj mapped).symm
  | cons _ rest ih =>
    simp only [foldlM_cons, bind_eq_some] at mapped
    obtain ⟨_, first, rest⟩ := mapped
    rw [ih rest, (mapTracks_eq_some first).2]
    rfl

private theorem foldlM_takeArea (mapped : memset.foldlM (fun child area => do
      let child ← child.mapArea area
      some (child.withMemset (child.pcb.memset ++ [area]))) process = some after) :
    after = { process.withMemset (process.pcb.memset ++ memset) with
      pageTable := forkTable process.pageTable memset } := by
  induction memset generalizing process with
  | nil =>
    rw [← Option.some.inj mapped, append_nil]
    rfl
  | cons _ rest ih =>
    simp only [foldlM_cons, bind_eq_some, Option.some.injEq] at mapped
    obtain ⟨_, ⟨_, first, rfl⟩, rest⟩ := mapped
    rw [ih rest, (mapTracks_eq_some first).2]
    simp [withMemset, forkTable]

variable {taskId childId : Nat} (forked : process.cowFork taskId childId = some (parent, child))
include forked

theorem cowFork_outcome :
    parent = { process with
      pcb := { process.pcb with children := process.pcb.children ++ [childId] }
      pageTable := forkTable process.pageTable process.pcb.memset } ∧
    child.pcb.memset = process.pcb.memset ∧ child.pcb.shms = process.pcb.shms ∧
    child.pcb.exitCode = none ∧
    child.pageTable = attachTable (forkTable .empty process.pcb.memset) process.pcb.shms := by
  simp only [cowFork, bind_eq_some] at forked
  obtain ⟨_, mapped, _, taken, _, attached, ⟨⟩⟩ := forked
  rw [foldlM_mapSegment attached, foldlM_takeArea taken]
  exact ⟨foldlM_mapArea mapped, rfl, rfl, rfl, rfl⟩

theorem cowFork_files : child.pcb.fdTable = process.pcb.fdTable ∧ child.pcb.fileLimit = fileMax := by
  simp only [cowFork, bind_eq_some] at forked
  obtain ⟨_, _, _, taken, _, attached, ⟨⟩⟩ := forked
  rw [foldlM_mapSegment attached, foldlM_takeArea taken]
  exact ⟨rfl, rfl⟩

omit forked

theorem clearChildTid_fst (process : Process) (mem : PhysMem) (taskId : Nat) :
    ∃ futexTable, (process.clearChildTid mem taskId).1 = { process with pcb := { process.pcb with futexTable } } := by
  unfold clearChildTid
  dsimp only
  split
  · exact ⟨_, rfl⟩
  · split <;> exact ⟨_, rfl⟩

end Process

end Tasks

end MonkeyOS
