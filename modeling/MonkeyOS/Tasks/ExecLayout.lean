import MonkeyOS.Tasks.Exec
import MonkeyOS.User.AddressSpace

/-! The ranges of a process after `execve`: the stack and the segments of its
program. -/

set_option autoImplicit false

namespace MonkeyOS.Tasks

open Lib User List MemSet UserSpace Nat Process

/-! ## The initial stack -/

section Stack

variable {environment : ExecEnvironment} {taskId : Nat} {space after : UserSpace}

def stackArea : MemArea := allocArea .Stack 0 0 []

structure StackOnly (space : UserSpace) : Prop where
  detached : space.process.pcb.shms = []
  layout : space.process.pcb.memset.layout = [] ∨ space.process.pcb.memset.layout = [stackArea]

theorem StackOnly.place (only : StackOnly space) (vaddr count : Nat) (tracks : List MapTrack) :
    MemSet.layout (space.process.pcb.memset.place (allocArea .Stack vaddr count tracks)) = [stackArea] := by
  rw [MemSet.layout_place]
  rcases only.layout with empty | stack
  · have bare : space.process.pcb.memset = [] := map_eq_nil_iff.mp empty
    simp [bare, MemSet.layout, allocArea, MemArea.bare, stackArea]
  · have listed : stackArea ∈ space.process.pcb.memset.layout := by simp [stack]
    obtain ⟨area, member, same⟩ := mem_map.mp listed
    have kind : area.mtype = .Stack := congrArg MemArea.mtype same
    rw [if_pos ⟨rfl, area, member, kind⟩, stack]

theorem StackOnly.fault {around : Surroundings} {vaddr : Nat} (only : StackOnly space)
    (inside : within 0x70000000 0x80000000 vaddr)
    (served : space.userCowInt around taskId vaddr = some after) : StackOnly after := by
  have readable : SegmentReadable around.files space.process.pcb.memset vaddr :=
    fun _ => by omega
  obtain ⟨shms, same | ⟨_, gone | ⟨_, tracks, planned, layout⟩⟩⟩ :=
    (userCowInt_fault served fun _ => readable).layout_change
  · exact ⟨shms.trans only.detached, by rw [same]; exact only.layout⟩
  · exact ⟨shms.trans only.detached, .inl (by rw [gone]; rfl)⟩
  · rw [windowPlan, if_pos inside] at planned
    cases Option.some.inj planned
    exact ⟨shms.trans only.detached, .inr (layout.trans (only.place _ _ tracks))⟩

theorem StackOnly.storeBytes {around : Surroundings} {vaddr : Nat} {bytes : List UInt8}
    (only : StackOnly space) (low : 0x70000000 ≤ vaddr) (high : vaddr + bytes.length ≤ 0x80000000)
    (stored : space.storeBytes around taskId vaddr bytes = some after) : StackOnly after := by
  refine storeBytes_preserves (fun {before _ index _} bound only storing => ?_) stored only
  have inside : within 0x70000000 0x80000000 (wrapAdd vaddr index) := by
    rw [wrapAdd_eq (by unfold usizeBound; omega)]
    omega
  obtain ⟨_, _, accessed, rfl⟩ := storeByte_access storing
  rcases access_cases accessed with ⟨-, -, rfl⟩ | ⟨-, served, -⟩
  · exact ⟨only.detached, only.layout⟩
  · have kept := only.fault inside served
    exact ⟨kept.detached, kept.layout⟩

structure Roomy (taskId room : Nat) (space : UserSpace) : Prop where
  only : StackOnly space
  low : 0x70000000 + room ≤ (space.process.tcb taskId).cx .SP
  high : (space.process.tcb taskId).cx .SP ≤ 0x80000000

theorem setRegister_roomy {room sp : Nat} (only : StackOnly space) (low : 0x70000000 + room ≤ sp)
    (high : sp ≤ 0x80000000) : Roomy taskId room (setRegister taskId space .SP sp) where
  only := ⟨only.detached, only.layout⟩
  low := by simpa [setRegister] using low
  high := by simpa [setRegister] using high

theorem alignup_eight_le {len : Nat} (small : len + 1 < 0x20000000) :
    len < alignup (len + 1) 8 ∧ alignup (len + 1) 8 ≤ len + 8 := by
  have upper := divCeil_mul_lt (len + 1) (show 0 < 8 by decide)
  have lower := le_divCeil_mul (len + 1) (show 0 < 8 by decide)
  have exact : alignup (len + 1) 8 = divCeil (len + 1) 8 * 8 :=
    mod_eq_of_lt (by unfold usizeBound; omega)
  omega

section Pushes

variable {total : Nat}

theorem pushArr_roomy {address : Nat} {buffer : List UInt8} (roomy : Roomy taskId total space)
    (enough : buffer.length + 8 ≤ total)
    (pushed : pushArr environment taskId space buffer = some (address, after)) :
    Roomy taskId (total - (buffer.length + 8)) after := by
  have low := roomy.low
  have high := roomy.high
  have need := @alignup_eight_le buffer.length (by omega)
  simp only [pushArr, bind_eq_some] at pushed
  obtain ⟨_, storing, ⟨⟩⟩ := pushed
  rw [wrapSub_eq (by omega) (by unfold usizeBound; omega)] at storing ⊢
  exact setRegister_roomy (roomy.only.storeBytes (by omega) (by omega) storing) (by omega) (by omega)

theorem pushNum_roomy {value : Nat} (roomy : Roomy taskId total space) (enough : 8 ≤ total)
    (pushed : pushNum environment taskId space value = some after) : Roomy taskId (total - 8) after := by
  have low := roomy.low
  have high := roomy.high
  simp only [pushNum, bind_eq_some] at pushed
  obtain ⟨_, storing, ⟨⟩⟩ := pushed
  have length : (wordBytes value).length = 8 := by simp [wordBytes]
  rw [wrapSub_eq (by omega) (by unfold usizeBound; omega)] at storing ⊢
  exact setRegister_roomy (roomy.only.storeBytes (by omega) (by omega) storing) (by omega) (by omega)

def stringsNeed (texts : List String) : Nat :=
  (texts.map fun text => text.toUTF8.toList.length + 8).sum

theorem stringsNeed_reverse (texts : List String) : stringsNeed texts.reverse = stringsNeed texts := by
  rw [stringsNeed, map_reverse, sum_reverse, stringsNeed]

theorem stringsNeed_cons (text : String) (texts : List String) :
    stringsNeed (text :: texts) = text.toUTF8.toList.length + 8 + stringsNeed texts := by
  rw [stringsNeed, map_cons, sum_cons, stringsNeed]

end Pushes

/-- Bytes of the stack that strings, vectors and counters of a new program take, at most. -/
def stackNeed (environment : ExecEnvironment) (args : List String) (path : String) : Nat :=
  stringsNeed (initialEnvironment environment) + stringsNeed args + stringsNeed ["riscv", path] +
    8 * args.length + 512

section Budget

variable {P : Nat → UserSpace → Prop} {total : Nat}
  (arr : ∀ {room space after bytes address}, P room space → bytes.length + 8 ≤ room →
    pushArr environment taskId space bytes = some (address, after) → P (room - (bytes.length + 8)) after)
  (num : ∀ {room space after value}, P room space → 8 ≤ room →
    pushNum environment taskId space value = some after → P (room - 8) after)
include num in
theorem pushNums_budget {values : List Nat} (start : P total space) (enough : 8 * values.length ≤ total)
    (pushed : pushNums environment taskId space values = some after) : P (total - 8 * values.length) after := by
  induction values generalizing space total with
  | nil =>
    cases pushed
    exact start
  | cons _ values ih =>
    simp only [pushNums, foldlM_cons, bind_eq_some] at pushed
    obtain ⟨_, first, rest⟩ := pushed
    rw [length_cons, mul_succ, add_comm] at enough ⊢
    rw [sub_add_eq]
    exact ih (num start (by omega) first) (by omega) rest

include arr in
theorem pushStrs_budget {texts : List String} {addresses : List Nat} (start : P total space)
    (enough : stringsNeed texts ≤ total) (pushed : pushStrs environment taskId space texts = some (addresses, after)) :
    P (total - stringsNeed texts) after ∧ addresses.length = texts.length := by
  induction texts generalizing space total addresses with
  | nil =>
    cases Option.some.inj pushed
    exact ⟨start, rfl⟩
  | cons _ texts ih =>
    simp only [pushStrs, bind_eq_some] at pushed
    obtain ⟨⟨_, _⟩, first, ⟨_, _⟩, rest, ⟨⟩⟩ := pushed
    rw [stringsNeed_cons] at enough ⊢
    obtain ⟨_, length⟩ := ih (arr start (by omega) first) (by omega) rest
    exact ⟨by rwa [sub_add_eq], by simp [length]⟩

include arr num in
/-- What holds of the empty stack with room for all pushes, and of what a push leaves,
holds in the end. -/
theorem initTaskStack_budget {args : List String} {path : String} {image : ImageInfo}
    (fits : stackNeed environment args path ≤ total)
    (started : ∀ {ppn process machine}, space.process.frameAlloc space.machine (userStackTop - userStackInitSize) .Stack
      (userStackInitSize / pageSize) = some (ppn, process, machine) → ∀ entry tcb,
      P total (setRegister taskId (setRegister taskId
        { space with
          process := { process with
            pcb := { process.pcb with heap := image.heapBottom, entry }
            tcb }
          machine } .SP userStackTop) .SEPC entry))
    (pushed : initTaskStack environment taskId space args path image = some after) : ∃ room, P room after := by
  simp only [initTaskStack, bind_eq_some] at pushed
  obtain ⟨⟨_, process, machine⟩, allocated, ⟨envp, _⟩, pushEnv, ⟨_, _⟩, pushArgs,
    ⟨random, _⟩, pushRandom, ⟨platform, _⟩, pushPlatform, ⟨execFn, _⟩, pushFn,
    _, pushEnd, _, pushAux, _, pushAuxEnd, _, pushEnvp, _,
    pushEnvEnd, _, pushArgv, pushCount⟩ := pushed
  simp only [stackNeed, stringsNeed_cons] at fits
  have texts : stringsNeed (initialEnvironment environment).reverse =
      stringsNeed (initialEnvironment environment) := stringsNeed_reverse _
  have arguments : stringsNeed args.reverse = stringsNeed args := stringsNeed_reverse _
  -- Each push leaves what the pushes after it need.
  obtain ⟨afterEnv, envCount⟩ := pushStrs_budget arr (started allocated _ _) (by omega) pushEnv
  obtain ⟨afterArgs, argCount⟩ := pushStrs_budget arr afterEnv (by omega) pushArgs
  rw [length_reverse] at envCount argCount
  have envCount : envp.length = 4 := envCount
  have randomCount : (replicate 16 (0 : UInt8)).length = 16 := length_replicate
  generalize auxEq : (auxv image platform execFn random).flatMap _ = words at pushAux
  have auxCount : words.length = 26 := auxEq ▸ rfl
  have afterRandom := arr afterArgs (by omega) pushRandom
  have afterPlatform := arr afterRandom (by omega) pushPlatform
  have afterFn := arr afterPlatform (by omega) pushFn
  have afterEnd := num afterFn (by omega) pushEnd
  have afterAux := pushNums_budget num afterEnd (by omega) pushAux
  have afterAuxEnd := num afterAux (by omega) pushAuxEnd
  have afterEnvp := pushNums_budget num afterAuxEnd (by dsimp only; omega) pushEnvp
  have afterEnvEnd := num afterEnvp (by dsimp only; omega) pushEnvEnd
  have afterArgv := pushNums_budget num afterEnvEnd (by dsimp only; omega) pushArgv
  exact ⟨_, num afterArgv (by dsimp only; omega) pushCount⟩

end Budget

theorem initTaskStack_stackOnly {args : List String} {path : String} {image : ImageInfo}
    (bare : space.process.pcb.memset = []) (detached : space.process.pcb.shms = [])
    (fits : stackNeed environment args path ≤ 0x10000000)
    (pushed : initTaskStack environment taskId space args path image = some after) :
    StackOnly after := by
  obtain ⟨_, roomy⟩ := initTaskStack_budget pushArr_roomy pushNum_roomy fits
    (fun {_ process machine} allocated _ _ => by
    have placed : StackOnly { space with process, machine } := by
      rcases frameAlloc_outcome allocated with ⟨_, rfl, _⟩ | ⟨tracks, _, _, _, _, rfl⟩
      · exact ⟨detached, .inl (by rw [bare]; rfl)⟩
      · exact ⟨detached, .inr (StackOnly.place ⟨detached, .inl (by rw [bare]; rfl)⟩ _ _ tracks)⟩
    refine ⟨⟨placed.detached, placed.layout⟩, ?_, ?_⟩ <;>
      simp [setRegister, userStackTop, TrapFrame.index_indexMut, TrapFrameArgs.general]) pushed
  exact roomy.only

end Stack

/-! ## Segments -/

section Images

variable {environment : ExecEnvironment} {taskId : Nat} {space after : UserSpace}

def segmentRange (base : Nat) (header : ProgramHeader) : Set Nat :=
  Set.Ico (pageFloor (base + header.virtualAddr))
    (divCeil (base + header.virtualAddr + header.memSize) pageSize * pageSize)

structure SegmentFits (base : Nat) (header : ProgramHeader) : Prop where
  bounded : base + header.virtualAddr + header.memSize + pageSize < usizeBound
  file : header.fileSize ≤ header.memSize

variable {base : Nat} {header : ProgramHeader} {buffer : List UInt8} {args : List String} {path : PathBuf}

variable (fits : SegmentFits base header)
include fits

/-- The pages of a segment hold its bytes and end before the address space does. -/
theorem SegmentFits.span :
    pageFloor (base + header.virtualAddr) ≤ base + header.virtualAddr ∧
      base + header.virtualAddr + header.memSize ≤
        divCeil (base + header.virtualAddr + header.memSize) pageSize * pageSize ∧
      divCeil (base + header.virtualAddr + header.memSize) pageSize * pageSize < usizeBound :=
  ⟨pageFloor_le _, le_divCeil_mul _ pageSize_pos, (divCeil_mul_lt _ pageSize_pos).trans fits.bounded⟩

theorem segmentPages_mul :
    wrapSub (divCeil (base + header.virtualAddr + header.memSize) pageSize)
        ((base + header.virtualAddr) / pageSize) * pageSize =
      divCeil (base + header.virtualAddr + header.memSize) pageSize * pageSize -
        pageFloor (base + header.virtualAddr) := by
  obtain ⟨floor, _, upper⟩ := fits.span
  generalize base + header.virtualAddr = start at *
  generalize divCeil (start + header.memSize) pageSize = last at *
  have ordered : start / pageSize ≤ last := by
    refine Nat.le_of_mul_le_mul_right (Nat.le_trans floor ?_) pageSize_pos
    omega
  have small : last < usizeBound := Nat.lt_of_le_of_lt (Nat.le_mul_of_pos_right last pageSize_pos) upper
  rw [wrapSub_eq ordered small, Nat.sub_mul, pageFloor]

private theorem segmentArea_range (tracks : List MapTrack) :
    (allocArea .Mmap (pageFloor (base + header.virtualAddr))
      (wrapSub (divCeil (base + header.virtualAddr + header.memSize) pageSize)
        ((base + header.virtualAddr) / pageSize)) tracks).range = segmentRange base header := by
  obtain ⟨_, _, _⟩ := fits.span
  have pages := segmentPages_mul fits
  simp only [MemArea.range, MemArea.finish, allocArea, segmentRange, reduceCtorEq, if_false]
  rw [wrapMul, pages, mod_eq_of_lt (by omega), wrapAdd_eq (by omega), Nat.add_sub_cancel' (by omega)]

theorem loadSegment_eq_some (loaded : loadSegment environment taskId base buffer space header = some after) :
    ∃ ppn process machine stored pageSpace,
      space.process.frameAlloc space.machine (pageFloor (base + header.virtualAddr)) .Mmap
        (wrapSub (divCeil (base + header.virtualAddr + header.memSize) pageSize)
          ((base + header.virtualAddr) / pageSize)) = some (some ppn, process, machine) ∧
      header.offset + header.fileSize ≤ buffer.length ∧
      storeBytes environment.around taskId { space with process, machine } (base + header.virtualAddr)
        ((buffer.drop header.offset).take header.fileSize) = some stored ∧
      stored.loadBytes environment.around taskId (base + header.virtualAddr) header.fileSize =
        some (pageSpace, after) := by
  have bounded := fits.bounded
  simp only [loadSegment, bind_eq_some] at loaded
  rw [wrapAdd_eq (by omega), wrapAdd_eq (by omega)] at loaded
  obtain ⟨⟨_, process, machine⟩, allocated, ppn, present, loaded⟩ := loaded
  obtain rfl : _ = some ppn := present
  split at loaded
  · next inFile =>
    simp only [bind_eq_some] at loaded
    obtain ⟨stored, storing, ⟨pageSpace, _⟩, reading, loaded⟩ := loaded
    split at loaded
    · cases loaded
      exact ⟨ppn, process, machine, stored, pageSpace, allocated, inFile, storing, reading⟩
    · cases loaded
  · cases loaded

theorem loadSegment_ranges (loaded : loadSegment environment taskId base buffer space header = some after) :
    after.process.pcb.shms = space.process.pcb.shms ∧
      after.process.pcb.memset.ranges = space.process.pcb.memset.ranges ++ [segmentRange base header] := by
  obtain ⟨floor, lower, _⟩ := fits.span
  have file := fits.file
  obtain ⟨_, process, _, _, _, allocated, -, storing, reading⟩ := loadSegment_eq_some fits loaded
  set start := base + header.virtualAddr
  rcases frameAlloc_outcome allocated with ⟨missing, _⟩ | ⟨tracks, _, _, _, _, rfl⟩
  · cases missing
  · generalize areaEq : allocArea .Mmap (pageFloor start) (wrapSub (divCeil (start + header.memSize) pageSize)
      (start / pageSize)) tracks = area at *
    have range : area.range = segmentRange base header := areaEq ▸ segmentArea_range fits tracks
    have kind : area.mtype ≠ .Stack := by simp [← areaEq, allocArea]
    have shms : (space.process.placed area (pageFloor start) (allocFlags .Mmap)).pcb.shms = space.process.pcb.shms :=
      rfl
    have memset := @placed_memset space.process area kind (pageFloor start) (allocFlags .Mmap)
    generalize space.process.placed area (pageFloor start) (allocFlags .Mmap) = placed at *
    have covered : ∀ index < header.fileSize, ∃ area ∈ placed.pcb.memset, area.contains (start + index) := by
      intro index bound
      refine ⟨area, by simp [memset], ?_⟩
      have inside : start + index ∈ area.range := by
        rw [range]
        exact ⟨floor.trans (Nat.le_add_right ..), Nat.lt_of_lt_of_le (by omega) lower⟩
      exact inside
    have short : ((buffer.drop header.offset).take header.fileSize).length ≤ header.fileSize :=
      length_take_le _ _
    obtain ⟨storedShms, storedLayout⟩ := storeBytes_layout (fun index bound => by
      rw [wrapAdd_eq (by omega)]
      exact covered index (by omega)) storing
    obtain ⟨readShms, readLayout⟩ := loadBytes_layout (by omega)
      (fun index bound => contains_of_layout storedLayout (covered index bound)) reading
    refine ⟨readShms.trans (storedShms.trans shms), ?_⟩
    rw [ranges_of_layout (readLayout.trans storedLayout), memset, ← range]
    simp [MemSet.ranges]

omit fits

theorem loadSegments_ranges {headers : List ProgramHeader} (fits : ∀ header ∈ headers, SegmentFits base header)
    (loaded : headers.foldlM (loadSegment environment taskId base buffer) space = some after) :
    after.process.pcb.shms = space.process.pcb.shms ∧ after.process.pcb.memset.ranges =
      space.process.pcb.memset.ranges ++ headers.map (segmentRange base) := by
  induction headers generalizing space with
  | nil =>
    cases Option.some.inj loaded
    simp
  | cons header headers ih =>
    simp only [foldlM_cons, bind_eq_some] at loaded
    obtain ⟨_, first, rest⟩ := loaded
    obtain ⟨shms, ranges⟩ := loadSegment_ranges (fits header (by simp)) first
    obtain ⟨laterShms, laterRanges⟩ := ih (fun later member => fits later (by simp [member])) rest
    exact ⟨laterShms.trans shms, by rw [laterRanges, ranges]; simp⟩

theorem StackOnly.ranges (only : StackOnly space) : space.process.pcb.memset.ranges.Sublist [stackArea.range] := by
  rcases only.layout with empty | stack
  · rw [map_eq_nil_iff.mp empty]
    exact nil_sublist _
  · have same : space.process.pcb.memset.layout = MemSet.layout [stackArea] := stack
    rw [ranges_of_layout same]
    exact List.Sublist.refl _

structure ImageClear (elf : Elf) (base : Nat) : Prop where
  fits : ∀ header ∈ elf.programs, header.type = some .load → SegmentFits base header
  apart : Separate (stackArea.range ::
    (elf.programs.filter fun header => header.type = some .load).map (segmentRange base))

theorem loadImage_separate {elf : Elf} (bare : space.process.pcb.memset = [])
    (detached : space.process.pcb.shms = []) (relocated : elf.base = some base) (clear : ImageClear elf base)
    (fits : stackNeed environment args path.path ≤ 0x10000000)
    (loaded : loadImage environment taskId space args path elf buffer = some after) :
    Separate after.process.pcb.ranges := by
  simp only [loadImage, relocated, bind_eq_some, Option.some.injEq] at loaded
  obtain ⟨_, _, _, rfl, _, stacking, loaded⟩ := loaded
  have only := initTaskStack_stackOnly bare detached fits stacking
  split at loaded
  · cases loaded
  · obtain ⟨shms, ranges⟩ := loadSegments_ranges (fun header member => by
      obtain ⟨listed, load⟩ := mem_filter.mp member
      exact clear.fits header listed (of_decide_eq_true load)) loaded
    rw [ProcessControlBlock.ranges, shms, only.detached, ranges, map_nil, append_nil]
    exact clear.apart.sublist (only.ranges.append (List.Sublist.refl _))

theorem mapTemplate_separate {maps : List MemArea} (separate : Separate space.process.pcb.ranges)
    (detached : space.process.pcb.shms = []) (ordered : ∀ area ∈ maps, area.start ≤ area.finish)
    (mapped : mapTemplate environment space maps = some after) : Separate after.process.pcb.ranges := by
  induction maps generalizing space with
  | nil =>
    cases Option.some.inj mapped
    exact separate
  | cons area maps ih =>
    simp only [mapTemplate, foldlM_cons, bind_eq_some, Option.some.injEq] at mapped
    obtain ⟨_, ⟨_, mapping, rfl⟩, rest⟩ := mapped
    obtain ⟨shms, roomSeparate, roomClear⟩ := subArea_separate (ordered area (by simp)) separate
    have pcb := congrArg pcb (mapTracks_eq_some mapping).2
    refine ih ?_ ?_ (fun later member => ordered later (by simp [member])) rest
    · refine @separate_of_area _ _ area roomSeparate ?_ ?_ ?_
      · simp only [pcb]
        rfl
      · simp only [pcb]
        exact layout_append _ [area]
      · intro set member
        rw [ProcessControlBlock.ranges, shms, detached, map_nil, append_nil] at member
        exact roomClear set member
    · simp only [pcb]
      exact shms.trans detached

theorem loadTemplate_separate {template : TaskCacheTemplate} (bare : space.process.pcb.memset = [])
    (detached : space.process.pcb.shms = []) (ordered : ∀ area ∈ template.maps, area.start ≤ area.finish)
    (fits : stackNeed environment args path.path ≤ 0x10000000)
    (loaded : loadTemplate environment taskId space args path template = some after) :
    Separate after.process.pcb.ranges := by
  simp only [loadTemplate, bind_eq_some] at loaded
  obtain ⟨_, stacking, mapped⟩ := loaded
  have only := initTaskStack_stackOnly bare detached fits stacking
  refine mapTemplate_separate ?_ only.detached ordered mapped
  rw [ProcessControlBlock.ranges, only.detached, map_nil, append_nil]
  exact (pairwise_singleton _ _).sublist only.ranges

/-- A process as `exec` leaves it, with a program whose parts do not collide and
arguments that fit on the stack. -/
inductive Fresh (environment : ExecEnvironment) (taskId : Nat) : Process → Prop where
  | template {space loaded args path template} (bare : space.process.pcb.memset = [])
      (detached : space.process.pcb.shms = [])
      (ordered : ∀ area ∈ template.maps, area.start ≤ area.finish)
      (fits : stackNeed environment args path.path ≤ 0x10000000)
      (loading : loadTemplate environment taskId space args path template = some loaded) :
      Fresh environment taskId loaded.process
  | image {space loaded args path elf buffer base} (bare : space.process.pcb.memset = [])
      (detached : space.process.pcb.shms = []) (relocated : elf.base = some base)
      (clear : ImageClear elf base) (fits : stackNeed environment args path.path ≤ 0x10000000)
      (loading : loadImage environment taskId space args path elf buffer = some loaded) :
      Fresh environment taskId loaded.process

theorem Fresh.separate {process : Process} (fresh : Fresh environment taskId process) :
    Separate process.pcb.ranges := by
  cases fresh with
  | template bare detached ordered fits loading =>
    exact loadTemplate_separate bare detached ordered fits loading
  | image bare detached relocated clear fits loading =>
    exact loadImage_separate bare detached relocated clear fits loading

end Images

end MonkeyOS.Tasks
