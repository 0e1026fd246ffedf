import MonkeyOS.Lib.Layers
import MonkeyOS.Tasks.ExecLayout
import MonkeyOS.Tasks.InitialStack
import MonkeyOS.User.FrameUse

/-!
# The image of a static program

Every loadable segment gets fresh pages of its own, also where a segment before it
has pages already. What a program finds in its memory is therefore painted segment
by segment, each over whole pages.
-/

set_option autoImplicit false

namespace MonkeyOS.Tasks

open Lib User List UserSpace Set Nat

/-! ## What the headers describe -/

def Elf.loads (elf : Elf) : List ProgramHeader := elf.programs.filter fun header => header.type = some .load

def segmentByte (buffer : List UInt8) (header : ProgramHeader) (index : Nat) : UInt8 :=
  if index < header.fileSize then buffer.getD (header.offset + index) 0 else 0

/-- Every byte of every segment reads as its header says. -/
def Described (base : Nat) (buffer : List UInt8) (headers : List ProgramHeader) (space : UserSpace) : Prop :=
  ∀ header ∈ headers, ∀ index < header.memSize,
    space.byteAt (base + header.virtualAddr + index) = some (segmentByte buffer header index)

/-- The pages of a segment hold no byte of an earlier one but zeros. -/
def PagesApart (base : Nat) (buffer : List UInt8) (headers : List ProgramHeader) : Prop :=
  headers.Pairwise fun earlier later => ∀ index < earlier.fileSize,
    base + earlier.virtualAddr + index ∈ segmentRange base later → buffer.getD (earlier.offset + index) 0 = 0

/-- The bytes of the segment lie in user memory, which starts behind the null page. -/
structure SegmentInUser (base : Nat) (header : ProgramHeader) : Prop extends SegmentFits base header where
  user : pageSize ≤ base + header.virtualAddr

def segmentBytes (base : Nat) (header : ProgramHeader) : Set Nat :=
  Set.Ico (base + header.virtualAddr) (base + header.virtualAddr + header.memSize)

def segmentLayer (base : Nat) (buffer : List UInt8) (header : ProgramHeader) : Layer Nat UInt8 where
  covers := segmentRange base header
  own := segmentBytes base header
  value := fun address =>
    if base + header.virtualAddr ≤ address then segmentByte buffer header (address - (base + header.virtualAddr)) else 0

section Layers

variable {base address : Nat} {buffer : List UInt8} {header : ProgramHeader} {headers : List ProgramHeader}

theorem segmentLayer_value (index : Nat) :
    (segmentLayer base buffer header).value (base + header.virtualAddr + index) = segmentByte buffer header index := by
  simp [segmentLayer]

theorem segmentBytes_subset (base : Nat) (header : ProgramHeader) :
    segmentBytes base header ⊆ segmentRange base header := by
  intro _ inside
  obtain ⟨_, _⟩ := mem_Ico.mp inside
  have floor := pageFloor_le (base + header.virtualAddr)
  have ceil := le_divCeil_mul (base + header.virtualAddr + header.memSize) pageSize_pos
  exact mem_Ico.mpr ⟨by omega, by omega⟩

theorem segmentLayer_blank (fits : SegmentFits base header) (outside : address ∉ segmentBytes base header) :
    (segmentLayer base buffer header).value address = 0 := by
  have file := fits.file
  simp only [segmentLayer, segmentByte]
  simp only [segmentBytes, mem_Ico, not_and, not_lt] at outside
  split
  · rw [if_neg]
    omega
  · rfl

theorem mem_segmentBytes :
    address ∈ segmentBytes base header ↔ ∃ index < header.memSize, address = base + header.virtualAddr + index := by
  simp only [segmentBytes, mem_Ico]
  constructor
  · rintro ⟨_, _⟩
    exact ⟨address - (base + header.virtualAddr), by omega, by omega⟩
  · rintro ⟨_, _, rfl⟩
    omega

/-- Segments painted one after the other over whole pages are all seen exactly if the
pages of each leave the earlier ones alone. -/
theorem painted_described_iff {cells : Nat → Option UInt8} (fits : ∀ header ∈ headers, SegmentFits base header)
    (disjoint : headers.Pairwise fun earlier later => Disjoint (segmentBytes base earlier) (segmentBytes base later)) :
    (∀ header ∈ headers, ∀ index < header.memSize,
      (headers.map (segmentLayer base buffer)).foldl Layer.paint cells (base + header.virtualAddr + index) =
        some (segmentByte buffer header index)) ↔ PagesApart base buffer headers := by
  have shown := @Layer.all_show_iff Nat UInt8 (headers.map (segmentLayer base buffer)) 0
    (forall_mem_map.mpr fun header _ => segmentBytes_subset base header)
    (pairwise_map.mpr (disjoint.imp_of_mem fun _ member apart address inside =>
      segmentLayer_blank (fits _ member) (disjoint_left.mp apart inside))) cells
  rw [forall_mem_map, pairwise_map] at shown
  refine Iff.trans ?_ (shown.trans ?_)
  · refine forall₂_congr fun header _ => ⟨fun seen address inside => ?_, fun seen index bound => ?_⟩
    · obtain ⟨index, bound, rfl⟩ := mem_segmentBytes.mp inside
      rw [seen index bound, segmentLayer_value]
    · rw [seen _ (mem_segmentBytes.mpr ⟨index, bound, rfl⟩), segmentLayer_value]
  · refine List.Pairwise.iff_of_mem fun {earlier later} member _ => ⟨fun spared index bound covered => ?_,
      fun spared address inside covered => ?_⟩
    · have blank := spared _ (mem_segmentBytes.mpr ⟨index, lt_of_lt_of_le bound (fits _ member).file, rfl⟩) covered
      rwa [segmentLayer_value, segmentByte, if_pos bound] at blank
    · obtain ⟨index, bound, rfl⟩ := mem_segmentBytes.mp inside
      rw [segmentLayer_value, segmentByte]
      split
      · next inFile => exact spared index inFile covered
      · rfl

end Layers

/-! ## Loading segments -/

section Loading

variable {environment : ExecEnvironment} {taskId base : Nat} {kept : List Nat} {buffer : List UInt8}
  {header : ProgramHeader} {space after : UserSpace}

variable {count first frame second : Nat} {bytes : List UInt8} {elf : Elf}

theorem overlay_segment {floor : Nat} {data : List UInt8} {cells : Nat → UInt8}
    (start : floor ≤ base + header.virtualAddr) (listed : data = (buffer.drop header.offset).take header.fileSize)
    (length : data.length = header.fileSize) (blank : ∀ index < count, cells index = 0) {index : Nat}
    (bound : index < count) :
    overlay cells (base + header.virtualAddr - floor) data index =
      (segmentLayer base buffer header).value (floor + index) := by
  by_cases before : floor + index < base + header.virtualAddr
  · rw [overlay_before (by omega), blank index bound]
    simp [segmentLayer, before]
  obtain ⟨place, rfl⟩ : ∃ place, index = base + header.virtualAddr - floor + place :=
    ⟨index - (base + header.virtualAddr - floor), by omega⟩
  have address : floor + (base + header.virtualAddr - floor + place) = base + header.virtualAddr + place := by omega
  rw [address, segmentLayer_value, segmentByte]
  by_cases inFile : place < header.fileSize
  · rw [overlay_inside (by omega), if_pos inFile, getD_eq_getElem?_getD]
    simp only [listed]
    rw [getElem_take, getElem_drop, getElem?_eq_getElem, Option.getD_some]
  · rw [overlay_after (by omega), if_neg inFile, blank _ bound]

theorem SegmentInUser.nonzero (fits : SegmentInUser base header) : pageFloor (base + header.virtualAddr) ≠ 0 := by
  have user := fits.user
  unfold pageFloor pageSize at *
  omega

theorem segmentData_length (inFile : header.offset + header.fileSize ≤ buffer.length) :
    ((buffer.drop header.offset).take header.fileSize).length = header.fileSize := by
  rw [length_take, length_drop]
  omega

section

variable (own : OwnFrames kept space)
include own

variable (fits : SegmentInUser base header)
  (loaded : loadSegment environment taskId base buffer space header = some after)
include fits loaded

theorem loadSegment_outcome :
    ∃ frames process machine mem, space.machine.Supplies frames machine ∧
      space.process.Receives (pageFloor (base + header.virtualAddr)) frames .urwx process ∧
      MappedWindow process.pageTable (pageFloor (base + header.virtualAddr)) frames ∧
      frames.length * pageSize = divCeil (base + header.virtualAddr + header.memSize) pageSize * pageSize -
        pageFloor (base + header.virtualAddr) ∧
      (∀ index < frames.length * pageSize, mem (place frames index) =
        (segmentLayer base buffer header).value (pageFloor (base + header.virtualAddr) + index)) ∧
      (∀ frame, frame % pageSize = 0 → frame ∉ frames → pageAt mem frame = pageAt machine.mem frame) ∧
      after = { space with process, machine }.withMem mem ∧ OwnFrames kept after := by
  obtain ⟨floor, _, _⟩ := fits.span
  have file := fits.file
  have pages := segmentPages_mul fits.toSegmentFits
  have nonzero := fits.nonzero
  obtain ⟨_, process, machine, stored, _, allocated, inFile, storing, reading⟩ :=
    loadSegment_eq_some fits.toSegmentFits loaded
  have taken := segmentData_length inFile
  set start := base + header.virtualAddr
  obtain ⟨frames, length, -, supplied, received, window, blank⟩ :=
    MappedWindow.of_frameAlloc own.clean (pageFloor_mod _) nonzero (by rw [pages]; omega) rfl allocated
  have own := own.frameAlloc (pageFloor_mod _) nonzero (by rw [pages]; omega) allocated
  rw [← length] at pages blank
  have offset : start = pageFloor start + (start - pageFloor start) := by omega
  obtain ⟨mem, done, cells, others⟩ := @MappedWindow.storeBytes _ _ { space with process, machine } environment.around
    taskId (start - pageFloor start) window ((buffer.drop header.offset).take header.fileSize) (by omega)
  rw [← offset, storing, Option.some.injEq] at done
  -- The comparisons only read pages that are mapped.
  have quiet := @MappedWindow.loadBytes _ _ stored environment.around taskId (start - pageFloor start)
    (by rw [done]; exact window) header.fileSize (by omega)
  rw [← offset, reading, Option.some.injEq, Prod.mk.injEq] at quiet
  obtain rfl : after = stored := quiet.2
  exact ⟨frames, process, machine, mem, supplied, received, window, pages, fun index bound =>
    (cells index bound).trans (overlay_segment floor rfl taken blank bound), others, done, own.storeBytes storing⟩

theorem loadSegment_paints :
    OwnFrames kept after ∧ after.byteAt = (segmentLayer base buffer header).paint space.byteAt := by
  obtain ⟨frames, process, _, mem, supplied, received, window, _, cells, others, rfl, owned⟩ :=
    loadSegment_outcome own fits loaded
  refine ⟨owned, funext fun address => ?_⟩
  by_cases covered : address ∈ segmentRange base header
  · obtain ⟨low, _⟩ := mem_Ico.mp covered
    obtain ⟨index, rfl⟩ := Nat.exists_eq_add_of_le low
    have bound : index < frames.length * pageSize := by omega
    rw [Layer.paint_covered covered, ← cells index bound]
    exact MappedWindow.byteAt window bound
  · have page : process.pageTable (pageFloor address) = space.process.pageTable (pageFloor address) := by
      refine received.pages.others _ fun page bound _ => covered ?_
      have last : (page + 1) * pageSize ≤ frames.length * pageSize := mul_le_mul_right _ bound
      have above := pageFloor_le address
      have below : address < pageFloor address + pageSize := lt_div_mul_add pageSize_pos
      rw [succ_mul] at last
      exact mem_Ico.mpr ⟨by omega, by omega⟩
    rw [Layer.paint_uncovered covered, byteAt_eq, byteAt_eq]
    simp only [withMem, page]
    cases mapped : space.process.pageTable (pageFloor address) with
    | none => rfl
    | some mapping =>
      -- A fresh frame is not one that the process used before.
      obtain ⟨held, -⟩ := own.used mapping.paddr (.inl ⟨_, mapping, mapped, rfl⟩)
      have fresh : mapping.paddr ∉ frames := fun member => held.used (supplied.grants.free _ member)
      rw [Option.map_some, Option.map_some,
        others mapping.paddr (held.registered.aligned own.clean.wellFormed) fresh, supplied.mem]

omit fits loaded

theorem loadSegments_paint {headers : List ProgramHeader} (fits : ∀ header ∈ headers, SegmentInUser base header)
    (loaded : headers.foldlM (loadSegment environment taskId base buffer) space = some after) :
    OwnFrames kept after ∧ after.byteAt = (headers.map (segmentLayer base buffer)).foldl Layer.paint space.byteAt := by
  induction headers generalizing space with
  | nil =>
    cases Option.some.inj loaded
    exact ⟨own, rfl⟩
  | cons _ headers ih =>
    simp only [foldlM_cons, bind_eq_some] at loaded
    obtain ⟨_, first, rest⟩ := loaded
    obtain ⟨here, later⟩ := forall_mem_cons.mp fits
    obtain ⟨own, painted⟩ := loadSegment_paints own here first
    obtain ⟨own, shown⟩ := ih own later rest
    exact ⟨own, by rw [shown, painted, map_cons, foldl_cons]⟩

/-! ## The stack and the file before them -/

theorem setRegister_own (register : TrapFrameArgs) (value : Nat) :
    OwnFrames kept (setRegister taskId space register value) :=
  ⟨own.clean, own.holds, own.used, own.anonymous⟩

theorem pushArr_own {address : Nat}
    (pushed : pushArr environment taskId space bytes = some (address, after)) : OwnFrames kept after := by
  simp only [pushArr, bind_eq_some] at pushed
  obtain ⟨_, storing, ⟨⟩⟩ := pushed
  exact setRegister_own (own.storeBytes storing) ..

theorem pushNum_own {value : Nat} (pushed : pushNum environment taskId space value = some after) :
    OwnFrames kept after := by
  simp only [pushNum, bind_eq_some] at pushed
  obtain ⟨_, storing, ⟨⟩⟩ := pushed
  exact setRegister_own (own.storeBytes storing) ..

theorem initTaskStack_own {args : List String} {path : String} {image : ImageInfo}
    (pushed : initTaskStack environment taskId space args path image = some after) : OwnFrames kept after := by
  obtain ⟨_, owned⟩ := @initTaskStack_budget environment taskId space after (fun _ => OwnFrames kept) _
    (fun own _ => pushArr_own own) (fun own _ => pushNum_own own) args path image (le_refl _)
    (fun allocated _ _ => by
      have mapped := own.frameAlloc (by decide) (by decide) (by decide) allocated
      exact ⟨mapped.clean, mapped.holds, mapped.used, mapped.anonymous⟩) pushed
  exact owned

end

theorem mem_frameRun : frame ∈ frameRun first count ↔ ∃ page < count, first + page * pageSize = frame := by
  simp [frameRun]

theorem pageAt_overlay_run {mem : PhysMem} (firstAligned : first % pageSize = 0)
    (aligned : frame % pageSize = 0) (short : bytes.length ≤ count * pageSize)
    (outside : frame ∉ frameRun first count) : pageAt (overlay mem first bytes) frame = pageAt mem frame := by
  funext offset
  simp only [pageAt]
  split
  · by_cases before : frame < first
    · exact overlay_before (by unfold pageSize at *; omega)
    · have behind : count * pageSize ≤ frame - first := by
        by_contra inside
        refine outside (mem_frameRun.mpr ⟨(frame - first) / pageSize,
          (Nat.div_lt_iff_lt_mul pageSize_pos).mpr (Nat.lt_of_not_le inside), ?_⟩)
        unfold pageSize at *
        omega
      exact overlay_after (by omega)
  · rfl

theorem readImage_own {inode : Inode} {fileSize : Nat} {frames : List Nat} {machine : Machine}
    (clean : space.machine.Clean) (bare : space.process.pcb.memset = []) (reset : space.process.pageTable = .empty)
    (read : readImage environment space.machine inode fileSize = some (.ok buffer, frames, machine)) :
    frames.Nodup ∧ OwnFrames frames { space with machine } ∧
      environment.around.files.readat inode 0 fileSize = .ok buffer := by
  simp only [readImage, bind_eq_some] at read
  obtain ⟨⟨_, _⟩, allocated, first, head, read⟩ := read
  obtain ⟨length, supplied⟩ := Machine.frameAllocMuch_supplies clean.wellFormed allocated
  have grants := supplied.grants
  split at read
  · simp at read
  · next _ answered =>
    split at read
    · next whole =>
      cases read
      have positive : 1 ≤ divCeil fileSize pageSize := by
        rw [← length]
        exact length_pos_of_mem (mem_of_mem_head? head)
      obtain ⟨⟨given, rest⟩, allocating, same⟩ := Option.map_eq_some_iff.mp allocated
      obtain ⟨rfl, rfl⟩ := Prod.mk.inj same
      obtain ⟨start, run⟩ := allocMuch_frameRun clean.wellFormed.regions positive allocating
      obtain rfl : start = first := by
        rw [run, head?_frameRun positive, Option.some.injEq] at head
        exact head
      have unused : ∀ frame, ¬ space.process.Uses frame := by
        rintro frame (⟨_, _, found, -⟩ | ⟨_, member, -⟩)
        · rw [reset] at found
          cases found
        · rw [bare] at member
          cases member
      have held : ∀ frame ∈ given, rest.Holds frame := fun frame member =>
        ⟨(grants.free frame member).registered.of_bounds grants.bounds,
          fun free => ((grants.rest frame).mp free).2 member⟩
      refine ⟨grants.distinct, ⟨⟨grants.wellFormed, fun frame free => ?_⟩, held,
        fun frame used => absurd used (unused frame), by rw [bare]; exact nofun⟩, answered⟩
      obtain ⟨before, outside⟩ := (grants.rest frame).mp free
      have aligned := (grants.free _ (mem_of_mem_head? head)).registered.aligned clean.wellFormed
      refine (pageAt_overlay_run aligned (before.registered.aligned clean.wellFormed)
        (by rw [whole]; exact le_divCeil_mul _ pageSize_pos) (run ▸ outside)).trans ?_
      exact clean.blank frame before
    · cases read

theorem dropFrames_byteAt (own : OwnFrames kept space) (distinct : kept.Nodup) :
    (dropFrames space kept).byteAt = space.byteAt := by
  have released := Machine.dropFrames_releases own.clean.wellFormed distinct fun frame member =>
    ⟨(own.holds frame member).registered, (own.holds frame member).used⟩
  funext address
  rw [byteAt_eq, byteAt_eq]
  cases mapped : space.process.pageTable (pageFloor address) with
  | none => simp [dropFrames, mapped]
  | some mapping =>
    obtain ⟨held, outside⟩ := own.used mapping.paddr (.inl ⟨_, mapping, mapped, rfl⟩)
    have same := released.kept mapping.paddr (held.registered.aligned own.clean.wellFormed) outside
    simp only [dropFrames, mapped, Option.map_some, same]

theorem loadImage_paints {args : List String} {path : PathBuf} (own : OwnFrames kept space)
    (relocated : elf.base = some base) (inUser : ∀ header ∈ elf.loads, SegmentInUser base header)
    (loaded : loadImage environment taskId space args path elf buffer = some after) :
    OwnFrames kept after ∧
      ∃ cells, after.byteAt = (elf.loads.map (segmentLayer base buffer)).foldl Layer.paint cells := by
  simp only [loadImage, relocated, bind_eq_some, Option.some.injEq] at loaded
  obtain ⟨_, _, _, rfl, _, stacking, loaded⟩ := loaded
  split at loaded
  · cases loaded
  · obtain ⟨own, painted⟩ := loadSegments_paint (initTaskStack_own own stacking) inUser loaded
    exact ⟨own, _, painted⟩

/-! ## The whole image -/

/-- The path is that of a static program that is not among the templates. -/
structure StaticProgram (environment : ExecEnvironment) (path : PathBuf) (buffer : List UInt8) (elf : Elf)
    (base : Nat) : Prop where
  uncached : environment.caches.find? (fun template => template.name = path) = none
  file : ∃ inode fileSize, environment.openFile path = .ok inode ∧
    environment.around.files.size inode = .ok fileSize ∧ environment.around.files.readat inode 0 fileSize = .ok buffer
  parsed : environment.parseElf buffer = some elf
  static : elf.dynamic = false
  relocated : elf.base = some base

/-- A static program whose segments do not overlap finds its image as its headers
describe it exactly if the pages of each segment hold nothing of the earlier ones. -/
theorem exec_image_described_iff {fuel : Nat} {currDir : PathBuf} {name : String} {args : List String} {elf : Elf}
    (program : StaticProgram environment (currDir.join name) buffer elf base)
    (clean : (teardown environment space).machine.Clean) (inUser : ∀ header ∈ elf.loads, SegmentInUser base header)
    (disjoint : elf.loads.Pairwise fun earlier later => Disjoint (segmentBytes base earlier) (segmentBytes base later))
    (done : execWithProcess environment taskId fuel space currDir name args = some (.ok (), after)) :
    Described base buffer elf.loads after ↔ PagesApart base buffer elf.loads := by
  obtain ⟨inode, fileSize, opened, sized, content⟩ := program.file
  cases fuel with
  | zero => simp [execWithProcess] at done
  | succ fuel =>
  rw [execWithProcess] at done
  simp only [program.uncached, opened, sized, bind_eq_some] at done
  obtain ⟨⟨result, frames, machine⟩, read, done⟩ := done
  cases result with
  | error errno => simp at done
  | ok bytes =>
  obtain ⟨distinct, own, answered⟩ := readImage_own clean rfl rfl read
  rw [content, Except.ok.injEq] at answered
  subst answered
  simp only [program.parsed, program.static, Bool.false_eq_true, if_false, bind_eq_some, Option.some.injEq,
    Prod.mk.injEq, true_and] at done
  obtain ⟨loaded, loading, rfl⟩ := done
  obtain ⟨own, cells, painted⟩ := loadImage_paints own program.relocated inUser loading
  rw [Described, dropFrames_byteAt own distinct, painted]
  exact painted_described_iff (fun header member => (inUser header member).toSegmentFits) disjoint

/-! ### A reader, and files for it -/

def field (bytes : List UInt8) (offset width : Nat) : Nat := leValue ((bytes.drop offset).take width)

def readProgram (bytes : List UInt8) (start : Nat) : ProgramHeader where
  type := some (match field bytes start 4 with
    | 1 => .load
    | 3 => .interp
    | 6 => .phdr
    | _ => .other)
  offset := field bytes (start + 8) 8
  virtualAddr := field bytes (start + 16) 8
  fileSize := field bytes (start + 32) 8
  memSize := field bytes (start + 40) 8
  data := some ((bytes.drop (field bytes (start + 8) 8)).take (field bytes (start + 32) 8))

/-- A 64-bit file without sections. -/
def readElf (bytes : List UInt8) : Option Elf :=
  if bytes.take 5 = [0x7f, 0x45, 0x4c, 0x46, 2] ∧ 64 ≤ bytes.length ∧ field bytes 60 2 = 0 then
    some
      { entryPoint := field bytes 24 8, phCount := field bytes 56 2, phEntrySize := field bytes 54 2
        phOffset := field bytes 32 8
        programs := (List.range (field bytes 56 2)).map fun index =>
          readProgram bytes (field bytes 32 8 + index * field bytes 54 2)
        relaDyn := none, dynsym := none }
  else none

def elfHeader (entry phCount : Nat) : List UInt8 :=
  [0x7f, 0x45, 0x4c, 0x46, 2, 1, 1] ++ replicate 9 0 ++ leBytes 2 2 ++ leBytes 2 243 ++ leBytes 4 1 ++
    leBytes 8 entry ++ leBytes 8 64 ++ leBytes 8 0 ++ leBytes 4 0 ++ leBytes 2 64 ++ leBytes 2 56 ++
    leBytes 2 phCount ++ leBytes 2 64 ++ leBytes 2 0 ++ leBytes 2 0

def programBytes (type offset virtualAddr size : Nat) : List UInt8 :=
  leBytes 4 type ++ leBytes 4 7 ++ leBytes 8 offset ++ leBytes 8 virtualAddr ++ leBytes 8 virtualAddr ++
    leBytes 8 size ++ leBytes 8 size ++ leBytes 8 1

/-- The file system has one file. -/
def onlyFile (bytes : List UInt8) : ExecEnvironment where
  around := { Surroundings.alone with files :=
    { readat := fun _ offset bufferLen => .ok ((bytes.drop offset).take bufferLen)
      readat_fits := by
        intro inode offset bufferLen _ read
        cases read
        exact length_take_le ..
      size := fun _ => .ok bytes.length } }
  openFile := fun _ => .ok 0
  parseElf := readElf
  caches := []
  libcPath := ""
  dynPath := ""

/-- Two segments of a byte each; the first is at 0x10000. -/
def twoBytes (second : Nat) : List UInt8 :=
  elfHeader 0x10000 2 ++ programBytes 1 176 0x10000 1 ++ programBytes 1 177 second 1 ++ [1, 2]

def twoBytesElf (second : Nat) : Elf where
  entryPoint := 0x10000
  phCount := 2
  phEntrySize := 56
  phOffset := 64
  programs :=
    [{ type := some .load, offset := 176, virtualAddr := 0x10000, fileSize := 1, memSize := 1, data := some [1] },
      { type := some .load, offset := 177, virtualAddr := second, fileSize := 1, memSize := 1, data := some [2] }]
  relaDyn := none
  dynsym := none

theorem onlyFile_static (parsed : readElf bytes = some elf)
    (static : elf.dynamic = false) (relocated : elf.base = some base) (path : PathBuf) :
    StaticProgram (onlyFile bytes) path bytes elf base :=
  ⟨rfl, ⟨0, bytes.length, rfl, rfl, by simp [onlyFile]⟩, parsed, static, relocated⟩

theorem twoBytes_inUser (low : pageSize ≤ second) (high : second + 1 + pageSize < usizeBound) :
    ∀ header ∈ (twoBytesElf second).loads, SegmentInUser 0 header := by
  refine forall_mem_cons.mpr ⟨⟨⟨by decide, le_refl 1⟩, by decide⟩, forall_mem_cons.mpr
    ⟨⟨⟨?_, le_refl 1⟩, ?_⟩, forall_mem_nil _⟩⟩
  · simpa using high
  · simpa using low

theorem twoBytes_disjoint (different : 0x10000 ≠ second) :
    (twoBytesElf second).loads.Pairwise fun earlier later =>
      Disjoint (segmentBytes 0 earlier) (segmentBytes 0 later) := by
  refine pairwise_cons.mpr ⟨forall_mem_cons.mpr ⟨?_, forall_mem_nil _⟩, pairwise_singleton _ _⟩
  refine disjoint_left.mpr fun _ left right => ?_
  simp only [segmentBytes, mem_Ico] at left right
  omega

theorem eq_ok_of_toOption {result : Except Errno Unit} (ok : result.toOption = some ()) : result = .ok () := by
  cases result with
  | error _ => cases ok
  | ok _ => rfl

/-- The file byte of the first segment is lost when the second gets a fresh frame for
their page. -/
theorem shared_page_loses_bytes :
    ∃ after, execWithProcess (onlyFile (twoBytes 0x10010)) 7 1 newcomer [] "/" [] = some (.ok (), after) ∧
      StaticProgram (onlyFile (twoBytes 0x10010)) [] (twoBytes 0x10010) (twoBytesElf 0x10010) 0 ∧
      (teardown (onlyFile (twoBytes 0x10010)) newcomer).machine.Clean ∧
      (∀ header ∈ (twoBytesElf 0x10010).loads, SegmentInUser 0 header) ∧
      ((twoBytesElf 0x10010).loads.Pairwise fun earlier later =>
        Disjoint (segmentBytes 0 earlier) (segmentBytes 0 later)) ∧
      after.byteAt 0x10000 = some 0 ∧ ¬ Described 0 (twoBytes 0x10010) (twoBytesElf 0x10010).loads after := by
  have evaluated : (execWithProcess (onlyFile (twoBytes 0x10010)) 7 1 newcomer [] "/" []).map
      (fun answer => (answer.1.toOption, answer.2.byteAt 0x10000)) = some (some (), some 0) := by
    rw [execWithProcess, PathBuf.join_root]
    decide +kernel
  obtain ⟨⟨result, after⟩, done, same⟩ := Option.map_eq_some_iff.mp evaluated
  obtain ⟨ok, byte⟩ := Prod.mk.inj same
  obtain rfl := eq_ok_of_toOption ok
  refine ⟨after, done, onlyFile_static (by decide +kernel) rfl rfl [], newcomer_clean,
    twoBytes_inUser (by decide) (by decide), twoBytes_disjoint (by decide), byte, fun described => ?_⟩
  have first := described _ mem_cons_self 0 (by decide)
  rw [zero_add, add_zero] at first
  exact absurd (byte.symm.trans first) (by decide)

theorem exec_image_described_iff_apart :
    ∃ after, execWithProcess (onlyFile (twoBytes 0x11000)) 7 1 newcomer [] "/" [] = some (.ok (), after) ∧
      Described 0 (twoBytes 0x11000) (twoBytesElf 0x11000).loads after := by
  have evaluated : (execWithProcess (onlyFile (twoBytes 0x11000)) 7 1 newcomer [] "/" []).map
      (fun answer => answer.1.toOption) = some (some ()) := by
    rw [execWithProcess, PathBuf.join_root]
    decide +kernel
  obtain ⟨⟨result, after⟩, done, ok⟩ := Option.map_eq_some_iff.mp evaluated
  obtain rfl := eq_ok_of_toOption ok
  have clean : (teardown (onlyFile (twoBytes 0x11000)) newcomer).machine.Clean := newcomer_clean
  refine ⟨after, done, (exec_image_described_iff (onlyFile_static (by decide +kernel) rfl rfl _) clean
    (twoBytes_inUser (by decide) (by decide)) (twoBytes_disjoint (by decide)) done).mpr ?_⟩
  refine pairwise_cons.mpr ⟨forall_mem_cons.mpr ⟨fun index bound covered => ?_, forall_mem_nil _⟩,
    pairwise_singleton _ _⟩
  obtain ⟨low, -⟩ := mem_Ico.mp covered
  have floor : pageFloor (0 + 0x11000) = 0x11000 := rfl
  simp only at bound low
  omega

end Loading

end MonkeyOS.Tasks
