import MonkeyOS.Syscall.Memory
import MonkeyOS.Tasks.Tables

/-!
# Growing the heap

`sbrk` asks for the pages of the heap one at a time and looks at no answer: the
new limit is reported whether or not there were frames for it. The page tables that a
page lacks take frames, too.
-/

set_option autoImplicit false

namespace MonkeyOS.Syscall

open Lib Tasks User Process Nat
open MonkeyOS.Runtime

variable {space : UserSpace} {process : Process} {tables : Tables} {machine : Machine}
  {vaddr frame address first count addr : Nat}

def Backed (process : Process) (page : Nat) : Prop :=
  ∃ area ∈ process.pcb.memset, ∃ track ∈ area.mtrackers, track.vaddr = page ∧
    ∃ flags, process.pageTable page = some { paddr := track.tracker, flags }

/-! ## One page -/

def withPage (process : Process) (vaddr frame : Nat) : Process :=
  process.placed (allocArea .Mmap vaddr 1 [{ vaddr, tracker := frame }]) vaddr (allocFlags .Mmap)

theorem withPage_memset : (withPage process vaddr frame).pcb.memset =
    process.pcb.memset ++ [allocArea .Mmap vaddr 1 [{ vaddr, tracker := frame }]] := by
  simp [withPage, placed, MemSet.place, allocArea, withMemset]

theorem withPage_pageTable (aligned : vaddr % pageSize = 0) (nonzero : vaddr ≠ 0) :
    (withPage process vaddr frame).pageTable =
      Function.update process.pageTable vaddr (some { paddr := frame, flags := .urwx }) := by
  simp [withPage, placed, PageTable.mapPresent, PageTable.mapAll, PageTable.mapPage, allocArea, nonzero,
    allocFlags, pageFloor_of_aligned aligned]

theorem withPage_zero_pageTable : (withPage process 0 frame).pageTable = process.pageTable := by
  simp [withPage, placed, PageTable.mapPresent, withMemset]

theorem backed_withPage_iff :
    Backed (withPage process vaddr frame) address ↔
      (∃ area ∈ process.pcb.memset, ∃ track ∈ area.mtrackers, track.vaddr = address ∧
        ∃ flags, (withPage process vaddr frame).pageTable address = some { paddr := track.tracker, flags }) ∨
      vaddr = address ∧ ∃ flags, (withPage process vaddr frame).pageTable address = some { paddr := frame, flags } := by
  simp [Backed, withPage_memset, or_and_right, exists_or, allocArea]

theorem backed_withPage_of_ne (aligned : vaddr % pageSize = 0) (different : address ≠ vaddr) :
    Backed (withPage process vaddr frame) address ↔ Backed process address := by
  have same : (withPage process vaddr frame).pageTable address = process.pageTable address := by
    by_cases zero : vaddr = 0
    · rw [zero, withPage_zero_pageTable]
    · rw [withPage_pageTable aligned zero, Function.update_of_ne different]
  rw [backed_withPage_iff, same, or_iff_left fun own => different own.1.symm]
  rfl

theorem backed_withPage_self (aligned : vaddr % pageSize = 0) (nonzero : vaddr ≠ 0) :
    Backed (withPage process vaddr frame) vaddr := by
  rw [backed_withPage_iff, withPage_pageTable aligned nonzero]
  exact .inr ⟨rfl, .urwx, Function.update_self ..⟩

theorem backed_withPage_zero_iff :
    Backed (withPage process 0 frame) 0 ↔
      Backed process 0 ∨ ∃ flags, process.pageTable 0 = some { paddr := frame, flags } := by
  rw [backed_withPage_iff, withPage_zero_pageTable, eq_self, true_and]
  rfl

theorem frameAlloc_page (wellFormed : machine.frames.WellFormed) (aligned : vaddr % pageSize = 0)
    (word : vaddr < usizeBound) :
    machine.frames.getFreePageCount = 0 ∧ process.frameAlloc machine vaddr .Mmap 1 = some (none, process, machine) ∨
      ∃ frame filled, machine.frameAllocMuch 1 = some ([frame], filled) ∧
        process.frameAlloc machine vaddr .Mmap 1 = some (some frame, withPage process vaddr frame, filled) ∧
        filled.frames.WellFormed ∧ filled.frames.getFreePageCount + 1 = machine.frames.getFreePageCount := by
  have found := FrameAllocator.allocMuch_one_isSome_iff wellFormed.regions
  have single : ¬ (MemType.Mmap = .Mmap ∧ 1 > 1) := by decide
  cases allocated : machine.frameAllocMuch 1 with
  | none =>
    have declined : machine.frames.allocMuch 1 = none := Option.map_eq_none_iff.mp allocated
    rw [declined, Option.isSome_none] at found
    refine .inl ⟨by simpa using found, ?_⟩
    exact mapFrames_lacking one_pos allocated
  | some granted =>
    obtain ⟨frames, filled⟩ := granted
    obtain ⟨length, supplied⟩ := Machine.frameAllocMuch_supplies wellFormed allocated
    obtain ⟨frame, rfl⟩ := List.length_eq_one_iff.mp length
    have frameAligned := (supplied.grants.free frame (.head _)).registered.aligned wellFormed
    have tracks : trackersAt vaddr [frame] = [{ vaddr, tracker := frame }] := by
      simp [trackersAt, wrapAdd, mod_eq_of_lt word]
    have mapped := @mapPresent_eq process vaddr [{ vaddr, tracker := frame }] (allocFlags .Mmap)
      (by simp [aligned, frameAligned])
    refine .inr ⟨frame, filled, rfl, ?_, supplied.grants.wellFormed, supplied.grants.count⟩
    rw [frameAlloc, if_neg single]
    simp [mapFrames, allocated, tracks, mapped, withPage, placed, MemSet.place, allocArea, withMemset]

/-! ## The loop -/

/-- A round of `sbrk`, with the page tables. -/
def growPage (state : Process × Tables × Machine) (page : Nat) : Option (Process × Tables × Machine) :=
  (state.1.frameAllocTables state.2.1 state.2.2 (wrapMul page pageSize) .Mmap 1).map Prod.snd

def pagesFrom (first count : Nat) : List Nat :=
  (List.range' first count).flatMap fun page => mappedPages (page * pageSize) 1

/-- Page zero is never mapped, but may have been, to the frame it gets by chance. -/
def ZeroBacked (process : Process) (machine : Machine) : Prop :=
  Backed process 0 ∨ ∃ frame filled flags, machine.frameAllocMuch 1 = some ([frame], filled) ∧
    process.pageTable 0 = some { paddr := frame, flags }

structure Grows (process : Process) (machine : Machine) (first count : Nat) (after : Process) : Prop where
  others : ∀ address, (∀ page, first ≤ page → page < first + count → address ≠ page * pageSize) →
    (Backed after address ↔ Backed process address)
  pages : ∀ page, first ≤ page → page < first + count → page ≠ 0 → Backed after (page * pageSize)
  zero : first = 0 → 0 < count → (Backed after 0 ↔ ZeroBacked process machine)

variable (wellFormed : machine.frames.WellFormed)
include wellFormed

theorem growPage_backs (bounded : (first + 1) * pageSize ≤ usizeBound)
    (enough : 1 + tables.needs (mappedPages (first * pageSize) 1) ≤ machine.frames.getFreePageCount) :
    ∃ frame filled rest, machine.frameAllocMuch 1 = some ([frame], filled) ∧
      growPage (process, tables, machine) first = some (withPage process (first * pageSize) frame,
        (mappedPages (first * pageSize) 1).foldl .reaching tables, rest) ∧
      rest.frames.WellFormed ∧ rest.frames.getFreePageCount +
        (1 + tables.needs (mappedPages (first * pageSize) 1)) = machine.frames.getFreePageCount := by
  have word : first * pageSize < usizeBound := by
    have positive := pageSize_pos
    rw [succ_mul] at bounded
    omega
  have start : wrapMul first pageSize = first * pageSize := mod_eq_of_lt word
  obtain ⟨lacking, -⟩ | ⟨frame, filled, allocated, done, formed, left⟩ :=
    @frameAlloc_page process machine (first * pageSize) wellFormed (mul_mod_left _ _) word
  · omega
  obtain ⟨lacking, -⟩ | ⟨held, rest, mapped, total, supplied⟩ :=
    @Tables.mapPages_cases tables filled (mappedPages (first * pageSize) 1) formed
  · omega
  have := supplied.grants.count
  exact ⟨frame, filled, rest, allocated, by simp [growPage, frameAllocTables, start, done, mapped],
    supplied.grants.wellFormed, by omega⟩

theorem sbrk_grows (bounded : (first + count) * pageSize ≤ usizeBound)
    (enough : count + tables.needs (pagesFrom first count) ≤ machine.frames.getFreePageCount) :
    ∃ after rest, (List.range' first count).foldlM growPage (process, tables, machine) = some (after, rest) ∧
      Grows process machine first count after := by
  induction count generalizing first process tables machine with
  | zero => exact ⟨process, _, rfl, fun _ _ => Iff.rfl, fun page _ _ => by omega, fun _ => (absurd · (lt_irrefl 0))⟩
  | succ count ih =>
    have next : (first + 1 + count) * pageSize ≤ usizeBound := by rwa [add_right_comm, add_assoc]
    have here : (first + 1) * pageSize ≤ usizeBound :=
      (mul_le_mul_right _ (le_add_right _ _)).trans next
    rw [pagesFrom, List.range'_succ, List.flatMap_cons, Tables.needs_append] at enough
    obtain ⟨frame, filled, left, allocated, done, formed, spent⟩ :=
      @growPage_backs process tables machine first wellFormed here (by omega)
    obtain ⟨after, rest, looped, grows⟩ := @ih (withPage process (first * pageSize) frame)
      ((mappedPages (first * pageSize) 1).foldl .reaching tables) left (first + 1) formed next
      (by unfold pagesFrom; omega)
    have aligned : first * pageSize % pageSize = 0 := mul_mod_left _ _
    -- The pages behind the first leave its backing alone.
    have own := grows.others (first * pageSize) fun page lower upper same => by
      have := eq_of_mul_eq_mul_right pageSize_pos same
      omega
    refine ⟨after, rest, ?_, fun address apart => ?_, fun page lower upper nonzero => ?_, fun zero _ => ?_⟩
    · rw [List.range'_succ, List.foldlM_cons, done]
      exact looped
    · rw [grows.others address fun page lower upper => apart page (by omega) (by omega)]
      exact backed_withPage_of_ne aligned (apart first (le_refl _) (by omega))
    · by_cases same : page = first
      · subst same
        exact own.mpr (backed_withPage_self aligned (mul_ne_zero nonzero (ne_of_gt pageSize_pos)))
      · exact grows.pages page (by omega) (by omega) nonzero
    · subst zero
      rw [Nat.zero_mul] at own
      rw [own, backed_withPage_zero_iff, ZeroBacked, allocated]
      simp

omit wellFormed

/-! ## The call -/

def brkPages (process : Process) (addr : Nat) : Nat :=
  divCeil addr pageSize - divCeil process.pcb.heap pageSize

/-- `sys_brk` with the page tables. -/
def sysBrkTables (tables : Tables) (space : UserSpace) (addr : Nat) : Option (Nat × UserSpace × Tables) :=
  if addr = 0 then some (space.process.pcb.heap, space, tables)
  else do
    let (process, tables, machine) ←
      (List.range' (divCeil space.process.pcb.heap pageSize) (brkPages space.process addr)).foldlM growPage
        (space.process, tables, space.machine)
    some (addr, { space with process := { process with pcb := { process.pcb with heap := addr } }, machine }, tables)

/-- The frames a call takes: for its pages and for the tables they lack. -/
def brkFrames (tables : Tables) (process : Process) (addr : Nat) : Nat :=
  brkPages process addr + tables.needs (pagesFrom (divCeil process.pcb.heap pageSize) (brkPages process addr))

/-- The call answers. If it grants the limit, every byte below it lies in a backed
page; if frames are lacking, it reports the old limit and changes nothing. -/
def BrkHonest (tables : Tables) (space : UserSpace) (addr : Nat) : Prop :=
  ∃ answer after grown, sysBrkTables tables space addr = some (answer, after, grown) ∧
    (answer = addr → ∀ address, space.process.pcb.heap ≤ address → address < addr →
      Backed after.process (pageFloor address)) ∧
    (space.machine.frames.getFreePageCount < brkFrames tables space.process addr →
      answer = space.process.pcb.heap ∧ after.process.pcb.heap = space.process.pcb.heap ∧
        after.process.pcb.memset = space.process.pcb.memset ∧ after.process.pageTable = space.process.pageTable ∧
        grown = tables)

theorem brk_page_cases (reached : process.pcb.heap ≤ address) (below : address < addr) :
    (divCeil process.pcb.heap pageSize ≤ address / pageSize ∧
      address / pageSize < divCeil process.pcb.heap pageSize + brkPages process addr) ∨
    process.pcb.heap % pageSize ≠ 0 ∧ pageFloor address = pageFloor process.pcb.heap := by
  unfold brkPages divCeil pageFloor pageSize
  split <;> split <;> omega

theorem brk_partial_apart (cut : process.pcb.heap % pageSize ≠ 0) (page : Nat)
    (lower : divCeil process.pcb.heap pageSize ≤ page) : pageFloor process.pcb.heap ≠ page * pageSize := by
  unfold divCeil at lower
  unfold pageFloor pageSize at *
  split at lower <;> omega

theorem divCeil_pages_le {value : Nat} (low : value ≤ 2 ^ 38) : divCeil value pageSize ≤ 2 ^ 26 :=
  (divCeil_le_iff pageSize_pos).mpr low

/-- The limit is honest if and only if a frame is free for every new page and every
table they lack, the page the heap ends in was backed before, and the heap does not
begin in page zero. -/
theorem brk_honest_iff (wellFormed : space.machine.frames.WellFormed) (held : space.process.pcb.heap ≤ 2 ^ 38)
    (low : addr ≤ 2 ^ 38) :
    BrkHonest tables space addr ↔
      brkFrames tables space.process addr ≤ space.machine.frames.getFreePageCount ∧
      (space.process.pcb.heap < addr → space.process.pcb.heap % pageSize ≠ 0 →
        Backed space.process (pageFloor space.process.pcb.heap)) ∧
      (space.process.pcb.heap = 0 → 0 < addr → ZeroBacked space.process space.machine) := by
  by_cases zero : addr = 0
  · subst zero
    have none : brkPages space.process 0 = 0 := Nat.zero_sub _
    have nothing : brkFrames tables space.process 0 = 0 := by rw [brkFrames, none]; rfl
    refine iff_of_true ⟨_, _, _, if_pos rfl, fun _ address _ below => absurd below (not_lt_zero _), fun lacking => ?_⟩
      ⟨by omega, fun below => absurd below (not_lt_zero _), fun _ below => absurd below (not_lt_zero _)⟩
    omega
  by_cases enough : brkFrames tables space.process addr ≤ space.machine.frames.getFreePageCount
  case neg =>
    -- The answer of a call that does not panic is the new limit.
    refine iff_of_false ?_ fun honest => enough honest.1
    rintro ⟨answer, after, grown, answered, -, lacking⟩
    rw [sysBrkTables, if_neg zero] at answered
    obtain ⟨_, -, ⟨⟩⟩ := Option.bind_eq_some_iff.mp answered
    have none : brkPages space.process space.process.pcb.heap = 0 := Nat.sub_self _
    rw [(lacking (Nat.lt_of_not_le enough)).1, brkFrames, none] at enough
    exact enough (Nat.zero_le _)
  have bounded : (divCeil space.process.pcb.heap pageSize + brkPages space.process addr) * pageSize ≤ usizeBound := by
    refine (mul_le_mul_right pageSize (?_ : _ ≤ 2 ^ 26)).trans (by decide)
    have := divCeil_pages_le held
    have := divCeil_pages_le low
    unfold brkPages
    omega
  obtain ⟨after, rest, looped, grows⟩ := @sbrk_grows space.process tables space.machine _ _ wellFormed bounded enough
  have done : sysBrkTables tables space addr = some (addr, { space with
      process := { after with pcb := { after.pcb with heap := addr } }, machine := rest.2 }, rest.1) := by
    rw [sysBrkTables, if_neg zero, looped]
    rfl
  have ending : space.process.pcb.heap % pageSize ≠ 0 →
      (Backed after (pageFloor space.process.pcb.heap) ↔
        Backed space.process (pageFloor space.process.pcb.heap)) := fun cut =>
    grows.others _ fun page lower _ => brk_partial_apart cut page lower
  have starting : space.process.pcb.heap = 0 → (Backed after 0 ↔ ZeroBacked space.process space.machine) := by
    intro empty
    have none : divCeil space.process.pcb.heap pageSize = 0 := by rw [empty]; rfl
    refine grows.zero none ?_
    have := (@divCeil_le_iff addr pageSize 0 pageSize_pos).mp
    unfold brkPages
    omega
  constructor
  · rintro ⟨answer, _, _, answered, granted, -⟩
    cases (done.symm.trans answered)
    refine ⟨enough, fun below cut => ?_, fun empty positive => ?_⟩
    · exact (ending cut).mp (granted rfl _ (le_refl _) below)
    · exact (starting empty).mp (granted rfl 0 (le_of_eq empty) positive)
  · rintro ⟨-, ends, starts⟩
    refine ⟨_, _, _, done, fun _ address reached below => ?_, fun lacking => by omega⟩
    rcases brk_page_cases reached below with ⟨lower, upper⟩ | ⟨cut, same⟩
    · by_cases first : address / pageSize = 0
      · have empty : space.process.pcb.heap = 0 :=
          le_zero.mp (((divCeil_le_iff pageSize_pos).mp (lower.trans_eq first)).trans_eq (zero_mul _))
        rw [pageFloor, first, zero_mul]
        exact (starting empty).mpr (starts empty (by omega))
      · exact grows.pages _ lower upper first
    · rw [same]
      exact (ending cut).mpr (ends (by omega) cut)

def shortOfFrames : UserSpace :=
  { process := { new 7 [] with pcb := { (new 7 []).pcb with heap := 0x10000 } }
    machine := Machine.booted
    tls := { lastAddr := 0, count := 0 } }

theorem brk_honest_iff_three_pages : BrkHonest (Tables.empty.reaching 0x10000) shortOfFrames 0x13000 :=
  (brk_honest_iff Machine.booted_wellFormed (by decide) (by decide)).mpr
    ⟨by decide +kernel, fun _ cut => absurd rfl cut, fun empty => absurd empty (by decide)⟩

/-- Four pages are granted where three frames are free, tables or not. -/
theorem brk_grants_unbacked_page :
    (sysBrkTables (Tables.empty.reaching 0x10000) shortOfFrames 0x14000).map Prod.fst = some 0x14000 ∧
      shortOfFrames.machine.frames.getFreePageCount < brkPages shortOfFrames.process 0x14000 ∧
      ¬ BrkHonest (Tables.empty.reaching 0x10000) shortOfFrames 0x14000 := by
  refine and_assoc.mp ((and_iff_left_of_imp ?_).mpr ⟨by decide +kernel, by decide +kernel⟩)
  rintro ⟨answered, lacking⟩ ⟨answer, after, grown, done, -, kept⟩
  have refused : shortOfFrames.process.pcb.heap ≠ 0x14000 := by decide
  rw [done, (kept (lacking.trans_le (le_add_right _ _))).1] at answered
  exact refused (Option.some.inj answered)

end MonkeyOS.Syscall
