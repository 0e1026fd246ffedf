import MonkeyOS.Runtime.FrameProperties

/-!
# First fit

`alloc_much` serves a request from the lowest run of free pages of the first
region that has a run long enough, and declines only if no region has one. The
memory regions may touch or overlap and any address may be released: the
statements need the padding of the last word and nothing else.
-/

set_option autoImplicit false

namespace MonkeyOS.Runtime

open Lib List FrameRegionMap Bitmap Nat

/-! ## The sliding window -/

def Blocked (bits : Bitmap) (pages start : Nat) : Prop :=
  ∃ page, start ≤ page ∧ page < start + pages ∧ bits.getBit page = true

namespace FrameRegionMap

variable {count index pages start rest : Nat} {region after : FrameRegionMap} {frames : List Nat} {bits : Bitmap}

private theorem blocked_before (position : start + count = index) (short : count < pages)
    (blocked : ∀ lower < start, Blocked bits pages lower) (used : bits.getBit index = true) :
    ∀ lower < index + 1, Blocked bits pages lower := by
  intro lower _
  by_cases earlier : lower < start
  · exact blocked lower earlier
  · exact ⟨index, by omega, by omega, used⟩

theorem findWindow_lowest {remaining lower : Nat} (position : start + count = index)
    (short : count < pages) (blocked : ∀ lower < start, Blocked bits pages lower)
    (bound : lower + pages ≤ index + remaining)
    (below : ∀ found, findWindow bits pages remaining index start count = some found → lower < found) :
    Blocked bits pages lower := by
  induction remaining generalizing index start count with
  | zero => exact blocked lower (by omega)
  | succ remaining ih =>
    unfold findWindow at below
    split at below
    · next used =>
      exact ih (add_zero _) (by omega) (blocked_before position short blocked used) (by omega) below
    · split at below
      · exact blocked lower (below start rfl)
      · exact ih (by omega) (by omega) blocked (by omega) below

/-! ## One region -/

structure FreeRun (region : FrameRegionMap) (start pages : Nat) : Prop where
  inside : start + pages ≤ region.totalPages
  clear : ∀ page, start ≤ page → page < start + pages → region.bits.getBit page = false

theorem FreeRun.not_blocked (free : region.FreeRun start pages) : ¬ Blocked region.bits pages start := by
  rintro ⟨page, lower, upper, used⟩
  rw [free.clear page lower upper] at used
  cases used

theorem FreeRun.le_getFreePageCount (wellFormed : region.WellFormed) (free : region.FreeRun start pages) :
    pages ≤ region.getFreePageCount := by
  have count := (grants_window wellFormed free.inside free.clear).count
  simp only [length_map, length_range'] at count
  omega

theorem freeRun_one (wellFormed : region.WellFormed) (inside : index < 64 * region.bits.length)
    (clear : region.bits.getBit index = false) : region.FreeRun index 1 := by
  refine ⟨?_, fun page _ _ => ?_⟩
  · by_contra past
    rw [wellFormed.padding index (by omega) inside] at clear
    cases clear
  · obtain rfl : page = index := by omega
    exact clear

theorem exists_freeRun_one_iff (wellFormed : region.WellFormed) :
    (∃ start, region.FreeRun start 1) ↔ 0 < region.getFreePageCount := by
  constructor
  · rintro ⟨_, free⟩
    exact free.le_getFreePageCount wellFormed
  · intro some
    rw [getFreePageCount_eq] at some
    obtain ⟨index, inside, clear⟩ := exists_clear_of_clearCount_pos some
    exact ⟨index, freeRun_one wellFormed inside clear⟩

theorem FreeRun.take (free : region.FreeRun start (pages + rest)) : region.FreeRun start pages := by
  obtain ⟨_, clear⟩ := free
  exact ⟨by omega, fun page lower _ => clear page lower (by omega)⟩

structure Marks (region : FrameRegionMap) (start pages : Nat) (after : FrameRegionMap) : Prop where
  paddr : after.paddr = region.paddr
  paddrEnd : after.paddrEnd = region.paddrEnd
  words : after.bits.length = region.bits.length
  used : ∀ page, after.bits.getBit page = true ↔ region.bits.getBit page = true ∨ start ≤ page ∧ page < start + pages

/-- What a region that answers a request does: the lowest run of free pages is
handed out in ascending order. -/
def TakesLowest (region : FrameRegionMap) (pages : Nat) (frames : List Nat) (after : FrameRegionMap) : Prop :=
  ∃ start, region.FreeRun start pages ∧ (∀ lower < start, ¬ region.FreeRun lower pages) ∧
    frames = (List.range pages).map (fun page => region.paddr + start * pageSize + page * pageSize) ∧
    region.Marks start pages after

theorem TakesLowest.leaves (takes : region.TakesLowest pages frames after)
    (free : region.FreeRun start (pages + rest)) :
    after.FreeRun (start + pages) rest := by
  obtain ⟨lowest, -, first, -, marks⟩ := takes
  have below : lowest ≤ start := Nat.le_of_not_lt fun above => first start above free.take
  obtain ⟨_, clear⟩ := free
  constructor
  · rw [totalPages, marks.paddr, marks.paddrEnd, ← totalPages]
    omega
  · intro page _ _
    refine Bool.eq_false_iff.mpr fun used => ?_
    rcases (marks.used page).mp used with before | _
    · rw [clear page (by omega) (by omega)] at before
      cases before
    · omega

theorem FreeRun.clearPage (free : region.FreeRun start pages) (room : index < 64 * region.bits.length) :
    FreeRun { region with bits := region.bits.setBit index false } start pages := by
  obtain ⟨inside, clear⟩ := free
  refine ⟨inside, fun page lower upper => ?_⟩
  rw [getBit_setBit room, clear page lower upper, ite_self]

theorem allocMuch_none_iff (wellFormed : region.WellFormed) (nonempty : 1 ≤ pages) :
    region.allocMuch pages = none ↔ ∀ start, ¬ region.FreeRun start pages := by
  unfold allocMuch
  split
  · refine ⟨fun _ start free => ?_, fun _ => rfl⟩
    have inside := free.inside
    omega
  · split
    · refine ⟨fun _ start free => ?_, fun _ => rfl⟩
      have count := free.le_getFreePageCount wellFormed
      omega
    · split
      · next missed =>
        refine ⟨fun _ start free => free.not_blocked ?_, fun _ => rfl⟩
        have inside := free.inside
        exact findWindow_lowest (zero_add 0) nonempty (fun lower below => absurd below (not_lt_zero lower))
          (by omega) fun found same => nomatch missed.symm.trans same
      · next start found =>
        obtain ⟨inside, clear⟩ := findWindow_spec (zero_add 0)
          (fun page _ upper => absurd upper (not_lt_zero page)) found
        constructor
        · intro declined
          cases declined
        · intro absent
          exact absurd ⟨by omega, clear⟩ (absent start)

theorem allocMuch_takesLowest (wellFormed : region.WellFormed) (nonempty : 1 ≤ pages)
    (allocated : region.allocMuch pages = some (frames, after)) :
    region.TakesLowest pages frames after := by
  unfold allocMuch at allocated
  split at allocated
  · cases allocated
  · split at allocated
    · cases allocated
    · split at allocated
      · cases allocated
      · next start found =>
        obtain ⟨_, clear⟩ := findWindow_spec (zero_add 0) (fun page _ upper => absurd upper (not_lt_zero page)) found
        have lowest : ∀ lower < start, Blocked region.bits pages lower := fun lower below =>
          findWindow_lowest (zero_add 0) nonempty (fun lower below => absurd below (not_lt_zero lower))
            (by omega) fun _ same => Option.some.inj (found.symm.trans same) ▸ below
        have room := wellFormed.room
        cases allocated
        refine ⟨start, ⟨by omega, clear⟩, fun lower below free => free.not_blocked (lowest lower below), ?_, ?_⟩
        · rw [range'_eq_map_range, map_map]
          refine map_congr_left fun page _ => ?_
          simp only [Function.comp_apply, ppn_mul wellFormed]
          rw [add_mul, add_assoc]
        · refine ⟨rfl, rfl, length_setRange _ _ _, fun page => ?_⟩
          rw [getBit_setRange page (by omega)]
          by_cases within : start ≤ page ∧ page < start + pages <;> simp [within]

/-! ## A single page -/

theorem findWindow_one (bits : Bitmap) (remaining index : Nat) :
    findWindow bits 1 remaining index index 0 = (List.range' index remaining).find? fun page => !bits.getBit page := by
  induction remaining generalizing index with
  | zero => rfl
  | succ remaining ih =>
    rw [findWindow, range'_succ, find?_cons, ih]
    cases bits.getBit index <;> rfl

theorem allocMuch_one (wellFormed : region.WellFormed) :
    region.allocMuch 1 = region.alloc.map fun (frame, after) => ([frame], after) := by
  cases allocated : region.alloc with
  | none =>
    refine (allocMuch_none_iff wellFormed Nat.one_pos).mpr fun start free => ?_
    have room := wellFormed.room
    obtain ⟨inside, clear⟩ := free
    have used : region.bits.getBit start = true := alloc_none allocated (by omega)
    rw [clear start le_rfl (lt_succ_self start)] at used
    cases used
  | some answer =>
    obtain ⟨_, _⟩ := answer
    obtain ⟨index, bound, clear, lowest, rfl, rfl⟩ := alloc_bit allocated
    have free := freeRun_one wellFormed bound clear
    have found : findWindow region.bits 1 region.totalPages 0 0 0 = some index := by
      rw [findWindow_one, find?_range'_eq_some, mem_range']
      refine ⟨by rw [clear]; rfl, ⟨index, free.inside, by omega⟩, fun lower _ below => ?_⟩
      rw [lowest lower below]
      rfl
    have total := free.inside
    have count := free.le_getFreePageCount wellFormed
    simp only [allocMuch, if_neg (show ¬ 1 > region.totalPages by omega), if_neg (not_lt.mpr count), found]
    rw [range'_one, map_singleton, ppn_mul wellFormed]
    rfl

end FrameRegionMap

/-! ## All regions -/

namespace FrameAllocator

variable {allocator after : FrameAllocator} {pages : Nat}

theorem firstRegion_none_iff {α : Type} {request : FrameRegionMap → Option (α × FrameRegionMap)} :
    firstRegion request allocator = none ↔ ∀ region ∈ allocator, request region = none := by
  induction allocator with
  | nil => simp [firstRegion]
  | cons _ _ ih =>
    unfold firstRegion
    split
    · next answered => simp [answered]
    · next declined => simp [declined, ih]

/-- The request is served by the first region that has a run of free pages long
enough; the other regions stay as they are. -/
def FirstFit (allocator : FrameAllocator) (pages : Nat) (frames : List Nat) (after : FrameAllocator) : Prop :=
  ∃ front region region' back, allocator = front ++ region :: back ∧ after = front ++ region' :: back ∧
    (∀ earlier ∈ front, ∀ start, ¬ earlier.FreeRun start pages) ∧ region.TakesLowest pages frames region'

def Padded (allocator : FrameAllocator) : Prop :=
  ∀ region ∈ allocator, region.WellFormed

variable (padded : allocator.Padded) (nonempty : 1 ≤ pages)
include padded nonempty

variable {frames : List Nat} (allocated : allocator.allocMuch pages = some (frames, after))
include allocated

theorem allocMuch_firstFit : allocator.FirstFit pages frames after := by
  obtain ⟨front, region, region', back, rfl, earlier, answered, rfl⟩ := firstRegion_some allocated
  refine ⟨front, region, region', back, rfl, rfl, fun other member => ?_, ?_⟩
  · exact (allocMuch_none_iff (padded other (by simp [member])) nonempty).mp (earlier other member)
  · exact allocMuch_takesLowest (padded region (by simp)) nonempty answered

theorem allocMuch_consecutive {first : Nat} (head : frames.head? = some first) :
    frames = (List.range pages).map fun page => first + page * pageSize := by
  obtain ⟨_, _, _, _, -, -, -, _, -, -, rfl, -⟩ := allocMuch_firstFit padded nonempty allocated
  obtain ⟨_, rfl⟩ := Nat.exists_eq_add_of_le' nonempty
  rw [range_succ_eq_map, map_cons, head?_cons, zero_mul, add_zero] at head
  rw [Option.some.inj head]

omit allocated

theorem allocMuch_isSome_iff :
    (allocator.allocMuch pages).isSome ↔ ∃ region ∈ allocator, ∃ start, region.FreeRun start pages := by
  rw [← not_iff_not, Option.not_isSome_iff_eq_none, allocMuch, firstRegion_none_iff]
  push Not
  refine forall₂_congr fun region member => ?_
  exact allocMuch_none_iff (padded region member) nonempty

omit padded nonempty

theorem allocMuch_one_isSome_iff (padded : allocator.Padded) :
    (allocator.allocMuch 1).isSome ↔ 0 < allocator.getFreePageCount := by
  rw [allocMuch_isSome_iff padded Nat.one_pos, getFreePageCount_eq_sum, List.sum_pos_iff_exists_pos_nat]
  simp only [List.mem_map, exists_exists_and_eq_and]
  exact exists_congr fun region => and_congr_right fun member =>
    exists_freeRun_one_iff (padded region member)

def HasRun (allocator : FrameAllocator) (pages : Nat) : Prop :=
  ∃ region ∈ allocator, ∃ start, region.FreeRun start pages

theorem HasRun.allocMuch {allocator : FrameAllocator} (padded : allocator.Padded) {pages rest : Nat}
    (nonempty : 1 ≤ pages) (ample : allocator.HasRun (pages + rest)) :
    ∃ frames after, allocator.allocMuch pages = some (frames, after) ∧ after.HasRun rest := by
  obtain ⟨owner, member, start, free⟩ := ample
  obtain ⟨⟨frames, _⟩, allocated⟩ := Option.isSome_iff_exists.mp
    ((allocMuch_isSome_iff padded nonempty).mpr ⟨owner, member, start, free.take⟩)
  obtain ⟨_, _, region', _, rfl, rfl, earlier, takes⟩ := allocMuch_firstFit padded nonempty allocated
  refine ⟨frames, _, allocated, ?_⟩
  rcases mem_append.mp member with before | behind
  · exact absurd free.take (earlier owner before start)
  · rcases mem_cons.mp behind with rfl | later
    · exact ⟨region', by simp, _, takes.leaves free⟩
    · obtain ⟨_, clear⟩ := free
      exact ⟨owner, by simp [later], start, by omega, fun page lower _ => clear page lower (by omega)⟩

/-! ## Every history -/

inductive Call where
  | addMemoryRegion (start finish : Nat)
  | alloc
  | allocMuch (pages : Nat)
  | dealloc (paddr : Nat)

def apply (allocator : FrameAllocator) : Call → FrameAllocator
  | .addMemoryRegion start finish => allocator.addMemoryRegion start finish
  | .alloc =>
    match allocator.alloc with
    | some (_, after) => after
    | none => allocator
  | .allocMuch pages =>
    match allocator.allocMuch pages with
    | some (_, after) => after
    | none => allocator
  | .dealloc paddr => allocator.dealloc paddr

/-- `add_frame_map` rounds the ends of a region to whole pages before it registers it. -/
def Call.Admitted : Call → Prop
  | .addMemoryRegion start finish => start % pageSize = 0 ∧ finish % pageSize = 0 ∧ start ≤ finish
  | _ => True

inductive Step : FrameAllocator → Call → FrameAllocator → Prop where
  | call {allocator call} : call.Admitted → Step allocator call (allocator.apply call)

private theorem Padded.replace {front back : FrameAllocator} {region region' : FrameRegionMap}
    (padded : Padded (front ++ region :: back)) (formed : region'.WellFormed) :
    Padded (front ++ region' :: back) := by
  intro other member
  simp only [mem_append, mem_cons] at member
  rcases member with before | rfl | behind
  · exact padded other (by simp [before])
  · exact formed
  · exact padded other (by simp [behind])

theorem Padded.dealloc (padded : allocator.Padded) (paddr : Nat) : (allocator.dealloc paddr).Padded := by
  induction allocator with
  | nil => exact padded
  | cons _ _ ih =>
    unfold FrameAllocator.dealloc
    obtain ⟨formed, rest⟩ := forall_mem_cons.mp padded
    split
    · refine forall_mem_cons.mpr ⟨formed.clearPage ?_, rest⟩
      have alignedEnd := formed.alignedEnd
      unfold totalPages
      unfold pageSize at *
      omega
    · exact forall_mem_cons.mpr ⟨formed, ih rest⟩

theorem Padded.step {before : FrameAllocator} {call : Call} (padded : before.Padded) (step : Step before call after) :
    after.Padded := by
  obtain ⟨admitted⟩ := step
  cases call with
  | addMemoryRegion _ _ =>
    obtain ⟨aligned, alignedEnd, ordered⟩ := admitted
    intro region member
    rcases mem_append.mp member with old | new
    · exact padded region old
    · rw [mem_singleton.mp new]
      exact new_wellFormed aligned alignedEnd ordered
  | alloc =>
    simp only [apply]
    split
    · next answered =>
      obtain ⟨front, region, region', back, rfl, -, found, rfl⟩ := firstRegion_some answered
      exact padded.replace (FrameRegionMap.alloc_grants (padded region (by simp)) found).wellFormed
    · exact padded
  | allocMuch _ =>
    simp only [apply]
    split
    · next answered =>
      obtain ⟨front, region, region', back, rfl, -, found, rfl⟩ := firstRegion_some answered
      exact padded.replace (FrameRegionMap.allocMuch_grants (padded region (by simp)) found).2.wellFormed
    · exact padded
  | dealloc paddr => exact padded.dealloc paddr

theorem HasRun.dealloc (padded : allocator.Padded) (ample : allocator.HasRun pages) (paddr : Nat) :
    (allocator.dealloc paddr).HasRun pages := by
  obtain ⟨owner, member, start, free⟩ := ample
  induction allocator with
  | nil => cases member
  | cons _ _ ih =>
    unfold FrameAllocator.dealloc
    obtain ⟨formed, rest⟩ := forall_mem_cons.mp padded
    split
    · rcases mem_cons.mp member with rfl | later
      · refine ⟨_, mem_cons_self, start, free.clearPage ?_⟩
        have alignedEnd := formed.alignedEnd
        have room := formed.room
        unfold totalPages at room
        unfold pageSize at *
        omega
      · exact ⟨owner, mem_cons_of_mem _ later, start, free⟩
    · rcases mem_cons.mp member with rfl | later
      · exact ⟨owner, mem_cons_self, start, free⟩
      · obtain ⟨other, among, place, run⟩ := ih rest later
        exact ⟨other, mem_cons_of_mem _ among, place, run⟩

theorem padded_of_run {calls : List Call} (run : Run Step [] calls allocator) : allocator.Padded :=
  run.preserves (fun padded step => Padded.step padded step) (forall_mem_nil _)

/-- Contiguous allocation is complete first fit in every state an allocator reaches. -/
theorem alloc_much_is_first_fit {calls : List Call} {allocator : FrameAllocator}
    (run : Run Step [] calls allocator) {pages : Nat} (nonempty : 1 ≤ pages) :
    ((allocator.allocMuch pages).isSome ↔ ∃ region ∈ allocator, ∃ start, region.FreeRun start pages) ∧
      (∀ frames after, allocator.allocMuch pages = some (frames, after) →
        allocator.FirstFit pages frames after ∧ allocator.apply (.allocMuch pages) = after) ∧
      (allocator.allocMuch pages = none → allocator.apply (.allocMuch pages) = allocator) := by
  have padded := padded_of_run run
  refine ⟨allocMuch_isSome_iff padded nonempty, fun frames after allocated => ?_, fun declined => ?_⟩
  · exact ⟨allocMuch_firstFit padded nonempty allocated, by simp only [apply, allocated]⟩
  · simp only [apply, declined]

theorem alloc_much_is_first_fit_second_region :
    ∃ allocator after, Run Step [] [.addMemoryRegion 0x1000 0x4000, .addMemoryRegion 0x8000 0xb000, .allocMuch 3,
        .dealloc 0x1000, .dealloc 0x3000] allocator ∧
      allocator.allocMuch 2 = some ([0x8000, 0x9000], after) ∧ allocator.FirstFit 2 [0x8000, 0x9000] after := by
  have run : Run Step [] [.addMemoryRegion 0x1000 0x4000, .addMemoryRegion 0x8000 0xb000, .allocMuch 3,
      .dealloc 0x1000, .dealloc 0x3000] _ :=
    .cons (.call ⟨by decide, by decide, by decide⟩) (.cons (.call ⟨by decide, by decide, by decide⟩)
      (.cons (.call trivial) (.cons (.call trivial) (.cons (.call trivial) .refl))))
  have answer : ((((((apply [] (.addMemoryRegion 0x1000 0x4000)).apply (.addMemoryRegion 0x8000 0xb000)).apply
      (.allocMuch 3)).apply (.dealloc 0x1000)).apply (.dealloc 0x3000)).allocMuch 2).map Prod.fst =
      some [0x8000, 0x9000] := by decide +kernel
  obtain ⟨⟨frames, after⟩, allocated, rfl⟩ := Option.map_eq_some_iff.mp answer
  exact ⟨_, after, run, allocated, ((alloc_much_is_first_fit run (by decide)).2.1 _ after allocated).1⟩

/-! ## Single pages -/

theorem allocMuch_one (padded : allocator.Padded) :
    allocator.allocMuch 1 = allocator.alloc.map fun (frame, after) => ([frame], after) := by
  induction allocator with
  | nil => rfl
  | cons region regions ih =>
    obtain ⟨formed, rest⟩ := forall_mem_cons.mp padded
    have later := ih rest
    unfold allocMuch alloc at later ⊢
    rw [firstRegion, firstRegion, FrameRegionMap.allocMuch_one formed, later]
    cases region.alloc with
    | none => cases firstRegion FrameRegionMap.alloc regions <;> rfl
    | some _ => rfl

/-- One allocator scans words and then bits, padding included, the other page by page. -/
theorem alloc_isSome_iff (padded : allocator.Padded) : allocator.alloc.isSome ↔ 0 < allocator.getFreePageCount := by
  rw [← allocMuch_one_isSome_iff padded, allocMuch_one padded, Option.isSome_map]

theorem single_pages_agree {calls : List Call} {allocator : FrameAllocator} (run : Run Step [] calls allocator) :
    (∀ frame after, allocator.alloc = some (frame, after) ↔ allocator.allocMuch 1 = some ([frame], after)) ∧
      allocator.apply (.allocMuch 1) = allocator.apply .alloc := by
  have same := allocMuch_one (padded_of_run run)
  simp only [apply, same]
  cases allocator.alloc with
  | none => simp
  | some answer => simp [Prod.ext_iff]

theorem single_pages_agree_second :
    ∃ allocator after, Run Step [] [.addMemoryRegion 0x1000 0x3000, .alloc] allocator ∧
      allocator.allocMuch 1 = some ([0x2000], after) := by
  have run : Run Step [] [.addMemoryRegion 0x1000 0x3000, .alloc] _ :=
    .cons (.call ⟨by decide, by decide, by decide⟩) (.cons (.call trivial) .refl)
  have answer : ((apply [] (.addMemoryRegion 0x1000 0x3000)).apply .alloc).alloc.map Prod.fst = some 0x2000 := by
    decide +kernel
  obtain ⟨⟨frame, after⟩, allocated, rfl⟩ := Option.map_eq_some_iff.mp answer
  exact ⟨_, after, run, ((single_pages_agree run).1 _ after).mp allocated⟩

end FrameAllocator

end MonkeyOS.Runtime
