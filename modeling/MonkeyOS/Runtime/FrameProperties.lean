import MonkeyOS.Lib.Run
import MonkeyOS.Runtime.Frame

/-! Ownership of physical frames. A request marks exactly the free pages it
hands out, whichever of the two searches finds them, and a release marks its
page free again; ownership over whole histories follows from these. -/

set_option autoImplicit false

namespace MonkeyOS.Runtime

open Lib List FrameRegionMap Bitmap Nat

/-! ## Setting a range of bits -/

private theorem setRange_succ (bits : Bitmap) (start count : Nat) :
    setRange bits start (count + 1) = setRange (bits.setBit start true) (start + 1) count := by
  simp [setRange, range'_succ]

theorem length_setRange (bits : Bitmap) (start count : Nat) : (setRange bits start count).length = bits.length := by
  induction count generalizing bits start with
  | zero => rfl
  | succ count ih => rw [setRange_succ, ih, length_setBit]

theorem getBit_setRange {bits : Bitmap} {start count : Nat} (index : Nat) (inside : start + count ≤ 64 * bits.length) :
    (setRange bits start count).getBit index =
      if start ≤ index ∧ index < start + count then true else bits.getBit index := by
  induction count generalizing bits start with
  | zero =>
    have empty : ¬ (start ≤ index ∧ index < start + 0) := by omega
    rw [if_neg empty]; rfl
  | succ count ih =>
    rw [setRange_succ, ih (by rw [length_setBit]; omega), getBit_setBit (by omega)]
    by_cases first : index = start
    · subst first; simp
    · have shifted : (start + 1 ≤ index ∧ index < start + 1 + count) ↔
          (start ≤ index ∧ index < start + (count + 1)) := by omega
      simp only [shifted, first, ↓reduceIte]

theorem clearCount_setRange {bits : Bitmap} {start count : Nat} (inside : start + count ≤ 64 * bits.length)
    (clear : ∀ index, start ≤ index → index < start + count → bits.getBit index = false) :
    (setRange bits start count).clearCount + count = bits.clearCount := by
  induction count generalizing bits start with
  | zero => rfl
  | succ count ih =>
    have one := clearCount_setBit true (by omega : start < 64 * bits.length)
    rw [clear start (by omega) (by omega), if_pos rfl, if_neg (by decide)] at one
    have rest := @ih (bits.setBit start true) (start + 1) (by rw [length_setBit]; omega)
      (fun index _ _ => by
        rw [getBit_setBit_of_ne (by omega) (by omega)]
        exact clear index (by omega) (by omega))
    rw [setRange_succ]
    omega

/-! ## One region -/

namespace FrameRegionMap

structure WellFormed (region : FrameRegionMap) : Prop where
  aligned : region.paddr % pageSize = 0
  alignedEnd : region.paddrEnd % pageSize = 0
  ordered : region.paddr ≤ region.paddrEnd
  room : region.totalPages ≤ 64 * region.bits.length
  padding : ∀ index, region.totalPages ≤ index → index < 64 * region.bits.length → region.bits.getBit index = true

def PageAt (region : FrameRegionMap) (index address : Nat) : Prop :=
  index < region.totalPages ∧ address = region.paddr + index * pageSize

def Registered (region : FrameRegionMap) (address : Nat) : Prop :=
  ∃ index, region.PageAt index address

def Free (region : FrameRegionMap) (address : Nat) : Prop :=
  ∃ index, region.PageAt index address ∧ region.bits.getBit index = false

structure Grants (region : FrameRegionMap) (frames : List Nat) (after : FrameRegionMap) : Prop where
  start : after.paddr = region.paddr
  finish : after.paddrEnd = region.paddrEnd
  wellFormed : after.WellFormed
  distinct : frames.Nodup
  free : ∀ frame ∈ frames, region.Free frame
  rest : ∀ address, after.Free address ↔ region.Free address ∧ address ∉ frames
  count : after.getFreePageCount + frames.length = region.getFreePageCount

variable {address index start frame pages : Nat} {region after : FrameRegionMap} {bits : Bitmap}

theorem pageAt_injective {left right : Nat} (leftPage : region.PageAt left address)
    (rightPage : region.PageAt right address) :
    left = right := by
  have same : left * pageSize = right * pageSize := by
    have first := leftPage.2
    have second := rightPage.2
    omega
  exact eq_of_mul_eq_mul_right pageSize_pos same

theorem WellFormed.page_inside (wellFormed : region.WellFormed) (page : region.PageAt index address) :
    address % pageSize = 0 ∧ region.paddr ≤ address ∧ address + pageSize ≤ region.paddrEnd := by
  obtain ⟨bound, rfl⟩ := page
  have aligned := wellFormed.aligned
  unfold totalPages at bound
  unfold pageSize at *
  omega

private theorem foldl_clear (word : BitVec 64) (bits sum : Nat) :
    (List.range bits).foldl (fun sum bit => sum + if word.getLsbD bit then 0 else 1) sum =
      sum + ((Finset.range bits).filter fun bit => word.getLsbD bit = false).card := by
  induction bits with
  | zero => simp
  | succ bits ih =>
    rw [range_succ, foldl_append, ih, Finset.range_add_one, Finset.filter_insert]
    by_cases used : word.getLsbD bits = true
    · simp [used]
    · have clear : word.getLsbD bits = false := by simpa using used
      simp [clear, Finset.card_insert_of_notMem]
      omega

theorem getFreePageCount_eq (region : FrameRegionMap) : region.getFreePageCount = region.bits.clearCount := by
  have fold : ∀ (words : Bitmap) (sum : Nat),
      words.foldl (fun sum word =>
        if word = 0 then sum + 64
        else (List.range 64).foldl (fun sum bit => sum + if word.getLsbD bit then 0 else 1) sum) sum =
        sum + words.clearCount := by
    intro words
    induction words with
    | nil => intro sum; rfl
    | cons word words ih =>
      intro sum
      have one : (if word = 0 then sum + 64
          else (List.range 64).foldl (fun sum bit => sum + if word.getLsbD bit then 0 else 1) sum) =
            sum + wordClearCount word := by
        split
        · next empty => subst empty; simp [wordClearCount]
        · exact foldl_clear word 64 sum
      rw [foldl_cons, one, ih]
      simp only [clearCount, map_cons, sum_cons]
      omega
  simpa [getFreePageCount] using fold region.bits 0

theorem new_wellFormed {finish : Nat} (aligned : start % pageSize = 0) (alignedEnd : finish % pageSize = 0)
    (ordered : start ≤ finish) :
    (new start finish).WellFormed := by
  have total : (new start finish).totalPages = (finish - start) / pageSize := by
    simp only [totalPages, new]
    unfold pageSize at *
    omega
  have words := le_divCeil_mul ((finish - start) / pageSize) (show 0 < 64 by decide)
  have length : (new start finish).bits.length = divCeil ((finish - start) / pageSize) 64 := by
    simp [new, length_setRange]
  refine ⟨aligned, alignedEnd, ordered, by rw [total, length]; omega, ?_⟩
  intro index lower upper
  simp only [new]
  rw [getBit_setRange index (by simp; omega)]
  simp only [length_replicate]
  rw [if_pos (by omega)]

theorem new_getFreePageCount {start finish : Nat} :
    (new start finish).getFreePageCount = (finish - start) / pageSize := by
  have words := le_divCeil_mul ((finish - start) / pageSize) (show 0 < 64 by decide)
  have padded := @clearCount_setRange
    (List.replicate (divCeil ((finish - start) / pageSize) 64) 0) ((finish - start) / pageSize)
    (divCeil ((finish - start) / pageSize) 64 * 64 - (finish - start) / pageSize)
    (by simp; omega)
    (fun index _ _ => getBit_replicate_zero _ index)
  rw [clearCount_replicate_zero] at padded
  rw [getFreePageCount_eq]
  simp only [new, length_replicate]
  omega

theorem grants_window {region : FrameRegionMap} (wellFormed : region.WellFormed)
    {start count : Nat} (inside : start + count ≤ region.totalPages)
    (clear : ∀ index, start ≤ index → index < start + count → region.bits.getBit index = false) :
    region.Grants ((List.range' start count).map fun page => region.paddr + page * pageSize)
      { region with bits := setRange region.bits start count } := by
  have room := wellFormed.room
  have bits := fun index => @getBit_setRange region.bits start count index (by omega)
  have frames : ∀ {index address : Nat}, region.PageAt index address →
      (address ∈ (List.range' start count).map (fun page => region.paddr + page * pageSize) ↔
        start ≤ index ∧ index < start + count) := by
    intro index address page
    simp only [mem_map, mem_range'_1]
    constructor
    · rintro ⟨other, ⟨lower, upper⟩, rfl⟩
      have same : other = index := pageAt_injective ⟨by omega, rfl⟩ page
      subst same
      exact ⟨lower, upper⟩
    · rintro ⟨lower, upper⟩
      exact ⟨index, ⟨lower, upper⟩, page.2.symm⟩
  refine ⟨rfl, rfl, ?_, ?_, ?_, ?_, ?_⟩
  · refine ⟨wellFormed.aligned, wellFormed.alignedEnd, wellFormed.ordered, ?_, ?_⟩
    · simpa [length_setRange, totalPages] using room
    · intro index lower upper
      simp only [bits]
      split
      · rfl
      · exact wellFormed.padding index lower (by simpa [length_setRange] using upper)
  · refine (nodup_range' 1).map ?_
    intro _ _ same
    simp only [add_left_cancel_iff] at same
    exact eq_of_mul_eq_mul_right pageSize_pos same
  · intro _ member
    obtain ⟨page, pageMember, rfl⟩ := mem_map.mp member
    have range := mem_range'_1.mp pageMember
    exact ⟨page, ⟨by omega, rfl⟩, clear page range.1 range.2⟩
  · intro address
    constructor
    · rintro ⟨index, page, free⟩
      have page' : region.PageAt index address := page
      rw [bits] at free
      rw [frames page']
      split at free
      · cases free
      · next outside => exact ⟨⟨index, page', free⟩, outside⟩
    · rintro ⟨⟨index, page, free⟩, outside⟩
      rw [frames page] at outside
      exact ⟨index, page, by rw [bits, if_neg outside]; exact free⟩
  · simp only [getFreePageCount_eq, length_map, length_range']
    exact clearCount_setRange (by omega) clear

theorem ppn_mul (wellFormed : region.WellFormed) (page : Nat) :
    (region.paddr / pageSize + page) * pageSize = region.paddr + page * pageSize := by
  have aligned := wellFormed.aligned
  unfold pageSize at *
  omega

private theorem getBit_of_full
    (full : !(bits.getD (index / 64) 0 != BitVec.allOnes 64)) : bits.getBit index = true := by
  have word : bits.getD (index / 64) 0 = BitVec.allOnes 64 := by simpa using full
  rw [getBit, word, BitVec.getLsbD_allOnes, decide_eq_true (mod_lt _ (by decide))]

/-- Both scans go up, so the words and bits that are passed over are used. -/
theorem alloc_bit (allocated : region.alloc = some (frame, after)) :
    ∃ index < 64 * region.bits.length, region.bits.getBit index = false ∧
      (∀ lower < index, region.bits.getBit lower = true) ∧ frame = region.paddr + index * pageSize ∧
      after = { region with bits := region.bits.setBit index true } := by
  unfold alloc at allocated
  split at allocated
  · cases allocated
  · next word foundWord =>
    obtain ⟨-, wordBound, fullWords⟩ := find?_range_eq_some.mp foundWord
    unfold allocInPos at allocated
    split at allocated
    · cases allocated
    · next bit foundBit =>
      obtain ⟨clear, bitBound, setBits⟩ := find?_range_eq_some.mp foundBit
      rw [mem_range] at wordBound bitBound
      cases allocated
      refine ⟨word * 64 + bit, by omega, ?_, fun lower _ => ?_, rfl, rfl⟩
      · have slot : (word * 64 + bit) / 64 = word := by omega
        have offset : (word * 64 + bit) % 64 = bit := by omega
        simpa [getBit, slot, offset] using clear
      · rcases lt_or_ge (lower / 64) word with earlier | _
        · exact getBit_of_full (fullWords (lower / 64) earlier)
        · obtain rfl : lower / 64 = word := by omega
          simpa [getBit] using setBits (lower % 64) (by omega)

theorem alloc_none (declined : region.alloc = none) (inside : index < 64 * region.bits.length) :
    region.bits.getBit index = true := by
  unfold alloc at declined
  split at declined
  · next absent =>
    exact getBit_of_full (find?_range_eq_none.mp absent (index / 64) (by omega))
  · next _ found =>
    unfold allocInPos at declined
    split at declined
    · next absent =>
      refine absurd (find?_some found) ?_
      simp only [bne_iff_ne, ne_eq, not_not]
      refine BitVec.eq_of_getLsbD_eq fun bit bound => ?_
      rw [BitVec.getLsbD_allOnes, decide_eq_true bound]
      simpa using find?_range_eq_none.mp absent bit bound
    · cases declined

theorem alloc_grants (wellFormed : region.WellFormed) (allocated : region.alloc = some (frame, after)) :
    region.Grants [frame] after := by
  obtain ⟨index, bound, clear, -, rfl, rfl⟩ := alloc_bit allocated
  have inside : index < region.totalPages := by
    by_contra outside
    have padded := wellFormed.padding index (by omega) bound
    rw [clear] at padded
    cases padded
  have window := @grants_window region wellFormed index 1 (by omega)
    (fun other _ _ => by
      have same : other = index := by omega
      rw [same]; exact clear)
  simpa [setRange] using window

theorem findWindow_spec {remaining count found : Nat} (position : start + count = index)
    (clear : ∀ page, start ≤ page → page < index → bits.getBit page = false)
    (result : findWindow bits pages remaining index start count = some found) :
    found + pages ≤ index + remaining ∧ ∀ page, found ≤ page → page < found + pages → bits.getBit page = false := by
  induction remaining generalizing index start count with
  | zero => simp [findWindow] at result
  | succ remaining ih =>
    unfold findWindow at result
    split at result
    · have recursive := @ih (index + 1) (index + 1) 0 rfl (fun page lower upper => by omega) result
      exact ⟨by omega, recursive.2⟩
    · next free =>
      have freeHere : bits.getBit index = false := by simpa using free
      have extended : ∀ page, start ≤ page → page < index + 1 → bits.getBit page = false := by
        intro page lower upper
        rcases Nat.lt_succ_iff_lt_or_eq.mp upper with before | rfl
        · exact clear page lower before
        · exact freeHere
      split at result
      · cases result
        exact ⟨by omega, fun page lower upper => extended page lower (by omega)⟩
      · have recursive := ih (by omega) extended result
        exact ⟨by omega, recursive.2⟩

theorem allocMuch_grants (wellFormed : region.WellFormed) {frames : List Nat}
    (allocated : region.allocMuch pages = some (frames, after)) :
    frames.length = pages ∧ region.Grants frames after := by
  unfold allocMuch at allocated
  split at allocated
  · cases allocated
  · split at allocated
    · cases allocated
    · split at allocated
      · cases allocated
      · next _ found =>
        obtain ⟨_, clear⟩ := findWindow_spec (zero_add 0) (fun page _ upper => absurd upper (not_lt_zero page)) found
        cases allocated
        refine ⟨by simp, ?_⟩
        simp only [ppn_mul wellFormed]
        exact grants_window wellFormed (by omega) clear

theorem WellFormed.clearPage (wellFormed : region.WellFormed) (bound : index < region.totalPages) :
    WellFormed { region with bits := region.bits.setBit index false } := by
  have room := wellFormed.room
  refine ⟨wellFormed.aligned, wellFormed.alignedEnd, wellFormed.ordered, ?_, ?_⟩
  · simpa [totalPages] using room
  · intro other lower upper
    have outside : region.totalPages ≤ other := lower
    rw [getBit_setBit_of_ne (by omega) (by omega)]
    exact wellFormed.padding other outside (by simpa using upper)

theorem dealloc_returns (wellFormed : region.WellFormed) (page : region.PageAt index address)
    (held : region.bits.getBit index = true) :
    (region.dealloc address).WellFormed ∧
      (∀ other, (region.dealloc address).Free other ↔ region.Free other ∨ other = address) ∧
      (region.dealloc address).getFreePageCount = region.getFreePageCount + 1 := by
  have position : address / pageSize - region.paddr / pageSize = index := by
    have place := page.2
    unfold pageSize at *
    omega
  have inside : index < 64 * region.bits.length := by
    have room := wellFormed.room
    have bound := page.1
    omega
  simp only [dealloc, position]
  refine ⟨wellFormed.clearPage page.1, ?_, ?_⟩
  · intro _
    constructor
    · rintro ⟨slot, place, free⟩
      by_cases same : slot = index
      · subst same
        exact .inr (place.2.trans page.2.symm)
      · rw [getBit_setBit_of_ne inside same] at free
        exact .inl ⟨slot, place, free⟩
    · rintro (⟨slot, place, free⟩ | rfl)
      · refine ⟨slot, place, ?_⟩
        have different : slot ≠ index := by
          rintro rfl
          rw [held] at free
          cases free
        rw [getBit_setBit_of_ne inside different]
        exact free
      · exact ⟨index, page, getBit_setBit_self inside⟩
  · simp only [getFreePageCount_eq]
    simpa [held] using clearCount_setBit false inside

end FrameRegionMap

/-! ## All regions -/

namespace FrameAllocator

def Apart (left right : FrameRegionMap) : Prop :=
  left.paddrEnd ≤ right.paddr ∨ right.paddrEnd ≤ left.paddr

structure WellFormed (allocator : FrameAllocator) : Prop where
  regions : ∀ region ∈ allocator, region.WellFormed
  apart : allocator.Pairwise Apart

def bounds (allocator : FrameAllocator) : List (Nat × Nat) :=
  allocator.map fun region => (region.paddr, region.paddrEnd)

def Registered (allocator : FrameAllocator) (address : Nat) : Prop :=
  ∃ region ∈ allocator, region.Registered address

def Free (allocator : FrameAllocator) (address : Nat) : Prop :=
  ∃ region ∈ allocator, region.Free address

structure Grants (allocator : FrameAllocator) (frames : List Nat) (after : FrameAllocator) : Prop where
  bounds : after.bounds = allocator.bounds
  wellFormed : after.WellFormed
  distinct : frames.Nodup
  free : ∀ frame ∈ frames, allocator.Free frame
  rest : ∀ address, after.Free address ↔ allocator.Free address ∧ address ∉ frames
  count : after.getFreePageCount + frames.length = allocator.getFreePageCount

variable {address frame pages : Nat} {allocator after back front : FrameAllocator}
  {middle region region' : FrameRegionMap} {frames : List Nat}

theorem Free.registered (free : allocator.Free address) : allocator.Registered address := by
  obtain ⟨region, member, index, page, _⟩ := free
  exact ⟨region, member, index, page⟩

theorem Registered.aligned (wellFormed : allocator.WellFormed) (registered : allocator.Registered address) :
    address % pageSize = 0 := by
  obtain ⟨region, member, _, page⟩ := registered
  exact ((wellFormed.regions region member).page_inside page).1

theorem Registered.of_bounds (same : after.bounds = allocator.bounds) (registered : allocator.Registered address) :
    after.Registered address := by
  obtain ⟨region, member, index, page⟩ := registered
  have listed : (region.paddr, region.paddrEnd) ∈ after.bounds := by
    rw [same]
    exact mem_map_of_mem member
  obtain ⟨region', member', ends⟩ := mem_map.mp listed
  obtain ⟨start, finish⟩ := Prod.mk.inj ends
  refine ⟨region', member', index, ?_, ?_⟩
  · simpa [totalPages, start, finish] using page.1
  · simpa [start] using page.2

private theorem foldl_count (allocator : FrameAllocator) (sum : Nat) :
    allocator.foldl (fun sum region => sum + region.getFreePageCount) sum =
      sum + (allocator.map FrameRegionMap.getFreePageCount).sum := by
  induction allocator generalizing sum with
  | nil => rfl
  | cons _ allocator ih => rw [foldl_cons, ih, map_cons, sum_cons]; omega

theorem getFreePageCount_eq_sum (allocator : FrameAllocator) :
    allocator.getFreePageCount = (allocator.map FrameRegionMap.getFreePageCount).sum := by
  simpa [getFreePageCount] using foldl_count allocator 0

theorem firstRegion_some {α : Type} {request : FrameRegionMap → Option (α × FrameRegionMap)} {answer : α}
    (answered : firstRegion request allocator = some (answer, after)) :
    ∃ front region region' back, allocator = front ++ region :: back ∧
      (∀ earlier ∈ front, request earlier = none) ∧
      request region = some (answer, region') ∧ after = front ++ region' :: back := by
  induction allocator generalizing after with
  | nil => simp [firstRegion] at answered
  | cons head tail ih =>
    unfold firstRegion at answered
    split at answered
    · next found =>
      cases answered
      exact ⟨[], head, _, tail, rfl, by simp, found, rfl⟩
    · next declined =>
      obtain ⟨⟨_, _⟩, recursive, result⟩ := Option.map_eq_some_iff.mp answered
      cases result
      obtain ⟨front, region, region', back, rfl, earlier, found, rfl⟩ := ih recursive
      refine ⟨head :: front, region, region', back, rfl, ?_, found, rfl⟩
      intro candidate member
      rcases mem_cons.mp member with rfl | member
      · exact declined
      · exact earlier candidate member

private theorem not_both_registered {left right : FrameRegionMap} (leftFormed : left.WellFormed)
    (rightFormed : right.WellFormed) (apart : Apart left right) (inLeft : left.Registered address) :
    ¬ right.Registered address := by
  rintro ⟨rightIndex, rightPage⟩
  obtain ⟨leftIndex, leftPage⟩ := inLeft
  have leftInside := leftFormed.page_inside leftPage
  have rightInside := rightFormed.page_inside rightPage
  have positive := pageSize_pos
  rcases apart with before | before <;> omega

private theorem mem_split : region ∈ front ++ middle :: back ↔ region = middle ∨ region ∈ front ++ back := by
  simp only [mem_append, mem_cons]
  tauto

private theorem wellFormed_replace (wellFormed : WellFormed (front ++ region :: back)) (formed : region'.WellFormed)
    (start : region'.paddr = region.paddr) (finish : region'.paddrEnd = region.paddrEnd) :
    WellFormed (front ++ region' :: back) ∧ bounds (front ++ region' :: back) = bounds (front ++ region :: back) := by
  refine ⟨⟨?_, ?_⟩, by simp [bounds, start, finish]⟩
  · intro candidate member
    rcases mem_split.mp member with rfl | other
    · exact formed
    · exact wellFormed.regions candidate (mem_split.mpr (.inr other))
  · have apart := wellFormed.apart
    simp only [pairwise_append, pairwise_cons, mem_cons] at apart ⊢
    refine ⟨apart.1, ⟨?_, apart.2.1.2⟩, ?_⟩
    · intro candidate member
      simpa [Apart, start, finish] using apart.2.1.1 candidate member
    · rintro left leftMember right (rfl | rightMember)
      · simpa [Apart, start, finish] using apart.2.2 left leftMember region (.inl rfl)
      · exact apart.2.2 left leftMember right (.inr rightMember)

private theorem others_apart {other : FrameRegionMap} (wellFormed : WellFormed (front ++ region :: back))
    (member : other ∈ front ++ back) :
    Apart other region := by
  have apart := wellFormed.apart
  simp only [pairwise_append, pairwise_cons, mem_cons] at apart
  rcases mem_append.mp member with inFront | inBack
  · exact apart.2.2 other inFront region (.inl rfl)
  · exact (apart.2.1.1 other inBack).symm

private theorem free_split :
    Free (front ++ middle :: back) address ↔ middle.Free address ∨ Free (front ++ back) address := by
  constructor
  · rintro ⟨region, member, free⟩
    rcases mem_split.mp member with rfl | other
    · exact .inl free
    · exact .inr ⟨region, other, free⟩
  · rintro (free | ⟨region, other, free⟩)
    · exact ⟨middle, mem_split.mpr (.inl rfl), free⟩
    · exact ⟨region, mem_split.mpr (.inr other), free⟩

private theorem not_free_elsewhere (wellFormed : WellFormed (front ++ region :: back))
    (registered : region.Registered address) : ¬ Free (front ++ back) address := by
  rintro ⟨other, member, index, page, _⟩
  exact not_both_registered (wellFormed.regions other (mem_split.mpr (.inr member)))
    (wellFormed.regions region (mem_split.mpr (.inl rfl))) (others_apart wellFormed member)
    ⟨index, page⟩ registered

private theorem grants_split (wellFormed : WellFormed (front ++ region :: back))
    (granted : region.Grants frames region') :
    Grants (front ++ region :: back) frames (front ++ region' :: back) := by
  obtain ⟨formed, sameBounds⟩ :=
    wellFormed_replace wellFormed granted.wellFormed granted.start granted.finish
  refine ⟨sameBounds, formed, granted.distinct, ?_, ?_, ?_⟩
  · intro frame member
    exact free_split.mpr (.inl (granted.free frame member))
  · intro address
    rw [free_split, free_split, granted.rest]
    constructor
    · rintro (⟨free, outside⟩ | elsewhere)
      · exact ⟨.inl free, outside⟩
      · refine ⟨.inr elsewhere, fun member => ?_⟩
        obtain ⟨index, page, _⟩ := granted.free address member
        exact not_free_elsewhere wellFormed ⟨index, page⟩ elsewhere
    · rintro ⟨free | elsewhere, outside⟩
      · exact .inl ⟨free, outside⟩
      · exact .inr elsewhere
  · have count := granted.count
    simp only [getFreePageCount_eq_sum, map_append, map_cons, sum_append_nat, sum_cons]
    omega

theorem alloc_grants (wellFormed : allocator.WellFormed) (allocated : allocator.alloc = some (frame, after)) :
    allocator.Grants [frame] after := by
  obtain ⟨_, region, _, _, rfl, _, found, rfl⟩ := firstRegion_some allocated
  have formed := wellFormed.regions region (mem_split.mpr (.inl rfl))
  exact grants_split wellFormed (alloc_grants formed found)

theorem allocMuch_grants (wellFormed : allocator.WellFormed)
    (allocated : allocator.allocMuch pages = some (frames, after)) :
    frames.length = pages ∧ allocator.Grants frames after := by
  obtain ⟨_, region, _, _, rfl, _, found, rfl⟩ := firstRegion_some allocated
  have formed := wellFormed.regions region (mem_split.mpr (.inl rfl))
  obtain ⟨length, granted⟩ := allocMuch_grants formed found
  exact ⟨length, grants_split wellFormed granted⟩

private theorem dealloc_split (wellFormed : WellFormed (front ++ region :: back))
    (registered : region.Registered address) :
    dealloc (front ++ region :: back) address = front ++ region.dealloc address :: back := by
  obtain ⟨_, page⟩ := registered
  have inside := (wellFormed.regions region (mem_split.mpr (.inl rfl))).page_inside page
  have positive := pageSize_pos
  induction front with
  | nil =>
    simp only [nil_append, dealloc]
    rw [if_pos (by omega)]
  | cons head front ih =>
    have apart : Apart head region := others_apart wellFormed (by simp)
    have tail : WellFormed (front ++ region :: back) :=
      ⟨fun other member => wellFormed.regions other (.tail _ member), (pairwise_cons.mp wellFormed.apart).2⟩
    simp only [cons_append, dealloc]
    rw [if_neg (by rcases apart with before | before <;> omega), ih tail]

theorem Grants.append {middle : FrameAllocator} {front back : List Nat} (first : allocator.Grants front middle)
    (second : middle.Grants back after) :
    allocator.Grants (front ++ back) after where
  bounds := second.bounds.trans first.bounds
  wellFormed := second.wellFormed
  distinct := nodup_append.mpr ⟨first.distinct, second.distinct, fun left inFront right inBack same =>
    ((first.rest right).mp (second.free right inBack)).2 (same ▸ inFront)⟩
  free := by
    intro frame member
    rcases mem_append.mp member with inFront | inBack
    · exact first.free frame inFront
    · exact ((first.rest frame).mp (second.free frame inBack)).1
  rest := by
    intro _
    rw [second.rest, first.rest, mem_append]
    tauto
  count := by
    have early := first.count
    have late := second.count
    rw [length_append]
    omega

theorem dealloc_returns (wellFormed : allocator.WellFormed) (registered : allocator.Registered address)
    (held : ¬ allocator.Free address) :
    (allocator.dealloc address).bounds = allocator.bounds ∧
      (allocator.dealloc address).WellFormed ∧
      (∀ other, (allocator.dealloc address).Free other ↔ allocator.Free other ∨ other = address) ∧
      (allocator.dealloc address).getFreePageCount = allocator.getFreePageCount + 1 := by
  obtain ⟨region, member, index, page⟩ := registered
  obtain ⟨_, _, rfl⟩ := append_of_mem member
  have formed := wellFormed.regions region (mem_split.mpr (.inl rfl))
  have used : region.bits.getBit index = true := by
    by_contra clear
    exact held (free_split.mpr (.inl ⟨index, page, by simpa using clear⟩))
  obtain ⟨formed', free, _⟩ := dealloc_returns formed page used
  obtain ⟨wellFormed', sameBounds⟩ := wellFormed_replace wellFormed formed'
    (show (region.dealloc address).paddr = region.paddr from rfl) rfl
  rw [dealloc_split wellFormed ⟨index, page⟩]
  refine ⟨sameBounds, wellFormed', ?_, ?_⟩
  · intro _
    rw [free_split, free_split, free]
    tauto
  · simp only [getFreePageCount_eq_sum, map_append, map_cons, sum_append_nat, sum_cons]
    omega

/-! The registered memory stays what it is whatever is asked for or given back. -/

theorem bounds_replace (start : region'.paddr = region.paddr) (finish : region'.paddrEnd = region.paddrEnd) :
    bounds (front ++ region' :: back) = bounds (front ++ region :: back) := by
  simp [bounds, start, finish]

theorem alloc_bounds (allocated : allocator.alloc = some (frame, after)) :
    after.bounds = allocator.bounds ∧ ∃ bound ∈ allocator.bounds, frame % pageSize = bound.1 % pageSize := by
  obtain ⟨_, region, _, _, rfl, _, found, rfl⟩ := firstRegion_some allocated
  obtain ⟨_, -, -, -, rfl, rfl⟩ := alloc_bit found
  refine ⟨bounds_replace rfl rfl, (region.paddr, region.paddrEnd), by simp [bounds], ?_⟩
  rw [add_mul_mod_self_right]

theorem allocMuch_bounds (allocated : allocator.allocMuch pages = some (frames, after)) :
    after.bounds = allocator.bounds ∧ frames.length = pages ∧ ∀ frame ∈ frames, frame % pageSize = 0 := by
  obtain ⟨_, _, _, _, rfl, _, found, rfl⟩ := firstRegion_some allocated
  simp only [FrameRegionMap.allocMuch] at found
  split at found
  · cases found
  · split at found
    · cases found
    · split at found
      · cases found
      · cases found
        refine ⟨bounds_replace rfl rfl, by simp, fun _ member => ?_⟩
        obtain ⟨_, _, rfl⟩ := mem_map.mp member
        exact mul_mod_left _ _

theorem dealloc_bounds (allocator : FrameAllocator) (paddr : Nat) :
    (allocator.dealloc paddr).bounds = allocator.bounds := by
  induction allocator with
  | nil => rfl
  | cons region _ ih =>
    unfold dealloc
    split
    · rfl
    · exact congrArg ((region.paddr, region.paddrEnd) :: ·) ih

end FrameAllocator

end MonkeyOS.Runtime
