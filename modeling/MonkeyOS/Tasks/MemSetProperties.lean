import Mathlib.Data.List.Pairwise
import MonkeyOS.Tasks.MemSet

/-! What `sub_area` leaves of a well-formed memory set. -/

set_option autoImplicit false

namespace MonkeyOS.Tasks

open List MemArea PageTable

theorem unmapTracks_apply {tracks : List MapTrack} (table : PageTable) (page : Nat)
    (aligned : ∀ track ∈ tracks, track.vaddr % pageSize = 0) :
    unmapTracks table tracks page =
      if ∃ track ∈ tracks, track.vaddr = page then none else table page := by
  induction tracks generalizing table with
  | nil => simp [unmapTracks]
  | cons track tracks ih =>
    have floor := pageFloor_of_aligned (aligned track (by simp))
    have rest := ih (table.unmapPage track.vaddr) (fun track member => aligned track (by simp [member]))
    simp only [unmapTracks, foldl_cons] at rest ⊢
    rw [rest]
    simp only [unmapPage, floor, Function.update_apply, mem_cons, exists_eq_or_imp]
    by_cases later : ∃ track ∈ tracks, track.vaddr = page
    · simp [later]
    · by_cases here : page = track.vaddr
      · simp [here]
      · simp [later, here, Ne.symm here]

namespace MemArea

/-- A page-aligned range of user addresses with its trackers inside it. -/
structure WellFormed (area : MemArea) : Prop where
  startAligned : area.start % pageSize = 0
  lenAligned : area.len % pageSize = 0
  bounded : area.start + area.len < usizeBound
  trackAligned : ∀ track ∈ area.mtrackers, track.vaddr % pageSize = 0
  trackInside : ∀ track ∈ area.mtrackers, area.contains track.vaddr

theorem WellFormed.finish_eq {area : MemArea} (wellFormed : area.WellFormed) :
    area.finish = area.start + area.len := wrapAdd_eq wellFormed.bounded

theorem WellFormed.contains_pageFloor {area : MemArea} (wellFormed : area.WellFormed) (vaddr : Nat) :
    area.contains (pageFloor vaddr) ↔ area.contains vaddr := by
  have finish := wellFormed.finish_eq
  have aligned := wellFormed.startAligned
  have lenAligned := wellFormed.lenAligned
  unfold contains within pageFloor pageSize at *
  omega

/-- The range starts in the area and ends strictly inside it. -/
abbrev Hole (area : MemArea) (start last : Nat) : Prop := area.start ≤ start ∧ last < area.finish

def Cut.pieces (cut : Cut) : List MemArea :=
  (if cut.area.len ≠ 0 then [cut.area] else []) ++ cut.split.toList

variable {piece : MemArea}

theorem Cut.mem_pieces {cut : Cut} (member : piece ∈ cut.pieces) :
    piece = cut.area ∧ cut.area.len ≠ 0 ∨ cut.split = some piece := by
  rcases mem_append.mp member with front | back
  · split at front
    · next nonempty => exact .inl ⟨mem_singleton.mp front, nonempty⟩
    · cases front
  · exact .inr (Option.mem_toList.mp back)

variable {area : MemArea} {start last : Nat} {track : MapTrack}

theorem finish_lt (area : MemArea) : area.finish < usizeBound := Nat.mod_lt _ (by decide)

theorem finish_front (inside : area.contains start) : wrapAdd area.start (start - area.start) = start := by
  have bound := area.finish_lt
  rw [wrapAdd_eq (by omega)]
  omega

theorem finish_back (inside : last ≤ area.finish) : wrapAdd last (area.finish - last) = area.finish := by
  have bound := area.finish_lt
  rw [wrapAdd_eq (by omega)]
  omega

/-- A range that reaches into the area, to start and to end there. -/
abbrev Splits (area : MemArea) (start last : Nat) : Prop :=
  area.overlapping start last ∧ area.contains start ∧ area.contains last

/-- Whatever the area, what stays of it unless it is split is what the range does not reach. -/
theorem sub_contains (ordered : start ≤ last) (whole : ¬ area.Splits start last) (table : PageTable) (address : Nat) :
    (area.sub start last table).area.contains address ↔ area.contains address ∧ ¬ within start last address := by
  have bound := area.finish_lt
  unfold sub
  split
  · change area.contains address ↔ _
    omega
  next touched =>
    rw [if_neg fun ends => whole ⟨not_not.mp touched, ends⟩]
    split
    · have empty : wrapAdd area.start 0 ≤ area.start := Nat.mod_le _ _
      change within area.start (wrapAdd area.start 0) address ↔ _
      omega
    · split
      · next starts =>
        have front := finish_front starts
        change within area.start (wrapAdd area.start (start - area.start)) address ↔ _
        omega
      · split
        · have ends : last ≤ area.finish := by omega
          have back := finish_back ends
          change within last (wrapAdd last (wrapSub area.finish last)) address ↔ _
          rw [wrapSub_eq ends bound]
          omega
        · omega

/-- Everything `sub` does to an area it cuts no hole into. -/
structure Trimmed (area : MemArea) (start last : Nat) (table : PageTable) (cut : Cut) : Prop where
  covers : ∀ address, cut.area.contains address ↔ area.contains address ∧ ¬ within start last address
  bounded : cut.area.start + cut.area.len < usizeBound
  mtrackers : cut.area.mtrackers = area.mtrackers.filter fun track => ¬ within start last track.vaddr
  split : cut.split = none
  table : cut.table = unmapTracks table (area.mtrackers.filter fun track => within start last track.vaddr)

theorem sub_trimmed (wellFormed : area.WellFormed) (ordered : start < last)
    (whole : ¬ area.Hole start last) (table : PageTable) :
    Trimmed area start last table (area.sub start last table) := by
  have bounded := wellFormed.bounded
  have finish := wellFormed.finish_eq
  have inside := wellFormed.trackInside
  have covers := sub_contains (le_of_lt ordered) (by omega : ¬ area.Splits start last) table
  -- In every case the trackers that stay are those the area still covers.
  suffices kept : (area.sub start last table).area.start + (area.sub start last table).area.len < usizeBound ∧
      (area.sub start last table).area.mtrackers =
        area.mtrackers.filter (fun track => (area.sub start last table).area.contains track.vaddr) ∧
      (area.sub start last table).split = none ∧ (area.sub start last table).table = unmapTracks table
        (area.mtrackers.filter fun track => ¬ (area.sub start last table).area.contains track.vaddr) by
    obtain ⟨bounded, mtrackers, split, unmapped⟩ := kept
    refine ⟨covers, bounded, mtrackers.trans ?_, split, unmapped.trans (congrArg _ ?_)⟩
    · refine filter_congr fun track member => decide_eq_decide.mpr ?_
      exact (covers track.vaddr).trans (and_iff_right (inside track member))
    · refine filter_congr fun track member => decide_eq_decide.mpr ?_
      rw [covers, and_iff_right (inside track member), not_not]
  unfold sub
  split
  · refine ⟨bounded, (filter_eq_self.mpr fun track member => decide_eq_true (inside track member)).symm, rfl, ?_⟩
    rw [filter_eq_nil_iff.mpr fun track member => by simpa using inside track member]
    rfl
  · split
    · omega
    · split
      · have empty : ∀ address, ¬ ({ area with len := 0, mtrackers := [] } : MemArea).contains address := by
          intro address
          have none : wrapAdd area.start 0 ≤ area.start := Nat.mod_le _ _
          change ¬ within area.start (wrapAdd area.start 0) address
          omega
        refine ⟨by simp only; omega, by simp [empty], rfl, ?_⟩
        rw [filter_eq_self.mpr fun track _ => by simp [empty]]
      · refine ⟨?_, rfl, rfl, rfl⟩
        split
        · simp only
          omega
        · split
          · simp only [wrapSub_eq (by omega : last ≤ area.finish) (by omega)]
            omega
          · exact bounded

/-- What a hole leaves: the front of the area with the trackers up to the end of
the hole, and a back without trackers. The page table stays. -/
structure Holed (area : MemArea) (start last : Nat) (table : PageTable) (cut : Cut)
    (back : MemArea) : Prop where
  frontCovers : ∀ address, cut.area.contains address ↔ area.contains address ∧ address < start
  backCovers : ∀ address, back.contains address ↔ area.contains address ∧ last ≤ address
  mtrackers : cut.area.mtrackers = area.mtrackers.filter fun track => ¬ within last area.finish track.vaddr
  split : cut.split = some back
  backTrackers : back.mtrackers = []
  table : cut.table = table

theorem sub_holed (wellFormed : area.WellFormed) (ordered : start < last)
    (hole : area.Hole start last) (table : PageTable) :
    ∃ back, Holed area start last table (area.sub start last table) back := by
  have bounded := wellFormed.bounded
  have finish := wellFormed.finish_eq
  have touched : ¬ ¬ area.overlapping start last := by omega
  have ends : area.contains start ∧ area.contains last := by omega
  have frontFinish : wrapAdd area.start (start - area.start) = start :=
    (wrapAdd_eq (by omega)).trans (by omega)
  have backFinish : wrapAdd last (area.finish - last) = area.finish :=
    (wrapAdd_eq (by omega)).trans (by omega)
  unfold sub
  rw [if_neg touched, if_pos ends]
  refine ⟨_, ?_, ?_, ?_, rfl, ?_, rfl⟩
  · intro address
    change within area.start (wrapAdd area.start (start - area.start)) address ↔ _
    omega
  · intro address
    change within last (wrapAdd last (area.finish - last)) address ↔ _
    omega
  · simp only [filter_filter, Bool.and_self]
  · refine filter_eq_nil_iff.mpr fun _ member => ?_
    rw [decide_eq_true_eq]
    exact of_decide_eq_true (mem_filter.mp member).2

theorem sub_whole (positive : 0 < area.len) (bounded : area.start + area.len < usizeBound) (table : PageTable) :
    area.sub area.start (area.start + area.len) table =
      { area := { area with len := 0, mtrackers := [] }, split := none
        table := unmapTracks table area.mtrackers
        writes := { area with len := 0 }.writePages area.start (area.start + area.len) } := by
  have finish : area.finish = area.start + area.len := wrapAdd_eq bounded
  have empty : ({ area with len := 0 } : MemArea).finish = area.start := wrapAdd_eq (by simp only; omega)
  have outside : ∀ address, ¬ within area.start area.start address := fun address _ => by omega
  have first : area.contains area.start := ⟨le_refl _, by omega⟩
  unfold sub
  rw [if_neg (by rw [overlapping]; omega), if_neg (by rw [contains, contains]; omega), if_neg (by omega), if_pos first]
  have all : area.mtrackers.filter (fun _ => true) = area.mtrackers := filter_eq_self.mpr fun _ _ => rfl
  simp [contains, empty, outside, all]

theorem length_ne_zero_of_contains {address : Nat} (inside : area.contains address) : area.len ≠ 0 := by
  intro empty
  have bound := Nat.mod_le area.start usizeBound
  simp only [contains, finish, wrapAdd, empty, Nat.add_zero] at inside
  omega

/-- What stays of an area. Nothing of it depends on the page table. -/
def remains (area : MemArea) (start last : Nat) : List MemArea :=
  (area.sub start last empty).pieces

theorem sub_pieces (table : PageTable) : (area.sub start last table).pieces = area.remains start last := by
  unfold remains sub
  split
  · rfl
  · split
    · rfl
    · split <;> rfl

theorem remains_containing (wellFormed : area.WellFormed) (ordered : start < last) (address : Nat) :
    (area.contains address ∧ ¬ within start last address →
      ∃ piece, (area.remains start last).filter (fun piece => piece.contains address) = [piece]) ∧
    (¬ (area.contains address ∧ ¬ within start last address) →
      (area.remains start last).filter (fun piece => piece.contains address) = []) := by
  unfold remains
  by_cases hole : area.Hole start last
  · obtain ⟨back, holed⟩ := sub_holed wellFormed ordered hole empty
    have front := holed.frontCovers address
    have rear := holed.backCovers address
    simp only [Cut.pieces, holed.split, Option.toList_some]
    constructor
    · intro kept
      by_cases early : address < start
      · have inside := front.mpr ⟨kept.1, early⟩
        have outside : ¬ back.contains address := mt rear.mp (by omega)
        exact ⟨_, by simp [length_ne_zero_of_contains inside, inside, outside]; rfl⟩
      · have outside := mt front.mp (by omega)
        have inside := rear.mpr (by omega)
        exact ⟨back, by split <;> simp [inside, outside]⟩
    · intro gone
      have frontOutside := mt front.mp (by omega)
      have backOutside := mt rear.mp (by omega)
      split <;> simp [frontOutside, backOutside]
  · have trimmed := sub_trimmed wellFormed ordered hole empty
    have covers := trimmed.covers address
    simp only [Cut.pieces, trimmed.split, Option.toList_none, append_nil]
    constructor
    · intro kept
      have inside := covers.mpr kept
      exact ⟨_, by simp [length_ne_zero_of_contains inside, inside]; rfl⟩
    · intro gone
      have outside := mt covers.mp gone
      split <;> simp [outside]

/-- Trackers that stay: without a hole those outside the range, with one those
not past its end. -/
theorem mem_remains_mtrackers (wellFormed : area.WellFormed) (ordered : start < last)
    (member : piece ∈ area.remains start last) (tracked : track ∈ piece.mtrackers) :
    track ∈ area.mtrackers ∧
      if area.Hole start last then ¬ within last area.finish track.vaddr
      else ¬ within start last track.vaddr := by
  by_cases hole : area.Hole start last
  · obtain ⟨_, holed⟩ := sub_holed wellFormed ordered hole empty
    rw [if_pos hole]
    rcases Cut.mem_pieces member with ⟨rfl, _⟩ | back
    · rwa [holed.mtrackers, mem_filter, decide_eq_true_eq] at tracked
    · cases holed.split.symm.trans back
      simp [holed.backTrackers] at tracked
  · have trimmed := sub_trimmed wellFormed ordered hole empty
    rw [if_neg hole]
    rcases Cut.mem_pieces member with ⟨rfl, _⟩ | back
    · rwa [trimmed.mtrackers, mem_filter, decide_eq_true_eq] at tracked
    · cases trimmed.split.symm.trans back

theorem mem_mtrackers_of_contains (wellFormed : area.WellFormed) (ordered : start < last)
    (member : piece ∈ area.remains start last) (tracked : track ∈ area.mtrackers)
    (covered : piece.contains track.vaddr) (clear : area.Hole start last → track.vaddr < start) :
    track ∈ piece.mtrackers := by
  by_cases hole : area.Hole start last
  · obtain ⟨_, holed⟩ := sub_holed wellFormed ordered hole empty
    rcases Cut.mem_pieces member with ⟨rfl, _⟩ | back
    · rw [holed.mtrackers, mem_filter, decide_eq_true_eq]
      exact ⟨tracked, by omega⟩
    · cases holed.split.symm.trans back
      have late := (holed.backCovers track.vaddr).mp covered
      omega
  · have trimmed := sub_trimmed wellFormed ordered hole empty
    rcases Cut.mem_pieces member with ⟨rfl, _⟩ | back
    · rw [trimmed.mtrackers, mem_filter, decide_eq_true_eq]
      exact ⟨tracked, ((trimmed.covers track.vaddr).mp covered).2⟩
    · cases trimmed.split.symm.trans back

end MemArea

namespace MemSet

/-- Areas that share no address, with the page table in step with the trackers. -/
structure WellFormed (memset : MemSet) (table : PageTable) : Prop where
  areas : ∀ area ∈ memset, area.WellFormed
  apart : memset.Pairwise fun left right =>
    ∀ address, ¬ (left.contains address ∧ right.contains address)
  mapped : ∀ area ∈ memset, ∀ track ∈ area.mtrackers, (table track.vaddr).map Mapping.paddr = some track.tracker

variable {memset : MemSet} {table : PageTable} {start last address : Nat}

theorem WellFormed.unique (wellFormed : memset.WellFormed table) {left right : MemArea}
    (leftMember : left ∈ memset) (rightMember : right ∈ memset)
    (inLeft : left.contains address) (inRight : right.contains address) : left = right := by
  by_contra different
  have symmetric : Std.Symm fun left right : MemArea =>
      ∀ address, ¬ (left.contains address ∧ right.contains address) :=
    ⟨fun _ _ apart address both => apart address both.symm⟩
  exact wellFormed.apart.forall leftMember rightMember different address ⟨inLeft, inRight⟩

theorem subEach_apart {strongCount : Nat → Nat}
    (apart : ∀ area ∈ memset, ¬ area.overlapping start last) (more : MemSet) (table : PageTable) :
    subEach strongCount start last (memset ++ more) table =
      (memset.filter (fun area => area.len ≠ 0) ++ (subEach strongCount start last more table).1,
        (subEach strongCount start last more table).2.1, (subEach strongCount start last more table).2.2.1,
        (memset.filter fun area => area.len = 0).flatMap (drop strongCount) ++
          (subEach strongCount start last more table).2.2.2) := by
  induction memset with
  | nil => rfl
  | cons area memset ih =>
    obtain ⟨here, later⟩ := forall_mem_cons.mp apart
    have whole : area.sub start last table = { area, split := none, table, writes := [] } := by
      rw [sub, if_pos here]
    by_cases empty : area.len = 0 <;> simp [subEach, whole, ih later, empty]

theorem subArea_perm (strongCount : Nat → Nat) (memset : MemSet) (table : PageTable) :
    (subArea strongCount memset start last table).1.Perm (memset.flatMap fun area => area.remains start last) := by
  simp only [subArea]
  induction memset generalizing table with
  | nil => exact .refl _
  | cons area _ ih =>
    have later := ih (area.sub start last table).table
    rw [flatMap_cons, ← sub_pieces table]
    simp only [subEach, MemArea.Cut.pieces]
    split
    · exact .cons _ ((perm_append_comm_assoc ..).trans (later.append_left _))
    · exact (perm_append_comm_assoc ..).trans (later.append_left _)

theorem subArea_table (areas : ∀ area ∈ memset, area.WellFormed) (ordered : start < last)
    (strongCount : Nat → Nat) (table : PageTable) (page : Nat) :
    (subArea strongCount memset start last table).2.1 page =
      if ∃ area ∈ memset, ¬ area.Hole start last ∧
        ∃ track ∈ area.mtrackers, within start last track.vaddr ∧ track.vaddr = page
      then none else table page := by
  simp only [subArea]
  induction memset generalizing table with
  | nil => simp [subEach]
  | cons area rest ih =>
    have wellFormed := areas area (by simp)
    have here : (area.sub start last table).table page =
        if ¬ area.Hole start last ∧ ∃ track ∈ area.mtrackers, within start last track.vaddr ∧ track.vaddr = page
        then none else table page := by
      by_cases hole : area.Hole start last
      · obtain ⟨_, holed⟩ := sub_holed wellFormed ordered hole table
        rw [holed.table, if_neg (fun gone => gone.1 hole)]
      · rw [(sub_trimmed wellFormed ordered hole table).table, unmapTracks_apply]
        · simp only [mem_filter, decide_eq_true_eq, hole, not_false_eq_true, true_and, and_assoc]
        · intro track member
          exact wellFormed.trackAligned track (mem_filter.mp member).1
    have later := ih (fun area member => areas area (by simp [member])) (area.sub start last table).table
    have step : (subEach strongCount start last (area :: rest) table).2.2.1 =
        (subEach strongCount start last rest (area.sub start last table).table).2.2.1 := by
      simp only [subEach]
      split <;> rfl
    simp only [step, later, here, mem_cons, exists_eq_or_imp]
    rw [← ite_or, if_congr Or.comm rfl rfl]

private theorem remains_elsewhere (areas : ∀ area ∈ memset, area.WellFormed) (ordered : start < last)
    (elsewhere : ∀ area ∈ memset, ¬ area.contains address) :
    (memset.flatMap fun area => area.remains start last).filter (fun area => area.contains address) = [] := by
  rw [filter_flatMap, flatMap_eq_nil_iff]
  intro area member
  exact (remains_containing (areas area member) ordered address).2 fun both => elsewhere area member both.1

section

variable (wellFormed : memset.WellFormed table) (ordered : start < last) (strongCount : Nat → Nat)
include wellFormed ordered strongCount

theorem WellFormed.survivor {area : MemArea} (member : area ∈ memset)
    (inside : area.contains address) (outside : ¬ within start last address) :
    ∃ piece ∈ area.remains start last, piece.contains address ∧
      (subArea strongCount memset start last table).1.filter (fun area => area.contains address) = [piece] := by
  obtain ⟨piece, only⟩ :=
    (remains_containing (wellFormed.areas area member) ordered address).1 ⟨inside, outside⟩
  have found := mem_filter.mp (only ▸ mem_singleton_self piece)
  refine ⟨piece, found.1, of_decide_eq_true found.2, ?_⟩
  have same := (@subArea_perm start last strongCount memset table).filter fun area => area.contains address
  obtain ⟨before, after, rfl⟩ := append_of_mem member
  obtain ⟨_, rest, earlier⟩ := pairwise_append.mp wellFormed.apart
  have front := remains_elsewhere (fun other found => wellFormed.areas other (by simp [found])) ordered
    (fun other found held => earlier other found area (by simp) address ⟨held, inside⟩)
  have back := remains_elsewhere (fun other found => wellFormed.areas other (by simp [found])) ordered
    (fun other found held => (pairwise_cons.mp rest).1 other found address ⟨inside, held⟩)
  rw [flatMap_append, flatMap_cons, filter_append, filter_append, front, back, only, nil_append, append_nil] at same
  exact perm_singleton.mp same

/-- Exactly the pages of the range are gone: tracked pages outside it stay with
the one area that covers them, tracked pages inside it lose tracker and mapping. -/
structure Unmapped (before : MemSet) (start last : Nat) (after : MemSet) (table : PageTable) :
    Prop where
  kept : ∀ area ∈ before, ∀ track ∈ area.mtrackers, ¬ within start last track.vaddr →
    (∃ survivor, after.filter (fun area => area.contains track.vaddr) = [survivor] ∧
      track ∈ survivor.mtrackers) ∧
    (table track.vaddr).map Mapping.paddr = some track.tracker
  untracked : ∀ area ∈ after, ∀ track ∈ area.mtrackers, ¬ within start last track.vaddr
  unmapped : ∀ area ∈ before, ∀ track ∈ area.mtrackers, within start last track.vaddr → table track.vaddr = none

private theorem unmapped_of_clear
    (clear : ∀ area ∈ memset, area.Hole start last → ∀ track ∈ area.mtrackers, track.vaddr < start) :
    let result := subArea strongCount memset start last table
    Unmapped memset start last result.1 result.2.1 := by
  have tableAt := @subArea_table memset start last wellFormed.areas ordered strongCount table
  refine ⟨?_, ?_, ?_⟩
  · intro area member track tracked outside
    have areaWell := wellFormed.areas area member
    have inside := areaWell.trackInside track tracked
    obtain ⟨piece, remains, covers, only⟩ :=
      wellFormed.survivor ordered strongCount member inside outside
    refine ⟨⟨piece, only, ?_⟩, ?_⟩
    · exact mem_mtrackers_of_contains areaWell ordered remains tracked covers
        fun hole => clear area member hole track tracked
    · rw [tableAt, if_neg]
      · exact wellFormed.mapped area member track tracked
      · rintro ⟨_, _, _, _, _, inRange, same⟩
        exact outside (same ▸ inRange)
  · intro area member track tracked
    obtain ⟨origin, originMember, piece⟩ :=
      mem_flatMap.mp ((subArea_perm strongCount memset table).mem_iff.mp member)
    have stays := mem_remains_mtrackers (wellFormed.areas origin originMember) ordered piece tracked
    by_cases hole : origin.Hole start last
    · have early := clear origin originMember hole track stays.1
      omega
    · simpa [hole] using stays.2
  · intro area member track tracked inRange
    rw [tableAt, if_pos]
    refine ⟨area, member, fun hole => ?_, track, tracked, inRange, rfl⟩
    have early := clear area member hole track tracked
    omega

private theorem clear_of_unmapped (unmapped : Unmapped memset start last (subArea strongCount memset start last table).1
      (subArea strongCount memset start last table).2.1)
    {area : MemArea} (member : area ∈ memset) (hole : area.Hole start last)
    {track : MapTrack} (tracked : track ∈ area.mtrackers) : track.vaddr < start := by
  have areaWell := wellFormed.areas area member
  have inside := areaWell.trackInside track tracked
  by_contra late
  by_cases inRange : within start last track.vaddr
  · -- The page is still mapped: the hole unmaps nothing, and no other area tracks the page.
    have gone := unmapped.unmapped area member track tracked inRange
    rw [subArea_table wellFormed.areas ordered, if_neg] at gone
    · have present := wellFormed.mapped area member track tracked
      simp [gone] at present
    · rintro ⟨other, otherMember, noHole, found, foundMember, _, same⟩
      have otherInside := (wellFormed.areas other otherMember).trackInside found foundMember
      rw [same] at otherInside
      exact noHole (wellFormed.unique member otherMember inside otherInside ▸ hole)
  · -- The tracker past the hole is lost with the retained ones.
    obtain ⟨⟨survivor, only, kept⟩, _⟩ := unmapped.kept area member track tracked inRange
    have left := mem_filter.mp (only ▸ mem_singleton_self survivor)
    obtain ⟨origin, originMember, piece⟩ :=
      mem_flatMap.mp ((subArea_perm strongCount memset table).mem_iff.mp left.1)
    have stays := mem_remains_mtrackers (wellFormed.areas origin originMember) ordered piece kept
    have originInside := (wellFormed.areas origin originMember).trackInside track stays.1
    cases wellFormed.unique member originMember inside originInside
    rw [if_pos hole] at stays
    omega

end

/-- `sub_area` unmaps exactly the pages of the range if and only if no area
that the range leaves a back of tracks a page from the range's start on. -/
theorem subArea_unmaps_iff (wellFormed : memset.WellFormed table) (ordered : start < last) (strongCount : Nat → Nat) :
    Unmapped memset start last (subArea strongCount memset start last table).1
        (subArea strongCount memset start last table).2.1 ↔
      ∀ area ∈ memset, area.Hole start last → ∀ track ∈ area.mtrackers, track.vaddr < start :=
  ⟨fun unmapped _ member hole _ tracked =>
      clear_of_unmapped wellFormed ordered strongCount unmapped member hole tracked,
    unmapped_of_clear wellFormed ordered strongCount⟩

def threePages (touched : List MapTrack) : MemSet :=
  [{ mtype := .Mmap, mtrackers := touched, file := none, offset := 0, start := 0x1000, len := 0x3000 }]

def touchedTable (touched : List MapTrack) : PageTable :=
  touched.foldl (fun table track => table.mapPage track.vaddr track.tracker .urwx) empty

theorem subArea_unmaps_untouched_middle :
    Unmapped (threePages [⟨0x1000, 0x9000⟩]) 0x2000 0x3000
      (subArea (fun _ => 1) (threePages [⟨0x1000, 0x9000⟩]) 0x2000 0x3000 (touchedTable [⟨0x1000, 0x9000⟩])).1
      (subArea (fun _ => 1) (threePages [⟨0x1000, 0x9000⟩]) 0x2000 0x3000 (touchedTable [⟨0x1000, 0x9000⟩])).2.1 := by
  refine (subArea_unmaps_iff ⟨?_, ?_, ?_⟩ (by decide) _).mpr ?_
  · intro area member
    cases mem_singleton.mp member
    exact ⟨by decide, by decide, by decide, by simp [pageSize], by decide⟩
  · exact pairwise_singleton _ _
  · decide
  · decide

/-- With all three touched, the middle page stays mapped and the last loses its frame. -/
theorem subArea_hole_leaves_mapping :
    let touched : List MapTrack := [⟨0x1000, 0x9000⟩, ⟨0x2000, 0xa000⟩, ⟨0x3000, 0xb000⟩]
    let result := subArea (fun _ => 1) (threePages touched) 0x2000 0x3000 (touchedTable touched)
    (threePages touched).WellFormed (touchedTable touched) ∧
      (result.2.1 0x2000).map Mapping.paddr = some 0xa000 ∧
      (∀ area ∈ result.1, ∀ track ∈ area.mtrackers, track.vaddr ≠ 0x3000) ∧
      ¬ Unmapped (threePages touched) 0x2000 0x3000 result.1 result.2.1 := by
  refine ⟨⟨?_, ?_, ?_⟩, ?_, ?_, ?_⟩
  · intro area member
    cases mem_singleton.mp member
    exact ⟨by decide, by decide, by decide, by simp [pageSize], by decide⟩
  · exact pairwise_singleton _ _
  · decide
  · decide
  · decide
  · intro unmapped
    have gone := unmapped.unmapped _ (mem_singleton_self _) ⟨0x2000, 0xa000⟩ (by decide) (by decide)
    revert gone
    decide

end MemSet

end MonkeyOS.Tasks
