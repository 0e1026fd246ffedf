import MonkeyOS.Tasks.Allocation

/-!
# Frames for page tables

`map_page` takes a frame for every table that is missing on the way to its entry, and
panics if there is none. `frame_alloc` takes the frames of all its pages before it maps
the first, so a call that has found them can still end in a panic.
-/

set_option autoImplicit false

namespace MonkeyOS.Tasks

open Lib Machine List Option Nat
open MonkeyOS.Runtime

def pnIndex (vaddr level : Nat) : Nat :=
  vaddr / 2 ^ (12 + 9 * level) % 2 ^ 9

/-- The tables behind the entries of the root: none, or one whose entries have leaf
tables or not. Addresses from `2 ^ 38` on lead to the entries of the kernel. -/
def Tables := Nat → Option (Nat → Bool)

namespace Tables

def empty : Tables := fun _ => none

/-- What `map_page` does on its way to the entry of a page. -/
def mapPage (tables : Tables) (machine : Machine) (vaddr : Nat) : Option (Tables × Machine) := do
  let (middle, machine) ←
    match tables (pnIndex vaddr 2) with
    | some middle => some (middle, machine)
    | none => machine.frameAlloc.map fun (_, machine) => (fun _ => false, machine)
  let machine ←
    if middle (pnIndex vaddr 1) then some machine
    else machine.frameAlloc.map Prod.snd
  let middle := Function.update middle (pnIndex vaddr 1) true
  some (Function.update tables (pnIndex vaddr 2) (some middle), machine)

def mapPages (tables : Tables) (machine : Machine) (pages : List Nat) : Option (Tables × Machine) :=
  pages.foldlM (fun (tables, machine) vaddr => tables.mapPage machine vaddr) (tables, machine)

/-! ## What the tables of a list of pages take -/

def missing (tables : Tables) (vaddr : Nat) : Nat :=
  match tables (pnIndex vaddr 2) with
  | none => 2
  | some middle => if middle (pnIndex vaddr 1) then 0 else 1

def reaching (tables : Tables) (vaddr : Nat) : Tables :=
  Function.update tables (pnIndex vaddr 2)
    (some (Function.update ((tables (pnIndex vaddr 2)).getD fun _ => false) (pnIndex vaddr 1) true))

def needs (tables : Tables) : List Nat → Nat
  | [] => 0
  | vaddr :: pages => tables.missing vaddr + (tables.reaching vaddr).needs pages

variable {tables : Tables} {machine : Machine} {vaddr : Nat} {pages : List Nat}

theorem needs_append {more : List Nat} :
    tables.needs (pages ++ more) = tables.needs pages + (pages.foldl reaching tables).needs more := by
  induction pages generalizing tables with
  | nil => simp [needs]
  | cons vaddr pages ih => simp [needs, ih, add_assoc]

theorem frameAlloc_cases (wellFormed : machine.frames.WellFormed) :
    machine.frames.getFreePageCount = 0 ∧ machine.frameAlloc = none ∨
      ∃ frame after, machine.frameAlloc = some (frame, after) ∧ machine.Supplies [frame] after := by
  have found := FrameAllocator.alloc_isSome_iff wellFormed.regions
  cases allocated : machine.frameAlloc with
  | none =>
    rw [map_eq_none_iff.mp allocated, isSome_none] at found
    exact .inl ⟨by simpa using found, rfl⟩
  | some granted => exact .inr ⟨granted.1, granted.2, rfl, frameAlloc_supplies wellFormed allocated⟩

variable (wellFormed : machine.frames.WellFormed)
include wellFormed

theorem mapPage_cases :
    machine.frames.getFreePageCount < tables.missing vaddr ∧ tables.mapPage machine vaddr = none ∨
      ∃ held after, tables.mapPage machine vaddr = some (tables.reaching vaddr, after) ∧
        held.length = tables.missing vaddr ∧ machine.Supplies held after := by
  unfold missing
  cases entry : tables (pnIndex vaddr 2) with
  | none =>
    obtain ⟨lacking, refused⟩ | ⟨middle, between, first, supplied⟩ := frameAlloc_cases wellFormed
    · exact .inl ⟨by simp [lacking], by simp [mapPage, entry, refused]⟩
    obtain ⟨lacking, refused⟩ | ⟨leaf, after, second, rest⟩ := frameAlloc_cases supplied.grants.wellFormed
    · exact .inl ⟨by simp [← supplied.grants.count, lacking], by simp [mapPage, entry, first, refused]⟩
    · exact .inr ⟨[middle] ++ [leaf], after, by simp [mapPage, reaching, entry, first, second], rfl,
        supplied.append rest⟩
  | some middle =>
    by_cases present : middle (pnIndex vaddr 1)
    · exact .inr ⟨[], machine, by simp [mapPage, reaching, entry, present], by simp [present], .nil wellFormed⟩
    obtain ⟨lacking, refused⟩ | ⟨leaf, after, done, supplied⟩ := frameAlloc_cases wellFormed
    · exact .inl ⟨by simp [present, lacking], by simp [mapPage, entry, present, refused]⟩
    · exact .inr ⟨[leaf], after, by simp [mapPage, reaching, entry, present, done], by simp [present], supplied⟩

theorem mapPages_cases :
    machine.frames.getFreePageCount < tables.needs pages ∧ tables.mapPages machine pages = none ∨
      ∃ held after, tables.mapPages machine pages = some (pages.foldl reaching tables, after) ∧
        held.length = tables.needs pages ∧ machine.Supplies held after := by
  induction pages generalizing tables machine with
  | nil => exact .inr ⟨[], machine, rfl, rfl, .nil wellFormed⟩
  | cons vaddr pages ih =>
    unfold needs
    rw [mapPages, foldlM_cons]
    obtain ⟨lacking, refused⟩ | ⟨front, between, first, length, supplied⟩ :=
      @mapPage_cases tables machine vaddr wellFormed
    · exact .inl ⟨by omega, by simp only [refused]; rfl⟩
    have left := supplied.grants.count
    simp only [first]
    obtain ⟨lacking, refused⟩ | ⟨back, after, rest, total, later⟩ :=
      @ih (tables.reaching vaddr) between supplied.grants.wellFormed
    · exact .inl ⟨by omega, refused⟩
    · exact .inr ⟨front ++ back, after, rest, by rw [length_append, length, total], supplied.append later⟩

end Tables

namespace Process

/-- A run that starts at zero is not mapped. -/
def mappedPages (vaddr count : Nat) : List Nat :=
  if vaddr = 0 then []
  else ((range count).map fun page => wrapAdd vaddr (page * pageSize)).filter (· ≠ 0)

/-- `frame_alloc` with the tables: their frames come out of what the pages leave. -/
def frameAllocTables (process : Process) (tables : Tables) (machine : Machine) (vaddr : Nat) (mtype : MemType)
    (count : Nat) : Option (Option Nat × Process × Tables × Machine) := do
  let (ppn, process, machine) ← process.frameAlloc machine vaddr mtype count
  let (tables, machine) ←
    if ppn.isSome then tables.mapPages machine (mappedPages vaddr count) else some (tables, machine)
  some (ppn, process, tables, machine)

variable {process : Process} {tables : Tables} {machine : Machine} {vaddr count : Nat} {mtype : MemType}

/-- A call answers. With no address the process, its tables and the free frames are as
before; otherwise every page has a frame of its own that was free, and so have the
tables that were added. -/
def AllOrNothing (process : Process) (tables : Tables) (machine : Machine) (vaddr : Nat) (mtype : MemType)
    (count : Nat) : Prop :=
  ∃ ppn after grown machine', process.frameAllocTables tables machine vaddr mtype count =
      some (ppn, after, grown, machine') ∧
    ((ppn = none ∧ after = process ∧ grown = tables ∧
        ∀ frame, machine'.frames.Free frame ↔ machine.frames.Free frame) ∨
      ∃ frames held, frames.length = count ∧ ppn = frames.head? ∧ ppn.isSome ∧
        held.length = tables.needs (mappedPages vaddr count) ∧
        grown = (mappedPages vaddr count).foldl .reaching tables ∧
        machine.frames.Grants (frames ++ held) machine'.frames ∧ process.Receives vaddr frames (allocFlags mtype) after)

/-- A call is all or nothing if and only if, once it finds the frames of its pages, as
many are left as its missing tables take. -/
theorem frame_alloc_all_or_nothing_iff (wellFormed : machine.frames.WellFormed) (aligned : vaddr % pageSize = 0)
    (nonzero : vaddr ≠ 0) (positive : 1 ≤ count) (below : vaddr + count * pageSize ≤ 2 ^ 38) :
    process.AllOrNothing tables machine vaddr mtype count ↔
      (machine.HasFrames mtype vaddr count →
        count + tables.needs (mappedPages vaddr count) ≤ machine.frames.getFreePageCount) := by
  have fits : vaddr + count * pageSize < usizeBound := below.trans_lt (by decide)
  by_cases found : machine.HasFrames mtype vaddr count
  · obtain ⟨ppn, after, middle, done⟩ := @frameAlloc_found process _ _ _ _ aligned positive fits found
    obtain ⟨frames, length, head, supplied, received⟩ := frameAlloc_receives wellFormed aligned nonzero fits done
    have left := supplied.grants.count
    obtain ⟨lacking, refused⟩ | ⟨held, machine', mapped, total, later⟩ :=
      @Tables.mapPages_cases tables middle (mappedPages vaddr count) supplied.grants.wellFormed
    · refine iff_of_false ?_ fun holds => by have := holds found; omega
      rintro ⟨_, _, _, _, answered, -⟩
      simp [frameAllocTables, done, refused] at answered
    · have := later.grants.count
      refine iff_of_true ⟨some ppn, after, (mappedPages vaddr count).foldl .reaching tables, machine',
        by simp [frameAllocTables, done, mapped], .inr ⟨frames, held, length, head.symm, rfl, total, rfl, ?_, received⟩⟩
        fun _ => by omega
      exact (supplied.append later).grants
  · obtain ⟨machine', done⟩ := @frameAlloc_lacking process machine vaddr count mtype positive found
    refine iff_of_true ⟨none, process, tables, machine', by simp [frameAllocTables, done], .inl ⟨rfl, rfl, rfl, ?_⟩⟩
      fun holds => absurd holds found
    rcases frameAlloc_outcome done with ⟨-, -, declined⟩ | ⟨_, _, _, present, _⟩
    · obtain ⟨frames, filled, supplied, rfl⟩ := declined.drops wellFormed
      exact supplied.dropped_free
    · cases present

theorem frame_alloc_all_or_nothing_iff_scattered :
    (new 7 []).AllOrNothing (Tables.empty.reaching 0x10000) scattered 0x10000 .Mmap 2 :=
  (frame_alloc_all_or_nothing_iff scattered_wellFormed (by decide) (by decide) (by decide) (by decide)).mpr
    fun _ => by decide +kernel

/-- Two frames are free and go to the two pages; none is left for a table. -/
theorem frame_alloc_panics_without_tables :
    ((new 7 []).frameAlloc scattered 0x10000 .Mmap 2).map Prod.fst = some (some 0x1000) ∧
      (new 7 []).frameAllocTables .empty scattered 0x10000 .Mmap 2 = none ∧
      ¬ (new 7 []).AllOrNothing .empty scattered 0x10000 .Mmap 2 := by
  refine ⟨by decide +kernel, (and_iff_left_of_imp fun panics => ?_).mpr (isNone_iff_eq_none.mp (by decide +kernel))⟩
  rintro ⟨_, _, _, _, answered, -⟩
  cases panics.symm.trans answered

end Process

end MonkeyOS.Tasks
