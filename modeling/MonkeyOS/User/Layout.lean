import MonkeyOS.User.PageFaultProperties

/-! The layout of a process: its areas without the pages that back them. Faults
inside an area keep it, the others add at most the area of their window. -/

set_option autoImplicit false

namespace MonkeyOS

namespace Tasks

def MemArea.bare (area : MemArea) : MemArea := { area with mtrackers := [] }

def MemSet.layout (memset : MemSet) : MemSet := memset.map MemArea.bare

@[simp] theorem MemSet.layout_append (front back : MemSet) :
    MemSet.layout (front ++ back) = front.layout ++ back.layout := List.map_append

theorem MemSet.layout_extendStack {memset extended : MemSet} {tracks : List MapTrack}
    (found : memset.extendStack tracks = some extended) : extended.layout = memset.layout := by
  induction memset generalizing extended with
  | nil => cases found
  | cons area _ ih =>
    unfold extendStack at found
    split at found
    · cases found
      rfl
    · obtain ⟨_, extendedRest, rfl⟩ := Option.map_eq_some_iff.mp found
      exact congrArg (area.bare :: ·) (ih extendedRest)

/-- Only stack pages for which there is a stack area leave the layout alone. -/
theorem MemSet.layout_place (memset : MemSet) (area : MemArea) :
    (memset.place area).layout =
      if area.mtype = .Stack ∧ ∃ stack ∈ memset, stack.mtype = .Stack then memset.layout
      else memset.layout ++ [area.bare] := by
  unfold place
  by_cases stack : area.mtype = .Stack
  · cases extended : memset.extendStack area.mtrackers with
    | none =>
      have absent := extendStack_eq_none_iff.mp extended
      have none : ¬ ∃ stack ∈ memset, stack.mtype = .Stack := by simpa using absent
      simp [stack, none, MemSet.layout]
    | some _ =>
      have some : ∃ stack ∈ memset, stack.mtype = .Stack := by
        by_contra absent
        rw [extendStack_eq_none_iff.mpr (by simpa using absent)] at extended
        cases extended
      simp [stack, some, layout_extendStack extended]
  · simp [stack, MemSet.layout]

theorem Process.placed_memset {process : Process} {area : MemArea} (kind : area.mtype ≠ .Stack) (vaddr : Nat)
    (flags : MappingFlags) : (process.placed area vaddr flags).pcb.memset = process.pcb.memset ++ [area] := if_neg kind

end Tasks

namespace User

open Lib Tasks

theorem layout_updateOwner {vaddr : Nat} {update : MemArea → MemArea}
    (same : ∀ area, (update area).bare = area.bare) (memset : MemSet) :
    (updateOwner vaddr update memset).layout = memset.layout := by
  induction memset with
  | nil => rfl
  | cons area rest ih =>
    unfold updateOwner
    split
    · exact congrArg (· :: MemSet.layout rest) (same area)
    · exact congrArg (area.bare :: ·) ih

@[simp] theorem layout_retrack (vaddr frame : Nat) (memset : MemSet) :
    (retrack vaddr frame memset).layout = memset.layout := by
  exact layout_updateOwner (by intro _; rfl) memset

@[simp] theorem layout_track (vaddr frame : Nat) (memset : MemSet) :
    (track vaddr frame memset).layout = memset.layout := by
  exact layout_updateOwner (by intro _; rfl) memset

variable {around : Surroundings} {taskId vaddr : Nat}

theorem exit_keeps (space : UserSpace) (code : Nat) :
    (space.exit around taskId code).process.pageTable = space.process.pageTable ∧
      (space.exit around taskId code).process.tcb = space.process.tcb ∧
      (space.exit around taskId code).process.pcb.shms = space.process.pcb.shms ∧
      ((space.exit around taskId code).process.pcb.memset = space.process.pcb.memset ∨
        (space.exit around taskId code).process.pcb.memset = []) := by
  obtain ⟨_, cleared⟩ := space.process.clearChildTid_fst space.machine.mem taskId
  simp only [UserSpace.exit, Process.exit, Process.leaveThreads, cleared]
  split
  · exact ⟨rfl, rfl, rfl, .inr rfl⟩
  · exact ⟨rfl, rfl, rfl, .inl rfl⟩

variable {after before : UserSpace}

theorem Fault.layout_change (fault : Fault around taskId vaddr before after) :
    after.process.pcb.shms = before.process.pcb.shms ∧
      (after.process.pcb.memset.layout = before.process.pcb.memset.layout ∨
        before.process.pcb.memset.areaAt vaddr = none ∧
          (after.process.pcb.memset = [] ∨
            ∃ plan tracks, windowPlan around.files before.process.pcb.memset vaddr = some plan ∧
              after.process.pcb.memset.layout = MemSet.layout (before.process.pcb.memset.place
                (plan.area vaddr tracks)))) := by
  cases fault with
  | idle pcb _ _ => exact ⟨by rw [pcb], .inl (by rw [pcb])⟩
  | remapped _ _ _ _ _ pcb _ _ => exact ⟨by rw [pcb], .inl (by rw [pcb])⟩
  | copied _ _ _ _ _ _ _ _ pcb _ _ => exact ⟨by rw [pcb], .inl (by rw [pcb]; simp)⟩
  | touched _ _ _ _ _ _ pcb _ _ => exact ⟨by rw [pcb], .inl (by rw [pcb]; simp)⟩
  | placed plan first tracks _ unowned planned _ pcb _ _ =>
    exact ⟨by rw [pcb]; rfl, .inr ⟨unowned, .inr ⟨plan, first :: tracks, planned, by rw [pcb]; rfl⟩⟩⟩
  | ended code tls unowned _ exited =>
    obtain ⟨-, -, shms, same | gone⟩ := exit_keeps { before with tls } code
    · exact ⟨by rw [exited, shms], .inl (by rw [exited, same])⟩
    · exact ⟨by rw [exited, shms], .inr ⟨unowned, .inl (by rw [exited, gone])⟩⟩

theorem userCowInt_layout (inside : ∃ area ∈ before.process.pcb.memset, area.contains vaddr)
    (served : before.userCowInt around taskId vaddr = some after) :
    after.process.pcb.shms = before.process.pcb.shms ∧
      after.process.pcb.memset.layout = before.process.pcb.memset.layout := by
  have owned : before.process.pcb.memset.areaAt vaddr ≠ none := by
    intro missing
    obtain ⟨area, member, contained⟩ := inside
    simpa [contained] using List.find?_eq_none.mp missing area member
  obtain ⟨shms, same | ⟨unowned, _⟩⟩ :=
    (userCowInt_fault served fun missing => absurd missing owned).layout_change
  · exact ⟨shms, same⟩
  · exact absurd unowned owned

theorem find?_layout (memset : MemSet) (address : Nat) :
    memset.layout.find? (fun area => area.contains address) = (memset.areaAt address).map MemArea.bare := by
  rw [MemSet.layout, List.find?_map]
  rfl

theorem gapSegment_layout (memset : MemSet) (address : Nat) :
    Process.gapSegment address memset.layout = Process.gapSegment address memset := by
  induction memset with
  | nil => rfl
  | cons _ rest ih =>
    cases rest with
    | nil => rfl
    | cons _ rest =>
      simp only [MemSet.layout, List.map_cons] at ih ⊢
      rw [Process.gapSegment, Process.gapSegment, ih]
      rfl

theorem windowPlan_layout (files : Files) (memset : MemSet) (address : Nat) :
    windowPlan files memset.layout address = windowPlan files memset address := by
  have search : memset.layout.find? (fun area => area.contains address ∧ area.file.isSome) =
      (memset.find? fun area => area.contains address ∧ area.file.isSome).map MemArea.bare := by
    rw [MemSet.layout, List.find?_map]
    rfl
  have same : Process.elfSegment memset.layout address = Process.elfSegment memset address := by
    simp only [Process.elfSegment, gapSegment_layout, search]
    cases memset.find? fun area => area.contains address ∧ area.file.isSome <;> rfl
  simp only [windowPlan, segmentPlan, same]

theorem contains_of_layout {memset other : MemSet} (same : other.layout = memset.layout)
    {address : Nat} (inside : ∃ area ∈ memset, area.contains address) :
    ∃ area ∈ other, area.contains address := by
  obtain ⟨area, member, contained⟩ := inside
  have listed : area.bare ∈ other.layout := same ▸ List.mem_map_of_mem member
  obtain ⟨twin, twinMember, twinSame⟩ := List.mem_map.mp listed
  have start : twin.bare.start = area.bare.start := congrArg _ twinSame
  have len : twin.bare.len = area.bare.len := congrArg _ twinSame
  refine ⟨twin, twinMember, ?_⟩
  simp only [MemArea.bare] at start len
  simpa only [MemArea.contains, MemArea.finish, start, len] using contained

namespace UserSpace

variable {after space : UserSpace} {bytes : List UInt8}

theorem access_layout {write : Bool} {paddr : Option Nat}
    (inside : ∃ area ∈ space.process.pcb.memset, area.contains vaddr)
    (accessed : space.access around taskId vaddr write = some (paddr, after)) :
    after.process.pcb.shms = space.process.pcb.shms ∧
      after.process.pcb.memset.layout = space.process.pcb.memset.layout := by
  rcases access_cases accessed with ⟨-, -, rfl⟩ | ⟨-, served, -⟩
  · exact ⟨rfl, rfl⟩
  · exact userCowInt_layout inside served

theorem storeBytes_preserves {invariant : UserSpace → Prop} {space after : UserSpace} {bytes : List UInt8}
    (kept : ∀ {before middle : UserSpace} {index : Nat} {byte : UInt8}, index < bytes.length → invariant before →
      before.storeByte around taskId (wrapAdd vaddr index) byte = some middle → invariant middle)
    (stored : space.storeBytes around taskId vaddr bytes = some after) (initial : invariant space) :
    invariant after := by
  have indexed : ∀ pair ∈ bytes.zipIdx, pair.2 < bytes.length := fun pair => List.snd_lt_of_mem_zipIdx
  unfold storeBytes at stored
  generalize bytes.zipIdx = pairs at indexed stored
  induction pairs generalizing space with
  | nil => exact Option.some.inj stored ▸ initial
  | cons pair pairs ih =>
    simp only [List.foldlM_cons, bind_eq_some] at stored
    obtain ⟨_, first, rest⟩ := stored
    obtain ⟨here, later⟩ := List.forall_mem_cons.mp indexed
    exact ih (kept here initial first) later rest

theorem storeByte_access {byte : UInt8} (stored : space.storeByte around taskId vaddr byte = some after) :
    ∃ paddr middle, space.access around taskId vaddr true = some (some paddr, middle) ∧
      after = middle.fill paddr [byte] := by
  simp only [storeByte, bind_eq_some, Option.some.injEq] at stored
  obtain ⟨⟨_, middle⟩, accessed, paddr, rfl, rfl⟩ := stored
  exact ⟨paddr, middle, accessed, rfl⟩

theorem storeBytes_layout
    (inside : ∀ index < bytes.length, ∃ area ∈ space.process.pcb.memset, area.contains (wrapAdd vaddr index))
    (stored : space.storeBytes around taskId vaddr bytes = some after) :
    after.process.pcb.shms = space.process.pcb.shms ∧
      after.process.pcb.memset.layout = space.process.pcb.memset.layout := by
  refine @storeBytes_preserves around taskId vaddr (fun after => after.process.pcb.shms = space.process.pcb.shms ∧
    after.process.pcb.memset.layout = space.process.pcb.memset.layout) space after bytes ?_ stored ⟨rfl, rfl⟩
  rintro _ _ index _ bound ⟨shms, layout⟩ storing
  obtain ⟨_, _, accessed, rfl⟩ := storeByte_access storing
  obtain ⟨laterShms, laterLayout⟩ := access_layout (contains_of_layout layout (inside index bound)) accessed
  exact ⟨laterShms.trans shms, laterLayout.trans layout⟩

theorem loadBytes_layout {count : Nat} (fits : vaddr + count < usizeBound)
    (inside : ∀ index < count, ∃ area ∈ space.process.pcb.memset, area.contains (vaddr + index))
    (loaded : space.loadBytes around taskId vaddr count = some (bytes, after)) :
    after.process.pcb.shms = space.process.pcb.shms ∧
      after.process.pcb.memset.layout = space.process.pcb.memset.layout := by
  induction count generalizing space vaddr bytes with
  | zero =>
    cases Option.some.inj loaded
    exact ⟨rfl, rfl⟩
  | succ count ih =>
    simp only [loadBytes, loadByte, bind_eq_some] at loaded
    obtain ⟨⟨_, _⟩, ⟨⟨_, _⟩, access, _, _, _, rfl⟩, ⟨_, _⟩, rest, ⟨⟩⟩ := loaded
    obtain ⟨shms, layout⟩ := access_layout (inside 0 (Nat.zero_lt_succ _)) access
    rw [wrapAdd_eq (by omega)] at rest
    obtain ⟨laterShms, laterLayout⟩ := ih (by omega) (fun index _ => by
      have shifted := inside (index + 1) (by omega)
      rw [add_comm index 1, ← add_assoc] at shifted
      exact contains_of_layout layout shifted) rest
    exact ⟨laterShms.trans shms, laterLayout.trans layout⟩

end UserSpace

end User

end MonkeyOS
