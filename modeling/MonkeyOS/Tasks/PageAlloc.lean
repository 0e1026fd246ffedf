import MonkeyOS.Runtime.FrameOwnership
import MonkeyOS.Tasks.MachineProperties

/-!
# What fresh frames hold

Every way to obtain and to give back a frame: `FrameTracker` of
`crates/runtime/src/frame.rs` and `PageAllocImpl` of `kernel/src/main.rs`, with
holders that write to what they hold. The ledger of held frames is not kernel state.
-/

set_option autoImplicit false

namespace MonkeyOS.Tasks

open Lib Machine
open MonkeyOS.Runtime

namespace Machine

def toPhys (virtAddrStart address : Nat) : Nat := address &&& (usizeBound - 1 - virtAddrStart)

def frameMap (virtAddrStart mmStart mmEnd : Nat) : Nat × Nat :=
  (toPhys virtAddrStart (alignup mmStart pageSize), toPhys virtAddrStart (aligndown mmEnd pageSize))

def addFrameMap (virtAddrStart : Nat) (machine : Machine) (mmStart mmEnd : Nat) : Machine :=
  let range := frameMap virtAddrStart mmStart mmEnd
  { machine with frames := machine.frames.addMemoryRegion range.1 range.2 }

/-- `PageAllocImpl::alloc`; `none` is its panic. -/
def pageAlloc (machine : Machine) : Option (Nat × Machine) := machine.frameAlloc

/-- `PageAllocImpl::dealloc`, which clears the page after giving it back. -/
def pageDealloc (machine : Machine) (paddr : Nat) : Machine :=
  let machine := { machine with frames := machine.frames.dealloc paddr }
  { machine with mem := overlay machine.mem paddr (List.replicate pageSize 0) }

theorem toPhys_aligned {virtAddrStart address : Nat} (aligned : address % pageSize = 0) :
    toPhys virtAddrStart address % pageSize = 0 := by
  have split := @Nat.and_mod_two_pow address (usizeBound - 1 - virtAddrStart) 12
  unfold pageSize at *
  simp only [toPhys]
  rw [split, aligned, Nat.zero_and]

theorem frameMap_aligned (virtAddrStart mmStart mmEnd : Nat) :
    (frameMap virtAddrStart mmStart mmEnd).1 % pageSize = 0 ∧ (frameMap virtAddrStart mmStart mmEnd).2 % pageSize = 0 :=
  ⟨toPhys_aligned (alignup_aligned mmStart), toPhys_aligned (Nat.mul_mod_left _ _)⟩

end Machine

inductive FrameEvent where
  | add (mmStart mmEnd : Nat)
  | alloc
  | allocMuch (pages : Nat)
  | pageAlloc
  | write (frame offset : Nat) (bytes : List UInt8)
  | drop (frame : Nat)
  | pageDealloc (frame : Nat)

structure FrameHolders where
  machine : Machine
  held : List Nat

namespace FrameHolders

variable (virtAddrStart : Nat)

/-- Memory is registered once, and blank; holders write to and give back only what
they hold. A label lists the frames the step hands out. -/
inductive Step : FrameHolders → FrameEvent × List Nat → FrameHolders → Prop where
  | add {machine held mmStart mmEnd start finish}
      (range : frameMap virtAddrStart mmStart mmEnd = (start, finish)) (ordered : start ≤ finish)
      (apart : ∀ region ∈ machine.frames, FrameAllocator.Apart region (.new start finish))
      (blank : ∀ address, start ≤ address → address < finish → machine.mem address = 0) :
      Step ⟨machine, held⟩ (.add mmStart mmEnd, []) ⟨machine.addFrameMap virtAddrStart mmStart mmEnd, held⟩
  | alloc {machine held frame after} (allocated : machine.frameAlloc = some (frame, after)) :
      Step ⟨machine, held⟩ (.alloc, [frame]) ⟨after, frame :: held⟩
  | allocMuch {machine held pages frames after} (allocated : machine.frameAllocMuch pages = some (frames, after)) :
      Step ⟨machine, held⟩ (.allocMuch pages, frames) ⟨after, frames ++ held⟩
  | pageAlloc {machine held frame after} (allocated : machine.pageAlloc = some (frame, after)) :
      Step ⟨machine, held⟩ (.pageAlloc, [frame]) ⟨after, frame :: held⟩
  | refused {machine held} (exhausted : machine.frameAlloc = none) : Step ⟨machine, held⟩ (.alloc, []) ⟨machine, held⟩
  | refusedMuch {machine held pages} (exhausted : machine.frameAllocMuch pages = none) :
      Step ⟨machine, held⟩ (.allocMuch pages, []) ⟨machine, held⟩
  | write {machine held frame offset bytes} (holds : frame ∈ held) (inside : offset + bytes.length ≤ pageSize) :
      Step ⟨machine, held⟩ (.write frame offset bytes, [])
        ⟨{ machine with mem := overlay machine.mem (frame + offset) bytes }, held⟩
  | drop {machine held frame} (holds : frame ∈ held) :
      Step ⟨machine, held⟩ (.drop frame, []) ⟨machine.dropFrame frame, held.erase frame⟩
  | pageDealloc {machine held frame} (holds : frame ∈ held) :
      Step ⟨machine, held⟩ (.pageDealloc frame, []) ⟨machine.pageDealloc frame, held.erase frame⟩

def ledger (holders : FrameHolders) : FrameState := ⟨holders.machine.frames, holders.held⟩

/-- Free frames are blank, and held frames are not free. -/
structure Scrubbed (holders : FrameHolders) : Prop where
  clean : holders.machine.Clean
  owned : ∃ regions, holders.ledger.Owned regions

def boot (mem : PhysMem) : FrameHolders := ⟨⟨[], mem⟩, []⟩

theorem boot_scrubbed (mem : PhysMem) : (boot mem).Scrubbed where
  clean := ⟨⟨nofun, .nil⟩, fun _ ⟨_, member, _⟩ => nomatch member⟩
  owned := ⟨[], rfl, ⟨nofun, .nil⟩, .nil, nofun, nofun, rfl⟩

/-! ## One step -/

variable {virtAddrStart}

section

variable {machine after : Machine} {held : List Nat} (scrubbed : Scrubbed ⟨machine, held⟩)
include scrubbed

private theorem Scrubbed.grant {frames : List Nat} (supplied : machine.Supplies frames after)
    (owned : ∃ regions, FrameState.Owned regions ⟨after.frames, frames ++ held⟩) :
    Scrubbed ⟨after, frames ++ held⟩ ∧ ∀ frame ∈ frames, pageAt after.mem frame = Page.zero := by
  refine ⟨⟨⟨supplied.grants.wellFormed, fun frame free => ?_⟩, owned⟩, fun frame granted => ?_⟩
  · rw [supplied.mem]
    exact scrubbed.clean.blank frame ((supplied.grants.rest frame).mp free).1
  · rw [supplied.mem]
    exact scrubbed.clean.blank frame (supplied.grants.free frame granted)

variable {frame : Nat}

private theorem Scrubbed.alloc (allocated : machine.frameAlloc = some (frame, after)) :
    Scrubbed ⟨after, frame :: held⟩ ∧ ∀ given ∈ [frame], pageAt after.mem given = Page.zero := by
  refine scrubbed.grant (frameAlloc_supplies scrubbed.clean.wellFormed allocated) ?_
  obtain ⟨regions, owned⟩ := scrubbed.owned
  refine ⟨regions, ?_⟩
  have step := owned.step .alloc
  obtain ⟨⟨_, _⟩, allocating, ⟨⟩⟩ := Option.map_eq_some_iff.mp allocated
  simpa only [FrameState.apply, ledger, allocating, List.singleton_append] using step

private theorem Scrubbed.allocMuch {frames : List Nat} {pages : Nat}
    (allocated : machine.frameAllocMuch pages = some (frames, after)) :
    Scrubbed ⟨after, frames ++ held⟩ ∧ ∀ given ∈ frames, pageAt after.mem given = Page.zero := by
  refine scrubbed.grant (frameAllocMuch_supplies scrubbed.clean.wellFormed allocated).2 ?_
  obtain ⟨regions, owned⟩ := scrubbed.owned
  refine ⟨regions, ?_⟩
  have step := owned.step (@FrameState.Step.allocMuch _ pages)
  obtain ⟨⟨_, _⟩, allocating, ⟨⟩⟩ := Option.map_eq_some_iff.mp allocated
  simpa only [FrameState.apply, ledger, allocating] using step

private theorem Scrubbed.drop (holds : frame ∈ held) : Scrubbed ⟨machine.dropFrame frame, held.erase frame⟩ := by
  obtain ⟨regions, owned⟩ := scrubbed.owned
  refine ⟨?_, regions, owned.step (.dealloc holds)⟩
  refine (dropFrames_releases scrubbed.clean.wellFormed (List.nodup_singleton frame) ?_).clean scrubbed.clean
  intro _ member
  rw [List.mem_singleton.mp member]
  exact ⟨owned.registered frame holds, owned.marked frame holds⟩

private theorem Scrubbed.write {offset : Nat} {bytes : List UInt8} (holds : frame ∈ held)
    (inside : offset + bytes.length ≤ pageSize) :
    Scrubbed ⟨{ machine with mem := overlay machine.mem (frame + offset) bytes }, held⟩ := by
  obtain ⟨regions, owned⟩ := scrubbed.owned
  have wellFormed := scrubbed.clean.wellFormed
  refine ⟨⟨wellFormed, fun other free => ?_⟩, regions, owned⟩
  have apart : other ≠ frame := fun same => owned.marked frame holds (same ▸ free)
  rw [pageAt_overlay_of_ne ((owned.registered frame holds).aligned wellFormed)
    (free.registered.aligned wellFormed) apart inside]
  exact scrubbed.clean.blank other free

private theorem Scrubbed.add {mmStart mmEnd start finish : Nat}
    (range : frameMap virtAddrStart mmStart mmEnd = (start, finish)) (ordered : start ≤ finish)
    (apart : ∀ region ∈ machine.frames, FrameAllocator.Apart region (.new start finish))
    (blank : ∀ address, start ≤ address → address < finish → machine.mem address = 0) :
    Scrubbed ⟨machine.addFrameMap virtAddrStart mmStart mmEnd, held⟩ := by
  obtain ⟨_, owned⟩ := scrubbed.owned
  obtain ⟨aligned, alignedEnd⟩ := frameMap_aligned virtAddrStart mmStart mmEnd
  have formed : (FrameRegionMap.new start finish).WellFormed := by
    rw [range] at aligned alignedEnd
    exact FrameRegionMap.new_wellFormed aligned alignedEnd ordered
  have added : machine.addFrameMap virtAddrStart mmStart mmEnd =
      { machine with frames := machine.frames.addMemoryRegion start finish } := by
    simp only [addFrameMap, range]
  rw [added]
  refine ⟨⟨FrameAllocator.addMemoryRegion_wellFormed scrubbed.clean.wellFormed formed apart, ?_⟩,
    _, owned.add formed apart⟩
  intro frame free
  rcases FrameAllocator.addMemoryRegion_free free with old | ⟨_, page⟩
  · exact scrubbed.clean.blank frame old
  · obtain ⟨_, lower, upper⟩ := formed.page_inside page
    funext offset
    simp only [pageAt, Page.zero]
    split
    · exact blank _ (Nat.le_trans lower (Nat.le_add_right frame offset)) (lt_of_lt_of_le (by omega) upper)
    · rfl

end

theorem Step.scrubbed {before after : FrameHolders} {label : FrameEvent × List Nat}
    (step : Step virtAddrStart before label after) (scrubbed : before.Scrubbed) :
    after.Scrubbed ∧ ∀ frame ∈ label.2, pageAt after.machine.mem frame = Page.zero := by
  cases step with
  | add range ordered apart blank => exact ⟨scrubbed.add range ordered apart blank, nofun⟩
  | alloc allocated | pageAlloc allocated => exact scrubbed.alloc allocated
  | allocMuch allocated => exact scrubbed.allocMuch allocated
  | refused | refusedMuch => exact ⟨scrubbed, nofun⟩
  | write holds inside => exact ⟨scrubbed.write holds inside, nofun⟩
  | drop holds | pageDealloc holds => exact ⟨scrubbed.drop holds, nofun⟩

/-! ## Every run -/

/-- A frame reads as zeros when it is handed out. -/
theorem fresh_frames_blank {mem : PhysMem} {labels : List (FrameEvent × List Nat)} {finish : FrameHolders}
    (run : Run (Step virtAddrStart) (boot mem) labels finish) :
    Run (fun before label after => Step virtAddrStart before label after ∧
      ∀ frame ∈ label.2, ∀ offset < pageSize, after.machine.mem (frame + offset) = 0)
      (boot mem) labels finish := by
  have kept : ∀ {before label after}, Scrubbed before → Step virtAddrStart before label after → Scrubbed after :=
    fun scrubbed step => (Step.scrubbed step scrubbed).1
  refine (@Run.assuming _ _ _ Scrubbed kept _ _ _ run (boot_scrubbed mem)).mono ?_
  rintro before label after ⟨step, scrubbed⟩
  refine ⟨step, fun frame granted offset bound => ?_⟩
  have blank := congrFun ((Step.scrubbed step scrubbed).2 frame granted) offset
  simpa only [pageAt, bound, if_true, Page.zero] using blank

def fullFrame : FrameAllocator := [{ bits := [BitVec.allOnes 64], paddr := 0x1000, paddrEnd := 0x2000 }]

theorem fresh_frames_blank_reused :
    ∃ finish, Run (fun before label after => Step 0 before label after ∧
      ∀ frame ∈ label.2, ∀ offset < pageSize, after.machine.mem (frame + offset) = 0)
      (boot fun address => if address < 0x1000 then 1 else 0)
      [(.add 0xfff 0x2fff, []), (.pageAlloc, [0x1000]), (.write 0x1000 8 [7], []), (.pageDealloc 0x1000, []),
        (.alloc, [0x1000])] finish := by
  have granted : FrameAllocator.alloc [.new 0x1000 0x2000] = some (0x1000, fullFrame) := by decide +kernel
  have returned : FrameAllocator.dealloc fullFrame 0x1000 = [.new 0x1000 0x2000] := by decide +kernel
  have allocated (mem : PhysMem) : frameAlloc ⟨[.new 0x1000 0x2000], mem⟩ = some (0x1000, ⟨fullFrame, mem⟩) :=
    congrArg (Option.map _) granted
  have again (mem : PhysMem) : (pageDealloc ⟨fullFrame, mem⟩ 0x1000).frameAlloc =
      some (0x1000, ⟨fullFrame, overlay mem 0x1000 (List.replicate pageSize 0)⟩) := by
    simp only [pageDealloc, returned, allocated]
  have range : frameMap 0 0xfff 0x2fff = (0x1000, 0x2000) := by decide
  exact ⟨_, fresh_frames_blank (.cons (.add range (by decide) nofun fun address lower _ => if_neg (by omega))
    (.cons (.pageAlloc (allocated _)) (.cons (.write (by decide) (by decide))
      (.cons (.pageDealloc (by decide)) (.cons (.alloc (again _)) .refl)))))⟩

end FrameHolders

end MonkeyOS.Tasks
