import Mathlib.Algebra.Order.BigOperators.Group.List
import MonkeyOS.Runtime.FrameOwnership
import MonkeyOS.User.CopyOnWriteWindows

/-!
# Copy-on-write refines eager copying

Every step of a family of processes is a step of the same processes with memory
by value, with the same answer.
-/

set_option autoImplicit false

namespace MonkeyOS.User

open Lib Tasks List Option Kernel PageTable

variable {kernel : Kernel} {system : System} {event : Event} {process : Process} {after : UserSpace} {vaddr index : Nat}
  {write : Bool} {mapping : Mapping}

/-! ## Accesses -/

theorem target_of_writable {table : PageTable} (found : table (pageFloor vaddr) = some mapping)
    (writable : mapping.flags.w = true) : target table vaddr write ≠ none := by
  simp [target, PageTable.translate, found, writable]

theorem Kernel.put_space (live : kernel.live index = some process) :
    kernel.put index (kernel.space process) = kernel := by
  obtain ⟨_, here⟩ := List.getElem?_eq_some_iff.mp (live_eq_some_iff.mp live).1
  simp only [put, space]
  rw [← here, set_getElem_self]

theorem read_mapped {page : Nat} (sound : Sound kernel) (models : Models kernel system)
    (live : kernel.live index = some process) (found : process.pageTable page = some mapping) :
    system.store.read (index, page) = some (pageAt kernel.machine.mem mapping.paddr) := by
  obtain ⟨_, points, frame⟩ := sound.mapped index process live page mapping found
  rw [models.store.read, points_live live, points, map_some, frame]
  rfl

section Served

variable (sound : Sound kernel) (models : Models kernel system) (live : kernel.live event.index = some process)
  (clear : event.Clear kernel) (touches : event.action.access = some (vaddr, write))
include sound models live clear touches

/-- A served fault gives the page a writable mapping. Any other leaves the page
table alone, and changes nothing or ends the task. -/
theorem fault_outcome (missing : target process.pageTable vaddr write = none)
    (fault : Fault (kernel.around event) event.taskId vaddr (kernel.space process) after) :
    (Advances kernel system event vaddr after ∧ after.process.pcb.exitCode = none ∧
        ∃ mapping, after.process.pageTable (pageFloor vaddr) = some mapping ∧ mapping.flags.w = true) ∨
      after.process.pageTable = process.pageTable ∧
        (after.process.pcb.exitCode = none ∧ Sound (kernel.put event.index after) ∧
            Models (kernel.put event.index after) system ∨
          after.process.pcb.exitCode.isSome ∧ Sound (kernel.put event.index after) ∧
            Models (kernel.put event.index after) (system.drop event.index)) := by
  have alive := (live_eq_some_iff.mp live).2
  have mapped : ∀ {frame : Nat} {area : MemArea},
      after.process.pageTable = process.pageTable.mapPage (pageFloor vaddr) frame (ownedFlags area vaddr) →
      ∃ mapping, after.process.pageTable (pageFloor vaddr) = some mapping ∧ mapping.flags.w = true := by
    intro frame area table
    exact ⟨{ paddr := frame, flags := ownedFlags area vaddr },
      by rw [table, mapPage, pageFloor_of_aligned (pageFloor_mod vaddr), Function.update_self],
      ownedFlags_writable ..⟩
  cases fault with
  | idle pcb table machine =>
    obtain ⟨_, declined⟩ := machine
    exact .inr ⟨table, .inl ⟨by rw [pcb]; exact alive,
      idle_keeps sound models live pcb table (declined.restores sound.clean)⟩⟩
  | remapped area track owner tracked exclusive pcb table machine =>
    exact .inl ⟨remapped_advances sound models live owner tracked exclusive pcb table machine,
      by rw [pcb]; exact alive, mapped table⟩
  | copied area track _ granted owner tracked isPrivate allocated pcb table machine =>
    exact .inl ⟨copied_advances sound models live owner tracked isPrivate allocated pcb table machine,
      by rw [pcb]; exact alive, mapped table⟩
  | touched area frame granted owner untracked allocated pcb table machine =>
    exact .inl ⟨touched_advances sound models live owner untracked allocated pcb table machine,
      by rw [pcb]; exact alive, mapped table⟩
  | placed plan _ _ granted unowned planned obtained pcb table machine =>
    obtain ⟨_, window, _⟩ := clear process vaddr write live touches missing unowned
    obtain ⟨stack, free⟩ := window plan planned
    refine .inl ⟨placed_advances models live unowned planned sound stack free obtained pcb table machine,
      by rw [pcb]; exact alive, ?_⟩
    rw [table]
    exact placed_writable sound.clean planned obtained
  | ended _ _ unowned ends exited =>
    obtain ⟨_, _, clears⟩ := clear process vaddr write live touches missing unowned
    obtain ⟨gone, table, dropped⟩ := ended_drops sound models live (clears ends) exited
    exact .inr ⟨table, .inr ⟨gone, dropped⟩⟩

/-- An access that goes through touches its page, and reaches the frame that has its value. -/
theorem access_served {paddr : Nat}
    (accessed : (kernel.space process).access (kernel.around event) event.taskId vaddr write =
      some (some paddr, after)) :
    Sound (kernel.put event.index after) ∧ ∃ system' mapping,
      system.touch event.files event.index vaddr = some system' ∧ Models (kernel.put event.index after) system' ∧
      (kernel.put event.index after).live event.index = some after.process ∧
      after.process.pageTable (pageFloor vaddr) = some mapping ∧ paddr = mapping.paddr + vaddr % pageSize ∧
      (write = true → mapping.flags.w = true) ∧
      system'.store.read (event.index, pageFloor vaddr) = some (pageAt after.machine.mem mapping.paddr) := by
  have served : Advances kernel system event vaddr after ∧ after.process.pcb.exitCode = none ∧
      target after.process.pageTable vaddr write = some paddr := by
    rcases UserSpace.access_cases accessed with ⟨-, allowed, rfl⟩ | ⟨missing, served, reached⟩
    · obtain ⟨mapping, found, _⟩ := target_eq_some allowed
      obtain ⟨_, points, _⟩ := sound.mapped event.index process live _ mapping found
      refine ⟨?_, (live_eq_some_iff.mp live).2, allowed⟩
      unfold Advances
      rw [put_space live]
      exact ⟨sound, system, touch_pointed models live points, models⟩
    · have fault := userCowInt_fault served fun unowned =>
        (clear process vaddr write live touches missing unowned).1
      rcases fault_outcome sound models live clear touches missing fault with ⟨advances, alive, _⟩ | ⟨table, _⟩
      · exact ⟨advances, alive, reached⟩
      · rw [table] at reached
        cases missing.symm.trans reached
  obtain ⟨⟨after_sound, system', touched, shows⟩, alive, reached⟩ := served
  obtain ⟨mapping, found, place, writable⟩ := target_eq_some reached
  have owner : (kernel.put event.index after).live event.index = some after.process := by
    rw [live_put live, if_pos rfl, if_pos alive]
  exact ⟨after_sound, system', mapping, touched, shows, owner, found, place, writable,
    read_mapped after_sound shows owner found⟩

/-- Any other changes nothing, or ends the task. -/
theorem unserved_follows
    (accessed : (kernel.space process).access (kernel.around event) event.taskId vaddr write = some (none, after))
    (answer : unserved after = event.answer) :
    Sound (kernel.put event.index after) ∧
      ∃ system', system.follow event = some system' ∧ Models (kernel.put event.index after) system' := by
  rcases UserSpace.access_cases accessed with ⟨reached, -⟩ | ⟨missing, served, unreached⟩
  · cases reached
  · have fault := userCowInt_fault served fun unowned =>
      (clear process vaddr write live touches missing unowned).1
    rcases fault_outcome sound models live clear touches missing fault with
      ⟨_, _, _, found, writable⟩ | ⟨_, ⟨alive, after_sound, same⟩ | ⟨gone, after_sound, dropped⟩⟩
    · exact absurd unreached (target_of_writable found writable)
    · exact ⟨after_sound, system, by simp [System.follow, ← answer, unserved, alive], same⟩
    · exact ⟨after_sound, _, by simp [System.follow, ← answer, unserved, gone], dropped⟩

end Served

theorem store_mapped {page offset : Nat} {byte : UInt8} (sound : Sound kernel)
    (models : Models kernel system) (live : kernel.live index = some process)
    (found : process.pageTable page = some mapping) (writable : mapping.flags.w = true) (bound : offset < pageSize) :
    let value := Function.update (pageAt kernel.machine.mem mapping.paddr) offset byte
    let mem := overlay kernel.machine.mem (mapping.paddr + offset) [byte]
    let stored := { kernel with machine := { kernel.machine with mem } }
    Sound stored ∧ Models stored { system with store := system.store.write (index, page) value } := by
  intro value mem _
  obtain ⟨pointed, points, frame⟩ := sound.mapped index process live page mapping found
  have here : kernel.heap.points (index, page) = some pointed := (points_live live page).trans points
  have aligned := sound.aligned here
  have others : ∀ other, other % pageSize = 0 → other ≠ pointed.frame →
      pageAt mem other = pageAt kernel.machine.mem other := by
    intro other otherAligned different
    rw [frame] at aligned different
    exact pageAt_overlay_of_ne aligned otherAligned different (by rw [length_singleton]; exact bound)
  have clean : Machine.Clean { kernel.machine with mem } := by
    refine ⟨sound.clean.wellFormed, fun other free => ?_⟩
    have unused := sound.unused free
    rw [others other (free.registered.aligned sound.clean.wellFormed)
      fun same => unused (index, page) pointed here same.symm]
    exact sound.clean.blank other free
  refine ⟨⟨sound.tidy, sound.mapped, sound.attached, sound.exclusive, sound.sorted, sound.held, clean⟩,
    models.count, models.layouts, ?_⟩
  have sole : pointed.shared = false → kernel.heap.Sole (index, page) := fun isPrivate =>
    sound.exclusive index process live page mapping found writable (by
      rw [points, ← frame, ← isPrivate])
  have written := models.store.write sound.sorted here sole value
  refine written.of_agrees fun _ target targeted => ?_
  simp only [Function.update_apply]
  split
  · next same => rw [same, frame]; exact pageAt_storeByte bound byte
  · next different => exact others target.frame (sound.aligned targeted) different

/-! ## Forks -/

section Fork

variable {parent child : Process} {taskId childId : Nat}

variable {other pcb : ProcessControlBlock} {index : Nat}

theorem pointer_congr (memset : other.memset = pcb.memset) (shms : other.shms = pcb.shms) :
    pointer other = pointer pcb := by
  funext page
  simp only [pointer, memset, shms]

theorem Tidy.congr (tidy : Tidy pcb) (memset : other.memset = pcb.memset) (shms : other.shms = pcb.shms) :
    Tidy other where
  wellFormed := memset ▸ tidy.wellFormed
  single := memset ▸ tidy.single
  segments := shms ▸ tidy.segments
  separate := by
    rw [ProcessControlBlock.ranges, memset, shms]
    exact tidy.separate

theorem Tidy.tracks_apart (tidy : Tidy pcb) {area : MemArea} {shm : MapedSharedMemory} {track other : MapTrack}
    (areaMember : area ∈ pcb.memset) (tracked : track ∈ area.mtrackers) (shmMember : shm ∈ pcb.shms)
    (attached : other ∈ shm.tracks) : track.vaddr ≠ other.vaddr := by
  intro same
  have apart := (pairwise_append.mp tidy.separate).2.2 area.range (mem_map_of_mem areaMember)
    shm.range (mem_map_of_mem shmMember)
  exact Set.disjoint_left.mp apart ((tidy.wellFormed area areaMember).trackInside track tracked)
    (same ▸ (tidy.segment_track shmMember attached).2.1)

def Backed (pcb : ProcessControlBlock) (table : PageTable) : Prop :=
  ∀ page mapping, table page = some mapping → ∃ target, pointer pcb page = some target ∧ target.frame = mapping.paddr

def Attaches (pcb : ProcessControlBlock) (table : PageTable) : Prop :=
  ∀ shm ∈ pcb.shms, ∀ track ∈ shm.tracks, ∃ mapping, table track.vaddr = some mapping ∧ mapping.flags.w = true

/-- A page table of parent or child: pages of areas as the fork maps them, the
others as `rest` does. -/
structure Forked (pcb : ProcessControlBlock) (rest table : PageTable) : Prop where
  entries : ∀ page,
    (∃ area ∈ pcb.memset, ∃ track ∈ area.mtrackers, track.vaddr = page ∧
        table page = some { paddr := track.tracker, flags := Process.forkFlags area.mtype }) ∨
      (∀ area ∈ pcb.memset, ∀ track ∈ area.mtrackers, track.vaddr ≠ page) ∧ table page = rest page

theorem forkTable_forked (tidy : Tidy pcb) (table : PageTable) : Forked pcb table (forkTable table pcb.memset) :=
  ⟨foldl_mapAll_cases fun area member => (tidy.wellFormed area member).trackAligned⟩

theorem attachTable_entries (tidy : Tidy pcb) (table : PageTable) (page : Nat) :
    (∃ shm ∈ pcb.shms, ∃ track ∈ shm.tracks, track.vaddr = page ∧
        attachTable table pcb.shms page = some { paddr := track.tracker, flags := .urwx }) ∨
      (∀ shm ∈ pcb.shms, ∀ track ∈ shm.tracks, track.vaddr ≠ page) ∧ attachTable table pcb.shms page = table page :=
  foldl_mapAll_cases (fun _ member _ tracked => (tidy.segment_track member tracked).1) page

theorem attachTable_backed (tidy : Tidy pcb) : Backed pcb (attachTable .empty pcb.shms) := by
  intro page _ found
  rcases attachTable_entries tidy .empty page with ⟨_, member, _, tracked, rfl, entry⟩ | ⟨_, empty⟩
  · rw [entry] at found
    cases found
    exact ⟨_, tidy.pointer_segment member tracked, rfl⟩
  · rw [empty] at found
    cases found

theorem attachTable_attaches (tidy : Tidy pcb) : Attaches pcb (attachTable .empty pcb.shms) := by
  intro shm member track tracked
  rcases attachTable_entries tidy .empty track.vaddr with ⟨_, _, _, _, _, entry⟩ | ⟨none, _⟩
  · exact ⟨_, entry, rfl⟩
  · exact absurd rfl (none shm member track tracked)

theorem childTable_forked (tidy : Tidy pcb) :
    Forked pcb (attachTable .empty pcb.shms) (attachTable (forkTable .empty pcb.memset) pcb.shms) := by
  refine ⟨fun page => ?_⟩
  rcases attachTable_entries tidy (forkTable .empty pcb.memset) page with
    ⟨shm, member, track, tracked, rfl, mapped⟩ | ⟨unattached, same⟩
  · refine .inr ⟨fun _ areaMember _ inside => tidy.tracks_apart areaMember inside member tracked, ?_⟩
    rcases attachTable_entries tidy .empty track.vaddr with
      ⟨_, member', track', tracked', equal, mapped'⟩ | ⟨none, _⟩
    · have left := tidy.pointer_segment member tracked
      rw [← equal, tidy.pointer_segment member' tracked'] at left
      have frames : track'.tracker = track.tracker := congrArg Pointer.frame (Option.some.inj left)
      rw [mapped, mapped', frames]
    · exact absurd rfl (none shm member track tracked)
  · rcases attachTable_entries tidy .empty page with ⟨shm, member, track, tracked, equal, _⟩ | ⟨_, empty⟩
    · exact absurd equal (unattached shm member track tracked)
    · rw [same, empty]
      exact (forkTable_forked tidy .empty).entries page

theorem shared_of_writable {mtype : MemType} (writable : (Process.forkFlags mtype).w = true) : SharedType mtype := by
  cases mtype with
  | Shared => exact .inl rfl
  | ShareFile => exact .inr rfl
  | CodeSection | Stack | Mmap => cases writable

namespace Forked

variable {pcb : ProcessControlBlock} {rest table : PageTable}

theorem backed (forked : Forked pcb rest table) (tidy : Tidy pcb) (others : Backed pcb rest) : Backed pcb table := by
  intro page mapping found
  rcases forked.entries page with ⟨_, member, _, tracked, rfl, entry⟩ | ⟨_, same⟩
  · rw [entry] at found
    cases found
    exact ⟨_, tidy.pointer_track member tracked, rfl⟩
  · exact others page mapping (same ▸ found)

theorem attaches (forked : Forked pcb rest table) (tidy : Tidy pcb) (others : Attaches pcb rest) :
    Attaches pcb table := by
  intro shm member track tracked
  rcases forked.entries track.vaddr with ⟨_, areaMember, _, inside, same, _⟩ | ⟨_, same⟩
  · exact absurd same (tidy.tracks_apart areaMember inside member tracked)
  · rw [same]
    exact others shm member track tracked

theorem readonly (forked : Forked pcb rest table) (tidy : Tidy pcb) {page : Nat} {frame : Nat}
    (found : table page = some mapping) (writable : mapping.flags.w = true) :
    pointer pcb page ≠ some { frame, shared := false } := by
  intro pointed
  rcases forked.entries page with ⟨area, member, track, tracked, rfl, entry⟩ | ⟨untracked, _⟩
  · rw [entry] at found
    cases found
    rw [tidy.pointer_track member tracked] at pointed
    have isPrivate : decide (SharedType area.mtype) = false := congrArg Pointer.shared (Option.some.inj pointed)
    exact of_decide_eq_false isPrivate (shared_of_writable writable)
  · rcases pointer_cases pointed with ⟨area, member, track, tracked, same, _⟩ | ⟨_, _, _, _, _, shared⟩
    · exact untracked area member track tracked same
    · cases shared

end Forked

def Kernel.fork (kernel : Kernel) (index : Nat) (parent child : Process) : Kernel :=
  { kernel with processes := kernel.processes.set index parent ++ [child] }

variable (live : kernel.live index = some process)
include live

private theorem forked_table (sound : Sound kernel) {table : PageTable}
    (made : table = forkTable process.pageTable process.pcb.memset ∨
      table = attachTable (forkTable .empty process.pcb.memset) process.pcb.shms) :
    ∃ rest, Forked process.pcb rest table ∧ Backed process.pcb rest ∧ Attaches process.pcb rest := by
  have tidy := sound.tidy index process live
  rcases made with rfl | rfl
  · exact ⟨_, forkTable_forked tidy _, sound.mapped index process live, sound.attached index process live⟩
  · exact ⟨_, childTable_forked tidy, attachTable_backed tidy, attachTable_attaches tidy⟩

variable (forked : process.cowFork taskId childId = some (parent, child))
include forked

theorem Kernel.live_fork (other : Nat) : (kernel.fork index parent child).live other =
      if other = kernel.processes.length then some child
      else if other = index then some parent else kernel.live other := by
  obtain ⟨parentIs, _, _, childAlive, _⟩ := Process.cowFork_outcome forked
  obtain ⟨here, alive⟩ := live_eq_some_iff.mp live
  obtain ⟨bound, _⟩ := List.getElem?_eq_some_iff.mp here
  simp only [Kernel.live, Kernel.fork]
  by_cases last : other = kernel.processes.length
  · rw [if_pos last, last, getElem?_append_right (by simp)]
    simp [childAlive]
  · rw [if_neg last]
    by_cases inside : other < kernel.processes.length
    · rw [getElem?_append_left (by simpa using inside)]
      by_cases here : other = index
      · subst here
        rw [if_pos rfl, getElem?_set_self bound]
        simp [parentIs, alive]
      · rw [if_neg here, getElem?_set_ne (Ne.symm here)]
    · rw [if_neg (by omega), getElem?_eq_none (by simp; omega), getElem?_eq_none (by omega)]

/-- Every process of the forked family with its source before the fork: itself, or the
process that forks. -/
private theorem fork_source {other : Nat} {owner : Process}
    (present : (kernel.fork index parent child).live other = some owner) :
    ∃ source, kernel.live (if other = kernel.processes.length then index else other) = some source ∧
      owner.pcb.memset = source.pcb.memset ∧ owner.pcb.shms = source.pcb.shms ∧
      (owner = source ∧ other ≠ kernel.processes.length ∧ other ≠ index ∨
        source = process ∧ (owner.pageTable = forkTable process.pageTable process.pcb.memset ∨
          owner.pageTable = attachTable (forkTable .empty process.pcb.memset) process.pcb.shms)) := by
  obtain ⟨parentIs, memset, shms, _, table⟩ := Process.cowFork_outcome forked
  rw [live_fork live forked] at present
  split at present
  · next last =>
    cases present
    exact ⟨process, by rw [if_pos last]; exact live, memset, shms, .inr ⟨rfl, .inr table⟩⟩
  · next earlier =>
    rw [if_neg earlier]
    split at present
    · next here =>
      cases present
      exact ⟨process, here ▸ live, by rw [parentIs], by rw [parentIs], .inr ⟨rfl, .inl (by rw [parentIs])⟩⟩
    · next elsewhere => exact ⟨owner, present, rfl, rfl, .inl ⟨rfl, earlier, elsewhere⟩⟩

theorem Kernel.heap_fork : (kernel.fork index parent child).heap =
      { kernel.heap with
        points := fun place => (some (if place.1 = kernel.processes.length then index else place.1, place.2)).bind
          kernel.heap.points } := by
  obtain ⟨parentIs, memset, shms, _⟩ := Process.cowFork_outcome forked
  refine congrArg (fun points => ({ points, contents := pageAt kernel.machine.mem } : Heap _ _ _))
    (funext fun (other, page) => ?_)
  simp only [live_fork live forked, bind_some]
  split
  · rw [bind_some, pointer_congr memset shms, points_live live]
  · split
    · next here => rw [here, bind_some, parentIs, points_live live]; rfl
    · rfl

theorem Kernel.points_fork (place : Nat × Nat) :
    (kernel.fork index parent child).heap.points place =
      kernel.heap.points (if place.1 = kernel.processes.length then index else place.1, place.2) := by
  rw [heap_fork live forked]
  rfl

theorem fork_sound (sound : Sound kernel) : Sound (kernel.fork index parent child) := by
  have points := points_fork live forked
  have tidy := sound.tidy index process live
  refine ⟨fun other owner present => ?_, fun other owner present => ?_, fun other owner present => ?_,
    fun other owner present page mapping found writable pointed => ?_,
    fun _ _ leftTarget rightTarget leftPoints rightPoints => ?_, fun place target pointed => ?_, sound.clean⟩
  · obtain ⟨source, sourceLive, memset, shms, _⟩ := fork_source live forked present
    exact (sound.tidy _ source sourceLive).congr memset shms
  · obtain ⟨source, sourceLive, memset, shms, ⟨rfl, _⟩ | ⟨rfl, made⟩⟩ := fork_source live forked present
    · exact sound.mapped _ owner sourceLive
    · obtain ⟨rest, table, backed, _⟩ := forked_table live sound made
      rw [pointer_congr memset shms]
      exact table.backed tidy backed
  · obtain ⟨source, sourceLive, memset, shms, ⟨rfl, _⟩ | ⟨rfl, made⟩⟩ := fork_source live forked present
    · exact sound.attached _ owner sourceLive
    · obtain ⟨rest, table, _, attaches⟩ := forked_table live sound made
      rw [shms]
      exact table.attaches tidy attaches
  · obtain ⟨source, sourceLive, memset, shms, ⟨rfl, earlier, elsewhere⟩ | ⟨rfl, made⟩⟩ :=
      fork_source live forked present
    · rw [if_neg earlier] at sourceLive
      intro target place otherTarget here there same
      rw [points, if_neg earlier] at here
      rw [points] at there
      have equal := sound.exclusive other owner sourceLive page mapping found writable pointed target _ otherTarget
        here there same
      obtain ⟨sources, pages⟩ := Prod.mk.inj equal
      split at sources
      · exact absurd sources.symm elsewhere
      · exact Prod.ext sources pages
    · obtain ⟨rest, table, _⟩ := forked_table live sound made
      rw [pointer_congr memset shms] at pointed
      exact absurd pointed (table.readonly tidy found writable)
  · rw [points] at leftPoints rightPoints
    exact sound.sorted _ _ leftTarget rightTarget leftPoints rightPoints
  · rw [points] at pointed
    exact sound.held _ target pointed

theorem fork_models (models : Models kernel system) :
    ∃ system', system.fork index = some system' ∧ Models (kernel.fork index parent child) system' := by
  have count := models.count
  refine ⟨_, by simp only [System.fork, models.layouts index process live]; rfl, ?_, fun _ _ present => ?_, ?_⟩
  · simp [fork, count]
  · obtain ⟨source, sourceLive, memset, _, _⟩ := fork_source live forked present
    have listed := models.layouts _ source sourceLive
    rw [memset]
    split at sourceLive
    · next last =>
      cases live.symm.trans sourceLive
      rw [last, ← count, getElem?_append_right (le_refl _)]
      simp
    · next earlier =>
      rw [if_neg earlier] at listed
      exact (List.getElem?_append_left (List.getElem?_eq_some_iff.mp listed).1).trans listed
  · rw [heap_fork live forked, ← count]
    exact models.store.reindex fun place =>
      some (if place.1 = system.layouts.length then index else place.1, place.2)

end Fork

/-! ## Steps and runs -/

section Steps

variable {next : Kernel} (sound : Sound kernel) (models : Models kernel system) (clear : event.Clear kernel)
  (step : kernel.Step event next)
include sound models clear step

theorem load_follows (live : kernel.live event.index = some process) (action : event.action = .load vaddr) :
    Sound next ∧ ∃ system', system.follow event = some system' ∧ Models next system' := by
  have touches : event.action.access = some (vaddr, false) := by rw [action]; rfl
  simp only [Kernel.Step, perform, live, action, bind_eq_bind, bind_some, bind_eq_some_iff] at step
  obtain ⟨⟨_ | paddr, after⟩, accessed, answered⟩ := step
  · obtain ⟨answer, rfl⟩ := Prod.mk.inj (Option.some.inj answered)
    exact unserved_follows sound models live clear touches accessed answer
  · obtain ⟨answer, rfl⟩ := Prod.mk.inj (Option.some.inj answered)
    obtain ⟨after_sound, system', mapping, touched, shows, _, _, rfl, _, value⟩ :=
      access_served sound models live clear touches accessed
    refine ⟨after_sound, system', ?_, shows⟩
    have byte : pageAt after.machine.mem mapping.paddr (vaddr % pageSize) =
        after.machine.mem (mapping.paddr + vaddr % pageSize) := if_pos (Nat.mod_lt _ pageSize_pos)
    simp only [System.follow, ← answer, System.perform, action, touched, bind_eq_bind, bind_some, value]
    rw [← byte]
    exact if_pos rfl

theorem store_follows {byte : UInt8} (live : kernel.live event.index = some process)
    (action : event.action = .store vaddr byte) :
    Sound next ∧ ∃ system', system.follow event = some system' ∧ Models next system' := by
  have touches : event.action.access = some (vaddr, true) := by rw [action]; rfl
  simp only [Kernel.Step, perform, live, action, bind_eq_bind, bind_some, bind_eq_some_iff] at step
  obtain ⟨⟨_ | _, _⟩, accessed, answered⟩ := step
  · obtain ⟨answer, rfl⟩ := Prod.mk.inj (Option.some.inj answered)
    exact unserved_follows sound models live clear touches accessed answer
  · obtain ⟨answer, rfl⟩ := Prod.mk.inj (Option.some.inj answered)
    obtain ⟨after_sound, _, _, touched, shows, owner, found, rfl, writable, value⟩ :=
      access_served sound models live clear touches accessed
    obtain ⟨stored_sound, stored⟩ := store_mapped after_sound shows owner found (writable rfl)
      (Nat.mod_lt _ pageSize_pos)
    refine ⟨stored_sound, _, ?_, stored⟩
    simp only [System.follow, ← answer, System.perform, action, touched, bind_eq_bind, bind_some, value]
    exact if_pos trivial

theorem step_follows : Sound next ∧ ∃ system', system.follow event = some system' ∧ Models next system' := by
  obtain ⟨_, live, _⟩ := bind_eq_some_iff.mp step
  cases action : event.action with
  | load vaddr => exact load_follows sound models clear step live action
  | store vaddr _ => exact store_follows sound models clear step live action
  | fork _ =>
    simp only [Kernel.Step, perform, live, action, bind_eq_bind, bind_some, bind_eq_some_iff] at step
    obtain ⟨⟨_, _⟩, forked, answered⟩ := step
    obtain ⟨answer, rfl⟩ := Prod.mk.inj (Option.some.inj answered)
    obtain ⟨system', copied, shows⟩ := fork_models live forked models
    refine ⟨fork_sound live forked sound, system', ?_, shows⟩
    simp only [System.follow, ← answer, System.perform, action, copied, bind_eq_bind, bind_some]
    exact if_pos trivial

end Steps

def Kernel.frames (kernel : Kernel) : List Nat :=
  kernel.processes.flatMap fun process =>
    (process.pcb.memset.flatMap MemArea.mtrackers).map MapTrack.tracker ++
      process.pcb.shms.flatMap MapedSharedMemory.mem

/-- The pages of the processes by value. A shared page is the object named by its frame. -/
def Kernel.eager (kernel : Kernel) : System where
  layouts := kernel.processes.map fun process => process.pcb.memset.layout
  store :=
    { cells := fun place => (kernel.heap.points place).map (Heap.cell kernel.heap.contents id)
      objects := kernel.heap.contents
      next := kernel.frames.sum + 1 }

theorem models_eager (kernel : Kernel) : Models kernel kernel.eager where
  count := length_map ..
  layouts := by
    intro _ process live
    simp only [eager, getElem?_map, (live_eq_some_iff.mp live).1, map_some]
  store := by
    refine ⟨id, fun _ => rfl, fun _ pointed points _ => ⟨?_, rfl⟩, fun _ _ _ _ _ _ _ _ same => same⟩
    obtain ⟨process, live, points⟩ := bind_eq_some_iff.mp points
    have member := mem_of_getElem? (live_eq_some_iff.mp live).1
    have listed : pointed.frame ∈ kernel.frames := by
      refine mem_flatMap.mpr ⟨process, member, mem_append.mpr ?_⟩
      rcases pointer_cases points with ⟨area, inside, track, tracked, _, rfl⟩ | ⟨shm, inside, track, tracked, _, rfl⟩
      · exact .inl (mem_map_of_mem (mem_flatMap.mpr ⟨area, inside, tracked⟩))
      · obtain ⟨⟨frame, _⟩, zipped, rfl⟩ := mem_map.mp tracked
        exact .inr (mem_flatMap.mpr ⟨shm, inside, fst_mem_of_mem_zipIdx zipped⟩)
    exact Nat.lt_succ_of_le (le_sum_of_mem listed)

/-- Forks, loads and stores answer as if every fork had copied all private pages
at once, and all pages of shared areas were the same for all who have them. -/
theorem copy_on_write_refines_eager {start finish : Kernel} {events : List Event} (sound : Sound start)
    (run : Run (fun before event after => Kernel.Step before event after ∧ event.Clear before) start events finish) :
    ∃ system, events.foldlM System.follow start.eager = some system ∧ Models finish system := by
  have simulated : ∀ {before event after system}, Sound before ∧ Models before system →
      Kernel.Step before event after ∧ event.Clear before →
      ∃ next, System.follow system event = some next ∧ Sound after ∧ Models after next := by
    rintro before event after system ⟨sound, models⟩ ⟨step, clear⟩
    obtain ⟨next_sound, next, followed, shows⟩ := step_follows sound models clear step
    exact ⟨next, followed, next_sound, shows⟩
  obtain ⟨system, followed, _, shows⟩ := @Run.follows _ _ _ _ System.follow
    (fun kernel system => Sound kernel ∧ Models kernel system) simulated _ _ _ run _ ⟨sound, models_eager start⟩
  exact ⟨system, followed, shows⟩

def onlyArea (mtype : MemType) : Kernel where
  processes :=
    [{ Process.new 1 (fileTable 0) with
        pcb :=
          { (Process.new 1 (fileTable 0)).pcb with
            memset :=
              [{ mtype, mtrackers := [], file := none, offset := 0, start := 0x1001000, len := pageSize }] } }]
  machine := { frames := Runtime.FrameAllocator.build [(0x90000000, 0x90040000)], mem := fun _ => 0 }
  tls := { lastAddr := 0, count := 0 }

def lonely : Kernel := onlyArea .Mmap

theorem onlyArea_sound (mtype : MemType) : Sound (onlyArea mtype) := by
  have only : ∀ {index process}, (onlyArea mtype).live index = some process →
      process = (onlyArea mtype).processes.head (cons_ne_nil _ _) := by
    intro index process live
    have listed := mem_of_getElem? (live_eq_some_iff.mp live).1
    exact mem_singleton.mp listed
  have unpointed : ∀ place, (onlyArea mtype).heap.points place = none := by
    rintro ⟨index, page⟩
    refine bind_eq_none_iff.mpr fun process live => ?_
    rw [only live]
    unfold pointer
    split
    · next area owner =>
      obtain rfl := mem_singleton.mp (mem_of_find?_eq_some owner)
      rfl
    · rfl
  have formed :=
    (@Runtime.FrameState.boot_owned [(0x90000000, 0x90040000)] (by decide) (by decide) (by simp)).wellFormed
  refine ⟨fun index process live => ?_, fun index process live page mapping found => ?_,
    fun index process live _ member => ?_, fun index process live page mapping found => ?_,
    fun _ _ _ _ points => ?_, fun place _ points => ?_, formed, fun _ _ => ?_⟩
  · rw [only live]
    refine ⟨fun area member => ?_, fun area member => ?_, nofun, pairwise_singleton ..⟩ <;>
      obtain rfl := mem_singleton.mp member
    · exact ⟨(by decide : 0x1001000 % pageSize = 0), Nat.mod_self _,
        (by decide : 0x1001000 + pageSize < usizeBound), nofun, nofun⟩
    · exact .nil
  · rw [only live] at found
    cases found
  · rw [only live] at member
    cases member
  · rw [only live] at found
    cases found
  · rw [unpointed] at points
    cases points
  · rw [unpointed] at points
    cases points
  · funext index
    simp [pageAt, onlyArea, Page.zero]

theorem lonely_sound : Sound lonely := onlyArea_sound .Mmap

def alone (index : Nat) (action : Action) (answer : Answer) : Event where
  index
  taskId := 1
  files := Surroundings.alone.files
  alive := fun _ => true
  extra := fun _ => 0
  action
  answer

def Kernel.covers (kernel : Kernel) (event : Event) : Bool :=
  event.action.access.all fun (vaddr, _) =>
    (kernel.live event.index).any fun process =>
      (process.pcb.memset.areaAt vaddr).isSome

theorem Event.clear_of_covers (covered : kernel.covers event = true) : event.Clear kernel := by
  intro process vaddr _ live touches _ unowned
  have found : (process.pcb.memset.areaAt vaddr).isSome = true := by
    simpa only [covers, touches, live, all_some, any_some] using covered
  rw [unowned] at found
  cases found

/-- The events in turn, each with its answer, and allowed where it happens. -/
def Kernel.replay (allowed : Kernel → Event → Bool) (kernel : Kernel) : List Event → Option Kernel
  | [] => some kernel
  | event :: events => do
      let (answer, next) ← kernel.perform event
      if answer = event.answer ∧ allowed kernel event = true then next.replay allowed events else none

theorem Kernel.run_of_replay {allowed : Kernel → Event → Bool} {start finish : Kernel} {events : List Event}
    (replayed : start.replay allowed events = some finish) :
    Run (fun before event after => Kernel.Step before event after ∧ allowed before event = true)
      start events finish := by
  induction events generalizing start with
  | nil =>
    cases replayed
    exact .refl
  | cons _ events ih =>
    simp only [replay, bind_eq_some] at replayed
    obtain ⟨⟨_, next⟩, performed, rest⟩ := replayed
    split at rest
    · next accepted =>
      refine .cons ⟨performed.trans ?_, accepted.2⟩ (ih rest)
      rw [← accepted.1]
    · cases rest

/-- The parent's page stays as it was when the child writes it. -/
def childStores : List Event :=
  [alone 0 (.store 0x1001000 7) .done, alone 0 (.fork 2) .done, alone 1 (.store 0x1001000 8) .done,
    alone 0 (.load 0x1001000) (.byte 7), alone 1 (.load 0x1001000) (.byte 8)]

theorem copy_on_write_refines_eager_child_stores :
    ∃ finish system,
      Run (fun before event after => Kernel.Step before event after ∧ event.Clear before) lonely childStores finish ∧
      childStores.foldlM System.follow lonely.eager = some system ∧ Models finish system := by
  have replayed : (lonely.replay covers childStores).isSome = true := by decide +kernel
  obtain ⟨finish, replayed⟩ := isSome_iff_exists.mp replayed
  have run : Run (fun before event after => Kernel.Step before event after ∧ event.Clear before) lonely
      childStores finish :=
    (run_of_replay replayed).mono fun step => ⟨step.1, Event.clear_of_covers step.2⟩
  obtain ⟨system, followed, shows⟩ := copy_on_write_refines_eager lonely_sound run
  exact ⟨finish, system, run, followed, shows⟩

/-- A window is placed over the area. After the fork, the next store to the page
brings its hidden frame back. -/
def hiddenPage (last : Answer) : List Event :=
  [alone 0 (.store 0x1001000 7) .done, alone 0 (.load 0x1000000) (.byte 0),
    alone 0 (.store 0x1001000 5) .done, alone 0 (.load 0x1001000) (.byte 5), alone 0 (.fork 2) .done,
    alone 0 (.store 0x1001001 6) .done, alone 0 (.load 0x1001000) last]

theorem hidden_page_returns :
    Sound lonely ∧ (∃ finish, Run Kernel.Step lonely (hiddenPage (.byte 7)) finish) ∧
      (∃ system, (hiddenPage (.byte 5)).foldlM System.follow lonely.eager = some system) ∧
      (hiddenPage (.byte 7)).foldlM System.follow lonely.eager = none := by
  have replayed : (lonely.replay (fun _ _ => true) (hiddenPage (.byte 7))).isSome = true := by decide +kernel
  obtain ⟨finish, replayed⟩ := isSome_iff_exists.mp replayed
  exact ⟨lonely_sound, ⟨finish, (run_of_replay replayed).mono fun step => step.1⟩,
    isSome_iff_exists.mp (by decide +kernel), isNone_iff_eq_none.mp (by decide +kernel)⟩

end MonkeyOS.User
