import MonkeyOS.Runtime.FirstFit
import MonkeyOS.User.CopyOnWriteRefinement

/-!
# Isolation of processes

What the processes of a family can change of one another's pages, in every state that
forks and accesses lead to.
-/

set_option autoImplicit false

namespace MonkeyOS.User

open Lib Tasks Option Kernel

def Kernel.Moves (before : Kernel) (event : Event) (after : Kernel) : Prop :=
  before.Step event after ∧ event.Clear before

variable {start finish kernel next : Kernel} {events : List Event} {event : Event} {index page frame : Nat}
  {system after : System} {cell : Cell Page}

theorem Sound.move (sound : Sound kernel) (moves : kernel.Moves event next) : Sound next :=
  (step_follows sound (models_eager kernel) moves.2 moves.1).1

theorem Sound.run (sound : Sound start) (run : Run Moves start events finish) : Sound finish := by
  refine run.preserves ?_ sound
  exact Sound.move

theorem Kernel.moves_of_replay (replayed : start.replay covers events = some finish) : Run Moves start events finish :=
  (run_of_replay replayed).mono fun step => ⟨step.1, Event.clear_of_covers step.2⟩

/-- A page that a process can write lies on a frame that is in use, and shares it with
another page only if both are pages of shared memory. -/
theorem writable_pages_isolated {other otherPage : Nat} {process owner : Process} {mapping seen : Mapping}
    (sound : Sound start) (run : Run Moves start events finish) (live : finish.live index = some process)
    (found : process.pageTable page = some mapping) (writable : mapping.flags.w = true)
    (otherLive : finish.live other = some owner) (otherFound : owner.pageTable otherPage = some seen)
    (same : seen.paddr = mapping.paddr) :
    finish.machine.frames.Registered mapping.paddr ∧ ¬ finish.machine.frames.Free mapping.paddr ∧
      ((other, otherPage) = (index, page) ∨
        pointer process.pcb page = some ⟨mapping.paddr, true⟩ ∧
          pointer owner.pcb otherPage = some ⟨mapping.paddr, true⟩) := by
  have sound := sound.run run
  obtain ⟨⟨_, shared⟩, points, rfl⟩ := sound.mapped index process live page mapping found
  obtain ⟨⟨_, otherShared⟩, otherPoints, rfl⟩ := sound.mapped other owner otherLive otherPage seen otherFound
  have here := (points_live live page).trans points
  have there := (points_live otherLive otherPage).trans otherPoints
  obtain ⟨registered, held⟩ := sound.held _ _ here
  refine ⟨registered, held, ?_⟩
  cases shared with
  | false => exact .inl (sound.exclusive index process live page mapping found writable points _ _ _ here there same)
  | true =>
    obtain rfl : otherShared = true := sound.sorted _ _ _ _ there here same
    exact .inr ⟨points, same ▸ otherPoints⟩

theorem writable_pages_isolated_child_stores :
    ∃ finish parent child frame, Run Moves (onlyArea .Shared) [alone 0 (.store 0x1001000 7) .done,
        alone 0 (.fork 2) .done, alone 1 (.store 0x1001000 8) .done, alone 0 (.load 0x1001000) (.byte 8)] finish ∧
      finish.live 0 = some parent ∧ finish.live 1 = some child ∧ ¬ finish.machine.frames.Free frame ∧
      pointer parent.pcb 0x1001000 = some ⟨frame, true⟩ ∧ pointer child.pcb 0x1001000 = some ⟨frame, true⟩ := by
  have replayed : (((onlyArea .Shared).replay covers [alone 0 (.store 0x1001000 7) .done,
      alone 0 (.fork 2) .done, alone 1 (.store 0x1001000 8) .done, alone 0 (.load 0x1001000) (.byte 8)]).bind
        fun finish => (finish.live 0).bind fun parent => (finish.live 1).bind fun child =>
          (parent.pageTable 0x1001000).bind fun mapping => (child.pageTable 0x1001000).map fun seen =>
            (mapping.flags.w, decide (seen.paddr = mapping.paddr))) = some (true, true) := by decide +kernel
  obtain ⟨finish, replayed, found⟩ := bind_eq_some_iff.mp replayed
  obtain ⟨parent, live, found⟩ := bind_eq_some_iff.mp found
  obtain ⟨child, childLive, found⟩ := bind_eq_some_iff.mp found
  obtain ⟨mapping, mapped, found⟩ := bind_eq_some_iff.mp found
  obtain ⟨seen, childMapped, found⟩ := map_eq_some_iff.mp found
  obtain ⟨writable, same⟩ := Prod.mk.inj found
  have run := moves_of_replay replayed
  obtain ⟨-, used, one | ⟨own, shared⟩⟩ := writable_pages_isolated (onlyArea_sound .Shared) run live mapped writable
    childLive childMapped (of_decide_eq_true same)
  · cases one
  · exact ⟨finish, parent, child, mapping.paddr, run, live, childLive, used, own, shared⟩

/-! ## Accesses inside areas -/

section Inside

variable {space : UserSpace} {process : Process} {area : MemArea} {around : Surroundings} {taskId vaddr ppn : Nat}
  {write : Bool}

theorem UserSpace.mapOwned_aligned (aligned : ppn % pageSize = 0) :
    ∃ after, space.mapOwned vaddr area ppn = some after ∧
      after.process.pageTable (pageFloor vaddr) = some { paddr := ppn, flags := ownedFlags area vaddr } := by
  refine ⟨_, by rw [mapOwned, Process.map, if_pos ⟨aligned, pageFloor_mod vaddr⟩]; rfl, ?_⟩
  simp [PageTable.mapPage, pageFloor_of_aligned (pageFloor_mod vaddr)]

/-- As many frames as the handler keeps in reserve are free, so that it maps the page. -/
theorem UserSpace.userCowInt_inside (wellFormed : space.machine.frames.WellFormed)
    (frames : 10 ≤ space.machine.frames.getFreePageCount)
    (owner : space.process.pcb.memset.areaAt vaddr = some area)
    (aligned : ∀ track, area.trackAt vaddr = some track → track.tracker % pageSize = 0) :
    ∃ after, space.userCowInt around taskId vaddr = some after ∧ ∃ paddr,
      after.process.pageTable (pageFloor vaddr) = some { paddr, flags := ownedFlags area vaddr } := by
  have granted : space.machine.frameAlloc.isSome := by
    rw [Machine.frameAlloc, isSome_map, Runtime.FrameAllocator.alloc_isSome_iff wellFormed.regions]
    omega
  obtain ⟨⟨frame, machine⟩, allocated⟩ := isSome_iff_exists.mp granted
  have fresh : frame % pageSize = 0 :=
    ((Machine.frameAlloc_supplies wellFormed allocated).grants.free frame (.head _)).registered.aligned wellFormed
  have maps {space : UserSpace} {ppn : Nat} (aligned : ppn % pageSize = 0) :=
    @mapOwned_aligned space area vaddr ppn aligned
  simp only [userCowInt, owner]
  cases tracked : area.trackAt vaddr with
  | some track =>
    simp only [serveTracked]
    split
    · exact (maps (aligned track tracked)).imp fun _ mapped => ⟨mapped.1, _, mapped.2⟩
    · split
      · rw [allocated]
        exact (maps fresh).imp fun _ mapped => ⟨mapped.1, _, mapped.2⟩
      · exact (maps (aligned track tracked)).imp fun _ mapped => ⟨mapped.1, _, mapped.2⟩
  | none =>
    simp only [serveUntracked, if_neg (by omega : ¬ space.machine.frames.getFreePageCount < 10), allocated]
    exact (maps fresh).imp fun _ mapped => ⟨mapped.1, _, mapped.2⟩

/-- An access inside an area is refused only for lack of frames. -/
theorem Kernel.perform_inside (sound : Sound kernel) (live : kernel.live event.index = some process)
    (touches : event.action.access = some (vaddr, write))
    (owner : process.pcb.memset.areaAt vaddr = some area)
    (frames : 10 ≤ kernel.machine.frames.getFreePageCount) :
    ∃ answer after, kernel.perform event = some (answer, after) ∧ answer ≠ .refused ∧ answer ≠ .ended := by
  have aligned : ∀ track, area.trackAt vaddr = some track → track.tracker % pageSize = 0 := by
    intro track tracked
    have points := Tidy.pointer_owner (sound.tidy _ _ live) owner
    rw [tracked, map_some, ← points_live live] at points
    exact (sound.held _ _ points).1.aligned sound.clean.wellFormed
  have accessed : ∃ paddr after, (kernel.space process).access (kernel.around event) event.taskId vaddr write =
      some (some paddr, after) := by
    unfold UserSpace.access
    split
    · exact ⟨_, _, rfl⟩
    · obtain ⟨after, served, _, found⟩ := @UserSpace.userCowInt_inside (kernel.space process) area
        (kernel.around event) event.taskId vaddr sound.clean.wellFormed frames owner aligned
      have writable : target after.process.pageTable vaddr write ≠ none :=
        target_of_writable found (ownedFlags_writable ..)
      obtain ⟨paddr, reached⟩ := ne_none_iff_exists'.mp writable
      exact ⟨paddr, after, by rw [served]; exact congrArg (fun paddr => some (paddr, after)) reached⟩
  obtain ⟨paddr, after, accessed⟩ := accessed
  unfold perform
  rw [live]
  cases action : event.action with
  | load | store =>
    rw [action] at touches
    cases touches
    simp only [bind_eq_bind, bind_some, accessed]
    exact ⟨_, _, rfl, by simp, by simp⟩
  | fork =>
    rw [action] at touches
    cases touches

end Inside

/-! ## Private pages -/

theorem System.touch_elsewhere {files : Files} {other vaddr : Nat} (apart : (index, page) ≠ (other, pageFloor vaddr))
    (touched : system.touch files other vaddr = some after) (held : system.store.cells (index, page) = some cell) :
    after.store.cells (index, page) = some cell := by
  unfold touch at touched
  split at touched
  · cases touched
    exact held
  · obtain ⟨_, _, touched⟩ := bind_eq_some_iff.mp touched
    split at touched
    · cases touched
      rwa [Store.create_elsewhere apart]
    · obtain ⟨_, _, ⟨⟩⟩ := bind_eq_some_iff.mp touched
      simp [place, Store.extend, held]

theorem System.follow_elsewhere (elsewhere : event.index ≠ index) (known : index < system.layouts.length)
    (followed : system.follow event = some after) (held : system.store.cells (index, page) = some cell) :
    after.store.cells (index, page) = some cell := by
  have apart {vaddr : Nat} : (index, page) ≠ (event.index, pageFloor vaddr) :=
    fun same => elsewhere (Prod.mk.inj same).1.symm
  unfold follow at followed
  split at followed
  · cases followed
    exact held
  · cases followed
    simp [drop, Store.reindex, elsewhere.symm, held]
  · obtain ⟨_, performed, followed⟩ := bind_eq_some_iff.mp followed
    obtain ⟨_, ⟨⟩⟩ := ite_none_right_eq_some.mp followed
    cases action : event.action with
    | load =>
      simp only [action, perform, bind_eq_bind, bind_eq_some_iff] at performed
      obtain ⟨_, touched, _, _, ⟨⟩⟩ := performed
      exact touch_elsewhere apart touched held
    | store =>
      simp only [action, perform, bind_eq_bind, bind_eq_some_iff] at performed
      obtain ⟨_, touched, _, _, ⟨⟩⟩ := performed
      exact (Store.write_elsewhere apart _).trans (touch_elsewhere apart touched held)
    | fork =>
      simp only [action, perform, fork, bind_eq_bind, bind_eq_some_iff] at performed
      obtain ⟨_, ⟨_, _, ⟨⟩⟩, ⟨⟩⟩ := performed
      simp [Store.reindex, known.ne, held]

theorem Kernel.move_elsewhere (sound : Sound kernel) (moves : kernel.Moves event next) (elsewhere : event.index ≠ index)
    (points : kernel.heap.points (index, page) = some ⟨frame, false⟩) :
    ∃ frame', next.heap.points (index, page) = some ⟨frame', false⟩ ∧
      next.heap.contents frame' = kernel.heap.contents frame := by
  have models := models_eager kernel
  obtain ⟨_, live, _⟩ := bind_eq_some_iff.mp points
  have known : index < kernel.eager.layouts.length :=
    models.count ▸ (List.getElem?_eq_some_iff.mp (live_eq_some_iff.mp live).1).1
  have held : kernel.eager.store.cells (index, page) = some (.own (kernel.heap.contents frame)) := by
    simp [eager, points, Heap.cell]
  obtain ⟨_, system, followed, shows⟩ := step_follows sound models moves.2 moves.1
  have held := System.follow_elsewhere elsewhere known followed held
  obtain ⟨object, names⟩ := shows.store
  rw [names.cells] at held
  obtain ⟨⟨frame', shared⟩, points, owned⟩ := map_eq_some_iff.mp held
  cases shared with
  | false => exact ⟨frame', points, Cell.own.inj owned⟩
  | true => cases owned

/-- Whatever other processes do, a private page keeps its bytes: forks, stores and faults
of relatives do not change it, nor does their end. -/
theorem private_pages_untouched (sound : Sound start)
    (run : Run (fun before event after => before.Moves event after ∧ event.index ≠ index) start events finish)
    (points : start.heap.points (index, page) = some ⟨frame, false⟩) :
    ∃ frame', finish.heap.points (index, page) = some ⟨frame', false⟩ ∧
      pageAt finish.machine.mem frame' = pageAt start.machine.mem frame := by
  induction run generalizing frame with
  | refl => exact ⟨frame, points, rfl⟩
  | cons first _ ih =>
    obtain ⟨moves, elsewhere⟩ := first
    obtain ⟨_, points, same⟩ := move_elsewhere sound moves elsewhere points
    obtain ⟨frame', points, kept⟩ := ih (sound.move moves) points
    exact ⟨frame', points, kept.trans same⟩

theorem private_pages_untouched_by_child :
    ∃ start frame finish frame', Run Kernel.Step start [alone 1 (.store 0x1001000 8) .done] finish ∧
      finish.heap.points (0, 0x1001000) = some ⟨frame', false⟩ ∧
      pageAt finish.machine.mem frame' = pageAt start.machine.mem frame := by
  have replayed : ((lonely.replay covers [alone 0 (.store 0x1001000 7) .done, alone 0 (.fork 2) .done]).bind
      fun start => (start.replay covers [alone 1 (.store 0x1001000 8) .done]).bind fun _ =>
        (start.heap.points (0, 0x1001000)).map Pointer.shared) = some false := by decide +kernel
  obtain ⟨start, prepared, replayed⟩ := bind_eq_some_iff.mp replayed
  obtain ⟨finish, stored, pointed⟩ := bind_eq_some_iff.mp replayed
  obtain ⟨⟨frame, _⟩, points, rfl⟩ := map_eq_some_iff.mp pointed
  have sound := lonely_sound.run (moves_of_replay prepared)
  cases moves_of_replay stored with
  | cons moves rest =>
    cases rest
    obtain ⟨frame', points, kept⟩ := private_pages_untouched sound (.cons ⟨moves, by decide⟩ .refl) points
    exact ⟨start, frame, finish, frame', .cons moves.1 .refl, points, kept⟩

end MonkeyOS.User
