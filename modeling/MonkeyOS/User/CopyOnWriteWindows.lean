import MonkeyOS.User.CopyOnWriteProperties

/-! Faults of a family of processes outside all areas: they do nothing, place the
pages of a window, or end the task. -/

set_option autoImplicit false

namespace MonkeyOS

open Lib Tasks List Option MemSet Machine PageTable MapTrack Nat

namespace Tasks

variable {mtype : MemType} {vaddr count : Nat} {tracks : List MapTrack}

@[simp] theorem mtype_allocArea : (allocArea mtype vaddr count tracks).mtype = mtype := by
  unfold allocArea
  split <;> rfl

@[simp] theorem bare_allocArea : (allocArea mtype vaddr count tracks).bare = allocArea mtype vaddr count [] := by
  unfold allocArea
  split <;> rfl

theorem range_allocArea : (allocArea mtype vaddr count tracks).range = (allocArea mtype vaddr count []).range := by
  rw [← bare_allocArea]
  rfl

end Tasks

namespace User

variable {kernel : Kernel} {system : System} {event : Event} {process : Process} {after : UserSpace} {vaddr : Nat}

variable {index : Nat}

private theorem Kernel.heap_extend {tracks : List MapTrack} (live : kernel.live index = some process)
    (alive : after.process.pcb.exitCode = none)
    (points : ∀ page, pointer after.process.pcb page = (pointer process.pcb page).or
      ((tracks.find? fun track => track.vaddr = page).map fun track => { frame := track.tracker, shared := false })) :
    (kernel.put index after).heap =
      { points := fun place => (kernel.heap.points place).or
          ((if place.1 = index then (tracks.find? fun track => track.vaddr = place.2).map tracker
            else none).map fun frame => { frame, shared := false })
        contents := pageAt after.machine.mem } := by
  refine congrArg (fun points => ({ points, contents := pageAt after.machine.mem } : Heap _ _ _))
    (funext fun place => (Kernel.points_put live alive place).trans ?_)
  obtain ⟨_, _⟩ := place
  dsimp only
  split
  · next here =>
    rw [here, Kernel.points_live live, points, Option.map_map]
    rfl
  · rw [map_none, or_none]

/-! ## The pages of a window -/

section Window

variable {files : Files} {memset : MemSet} {plan : Plan} {frames : List Nat}

variable (planned : windowPlan files memset vaddr = some plan) (length : frames.length = plan.count)
include planned length

private theorem window_wellFormed : (plan.area vaddr (trackersAt (pageFloor vaddr) frames)).WellFormed := by
  obtain ⟨_, _, _, kind⟩ := windowPlan_bounds planned
  obtain ⟨nonzero, fits⟩ := windowPlan_fits planned
  have pages : ∀ track ∈ trackersAt (pageFloor vaddr) frames,
      ∃ page < plan.count, track.vaddr = pageFloor vaddr + page * pageSize := by
    intro track member
    obtain ⟨page, present, place⟩ := mem_trackersAt nonzero (length ▸ fits) member
    exact ⟨page, length ▸ (List.getElem?_eq_some_iff.mp present).1, place⟩
  have floor := pageFloor_mod vaddr
  rcases kind with ⟨stack, _, _⟩ | mmap
  · simp only [allocArea, stack, if_true]
    have first : ∀ track ∈ trackersAt (pageFloor vaddr) frames, track.vaddr = pageFloor vaddr := by
      intro track member
      obtain ⟨page, bound, place⟩ := pages track member
      obtain rfl : page = 0 := by omega
      rw [place, zero_mul, add_zero (pageFloor vaddr)]
    have start : 0x70000000 % pageSize = 0 := by decide
    have len : 0x10000000 % pageSize = 0 := by decide
    have finish : 0x70000000 + 0x10000000 < usizeBound := by decide
    refine ⟨start, len, finish, fun track member => ?_, fun track member => ?_⟩
    · rw [first track member]
      exact floor
    · simp only [MemArea.contains, MemArea.finish, wrapAdd_eq finish, first track member]
      unfold pageFloor pageSize
      omega
  · have size : wrapMul plan.count pageSize = plan.count * pageSize := mod_eq_of_lt (by omega)
    simp only [allocArea, mmap, reduceCtorEq, if_false, size]
    refine ⟨floor, mul_mod_left _ _, fits, fun track member => ?_, fun track member => ?_⟩ <;>
      obtain ⟨page, bound, place⟩ := pages track member
    · simp [place]
    · have below := mul_lt_mul_of_pos_right bound pageSize_pos
      simp only [MemArea.contains, MemArea.finish, wrapAdd_eq fits, place]
      omega

private theorem window_page {machine granted : Machine} {first : Nat} (clean : machine.Clean)
    (supplied : machine.Supplies frames granted) (head : frames[0]? = some first) (page : Nat) :
    ((trackersAt (pageFloor vaddr) frames).find? fun track => track.vaddr = page).map
        (fun track => pageAt (overlay granted.mem first plan.bytes) track.tracker) =
      plan.page (pageFloor vaddr) page := by
  obtain ⟨_, _, short, _⟩ := windowPlan_bounds planned
  obtain ⟨nonzero, fits⟩ := windowPlan_fits planned
  rw [← length] at fits
  have free := supplied.grants.free
  have firstMember := mem_of_getElem? head
  have others := (supplied.fill clean firstMember short).2
  have floor := pageFloor_mod vaddr
  unfold Plan.page
  split
  · next here =>
    have found := find?_trackersAt nonzero fits head
    rw [zero_mul, add_zero (pageFloor vaddr)] at found
    rw [here, found, map_some, pageAt_fill]
    rw [supplied.mem]
    exact clean.blank first (free first firstMember)
  · next elsewhere =>
    split
    · next inside =>
      obtain ⟨index, rfl⟩ : ∃ index, page = pageFloor vaddr + index * pageSize :=
        ⟨(page - pageFloor vaddr) / pageSize, by unfold pageSize at *; omega⟩
      have bound : index < frames.length :=
        length ▸ Nat.lt_of_mul_lt_mul_right (Nat.lt_of_add_lt_add_left inside.2.2)
      have present : frames[index]? = some frames[index] := getElem?_eq_getElem bound
      have member := getElem_mem bound
      have different : frames[index] ≠ first := by
        intro same
        have indices := (nodup_iff_injective_get.mp supplied.grants.distinct).eq_iff.mp
          (show frames.get ⟨index, bound⟩ = frames.get ⟨0, by omega⟩ by
            rw [getElem?_eq_getElem (by omega), Option.some.injEq] at head
            exact same.trans head.symm)
        have zero : index = 0 := congrArg Fin.val indices
        rw [zero, zero_mul] at elsewhere
        exact elsewhere (add_zero _)
      rw [find?_trackersAt nonzero fits present, map_some,
        others _ ((free _ member).registered.aligned clean.wellFormed) different,
        clean.blank _ (free _ member)]
    · next outside =>
      rw [find?_eq_none.mpr fun _ member => ?_, map_none]
      obtain ⟨index, present, place⟩ := mem_trackersAt nonzero fits member
      have bound := (List.getElem?_eq_some_iff.mp present).1
      have below := mul_lt_mul_of_pos_right (length ▸ bound) pageSize_pos
      have aligned : (pageFloor vaddr + index * pageSize) % pageSize = 0 := by simp
      intro same
      rw [decide_eq_true_eq] at same
      subst same
      rw [place] at outside
      exact outside ⟨aligned, by omega⟩

end Window

private structure WindowFrames (machine granted : Machine) (vaddr : Nat) (plan : Plan) (first : MapTrack)
    (tracks : List MapTrack) (frames : List Nat) : Prop where
  length : frames.length = plan.count
  listed : first :: tracks = trackersAt (pageFloor vaddr) frames
  supplied : machine.Supplies frames granted
  trackers : (first :: tracks).map tracker = frames
  single : ((first :: tracks).map MapTrack.vaddr).Nodup
  firstPage : first.vaddr = pageFloor vaddr
  pages : ∀ track ∈ first :: tracks, track.vaddr % pageSize = 0 ∧ track.vaddr ≠ 0

section Placed

variable {plan : Plan} {first : MapTrack} {tracks : List MapTrack} {granted : Machine} {frames : List Nat}

variable {machine : Machine} {flags : MappingFlags} {memset : MemSet} {files : Files}

private theorem windowFrames (clean : machine.Clean) (planned : windowPlan files memset vaddr = some plan)
    (obtained : machine.Obtains (pageFloor vaddr) plan.count (first :: tracks) granted) :
    ∃ frames, WindowFrames machine granted vaddr plan first tracks frames := by
  obtain ⟨nonzero, fits⟩ := windowPlan_fits planned
  obtain ⟨frames, length, listed, supplied⟩ := obtained.supplies clean.wellFormed fits
  rw [← length] at fits
  have trackers := map_tracker_trackersAt (pageFloor vaddr) frames
  have single := nodup_trackersAt nonzero fits
  rw [← listed] at trackers single
  refine ⟨frames, length, listed, supplied, trackers, single, ?_, fun _ member => ?_⟩
  · have at_zero := getElem?_trackersAt nonzero fits 0
    rw [← listed, ← trackers] at at_zero
    simpa using congrArg MapTrack.vaddr (Option.some.inj at_zero)
  · rw [listed] at member
    obtain ⟨_, _, place⟩ := mem_trackersAt nonzero fits member
    rw [place]
    exact ⟨by simp, by omega⟩

private theorem WindowFrames.head {machine : Machine}
    (window : WindowFrames machine granted vaddr plan first tracks frames) : frames[0]? = some first.tracker := by
  rw [← window.trackers]
  rfl

private theorem WindowFrames.table {mtype : MemType}
    (window : WindowFrames machine granted vaddr plan first tracks frames) :
    (process.placed (allocArea mtype (pageFloor vaddr) plan.count (first :: tracks)) (pageFloor vaddr)
      flags).pageTable = process.pageTable.mapAll (first :: tracks) flags := by
  have present : (first :: tracks).filter (fun track => track.vaddr ≠ 0) = first :: tracks :=
    filter_eq_self.mpr fun track member => decide_eq_true (window.pages track member).2
  have nonzero := (window.pages first (by simp)).2
  rw [window.firstPage] at nonzero
  rw [Process.placed, mtrackers_allocArea, mapPresent, if_pos nonzero, present]

private theorem WindowFrames.evolves (sound : Sound kernel) (live : kernel.live index = some process)
    (window : WindowFrames kernel.machine granted vaddr plan first tracks frames)
    (alive : after.process.pcb.exitCode = none) (tidy : Tidy after.process.pcb)
    (shms : after.process.pcb.shms = process.pcb.shms)
    (points : ∀ page, pointer after.process.pcb page = (pointer process.pcb page).or
      (((first :: tracks).find? fun track => track.vaddr = page).map fun track =>
        { frame := track.tracker, shared := false }))
    (clear : ∀ track ∈ first :: tracks, pointer process.pcb track.vaddr = none)
    (table : after.process.pageTable = process.pageTable.mapAll (first :: tracks) .urwx)
    (allocator : after.machine.frames = granted.frames) (clean : after.machine.Clean) :
    Evolves kernel index process false after := by
  have grants := window.supplied.grants
  refine .of_pages sound live alive tidy shms (by rw [allocator]; exact grants.bounds)
    (fun frame now => ((grants.rest frame).mp (allocator ▸ now)).1) clean fun page => ?_
  rw [table]
  rcases @mapAll_cases process.pageTable (first :: tracks) .urwx
      (fun track member => (window.pages track member).1) page with ⟨track, member, rfl, mapped⟩ | ⟨others, same⟩
  · have listed : track.tracker ∈ frames := window.trackers ▸ mem_map_of_mem member
    have free := grants.free _ listed
    refine .inl ⟨track.tracker, .urwx, ?_, mapped, rfl, .inr ⟨sound.unused free, ?_, fun other _ pointed same => ?_⟩⟩
    · rw [points, clear track member, none_or, find?_track window.single member, map_some]
    · rw [allocator]
      exact ⟨free.registered.of_bounds grants.bounds, fun now => ((grants.rest _).mp now).2 listed⟩
    · rw [points] at pointed
      rcases or_eq_some_iff.mp pointed with old | ⟨_, new⟩
      · exact absurd (same ▸ sound.unused free) (Kernel.not_unused live old)
      · obtain ⟨track', found, rfl⟩ := map_eq_some_iff.mp new
        have place : track'.vaddr = other := by simpa using find?_some found
        rw [← place, inj_on_of_nodup_map (window.trackers ▸ grants.distinct) (mem_of_find?_eq_some found) member same]
  · have untracked : (first :: tracks).find? (fun track => track.vaddr = page) = none :=
      find?_eq_none.mpr fun track member => by simpa using others track member
    exact .inr ⟨by rw [points, untracked, map_none, or_none], same⟩

private theorem placed_pcb (stack : plan.mtype = .Stack → ∀ area ∈ process.pcb.memset, area.mtype ≠ .Stack) :
    (process.placed (plan.area vaddr tracks) (pageFloor vaddr) flags).pcb =
      { process.pcb with
        memset := process.pcb.memset ++ [plan.area vaddr tracks] } := by
  simp only [Process.placed, Process.withMemset, place, mtype_allocArea, mtrackers_allocArea]
  split
  · next isStack => rw [extendStack_eq_none_iff.mpr (stack isStack), getD_none]
  · rfl

variable (models : Models kernel system) (live : kernel.live event.index = some process)
  (unowned : process.pcb.memset.areaAt vaddr = none)
  (planned : windowPlan event.files process.pcb.memset vaddr = some plan)
include models live unowned planned

/-- By value, a fault in a window outside all areas places the pages of its plan. -/
private theorem touch_window (unpointed : pointer process.pcb (pageFloor vaddr) = none) :
    system.touch event.files event.index vaddr =
      some (system.place event.index process.pcb.memset.layout vaddr plan) := by
  have cell := (models.store.cells_none_iff (event.index, pageFloor vaddr)).mpr
    ((Kernel.points_live live _).trans unpointed)
  simp only [System.touch, cell, models.layouts event.index process live, bind_eq_bind, bind_some,
    find?_layout, unowned, map_none, windowPlan_layout, planned]

theorem placed_advances (sound : Sound kernel)
    (stack : plan.mtype = .Stack → ∀ area ∈ process.pcb.memset, area.mtype ≠ .Stack)
    (clear : ∀ set ∈ process.pcb.ranges, Disjoint (plan.area vaddr []).range set)
    (obtained : kernel.machine.Obtains (pageFloor vaddr) plan.count (first :: tracks) granted)
    (pcb : after.process.pcb = (process.placed (plan.area vaddr (first :: tracks)) (pageFloor vaddr) .urwx).pcb)
    (table : after.process.pageTable = (process.placed
      (plan.area vaddr (first :: tracks)) (pageFloor vaddr) .urwx).pageTable)
    (machine : after.machine = { granted with mem := overlay granted.mem first.tracker plan.bytes }) :
    Advances kernel system event vaddr after := by
  obtain ⟨_, _, short, kind⟩ := windowPlan_bounds planned
  obtain ⟨frames, window⟩ := windowFrames sound.clean planned obtained
  have grants := window.supplied.grants
  have before := sound.tidy event.index process live
  have wellFormed := window_wellFormed planned window.length
  rw [← window.listed] at wellFormed
  rw [← range_allocArea] at clear
  rw [placed_pcb stack] at pcb
  rw [window.table] at table
  have isPrivate : decide (SharedType plan.mtype) = false := by
    rcases kind with ⟨kind, _⟩ | kind <;> rw [kind] <;> rfl
  obtain ⟨tidy, points⟩ := before.add wellFormed (by rw [mtrackers_allocArea]; exact window.single) clear
  simp only [mtrackers_allocArea, mtype_allocArea, isPrivate] at points
  rw [← pcb] at tidy points
  have unpointed : ∀ track ∈ first :: tracks, pointer process.pcb track.vaddr = none := fun track member =>
    before.pointer_clear clear (wellFormed.trackInside track (by rw [mtrackers_allocArea]; exact member))
  have alive : after.process.pcb.exitCode = none := by rw [pcb]; exact (Kernel.live_eq_some_iff.mp live).2
  have firstMember : first.tracker ∈ frames := mem_of_getElem? window.head
  obtain ⟨clean, others⟩ := window.supplied.fill sound.clean firstMember short
  have evolves := window.evolves sound live alive tidy (by rw [pcb]) points unpointed table (by rw [machine])
    (machine ▸ clean)
  have touched := touch_window models live unowned planned (window.firstPage ▸ unpointed first (by simp))
  refine ⟨sound.put evolves live, _, touched, models.put live alive ?_ ?_⟩
  · simp [System.place, pcb, layout]
  · have agrees : kernel.heap.Agrees (pageAt after.machine.mem) := by
      intro place target pointed
      rw [machine]
      exact others target.frame (sound.aligned pointed) (sound.unused (grants.free _ firstMember) place target pointed)
    have extended := models.store.extend (fun place => if place.1 = event.index then
      ((first :: tracks).find? fun track => track.vaddr = place.2).map MapTrack.tracker else none) agrees
    have values : (fun place : Nat × Nat => (if place.1 = event.index then
          ((first :: tracks).find? fun track => track.vaddr = place.2).map MapTrack.tracker else none).map
            (pageAt after.machine.mem)) =
        fun place => if place.1 = event.index then plan.page (pageFloor vaddr) place.2 else none := by
      funext place
      split
      · rw [Option.map_map, machine, window.listed]
        exact window_page planned window.length sound.clean window.supplied window.head place.2
      · rfl
    rw [Kernel.heap_extend live alive points]
    rw [values] at extended
    exact extended

omit models live unowned planned

theorem placed_writable (clean : machine.Clean) (planned : windowPlan files memset vaddr = some plan)
    (obtained : machine.Obtains (pageFloor vaddr) plan.count (first :: tracks) granted) :
    ∃ mapping, (process.placed (plan.area vaddr (first :: tracks))
        (pageFloor vaddr) .urwx).pageTable (pageFloor vaddr) = some mapping ∧ mapping.flags.w = true := by
  obtain ⟨_, window⟩ := windowFrames clean planned obtained
  rw [window.table]
  rcases @mapAll_cases process.pageTable (first :: tracks) .urwx
      (fun track member => (window.pages track member).1) (pageFloor vaddr) with
    ⟨track, _, _, mapped⟩ | ⟨others, _⟩
  · exact ⟨_, mapped, rfl⟩
  · exact absurd window.firstPage (others first (by simp))

end Placed

/-! ## Refused and fatal accesses -/

theorem idle_keeps (sound : Sound kernel) (models : Models kernel system) (live : kernel.live index = some process)
    (pcb : after.process.pcb = process.pcb) (table : after.process.pageTable = process.pageTable)
    (restored : kernel.machine.Restores after.machine) :
    Sound (kernel.put index after) ∧ Models (kernel.put index after) system := by
  have alive : after.process.pcb.exitCode = none := by rw [pcb]; exact (Kernel.live_eq_some_iff.mp live).2
  have evolves : Evolves kernel index process false after :=
    .of_pages sound live alive (pcb ▸ sound.tidy index process live) (by rw [pcb]) restored.bounds
      (fun frame => (restored.free frame).mp) (restored.clean sound.clean) fun _ => .inr ⟨by rw [pcb], by rw [table]⟩
  refine ⟨sound.put evolves live, models.put live alive (models.layouts_kept live (by rw [pcb])) ?_⟩
  have heap : (kernel.put index after).heap = { kernel.heap with contents := pageAt after.machine.mem } := by
    refine congrArg (fun points => ({ points, contents := pageAt after.machine.mem } : Heap _ _ _))
      (funext fun place => (Kernel.points_put live alive place).trans ?_)
    split
    · next here => rw [pcb, ← Kernel.points_live live, ← here]
    · rfl
  rw [heap]
  exact models.store.of_agrees fun place target pointed => restored.kept target.frame (sound.aligned pointed)

theorem dropMemset_releases (around : Surroundings) (space : UserSpace) (memset : MemSet) :
    ∃ gone : List Nat, (space.dropMemset around memset).machine = gone.foldl dropFrame space.machine ∧
      gone.Nodup ∧ ∀ frame ∈ gone, around.others frame = 0 ∧
        ∃ area ∈ space.process.pcb.memset, ∃ track ∈ area.mtrackers, track.tracker = frame := by
  refine ⟨_, rfl, (nodup_dedup _).filter _, fun _ member => ?_⟩
  obtain ⟨listed, alone⟩ := mem_filter.mp member
  obtain ⟨track, tracked, rfl⟩ := mem_map.mp (mem_dedup.mp listed)
  obtain ⟨area, areaMember, tracked⟩ := mem_flatMap.mp tracked
  exact ⟨(of_decide_eq_true alone).2, area, areaMember, track, tracked, rfl⟩

theorem exit_releases {space : UserSpace} {around : Surroundings} {taskId code : Nat}
    (clears : (space.process.tcb taskId).clearChildTid = 0 ∨
      space.process.pageTable.translate (space.process.tcb taskId).clearChildTid = none) :
    let after := space.exit around taskId code
    after.process.pcb.exitCode = some code ∧ after.process.pageTable = space.process.pageTable ∧
      ∃ gone : List Nat, after.machine = gone.foldl dropFrame space.machine ∧ gone.Nodup ∧
        ∀ frame ∈ gone, around.others frame = 0 ∧
          ∃ area ∈ space.process.pcb.memset, ∃ track ∈ area.mtrackers, track.tracker = frame := by
  have cleared : space.process.clearChildTid space.machine.mem taskId = (space.process, space.machine.mem) := by
    unfold Process.clearChildTid
    rcases clears with zero | unmapped
    · simp [zero]
    · simp [unmapped]
  obtain ⟨mem, exitCode, table⟩ :
      let ended := space.process.exit space.machine.mem around.alive (strongCount around space.process) taskId code
      ended.mem = space.machine.mem ∧ ended.process.pcb.exitCode = some code ∧
        ended.process.pageTable = space.process.pageTable := by
    simp only [Process.exit, cleared, Process.leaveThreads]
    split <;> exact ⟨rfl, rfl, rfl⟩
  refine ⟨exitCode, table, ?_⟩
  simp only [UserSpace.exit, mem]
  exact dropMemset_releases around space _

/-- The process with number `index` has gone, with frames that no other process points to. -/
structure Leaves (kernel : Kernel) (index : Nat) (gone : List Nat) (after : Kernel) : Prop where
  live : ∀ other, after.live other = if other = index then none else kernel.live other
  released : kernel.machine.Releases gone after.machine
  kept : ∀ {other page target}, other ≠ index → kernel.heap.points (other, page) = some target → target.frame ∉ gone

namespace Leaves

variable {index : Nat} {gone : List Nat} {left : Kernel}

variable (leaves : Leaves kernel index gone left)
include leaves

theorem points (place : Nat × Nat) :
    left.heap.points place = if place.1 = index then none else kernel.heap.points place := by
  simp only [Kernel.heap, leaves.live]
  split <;> rfl

theorem points_before {place : Nat × Nat} {target : Pointer Nat} (pointed : left.heap.points place = some target) :
    place.1 ≠ index ∧ kernel.heap.points place = some target := by
  rw [leaves.points] at pointed
  split at pointed
  · cases pointed
  · next elsewhere => exact ⟨elsewhere, pointed⟩

theorem live_before {other : Nat} {owner : Process}
    (present : left.live other = some owner) : other ≠ index ∧ kernel.live other = some owner := by
  rw [leaves.live] at present
  split at present
  · cases present
  · next elsewhere => exact ⟨elsewhere, present⟩

theorem sound (sound : Sound kernel) : Sound left where
  tidy other owner present := sound.tidy other owner (leaves.live_before present).2
  mapped other owner present := sound.mapped other owner (leaves.live_before present).2
  attached other owner present := sound.attached other owner (leaves.live_before present).2
  exclusive other owner present page mapping found writable pointed target place otherTarget here there same :=
    sound.exclusive other owner (leaves.live_before present).2 page mapping found writable pointed target place
      otherTarget (leaves.points_before here).2 (leaves.points_before there).2 same
  sorted left right leftTarget rightTarget leftPoints rightPoints :=
    sound.sorted left right leftTarget rightTarget (leaves.points_before leftPoints).2
      (leaves.points_before rightPoints).2
  held place target pointed := by
    obtain ⟨elsewhere, before⟩ := leaves.points_before pointed
    obtain ⟨registered, used⟩ := sound.held place target before
    refine ⟨registered.of_bounds leaves.released.bounds, fun free => ?_⟩
    exact ((leaves.released.free _).mp free).elim used (leaves.kept elsewhere before)
  clean := leaves.released.clean sound.clean

theorem represents (sound : Sound kernel) (models : Models kernel system) :
    left.heap.Represents (system.drop index).store := by
  have dropped := models.store.reindex fun (place : Nat × Nat) => if place.1 = index then none else some place
  have heap : left.heap =
      { points := fun place => ((fun (place : Nat × Nat) =>
          if place.1 = index then none else some place) place).bind kernel.heap.points
        contents := pageAt left.machine.mem } := by
    refine congrArg (fun points => ({ points, contents := pageAt left.machine.mem } : Heap _ _ _))
      (funext fun place => (leaves.points place).trans ?_)
    dsimp only
    split <;> rfl
  rw [heap]
  refine dropped.of_agrees fun place target pointed => ?_
  dsimp only at pointed
  split at pointed
  · cases pointed
  · next elsewhere =>
    exact leaves.released.kept target.frame (sound.aligned pointed) (leaves.kept elsewhere pointed)

end Leaves

/-- The end of a task takes its pages away and leaves the others alone. -/
theorem ended_drops (sound : Sound kernel) (models : Models kernel system)
    (live : kernel.live event.index = some process) {code : Nat} {tls : TlsLoop}
    (clears : (process.tcb event.taskId).clearChildTid = 0 ∨
      process.pageTable.translate (process.tcb event.taskId).clearChildTid = none)
    (exited : after = { kernel.space process with tls }.exit (kernel.around event) event.taskId code) :
    after.process.pcb.exitCode.isSome ∧ after.process.pageTable = process.pageTable ∧
      Sound (kernel.put event.index after) ∧ Models (kernel.put event.index after) (system.drop event.index) := by
  obtain ⟨exitCode, table, gone, machine, distinct, given⟩ := @exit_releases
    { kernel.space process with tls } (kernel.around event) event.taskId code clears
  rw [← exited] at exitCode table machine
  have tidy := sound.tidy event.index process live
  have leaves : Leaves kernel event.index gone (kernel.put event.index after) := by
    refine ⟨fun other => ?_, ?_, fun {other page target} elsewhere pointed member => ?_⟩
    · rw [Kernel.live_put live, exitCode]
      rfl
    · change kernel.machine.Releases gone after.machine
      rw [machine]
      refine dropFrames_releases sound.clean.wellFormed distinct fun frame member => ?_
      obtain ⟨_, _, areaMember, track, tracked, rfl⟩ := given frame member
      exact sound.held (event.index, track.vaddr) _
        ((Kernel.points_live live _).trans (tidy.pointer_track areaMember tracked))
    · have alone := (given target.frame member).1
      have held := Kernel.heldElsewhere_pos elsewhere pointed
      simp only [Kernel.around] at alone
      omega
  refine ⟨by rw [exitCode]; rfl, table, leaves.sound sound, ?_, fun other owner present => ?_, ?_⟩
  · exact models.count.trans (length_set ..).symm
  · exact models.layouts other owner (leaves.live_before present).2
  · exact leaves.represents sound models

end User

end MonkeyOS
