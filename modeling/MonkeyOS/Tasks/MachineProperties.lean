import MonkeyOS.Runtime.FrameProperties
import MonkeyOS.Tasks.TaskProperties

/-!
# Frames and what they hold

What obtaining, filling and dropping frames does to the pages of the machine.
-/

set_option autoImplicit false

namespace MonkeyOS.Tasks

open Lib MapTrack List
open MonkeyOS.Runtime

/-! ## The bytes of a frame -/

def pageAt (mem : PhysMem) (frame : Nat) : Page := fun offset =>
  if offset < pageSize then mem (frame + offset) else 0

def frontPage (bytes : List UInt8) : Page := fun offset =>
  if offset < pageSize then bytes.getD offset 0 else 0

section Bytes

variable {mem : PhysMem} {frame other offset : Nat} {bytes : List UInt8}

theorem pageAt_overlay_of_ne (aligned : frame % pageSize = 0) (otherAligned : other % pageSize = 0)
    (different : other ≠ frame) (inside : offset + bytes.length ≤ pageSize) :
    pageAt (overlay mem (frame + offset) bytes) other = pageAt mem other := by
  funext index
  simp only [pageAt]
  split
  · rcases lt_or_gt_of_ne different with _ | _
    · exact overlay_before (by unfold pageSize at *; omega)
    · exact overlay_after (by unfold pageSize at *; omega)
  · rfl

theorem pageAt_storeByte (bound : offset < pageSize) (byte : UInt8) :
    pageAt (overlay mem (frame + offset) [byte]) frame = Function.update (pageAt mem frame) offset byte := by
  funext index
  simp only [pageAt, Function.update_apply]
  by_cases here : index = offset
  · subst here
    rw [if_pos bound, if_pos rfl]
    exact @overlay_inside _ mem (frame + index) 0 [byte] (by simp)
  · split
    · rcases lt_or_gt_of_ne here with _ | _
      · exact overlay_before (by omega)
      · exact overlay_after (by simp; omega)
    · rfl

theorem pageAt_fill (blank : pageAt mem frame = Page.zero) :
    pageAt (overlay mem frame bytes) frame = frontPage bytes := by
  funext index
  have zero := congrFun blank index
  simp only [pageAt, frontPage] at zero ⊢
  split
  · next bound =>
    rw [if_pos bound] at zero
    have past : ¬ frame + index < frame := by omega
    simp [overlay, past, zero, Page.zero]
  · rfl

theorem pageAt_copy (source : Nat) :
    pageAt (overlay mem frame (window mem source pageSize)) frame = pageAt mem source := by
  funext index
  simp only [pageAt]
  split
  · next bound =>
    have past : ¬ frame + index < frame := by omega
    simp [overlay, past, window, bound]
  · rfl

theorem pageAt_clear : pageAt (overlay mem frame (List.replicate pageSize 0)) frame = Page.zero := by
  funext index
  simp only [pageAt]
  split
  · next bound =>
    have past : ¬ frame + index < frame := by omega
    simp [overlay, past, bound, Page.zero]
  · rfl

end Bytes

/-! ## Dropping and obtaining frames -/

def segmentSize (remaining : Nat) : Nat := min (max (remaining / 2) 1) 16

theorem segmentSize_bounds {remaining : Nat} (more : remaining ≠ 0) :
    0 < segmentSize remaining ∧ segmentSize remaining ≤ remaining := by
  unfold segmentSize
  omega

namespace Machine

/-- Free frames are blank: every frame is cleared when it is dropped. -/
structure Clean (machine : Machine) : Prop where
  wellFormed : machine.frames.WellFormed
  blank : ∀ frame, machine.frames.Free frame → pageAt machine.mem frame = Page.zero

structure Releases (machine : Machine) (frames : List Nat) (after : Machine) : Prop where
  bounds : after.frames.bounds = machine.frames.bounds
  wellFormed : after.frames.WellFormed
  free : ∀ frame, after.frames.Free frame ↔ machine.frames.Free frame ∨ frame ∈ frames
  cleared : ∀ frame ∈ frames, pageAt after.mem frame = Page.zero
  kept : ∀ frame, frame % pageSize = 0 → frame ∉ frames → pageAt after.mem frame = pageAt machine.mem frame

variable {machine after middle : Machine} {frames : List Nat}

theorem dropFrames_releases (wellFormed : machine.frames.WellFormed) (distinct : frames.Nodup)
    (held : ∀ frame ∈ frames, machine.frames.Registered frame ∧ ¬ machine.frames.Free frame) :
    machine.Releases frames (frames.foldl dropFrame machine) := by
  induction frames generalizing machine with
  | nil => exact ⟨rfl, wellFormed, by simp, nofun, fun _ _ _ => rfl⟩
  | cons frame frames ih =>
    obtain ⟨registered, used⟩ := held frame (by simp)
    obtain ⟨fresh, distinct⟩ := nodup_cons.mp distinct
    have aligned := registered.aligned wellFormed
    obtain ⟨bounds, formed, free, _⟩ := FrameAllocator.dealloc_returns wellFormed registered used
    have others : ∀ other, other % pageSize = 0 → other ≠ frame →
        pageAt (machine.dropFrame frame).mem other = pageAt machine.mem other := fun other otherAligned different =>
      @pageAt_overlay_of_ne machine.mem frame other 0 _ aligned otherAligned different (by simp)
    have rest := @ih (machine.dropFrame frame) formed distinct fun other member => by
      obtain ⟨otherRegistered, otherUsed⟩ := held other (by simp [member])
      refine ⟨otherRegistered.of_bounds bounds, fun now => ?_⟩
      rcases (free other).mp now with before | same
      · exact otherUsed before
      · exact fresh (same ▸ member)
    refine ⟨rest.bounds.trans bounds, rest.wellFormed, fun other => ?_, fun other member => ?_,
      fun other otherAligned outside => ?_⟩
    · rw [foldl_cons, rest.free, mem_cons]
      exact (or_congr_left (free other)).trans or_assoc
    · rcases mem_cons.mp member with rfl | later
      · exact (rest.kept other aligned fresh).trans pageAt_clear
      · exact rest.cleared other later
    · rw [mem_cons, not_or] at outside
      exact (rest.kept other otherAligned outside.2).trans (others other otherAligned outside.1)

theorem Releases.clean (released : machine.Releases frames after) (clean : machine.Clean) : after.Clean where
  wellFormed := released.wellFormed
  blank := by
    intro frame free
    by_cases member : frame ∈ frames
    · exact released.cleared frame member
    · have before := ((released.free frame).mp free).resolve_right member
      rw [released.kept frame (before.registered.aligned clean.wellFormed) member]
      exact clean.blank frame before

structure Supplies (machine : Machine) (frames : List Nat) (after : Machine) : Prop where
  grants : machine.frames.Grants frames after.frames
  mem : after.mem = machine.mem

theorem Supplies.nil (wellFormed : machine.frames.WellFormed) : machine.Supplies [] machine :=
  ⟨⟨rfl, wellFormed, .nil, nofun, by simp, rfl⟩, rfl⟩

theorem Supplies.append {front back : List Nat} (first : machine.Supplies front middle)
    (second : middle.Supplies back after) : machine.Supplies (front ++ back) after :=
  ⟨first.grants.append second.grants, second.mem.trans first.mem⟩

variable {frame count : Nat}

theorem frameAlloc_supplies (wellFormed : machine.frames.WellFormed)
    (allocated : machine.frameAlloc = some (frame, after)) : machine.Supplies [frame] after := by
  obtain ⟨⟨_, _⟩, allocating, ⟨⟩⟩ := Option.map_eq_some_iff.mp allocated
  exact ⟨FrameAllocator.alloc_grants wellFormed allocating, rfl⟩

theorem frameAllocMuch_supplies (wellFormed : machine.frames.WellFormed)
    (allocated : machine.frameAllocMuch count = some (frames, after)) :
    frames.length = count ∧ machine.Supplies frames after := by
  obtain ⟨⟨_, _⟩, allocating, ⟨⟩⟩ := Option.map_eq_some_iff.mp allocated
  obtain ⟨length, grants⟩ := FrameAllocator.allocMuch_grants wellFormed allocating
  exact ⟨length, grants, rfl⟩

theorem Supplies.fill (clean : machine.Clean) (supplied : machine.Supplies frames after) (member : frame ∈ frames)
    {bytes : List UInt8} (short : bytes.length ≤ pageSize) :
    Clean { after with mem := overlay after.mem frame bytes } ∧
      ∀ other, other % pageSize = 0 → other ≠ frame →
        pageAt (overlay after.mem frame bytes) other = pageAt machine.mem other := by
  have grants := supplied.grants
  have aligned := (grants.free frame member).registered.aligned clean.wellFormed
  refine (and_iff_right_of_imp fun others => ⟨grants.wellFormed, fun other free => ?_⟩).mpr
    fun other otherAligned different => ?_
  · rw [← supplied.mem]
    exact @pageAt_overlay_of_ne after.mem frame other 0 bytes aligned otherAligned different (by omega)
  · obtain ⟨before, outside⟩ := (grants.rest other).mp free
    refine (others other (before.registered.aligned clean.wellFormed) fun same => ?_).trans (clean.blank other before)
    exact outside (same ▸ member)

structure Restores (machine after : Machine) : Prop where
  bounds : after.frames.bounds = machine.frames.bounds
  wellFormed : after.frames.WellFormed
  free : ∀ frame, after.frames.Free frame ↔ machine.frames.Free frame
  kept : ∀ frame, frame % pageSize = 0 → pageAt after.mem frame = pageAt machine.mem frame

theorem Restores.clean (restored : machine.Restores after) (clean : machine.Clean) : after.Clean where
  wellFormed := restored.wellFormed
  blank := by
    intro frame free
    have before := (restored.free frame).mp free
    rw [restored.kept frame (before.registered.aligned clean.wellFormed)]
    exact clean.blank frame before

theorem Supplies.drop (supplied : machine.Supplies frames after) :
    after.Releases frames (frames.foldl dropFrame after) := by
  have grants := supplied.grants
  exact dropFrames_releases grants.wellFormed grants.distinct fun frame member =>
    ⟨(grants.free frame member).registered.of_bounds grants.bounds, fun free => ((grants.rest frame).mp free).2 member⟩

theorem Supplies.dropped_free (supplied : machine.Supplies frames after) (frame : Nat) :
    (frames.foldl dropFrame after).frames.Free frame ↔ machine.frames.Free frame := by
  rw [supplied.drop.free, supplied.grants.rest]
  constructor
  · rintro (⟨before, _⟩ | member)
    · exact before
    · exact supplied.grants.free frame member
  · intro before
    by_cases member : frame ∈ frames
    · exact .inr member
    · exact .inl ⟨before, member⟩

theorem Supplies.dropped (clean : machine.Clean) (supplied : machine.Supplies frames after) :
    machine.Restores (frames.foldl dropFrame after) := by
  have released := supplied.drop
  refine ⟨released.bounds.trans supplied.grants.bounds, released.wellFormed, supplied.dropped_free,
    fun frame aligned => ?_⟩
  by_cases member : frame ∈ frames
  · rw [released.cleared frame member, clean.blank frame (supplied.grants.free frame member)]
  · rw [released.kept frame aligned member, supplied.mem]

@[simp] theorem map_tracker_trackersAt (vaddr : Nat) (frames : List Nat) :
    (trackersAt vaddr frames).map tracker = frames := by
  simp [trackersAt, Function.comp_def]

theorem frameAllocMuch_bounds (allocated : machine.frameAllocMuch count = some (frames, after)) :
    after.frames.bounds = machine.frames.bounds ∧ frames.length = count ∧ ∀ frame ∈ frames, frame % pageSize = 0 := by
  obtain ⟨⟨_, _⟩, allocating, ⟨⟩⟩ := Option.map_eq_some_iff.mp allocated
  exact FrameAllocator.allocMuch_bounds allocating

/-- The pieces that the fallback of `frame_alloc` takes, until `left` frames are missing. -/
inductive Gathers : Machine → (remaining : Nat) → List Nat → Machine → (left : Nat) → Prop where
  | stop {machine remaining} : Gathers machine remaining [] machine remaining
  | piece {machine middle after remaining front back left} : remaining ≠ 0 →
      machine.frameAllocMuch (segmentSize remaining) = some (front, middle) →
      Gathers middle (remaining - segmentSize remaining) back after left →
      Gathers machine remaining (front ++ back) after left

theorem allocSegments_gathers {fuel remaining current : Nat} {allocated : List MapTrack}
    {answer : Option (List MapTrack)} (enough : remaining ≤ fuel)
    (done : Process.allocSegments fuel machine remaining current allocated = (answer, after)) :
    (∃ tracks, answer = some (allocated ++ tracks) ∧ machine.Gathers remaining (tracks.map tracker) after 0 ∧
        tracks.length = remaining ∧
        (current + remaining * pageSize < usizeBound → tracks = trackersAt current (tracks.map tracker))) ∨
      answer = none ∧ ∃ frames filled left, machine.Gathers remaining frames filled left ∧
        after = (allocated.map tracker ++ frames).foldl dropFrame filled := by
  induction fuel generalizing machine remaining current allocated with
  | zero =>
    cases done
    obtain rfl : remaining = 0 := by omega
    exact .inl ⟨[], by simp, .stop, rfl, fun _ => rfl⟩
  | succ fuel ih =>
    unfold Process.allocSegments at done
    split at done
    · next finished =>
      cases done
      subst finished
      exact .inl ⟨[], by simp, .stop, rfl, fun _ => rfl⟩
    · next more =>
      obtain ⟨positive, bound⟩ := segmentSize_bounds more
      have halves : min (max (remaining / 2) 1) 16 = segmentSize remaining := rfl
      rw [halves] at done
      simp only at done
      split at done
      · next granted _ allocation =>
        obtain ⟨-, length, -⟩ := frameAllocMuch_bounds allocation
        rcases ih (by omega) done with ⟨tracks, rfl, pieces, rest, placed⟩ | ⟨rfl, _, _, _, pieces, rfl⟩
        · refine .inl ⟨trackersAt current granted ++ tracks, by rw [append_assoc], ?_, ?_, fun fits => ?_⟩
          · rw [map_append, map_tracker_trackersAt]
            exact .piece more allocation pieces
          · rw [length_append, trackersAt, length_map, length_zipIdx, length, rest, Nat.add_sub_cancel' bound]
          · have split := add_mul (segmentSize remaining) (remaining - segmentSize remaining) pageSize
            rw [Nat.add_sub_cancel' bound] at split
            rw [map_append, map_tracker_trackersAt,
              trackersAt_append (by rwa [length_map, length, rest, Nat.add_sub_cancel' bound]), length, ← placed]
            split
            · rw [wrapAdd_eq (by omega)]
              omega
            · omega
        · exact .inr ⟨rfl, _, _, _, .piece more allocation pieces, by
            rw [map_append, map_tracker_trackersAt, append_assoc]⟩
      · cases done
        exact .inr ⟨rfl, [], machine, remaining, .stop, by rw [append_nil, foldl_map]⟩

theorem Gathers.supplies {remaining left : Nat} (wellFormed : machine.frames.WellFormed)
    (pieces : machine.Gathers remaining frames after left) : machine.Supplies frames after := by
  induction pieces with
  | stop => exact .nil wellFormed
  | piece _ allocated _ ih =>
    obtain ⟨-, supplied⟩ := frameAllocMuch_supplies wellFormed allocated
    exact supplied.append (ih supplied.grants.wellFormed)

theorem Obtains.supplies {vaddr : Nat} {tracks : List MapTrack} (wellFormed : machine.frames.WellFormed)
    (fits : vaddr + count * pageSize < usizeBound) (obtained : machine.Obtains vaddr count tracks after) :
    ∃ frames, frames.length = count ∧ tracks = trackersAt vaddr frames ∧ machine.Supplies frames after := by
  rcases obtained with ⟨frames, allocated, rfl⟩ | gathered
  · obtain ⟨length, supplied⟩ := frameAllocMuch_supplies wellFormed allocated
    exact ⟨frames, length, rfl, supplied⟩
  · rcases allocSegments_gathers (le_refl count) gathered with ⟨tracks, ⟨⟩, pieces, length, placed⟩ | ⟨⟨⟩, _⟩
    exact ⟨tracks.map tracker, by rwa [length_map], placed fits, pieces.supplies wellFormed⟩

theorem Declines.drops (wellFormed : machine.frames.WellFormed) (declined : machine.Declines count after) :
    ∃ frames filled, machine.Supplies frames filled ∧ after = frames.foldl dropFrame filled := by
  rcases declined with rfl | ⟨_, _, gathered⟩
  · exact ⟨[], after, .nil wellFormed, rfl⟩
  · rcases allocSegments_gathers (le_refl count) gathered with ⟨_, ⟨⟩, _⟩ | ⟨-, frames, filled, _, pieces, rfl⟩
    exact ⟨frames, filled, pieces.supplies wellFormed, rfl⟩

theorem Declines.restores (clean : machine.Clean) (declined : machine.Declines count after) :
    machine.Restores after := by
  obtain ⟨_, _, supplied, rfl⟩ := declined.drops clean.wellFormed
  exact supplied.dropped clean

end Machine

end MonkeyOS.Tasks
