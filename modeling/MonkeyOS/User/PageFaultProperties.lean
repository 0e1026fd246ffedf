import MonkeyOS.Tasks.TaskProperties
import MonkeyOS.User.PageFault

/-!
# What a page fault can do

Every outcome of `user_cow_int` is one of a few changes to the areas, the page
table and the machine. Facts about faults are derived from this list.
-/

set_option autoImplicit false

namespace MonkeyOS.User

open Lib Tasks Process UserSpace

/-! ## The windows -/

/-- Pages for an address outside all areas: the kind of area they get, how many
there are, and the bytes at the front of the first. -/
structure Plan where
  mtype : MemType
  count : Nat
  bytes : List UInt8

abbrev Plan.area (plan : Plan) (vaddr : Nat) (tracks : List MapTrack) : MemArea :=
  allocArea plan.mtype (pageFloor vaddr) plan.count tracks

/-- A page for an address whose file segment, if there is one, still has bytes. -/
def segmentPlan (files : Files) (memset : MemSet) (vaddr : Nat) : Option Plan :=
  match elfSegment memset vaddr with
  | none => some { mtype := .Mmap, count := 1, bytes := [] }
  | some (file, offset, _) =>
    match files.size file with
    | .error _ => none
    | .ok size =>
      if offset ≥ size then none
      else some
        { mtype := .Mmap, count := 1
          bytes := (files.readat file offset (min pageSize (size - offset))).toOption.getD [] }

def windowPlan (files : Files) (memset : MemSet) (vaddr : Nat) : Option Plan :=
  if within 0x70000000 0x80000000 vaddr then some { mtype := .Stack, count := 1, bytes := [] }
  else if within 0x10000 0x100000 vaddr ∨ within 0x200a0000 0x300b0000 vaddr then
    segmentPlan files memset vaddr
  else if within 0x1000000 0x2000000 vaddr then some { mtype := .Mmap, count := 12, bytes := [] }
  else if within 0x200000000 0x300000000 vaddr then
    some { mtype := .Mmap, count := 1, bytes := List.replicate pageSize 0 }
  else none

theorem toOption_length {bytes : Except Errno (List UInt8)} {limit : Nat}
    (short : ∀ read, bytes = .ok read → read.length ≤ limit) : (bytes.toOption.getD []).length ≤ limit := by
  cases bytes with
  | error => exact Nat.zero_le _
  | ok read => exact short read rfl

theorem segmentPlan_bounds {files : Files} {memset : MemSet} {vaddr : Nat} {plan : Plan}
    (planned : segmentPlan files memset vaddr = some plan) :
    plan.mtype = .Mmap ∧ plan.count = 1 ∧ plan.bytes.length ≤ pageSize := by
  unfold segmentPlan at planned
  split at planned
  · cases planned
    simp
  · split at planned
    · cases planned
    · split at planned
      · cases planned
      · cases planned
        exact ⟨rfl, rfl, toOption_length fun _ read =>
          le_trans (files.readat_fits read) (min_le_left _ _)⟩

section Window

variable {files : Files} {memset : MemSet} {vaddr : Nat} {plan : Plan}
  (planned : windowPlan files memset vaddr = some plan)
include planned

theorem windowPlan_bounds :
    within 0x10000 0x300000000 vaddr ∧ (plan.count = 1 ∨ plan.count = 12 ∧ within 0x1000000 0x2000000 vaddr) ∧
      plan.bytes.length ≤ pageSize ∧
      (plan.mtype = .Stack ∧ plan.count = 1 ∧ within 0x70000000 0x80000000 vaddr ∨ plan.mtype = .Mmap) := by
  unfold windowPlan at planned
  split at planned
  · next stack =>
    cases planned
    exact ⟨by omega, .inl rfl, by simp, .inl ⟨rfl, rfl, stack⟩⟩
  · split at planned
    · obtain ⟨mtype, count, short⟩ := segmentPlan_bounds planned
      exact ⟨by omega, .inl count, short, .inr mtype⟩
    · split at planned
      · next heap =>
        cases planned
        exact ⟨by omega, .inr ⟨rfl, heap⟩, by simp, .inr rfl⟩
      · split at planned
        · cases planned
          exact ⟨by omega, by simp⟩
        · cases planned

theorem windowPlan_fits : pageFloor vaddr ≠ 0 ∧ pageFloor vaddr + plan.count * pageSize < usizeBound := by
  obtain ⟨_, _, _⟩ := windowPlan_bounds planned
  unfold pageFloor pageSize usizeBound
  omega

end Window

def SegmentReadable (files : Files) (memset : MemSet) (vaddr : Nat) : Prop :=
  within 0x10000 0x100000 vaddr ∨ within 0x200a0000 0x300b0000 vaddr →
    ∀ file offset len size errno, elfSegment memset vaddr = some (file, offset, len) →
      files.size file = .ok size → offset < size →
      files.readat file offset (min pageSize (size - offset)) ≠ .error errno

/-! ## The outcomes -/

def SharedType (mtype : MemType) : Prop := mtype = .Shared ∨ mtype = .ShareFile

instance (mtype : MemType) : Decidable (SharedType mtype) := by unfold SharedType; infer_instance

def firstBytes (files : Files) (area : MemArea) (vaddr : Nat) : List UInt8 :=
  match area.file with
  | none => []
  | some file =>
    (files.readat file (wrapAdd area.offset (wrapSub (pageFloor vaddr) area.start)) pageSize).toOption.getD []

theorem firstBytes_length (files : Files) (area : MemArea) (vaddr : Nat) :
    (firstBytes files area vaddr).length ≤ pageSize := by
  unfold firstBytes
  split
  · exact Nat.zero_le _
  · exact toOption_length fun _ read => files.readat_fits read

/-- The second access near address zero with a signal pending, or the fourth
fault in a row on one page of the thread-local window. -/
def EndsTask (space : UserSpace) (taskId vaddr : Nat) : Prop :=
  vaddr < 0x1000 ∧ hasSig (space.process.tcb taskId).signal SIGSEGV = true ∨
    within 0x200000000 0x300000000 vaddr ∧ space.tls.lastAddr = pageFloor vaddr ∧ 3 ≤ space.tls.count

inductive Fault (around : Surroundings) (taskId vaddr : Nat) (before after : UserSpace) : Prop where
  /-- Nothing but signals and statics. -/
  | idle (pcb : after.process.pcb = before.process.pcb) (table : after.process.pageTable = before.process.pageTable)
      (machine : ∃ count, before.machine.Declines count after.machine)
  | remapped (area : MemArea) (track : MapTrack) (owner : before.process.pcb.memset.areaAt vaddr = some area)
      (tracked : area.trackAt vaddr = some track)
      (exclusive : SharedType area.mtype ∨ strongCount around before.process track.tracker ≤ 1)
      (pcb : after.process.pcb = before.process.pcb)
      (table : after.process.pageTable =
        before.process.pageTable.mapPage (pageFloor vaddr) track.tracker (ownedFlags area vaddr))
      (machine : after.machine = before.machine)
  | copied (area : MemArea) (track : MapTrack) (dst : Nat) (granted : Machine)
      (owner : before.process.pcb.memset.areaAt vaddr = some area)
      (tracked : area.trackAt vaddr = some track)
      (isPrivate : ¬ SharedType area.mtype)
      (allocated : before.machine.frameAlloc = some (dst, granted))
      (pcb : after.process.pcb = { before.process.pcb with memset := retrack vaddr dst before.process.pcb.memset })
      (table : after.process.pageTable = before.process.pageTable.mapPage (pageFloor vaddr) dst (ownedFlags area vaddr))
      (machine : after.machine =
        { granted with mem := overlay granted.mem dst (window granted.mem track.tracker pageSize) })
  | touched (area : MemArea) (frame : Nat) (granted : Machine)
      (owner : before.process.pcb.memset.areaAt vaddr = some area)
      (untracked : area.trackAt vaddr = none)
      (allocated : before.machine.frameAlloc = some (frame, granted))
      (pcb : after.process.pcb = { before.process.pcb with memset := track vaddr frame before.process.pcb.memset })
      (table : after.process.pageTable =
        before.process.pageTable.mapPage (pageFloor vaddr) frame (ownedFlags area vaddr))
      (machine : after.machine = { granted with mem := overlay granted.mem frame (firstBytes around.files area vaddr) })
  | placed (plan : Plan) (first : MapTrack) (tracks : List MapTrack) (granted : Machine)
      (unowned : before.process.pcb.memset.areaAt vaddr = none)
      (planned : windowPlan around.files before.process.pcb.memset vaddr = some plan)
      (obtained : before.machine.Obtains (pageFloor vaddr) plan.count (first :: tracks) granted)
      (pcb : after.process.pcb = (before.process.placed
        (plan.area vaddr (first :: tracks)) (pageFloor vaddr) .urwx).pcb)
      (table : after.process.pageTable = (before.process.placed
        (plan.area vaddr (first :: tracks)) (pageFloor vaddr) .urwx).pageTable)
      (machine : after.machine = { granted with mem := overlay granted.mem first.tracker plan.bytes })
  | ended (code : Nat) (tls : TlsLoop) (unowned : before.process.pcb.memset.areaAt vaddr = none)
      (ends : EndsTask before taskId vaddr)
      (exited : after = { before with tls }.exit around taskId code)

variable {around : Surroundings} {taskId vaddr : Nat} {write : Bool}

namespace Fault

variable {before after : UserSpace}

theorem signalled (space : UserSpace) : Fault around taskId vaddr space (space.addSignal taskId SIGSEGV) :=
  .idle rfl rfl ⟨0, .inl rfl⟩

end Fault

namespace UserSpace

variable {area : MemArea} {mtype : MemType} {count : Nat}

theorem mapOwned_eq_some {space after : UserSpace} {ppn : Nat} (mapped : space.mapOwned vaddr area ppn = some after) :
    after = { space with
      process := { space.process with
        pageTable := space.process.pageTable.mapPage (pageFloor vaddr) ppn (ownedFlags area vaddr) } } := by
  simp only [mapOwned, bind_eq_some] at mapped
  obtain ⟨_, mapped, ⟨⟩⟩ := mapped
  rw [(map_eq_some mapped).2]

theorem frameAlloc_outcome {space after : UserSpace} {ppn : Option Nat}
    (done : space.frameAlloc vaddr mtype count = some (ppn, after)) :
    (ppn = none ∧ after.process = space.process ∧ after.tls = space.tls ∧
        space.machine.Declines count after.machine) ∨
      ∃ first tracks, ppn = some first.tracker ∧
        space.machine.Obtains (pageFloor vaddr) count (first :: tracks) after.machine ∧
        after.process = space.process.placed (allocArea mtype (pageFloor vaddr) count (first :: tracks))
          (pageFloor vaddr) (allocFlags mtype) := by
  simp only [frameAlloc, bind_eq_some] at done
  obtain ⟨⟨_, _, _⟩, allocated, ⟨⟩⟩ := done
  rcases Process.frameAlloc_outcome allocated with ⟨rfl, rfl, declined⟩ | ⟨tracks, obtained, head, present, _, rfl⟩
  · exact .inl ⟨rfl, rfl, rfl, declined⟩
  · cases tracks with
    | nil => simp [head] at present
    | cons first tracks => exact .inr ⟨first, tracks, head, obtained, rfl⟩

theorem frameAlloc_one_none {space after : UserSpace} (refused : space.frameAlloc vaddr mtype 1 = some (none, after)) :
    after = space := by
  rcases frameAlloc_outcome refused with ⟨_, _, _, _ | ⟨_, _⟩⟩ | ⟨_, _, missing, _⟩
  · cases after
    simp_all
  · omega
  · cases missing

variable {space after : UserSpace}

variable (owner : space.process.pcb.memset.areaAt vaddr = some area)
include owner

theorem serveTracked_fault {track : MapTrack} (tracked : area.trackAt vaddr = some track)
    (served : space.serveTracked around taskId vaddr area track = some after) :
    Fault around taskId vaddr space after := by
  unfold serveTracked at served
  split at served
  · next shared =>
    rw [mapOwned_eq_some served]
    exact .remapped area track owner tracked (.inl shared) rfl rfl rfl
  · next isPrivate =>
    split at served
    · split at served
      · cases served
        exact .signalled space
      · next dst granted allocated =>
        rw [mapOwned_eq_some served]
        exact .copied area track dst granted owner tracked isPrivate allocated rfl rfl rfl
    · next single =>
      rw [mapOwned_eq_some served]
      exact .remapped area track owner tracked (.inr (Nat.le_of_not_lt single)) rfl rfl rfl

theorem serveUntracked_fault (untracked : area.trackAt vaddr = none)
    (served : space.serveUntracked around taskId vaddr area = some after) :
    Fault around taskId vaddr space after := by
  unfold serveUntracked at served
  split at served
  · cases served
    exact .signalled space
  · split at served
    · cases served
      exact .signalled space
    · next frame granted allocated =>
      rw [mapOwned_eq_some served]
      exact .touched area frame granted owner untracked allocated rfl rfl rfl

omit owner

private theorem placed_fault {middle : UserSpace} {plan : Plan} {frame : Nat} {tls : TlsLoop}
    (unowned : space.process.pcb.memset.areaAt vaddr = none)
    (planned : windowPlan around.files space.process.pcb.memset vaddr = some plan)
    (kind : plan.mtype = .Stack ∨ plan.mtype = .Mmap)
    (allocated : { space with tls }.frameAlloc vaddr plan.mtype plan.count = some (some frame, middle))
    (process : after.process = middle.process)
    (machine : after.machine = { middle.machine with mem := overlay middle.machine.mem frame plan.bytes }) :
    Fault around taskId vaddr space after := by
  rcases frameAlloc_outcome allocated with ⟨missing, _⟩ | ⟨first, tracks, same, obtained, placed⟩
  · cases missing
  · cases same
    have flags : allocFlags plan.mtype = .urwx := by rcases kind with kind | kind <;> rw [kind] <;> rfl
    rw [flags] at placed
    exact .placed plan first tracks middle.machine unowned planned obtained (by rw [process, placed])
      (by rw [process, placed]) machine

theorem blankPages_fault (kind : mtype = .Stack ∨ mtype = .Mmap)
    (unowned : space.process.pcb.memset.areaAt vaddr = none)
    (planned : windowPlan around.files space.process.pcb.memset vaddr = some { mtype, count, bytes := [] })
    (served : space.blankPages taskId vaddr mtype count = some after) :
    Fault around taskId vaddr space after := by
  simp only [blankPages, bind_eq_some] at served
  obtain ⟨⟨ppn, _⟩, allocated, ⟨⟩⟩ := served
  cases ppn with
  | none =>
    rcases frameAlloc_outcome allocated with ⟨_, process, _, declined⟩ | ⟨_, _, missing, _⟩
    · exact .idle (by simp [addSignal, process]) (by simp [addSignal, process]) ⟨count, declined⟩
    · cases missing
  | some _ =>
    exact placed_fault unowned planned kind allocated rfl (by simp)

variable (unowned : space.process.pcb.memset.areaAt vaddr = none)
include unowned

theorem segmentPage_fault (planned : windowPlan around.files space.process.pcb.memset vaddr =
      segmentPlan around.files space.process.pcb.memset vaddr)
    (inside : within 0x10000 0x100000 vaddr ∨ within 0x200a0000 0x300b0000 vaddr)
    (readable : SegmentReadable around.files space.process.pcb.memset vaddr)
    (served : space.segmentPage around taskId vaddr = some after) :
    Fault around taskId vaddr space after := by
  unfold segmentPage at served
  cases segment : space.process.getElfSegmentForAddr vaddr with
  | none =>
    simp only [segment] at served
    exact blankPages_fault (.inr rfl) unowned (by rw [planned, segmentPlan, ← getElfSegmentForAddr, segment]) served
  | some found =>
    obtain ⟨file, offset, len⟩ := found
    simp only [segment] at served
    cases sized : around.files.size file with
    | error errno =>
      simp only [sized, Option.some.injEq] at served
      exact served ▸ .idle rfl rfl ⟨0, .inl rfl⟩
    | ok size =>
      simp only [sized] at served
      split at served
      · cases served
        exact .idle rfl rfl ⟨0, .inl rfl⟩
      · next inFile =>
        simp only [bind_eq_some] at served
        obtain ⟨⟨ppn, _⟩, allocated, served⟩ := served
        cases ppn with
        | none =>
          -- A single page was refused, and is refused again.
          obtain rfl := frameAlloc_one_none allocated
          simp only [blankPages, allocated, Option.bind_eq_bind, Option.bind_some, Option.some.injEq] at served
          rw [← served]
          exact .signalled _
        | some _ =>
          cases read : around.files.readat file offset (min pageSize (size - offset)) with
          | error errno => exact absurd read (readable inside file offset len size errno segment sized
              (Nat.lt_of_not_le inFile))
          | ok bytes =>
            simp only [read, Option.some.injEq] at served
            have page : windowPlan around.files space.process.pcb.memset vaddr =
                some { mtype := .Mmap, count := 1, bytes } := by
              rw [planned, segmentPlan, ← getElfSegmentForAddr, segment]
              simp [sized, inFile, read, Except.toOption]
            exact placed_fault unowned page (.inr rfl) allocated (by rw [← served]; rfl) (by rw [← served]; rfl)

theorem tlsPage_fault (planned : windowPlan around.files space.process.pcb.memset vaddr =
      some { mtype := .Mmap, count := 1, bytes := List.replicate pageSize 0 })
    (inside : within 0x200000000 0x300000000 vaddr)
    (served : space.tlsPage around taskId vaddr = some after) :
    Fault around taskId vaddr space after := by
  simp only [tlsPage] at served
  generalize counted : (if space.tls.lastAddr = pageFloor vaddr then { space.tls with count := space.tls.count + 1 }
    else ({ lastAddr := pageFloor vaddr, count := 1 } : TlsLoop)) = tls at served
  split at served
  · next many =>
    refine .ended 1 tls unowned (.inr ⟨inside, ?_⟩) (Option.some.inj served).symm
    split at counted
    · next again =>
      rw [← counted] at many
      exact ⟨again, by simp only at many; omega⟩
    · rw [← counted] at many
      exact absurd many (Nat.not_lt_of_le (by decide : 1 ≤ 3))
  · simp only [bind_eq_some] at served
    obtain ⟨⟨ppn, _⟩, allocated, served⟩ := served
    cases ppn with
    | none =>
      rw [← Option.some.inj served, frameAlloc_one_none allocated]
      exact .idle rfl rfl ⟨0, .inl rfl⟩
    | some _ =>
      exact placed_fault unowned planned (.inr rfl) allocated (by rw [← Option.some.inj served]; rfl)
        (by rw [← Option.some.inj served]; rfl)

theorem serveWindows_fault (readable : SegmentReadable around.files space.process.pcb.memset vaddr)
    (served : space.serveWindows around taskId vaddr = some after) :
    Fault around taskId vaddr space after := by
  unfold serveWindows at served
  split at served
  · next low =>
    rw [← Option.some.inj served, nullAccess]
    split
    · next pending => exact .ended _ space.tls unowned (.inl ⟨low, pending⟩) rfl
    · exact .signalled space
  · split at served
    · next low =>
      exact segmentPage_fault unowned (by rw [windowPlan, if_neg (by omega), if_pos (.inl low)])
        (.inl low) readable served
    · split at served
      · next heap =>
        exact blankPages_fault (.inr rfl) unowned
          (by rw [windowPlan, if_neg (by omega), if_neg (by omega), if_pos heap]) served
      · split at served
        · next tls =>
          exact tlsPage_fault unowned
            (by rw [windowPlan, if_neg (by omega), if_neg (by omega), if_neg (by omega), if_pos tls]) tls served
        · split at served
          · next gap =>
            exact segmentPage_fault unowned (by rw [windowPlan, if_neg (by omega), if_pos (.inr gap)])
              (.inr gap) readable served
          · cases served
            exact .signalled space

end UserSpace

/-- An address without an area whose file segment can be read, or any address in
an area, is served in one of the ways listed. -/
theorem userCowInt_fault {before after : UserSpace} (served : before.userCowInt around taskId vaddr = some after)
    (readable : before.process.pcb.memset.areaAt vaddr = none →
      SegmentReadable around.files before.process.pcb.memset vaddr) :
    Fault around taskId vaddr before after := by
  unfold userCowInt at served
  cases owner : before.process.pcb.memset.areaAt vaddr with
  | some area =>
    simp only [owner] at served
    cases tracked : area.trackAt vaddr with
    | some track =>
      simp only [tracked] at served
      exact serveTracked_fault owner tracked served
    | none =>
      simp only [tracked] at served
      exact serveUntracked_fault owner tracked served
  | none =>
    simp only [owner] at served
    split at served
    · next stack =>
      simp only [bind_eq_some] at served
      obtain ⟨⟨ppn, _⟩, allocated, served⟩ := served
      cases ppn with
      | some _ =>
        simp only [Option.isSome_some, if_true, Option.some.injEq] at served
        have page : windowPlan around.files before.process.pcb.memset vaddr =
            some { mtype := .Stack, count := 1, bytes := [] } := if_pos stack
        exact placed_fault owner page (.inl rfl) allocated (by rw [served]) (by simp [served])
      | none =>
        obtain rfl := frameAlloc_one_none allocated
        exact serveWindows_fault owner (readable owner) served
    · exact serveWindows_fault owner (readable owner) served

/-! ## Accesses -/

theorem UserSpace.access_cases {space after : UserSpace} {paddr : Option Nat}
    (accessed : space.access around taskId vaddr write = some (paddr, after)) :
    (paddr.isSome ∧ target space.process.pageTable vaddr write = paddr ∧ after = space) ∨
      target space.process.pageTable vaddr write = none ∧ space.userCowInt around taskId vaddr = some after ∧
        target after.process.pageTable vaddr write = paddr := by
  unfold access at accessed
  split at accessed
  · next found =>
    cases accessed
    exact .inl ⟨rfl, found, rfl⟩
  · next missing =>
    simp only [bind_eq_some, Option.some.injEq, Prod.mk.injEq] at accessed
    obtain ⟨_, served, reached, rfl⟩ := accessed
    exact .inr ⟨missing, served, reached⟩

theorem target_eq_some {table : PageTable} {paddr : Nat} (found : target table vaddr write = some paddr) :
    ∃ mapping, table (pageFloor vaddr) = some mapping ∧ paddr = mapping.paddr + vaddr % pageSize ∧
      (write = true → mapping.flags.w = true) := by
  unfold target PageTable.translate at found
  split at found
  · cases found
  · next mapping present =>
    split at found
    · cases found
    · next allowed =>
      refine ⟨mapping, present, (Option.some.inj found).symm, fun writing => ?_⟩
      simpa [writing] using allowed

end MonkeyOS.User
