import MonkeyOS.Runtime.FrameOwnership
import MonkeyOS.Syscall.SharedMapping

/-!
# Shared file mappings, there and back

A file of the ram file system is mapped, written through the mapping and
unmapped again.
-/

set_option autoImplicit false

namespace MonkeyOS.Syscall

open Lib Tasks User Ramfs Function List Option RamFile Nat

/-- The writes to one inode, performed on its file. A refused one is a panic. -/
def performWrites {σ : Type} (alloc : σ → Option Page × σ) (inode : Inode) :
    RamFile → σ → List FileWrite → Option (RamFile × σ)
  | file, state, [] => some (file, state)
  | file, state, write :: writes =>
    if write.file = inode then
      match file.writeat alloc state write.offset write.bytes with
      | (.ok _, file, state) => performWrites alloc inode file state writes
      | (.error _, _, _) => none
    else performWrites alloc inode file state writes

section Performing

variable {σ : Type} {alloc : σ → Option Page × σ} {inode : Inode} {file after : RamFile}
  {state state' : σ} {cells : Nat → UInt8} {base first count : Nat}

theorem performWrites_append (writes more : List FileWrite) :
    performWrites alloc inode file state (writes ++ more) =
      (performWrites alloc inode file state writes).bind fun (file, state) =>
        performWrites alloc inode file state more := by
  induction writes generalizing file state with
  | nil => rfl
  | cons _ writes ih =>
    simp only [cons_append, performWrites]
    split
    · split
      · exact ih
      · rfl
    · exact ih

theorem pageWrites_succ :
    pageWrites inode cells base first (count + 1) =
      { file := inode, offset := base + first * pageSize
        bytes := window cells (first * pageSize) pageSize } ::
        pageWrites inode cells base (first + 1) count := by
  simp [pageWrites, range'_succ]

theorem performWrites_inside (backed : file.len ≤ file.pages.length * pageSize)
    (inside : base + (first + count) * pageSize ≤ file.len)
    (word : base + (first + count) * pageSize < usizeBound) :
    ∃ after state',
      performWrites alloc inode file state (pageWrites inode cells base first count) = some (after, state') ∧
      after.len = file.len ∧ after.pages.length = file.pages.length ∧
      bytes after.pages =
        overlay (bytes file.pages) (base + first * pageSize) (window cells (first * pageSize) (count * pageSize)) := by
  induction count generalizing file state first with
  | zero => exact ⟨file, state, rfl, rfl, rfl, by simp [window]⟩
  | succ count ih =>
    have total : (first + (count + 1)) * pageSize = (first + 1 + count) * pageSize := by
      rw [add_right_comm, add_assoc]
    have next : (first + 1) * pageSize = first * pageSize + pageSize := succ_mul _ _
    have below : (first + 1) * pageSize ≤ (first + 1 + count) * pageSize :=
      mul_le_mul_right _ (le_add_right _ _)
    rw [total] at inside word
    obtain ⟨result, len, pages, held⟩ := @writeat_inside σ alloc file state (base + first * pageSize)
      (window cells (first * pageSize) pageSize) backed (by simp; omega) (by simp; omega)
    rw [pageWrites_succ]
    simp only [performWrites, if_true]
    generalize file.writeat alloc state _ _ = wrote at *
    obtain ⟨_, written, later⟩ := wrote
    subst result
    obtain ⟨after, state', rest, lastLen, lastPages, lastHeld⟩ :=
      @ih written later (first + 1) (by rw [len, pages]; exact backed) (by rw [len]; exact inside) word
    refine ⟨after, state', rest, lastLen.trans len, lastPages.trans pages, ?_⟩
    have joined := overlay_overlay (bytes file.pages) (base + first * pageSize)
      (window cells (first * pageSize) pageSize) (window cells ((first + 1) * pageSize) (count * pageSize))
    have size : (count + 1) * pageSize = pageSize + count * pageSize := by
      rw [succ_mul, add_comm]
    rw [next, window_append, length_window] at joined
    rw [lastHeld, held, next, size, ← add_assoc, joined]

theorem performWrites_len_le {writes : List FileWrite}
    (performed : performWrites alloc inode file state writes = some (after, state')) :
    file.len ≤ after.len := by
  induction writes generalizing file state with
  | nil => rw [(Prod.mk.inj (Option.some.inj performed)).1]
  | cons write writes ih =>
    have grown := @writeat_len_le σ alloc file state write.offset write.bytes
    simp only [performWrites] at performed
    split at performed
    · split at performed
      · next wrote =>
        rw [wrote] at grown
        exact le_trans grown (ih performed)
      · cases performed
    · exact ih performed

theorem performWrites_reaches (supplied : ∀ state, (alloc state).1 = some Page.zero)
    (word : base + (first + (count + 1)) * pageSize < usizeBound)
    (performed : performWrites alloc inode file state (pageWrites inode cells base first (count + 1)) =
      some (after, state')) : base + (first + (count + 1)) * pageSize ≤ after.len := by
  have last : pageWrites inode cells base first (count + 1) =
      pageWrites inode cells base first count ++ pageWrites inode cells base (first + count) 1 := by
    simp [pageWrites, range'_concat]
  have size : (first + (count + 1)) * pageSize = (first + count) * pageSize + pageSize := succ_mul _ _
  rw [last, performWrites_append, bind_eq_some_iff] at performed
  obtain ⟨⟨middle, between⟩, _, performed⟩ := performed
  obtain ⟨whole, _⟩ := @writeSize_full σ alloc supplied middle between
    (base + (first + count) * pageSize) (window cells ((first + count) * pageSize) pageSize) (by simp; omega)
  obtain ⟨_, len, _⟩ := @writeat_accepted σ alloc middle between (base + (first + count) * pageSize)
    (window cells ((first + count) * pageSize) pageSize) (by rw [granted_all supplied]; exact id)
  rw [whole, length_window] at len
  rw [pageWrites_succ] at performed
  simp only [performWrites, if_true] at performed
  split at performed
  · next wrote =>
    rw [wrote] at len
    cases Option.some.inj performed
    simp only at len
    omega
  · cases performed

theorem performWrites_dropped (backed : file.len ≤ file.pages.length * pageSize)
    (inside : (1 + count) * pageSize ≤ file.len) (word : (1 + count) * pageSize < usizeBound) :
    ∃ after state',
      performWrites alloc inode file state
        ({ file := inode, offset := 0, bytes := [] } :: pageWrites inode cells 0 1 count) =
          some (after, state') ∧
      after.len = file.len ∧ bytes after.pages =
        overlay (bytes file.pages) pageSize (window cells pageSize (count * pageSize)) := by
  obtain ⟨result, len, pages, held⟩ := @writeat_inside σ alloc file state 0 [] backed (by simp) (by decide)
  simp only [performWrites, if_true]
  generalize file.writeat alloc state 0 [] = wrote at *
  obtain ⟨_, written, later⟩ := wrote
  subst result
  obtain ⟨after, state', rest, lastLen, _, lastHeld⟩ :=
    @performWrites_inside σ alloc inode written later cells 0 1 count (by rw [len, pages]; exact backed)
      (by rw [len, zero_add]; exact inside) (by rw [zero_add]; exact word)
  refine ⟨after, state', rest, lastLen.trans len, ?_⟩
  rw [lastHeld, held, overlay_nil, zero_add, one_mul]

end Performing

/-! ## The round trip -/

/-- A file's bytes with stores into the range from `off` on; those past its end are lost. -/
def storedInto (contents : List UInt8) (off : Nat) (stores : List (Nat × UInt8)) : List UInt8 :=
  stores.foldl (fun contents (index, byte) => contents.set (off + index) byte) contents

/-- Any stores into the mapped range are in the file after the range is unmapped,
and nothing else of the file has changed. -/
def RoundTrips (context : MmContext) (taskId : Nat) (inode : Inode) (file : RamFile)
    (mapped : UserSpace) (addr off len : Nat) : Prop :=
  ∀ stores : List (Nat × UInt8), (∀ store ∈ stores, store.1 < len) →
    ∃ finish, mapped.storeAll context.around taskId addr stores = some finish ∧
      ∀ (σ : Type) (alloc : σ → Option Page × σ) (state : σ), ∃ after state',
        performWrites alloc inode file state (sysMunmap context finish addr len).2 = some (after, state') ∧
        after.contents = storedInto file.contents off stores

theorem storedInto_window (cells : Nat → UInt8) (size off : Nat) (stores : List (Nat × UInt8)) :
    storedInto (window cells 0 size) off stores =
      window (fun index =>
        if index < off then cells index
        else stored (fun inner => cells (off + inner)) stores (index - off)) 0 size := by
  induction stores generalizing cells with
  | nil =>
    refine window_congr fun index _ _ => ?_
    by_cases before : index < off
    · rw [if_pos before]
    · have back : off + (index - off) = index := by omega
      simp [stored, before, back]
  | cons store stores ih =>
    have step : (window cells 0 size).set (off + store.1) store.2 =
        window (update cells (off + store.1) store.2) 0 size := by
      refine ext_getElem (by simp) fun index _ _ => ?_
      simp [window, getElem_set, update_apply, eq_comm]
    simp only [storedInto, foldl_cons]
    rw [step]
    refine (ih _).trans (window_congr fun index _ _ => ?_)
    by_cases before : index < off
    · rw [if_pos before, if_pos before, update_of_ne (by omega)]
    · rw [if_neg before, if_neg before]
      refine congrArg (fun cells => stored cells stores (index - off)) ?_
      funext inner
      simp [update_apply]

theorem overlay_stored {cells held : Nat → UInt8} {off len length : Nat} {stores : List (Nat × UInt8)}
    (inside : ∀ store ∈ stores, store.1 < len) (short : len ≤ length)
    (shown : ∀ index < length, held index = stored (fun inner => cells (off + inner)) stores index)
    (index : Nat) :
    overlay cells off (window held 0 length) index =
      if index < off then cells index
      else stored (fun inner => cells (off + inner)) stores (index - off) := by
  by_cases before : index < off
  · rw [if_pos before, overlay_before before]
  · have back : off + (index - off) = index := by omega
    rw [if_neg before]
    by_cases within : index - off < length
    · have cell := @overlay_inside _ cells off (index - off) (window held 0 length) (by simpa using within)
      rw [back] at cell
      rw [cell, ← shown _ within]
      simp [window]
    · have last : off + (window held 0 length).length ≤ index := by
        rw [length_window]
        omega
      rw [overlay_after last, stored_elsewhere fun store member => ?_, back]
      have bound := inside store member
      omega

section RoundTrip

variable {context : MmContext} {taskId : Nat} {space room mapped : UserSpace}
  {start len prot flags fd off : Nat} {inode : Inode} {file : RamFile}

private theorem held_once {rest : MemSet} {addr length : Nat} {frames : List Nat} {process : Process}
    (memset : process.pcb.memset = rest ++ [mappedArea addr length off inode frames])
    (before : rest = room.process.pcb.memset) (distinct : frames.Nodup) {frame : Nat}
    (unheld : strongCount context.around room.process frame = 0) :
    strongCount context.around process frame ≤ 1 := by
  have tracked : (trackersAt addr frames).countP (fun track => track.tracker = frame) ≤ 1 := by
    have listed : (trackersAt addr frames).map MapTrack.tracker = frames := by
      simp [trackersAt, comp_def]
    have counted := nodup_iff_count_le_one.mp distinct frame
    rw [← listed, List.count, countP_map] at counted
    refine le_trans (le_of_eq ?_) counted
    exact countP_congr fun track _ => by simp
  simp only [strongCount, memset, flatMap_append, countP_append, before] at unheld ⊢
  simp only [flatMap_cons, flatMap_nil, append_nil, mappedArea]
  omega

variable (mapping : SharedMapping context taskId space start len prot flags fd off room inode file mapped)
include mapping

theorem SharedMapping.rounded :
    0 < len ∧ len ≤ alignup len pageSize ∧ alignup len pageSize < len + pageSize ∧
      (len = alignup len pageSize ↔ len % pageSize = 0) := by
  have rounded := alignup_eq mapping.word mapping.nonempty
  have positive : 0 < len := pos_of_ne_zero fun none => by
    have empty := mapping.nonempty
    rw [none] at empty
    exact absurd empty (by decide)
  refine ⟨positive, rounded ▸ le_divCeil_mul len pageSize_pos, rounded ▸ divCeil_mul_lt len pageSize_pos,
    fun same => same ▸ alignup_aligned len, fun aligned => ?_⟩
  rw [rounded, divCeil_mul_of_aligned aligned]

theorem SharedMapping.unmaps (stores : List (Nat × UInt8)) (inside : ∀ store ∈ stores, store.1 < len) :
    let addr := mmapAddr space.process start
    let length := alignup len pageSize
    ∃ count held finish, length = count * pageSize ∧
      mapped.storeAll context.around taskId addr stores = some finish ∧
      (sysMunmap context finish addr len).2 =
        (pageWrites inode held off 0 count ++
          if len = length then []
          else { file := inode, offset := 0, bytes := [] } :: pageWrites inode held 0 1 (count - 1)) ∧
      (off + length ≤ file.len → ∀ index < length,
        held index = stored (fun inner => bytes file.pages (off + inner)) stores index) := by
  obtain ⟨positive, short, tail, _⟩ := mapping.rounded
  obtain ⟨frames, shown, free, cells⟩ := mapping.mapped_window
  obtain ⟨finish, storing, _, kept, held⟩ := shown.storeAll context.around taskId
    fun store member => lt_of_lt_of_le (inside store member) short
  have single : ∀ frame ∈ frames, strongCount context.around finish.process frame ≤ 1 :=
    fun frame member => held_once kept.memset rfl kept.distinct (mapping.unheld frame (free frame member))
  refine ⟨frames.length, shownBytes finish frames, finish, shown.len, storing,
    sysMunmap_writes kept mapping.vacant mapping.occupied single mapping.offsetFits positive short tail,
    fun _ index bound => (held index bound).trans ?_⟩
  exact stored_congr (fun inner below => cells inner below (by omega)) stores index bound

omit mapping

theorem performWrites_unmapped {σ : Type} {alloc : σ → Option Page × σ} {state : σ} {held : Nat → UInt8}
    {count : Nat} {aligned : Prop} [Decidable aligned] (backed : file.len ≤ file.pages.length * pageSize)
    (inside : off + (1 + count) * pageSize ≤ file.len)
    (word : off + (1 + count) * pageSize < usizeBound) :
    ∃ after state',
      performWrites alloc inode file state (pageWrites inode held off 0 (1 + count) ++
        if aligned then []
        else { file := inode, offset := 0, bytes := [] } :: pageWrites inode held 0 1 count) =
          some (after, state') ∧
      after.len = file.len ∧ bytes after.pages =
        let whole := overlay (bytes file.pages) off (window held 0 ((1 + count) * pageSize))
        if aligned then whole else overlay whole pageSize (window held pageSize (count * pageSize)) := by
  obtain ⟨middle, between, performed, len, pages, cells⟩ :=
    @performWrites_inside σ alloc inode file state held off 0 (1 + count) backed
      (by rw [zero_add]; exact inside) (by rw [zero_add]; exact word)
  rw [zero_mul, add_zero] at cells
  simp only [performWrites_append, performed, bind_some]
  by_cases whole : aligned
  · simp only [if_pos whole]
    exact ⟨middle, between, rfl, len, cells⟩
  · simp only [if_neg whole]
    obtain ⟨after, state', dropped, lastLen, lastCells⟩ :=
      @performWrites_dropped σ alloc inode middle between held count (by rw [len, pages]; exact backed)
        (by omega) (by omega)
    exact ⟨after, state', dropped, lastLen.trans len, by rw [lastCells, cells]⟩

private theorem overlay_again {cells held : Nat → UInt8} {count : Nat} :
    overlay (overlay cells 0 (window held 0 ((1 + count) * pageSize))) pageSize
        (window held pageSize (count * pageSize)) =
      overlay cells 0 (window held 0 ((1 + count) * pageSize)) := by
  have size : (1 + count) * pageSize = pageSize + count * pageSize := by rw [add_mul, one_mul]
  funext index
  by_cases before : index < pageSize
  · exact overlay_before before
  · by_cases within : index < (1 + count) * pageSize
    · have back : pageSize + (index - pageSize) = index := by omega
      have again := @overlay_inside _ (overlay cells 0 (window held 0 ((1 + count) * pageSize))) pageSize
        (index - pageSize) (window held pageSize (count * pageSize)) (by simp; omega)
      have first := @overlay_inside _ cells 0 index (window held 0 ((1 + count) * pageSize)) (by simpa using within)
      rw [back] at again
      rw [zero_add] at first
      rw [again, first]
      simp [window, back]
    · exact overlay_after (by rw [length_window]; omega)

section

variable (mapping : SharedMapping context taskId space start len prot flags fd off room inode file mapped)
include mapping

private theorem SharedMapping.returns (covered : off + alignup len pageSize ≤ file.len)
    (harmless : len % pageSize = 0 ∨ off = 0 ∨ len ≤ pageSize) :
    RoundTrips context taskId inode file mapped (mmapAddr space.process start) off len := by
  intro _ inside
  obtain ⟨_, short, _, whole⟩ := mapping.rounded
  have offsetFits := mapping.offsetFits
  obtain ⟨count, held, finish, total, storing, writes, shown⟩ := mapping.unmaps _ inside
  obtain ⟨later, rfl⟩ : ∃ later, count = 1 + later :=
    ⟨count - 1, by have := mapping.nonempty; cases count <;> omega⟩
  rw [Nat.add_sub_cancel_left] at writes
  refine ⟨finish, storing, fun σ alloc state => ?_⟩
  obtain ⟨after, state', performed, len', cells⟩ :=
    @performWrites_unmapped off inode file σ alloc state held later (len = alignup len pageSize) _
      mapping.backed (by rw [← total]; exact covered) (by rw [← total]; exact offsetFits)
  refine ⟨after, state', writes ▸ performed, ?_⟩
  have placed : bytes after.pages = overlay (bytes file.pages) off (window held 0 ((1 + later) * pageSize)) := by
    rw [cells]
    split
    · rfl
    · next partly =>
      rcases harmless with aligned | rfl | _
      · exact absurd (whole.mpr aligned) partly
      · exact overlay_again
      · have none : later = 0 := by unfold pageSize at *; omega
        simp [none, window]
  rw [contents, len', contents, storedInto_window, placed]
  refine window_congr fun index _ _ => ?_
  rw [← total]
  exact overlay_stored inside short (shown covered) index

private theorem SharedMapping.covers
    (returns : RoundTrips context taskId inode file mapped (mmapAddr space.process start) off len) :
    off + alignup len pageSize ≤ file.len := by
  have offsetFits := mapping.offsetFits
  obtain ⟨_, storing, returned⟩ := returns [] nofun
  obtain ⟨count, _, _, total, storing', writes, _⟩ := mapping.unmaps [] nofun
  cases Option.some.inj (storing.symm.trans storing')
  obtain ⟨later, rfl⟩ : ∃ later, count = later + 1 :=
    ⟨count - 1, by have := mapping.nonempty; cases count <;> omega⟩
  obtain ⟨_, _, performed, contents⟩ := returned Unit (fun _ => (some Page.zero, ())) ()
  rw [writes, performWrites_append, bind_eq_some_iff] at performed
  obtain ⟨⟨_, _⟩, first, rest⟩ := performed
  have reached := performWrites_reaches (fun _ => rfl) (by rw [zero_add, ← total]; exact offsetFits) first
  have kept := performWrites_len_le rest
  have size := congrArg List.length contents
  simp only [storedInto, foldl_nil, contents_length] at size
  rw [zero_add, ← total] at reached
  omega

/-- With an offset, a partial page and a second page, the drop writes the second
page over another part of the file. -/
private theorem SharedMapping.harmless (covered : off + alignup len pageSize ≤ file.len)
    (returns : RoundTrips context taskId inode file mapped (mmapAddr space.process start) off len) :
    len % pageSize = 0 ∨ off = 0 ∨ len ≤ pageSize := by
  by_contra harmful
  obtain ⟨_, _, _, whole⟩ := mapping.rounded
  have offsetFits := mapping.offsetFits
  have partly : len ≠ alignup len pageSize := fun same => harmful (.inl (whole.mp same))
  have second : pageSize < len := by omega
  let byte := bytes file.pages pageSize + 1
  have inside : ∀ store ∈ [(pageSize, byte)], store.1 < len := by simpa using second
  obtain ⟨_, storing, returned⟩ := returns [(pageSize, byte)] inside
  obtain ⟨count, held, same, total, storing', writes, shown⟩ := mapping.unmaps _ inside
  cases Option.some.inj (storing.symm.trans storing')
  obtain ⟨later, rfl⟩ : ∃ later, count = 1 + (later + 1) :=
    ⟨count - 2, by unfold pageSize at *; omega⟩
  rw [Nat.add_sub_cancel_left] at writes
  obtain ⟨after, _, performed, contents⟩ := returned Unit (fun _ => (none, ())) ()
  obtain ⟨_, _, performed', _, cells⟩ :=
    @performWrites_unmapped off inode file Unit (fun _ => (none, ())) () held (later + 1)
      (len = alignup len pageSize) _ mapping.backed (by rw [← total]; exact covered)
      (by rw [← total]; exact offsetFits)
  rw [writes, performed'] at performed
  cases Option.some.inj performed
  have wrong : bytes after.pages pageSize = byte := by
    have cell := @overlay_inside _ (overlay (bytes file.pages) off
      (window held 0 ((1 + (later + 1)) * pageSize))) pageSize 0 (window held pageSize ((later + 1) * pageSize))
      (by rw [length_window, succ_mul]; have := pageSize_pos; omega)
    simp only [if_neg partly] at cells
    refine (congrFun cells pageSize).trans (cell.trans ?_)
    simp [window, shown covered pageSize (by omega), stored]
  have right : after.contents[pageSize]? = some (bytes file.pages pageSize) := by
    have present : pageSize < file.contents.length := by rw [contents_length]; omega
    rw [contents, storedInto, foldl_cons, foldl_nil, getElem?_set_ne (by omega),
      getElem?_eq_getElem present, contents_getElem]
  obtain ⟨_, cell⟩ := List.getElem?_eq_some_iff.mp right
  rw [contents_getElem, wrong] at cell
  simp [byte] at cell

end

theorem shared_mapping_round_trip_iff
    (mapping : SharedMapping context taskId space start len prot flags fd off room inode file mapped) :
    RoundTrips context taskId inode file mapped (mmapAddr space.process start) off len ↔
      off + alignup len pageSize ≤ file.len ∧ (len % pageSize = 0 ∨ off = 0 ∨ len ≤ pageSize) :=
  ⟨fun returns => ⟨mapping.covers returns, mapping.harmless (mapping.covers returns) returns⟩,
    fun ⟨covered, harmless⟩ => mapping.returns covered harmless⟩

end RoundTrip

def ramFiles (file : RamFile) (backed : file.len ≤ file.pages.length * pageSize) : Files where
  readat := fun _ offset bufferLen =>
    match file.readat offset bufferLen with
    | some (_, bytes) => .ok bytes
    | none => .error .EINVAL
  readat_fits := by
    intro inode offset bufferLen bytes read
    simp only [readat_refines backed, ByteVector.readat, Except.ok.injEq] at read
    rw [← read]
    simp
  size := fun _ => .ok file.len

def ramContext (file : RamFile) (backed : file.len ≤ file.pages.length * pageSize) : MmContext where
  around := { Surroundings.alone with files := ramFiles file backed }
  written := fun _ => ramFiles file backed
  written_nil := rfl
  sharedMemory := fun _ => none
  loongarch64 := false

theorem blank_mapping {file : RamFile} (backed : file.len ≤ file.pages.length * pageSize)
    {answer : Nat} {mapped : UserSpace} {writes : List FileWrite}
    (done : sysMmap (ramContext file backed) 1 blank 0 pageSize 3 1 0 0 = some (.ok answer, mapped, writes)) :
    SharedMapping (ramContext file backed) 1 blank 0 pageSize 3 1 0 0 blank 0 file mapped where
  shared := by decide
  named := by decide
  word := by decide
  nonempty := by decide
  fits := by decide
  offsetAligned := rfl
  offsetFits := by decide
  cleared := rfl
  vacant := by decide
  occupied := nofun
  frames := (@Runtime.FrameState.boot_owned [(0x90000000, 0x90100000)] (by decide) (by decide) (by simp)).wellFormed
  unheld := fun _ _ => rfl
  shows := by
    intro _ _ _ _ read
    simp only [ramContext, ramFiles, read]
  backed := backed
  done := ⟨answer, writes, done⟩

def pageFile : RamFile := { len := pageSize, pages := [Page.zero] }

theorem shared_mapping_round_trip_iff_page :
    ∃ answer mapped writes, sysMmap (ramContext pageFile (by decide)) 1 blank 0 pageSize 3 1 0 0 =
        some (.ok answer, mapped, writes) ∧
      RoundTrips (ramContext pageFile (by decide)) 1 0 pageFile mapped mapAreaStart 0 pageSize := by
  have served : (sysMmap (ramContext pageFile (by decide)) 1 blank 0 pageSize 3 1 0 0).map
      (fun mapping => mapping.1.isOk) = some true := by
    decide +kernel
  obtain ⟨⟨answer, mapped, writes⟩, done, ok⟩ := map_eq_some_iff.mp served
  cases answer with
  | error => cases ok
  | ok answer =>
    exact ⟨answer, mapped, writes, done,
      (shared_mapping_round_trip_iff (blank_mapping (by decide) done)).mpr (by decide)⟩

def byteFile : RamFile := { len := 1, pages := [Page.zero] }

/-- A file of one byte is mapped and unmapped without a store: it has a whole page. -/
theorem mapped_file_grows :
    ∃ answer mapped writes after, sysMmap (ramContext byteFile (by decide)) 1 blank 0 pageSize 3 1 0 0 =
        some (.ok answer, mapped, writes) ∧
      performWrites (fun state : Unit => (none, state)) 0 byteFile ()
        (sysMunmap (ramContext byteFile (by decide)) mapped mapAreaStart pageSize).2 = some (after, ()) ∧
      byteFile.len = 1 ∧ after.len = 4096 ∧
      ¬ RoundTrips (ramContext byteFile (by decide)) 1 0 byteFile mapped mapAreaStart 0 pageSize := by
  have evaluated : ((do
      let mapping ← sysMmap (ramContext byteFile (by decide)) 1 blank 0 pageSize 3 1 0 0
      let written ← performWrites (fun state : Unit => (none, state)) 0 byteFile ()
        (sysMunmap (ramContext byteFile (by decide)) mapping.2.1 mapAreaStart pageSize).2
      some (mapping.1.isOk, written.1.len)) : Option (Bool × Nat)) = some (true, 4096) := by
    decide +kernel
  simp only [bind_eq_some, Option.some.injEq, Prod.mk.injEq] at evaluated
  obtain ⟨⟨answer, mapped, writes⟩, mapping, ⟨after, _⟩, performed, ok, len⟩ := evaluated
  cases answer with
  | error => cases ok
  | ok answer =>
    refine ⟨answer, mapped, writes, after, mapping, performed, rfl, len, fun returns => ?_⟩
    obtain ⟨finish, storing, returned⟩ := returns [] nofun
    cases Option.some.inj storing
    obtain ⟨after', _, performed', contents⟩ := returned Unit (fun state => (none, state)) ()
    rw [performed] at performed'
    cases Option.some.inj performed'
    have size := congrArg List.length contents
    rw [contents_length, len] at size
    simp [storedInto, byteFile] at size

end MonkeyOS.Syscall
