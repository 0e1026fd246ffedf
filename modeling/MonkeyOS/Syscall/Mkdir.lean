import MonkeyOS.Fs.TreeCalls
import MonkeyOS.Syscall.NewDescriptors

/-!
# Descriptors that `mkdirat` takes

`sys_mkdir_at` of `kernel/src/syscall/fd.rs`, with the descriptor table of the process
that makes the call. It walks down the path by descriptors: each directory is opened
relative to the descriptor of the one before and gets a descriptor of its own, which
nothing closes. The file systems are any in which paths can be opened.
-/

set_option autoImplicit false

namespace MonkeyOS.Syscall

open Tasks Process Option

def atCwd : Int := -100

/-- The table of a process, whose values are open files by number, and their paths. -/
structure PathTable where
  process : Process
  files : List PathBuf
  /-- The path of `curr_dir`. -/
  currDir : PathBuf

namespace PathTable

/-- The path behind a descriptor. The limit is not looked at. -/
def dir (table : PathTable) (fd : Int) : Option PathBuf :=
  if fd = atCwd then some table.currDir
  else (table.process.file (fd % usizeBound).toNat).map fun file => table.files.getD file []

/-- `alloc_fd`, and `set_fd` of a new file with this path. -/
def install (table : PathTable) (path : PathBuf) : Option (Option Nat × PathTable) :=
  match table.process.allocFd with
  | (none, process) => some (none, { table with process })
  | (some fd, process) =>
    (process.setFd fd table.files.length).map fun process =>
      (some fd, { table with process, files := table.files ++ [path] })

section

variable {σ : Type} (openFile : σ → PathBuf → (flags : Nat) → Option (Except Errno Unit × σ))

def fdOpen (table : PathTable) (state : σ) (fd : Int) (filename : PathText) (flags : Nat) :
    Option (Except Errno PathBuf × σ) :=
  match Fs.fdResolve (table.dir fd) filename with
  | .error errno => some (.error errno, state)
  | .ok path => (openFile state path flags).map fun opened => (opened.1.map fun _ => path, opened.2)

def openFd (table : PathTable) (state : σ) (fd : Int) (filename : PathText) (flags : Nat) :
    Option (Except Errno Nat × PathTable × σ) :=
  match table.fdOpen openFile state fd filename flags with
  | none => none
  | some (.error errno, state) => some (.error errno, table, state)
  | some (.ok path, state) =>
    match table.install path with
    | none => none
    | some (none, table) => some (.error .EMFILE, table, state)
    | some (some newFd, table) => some (.ok newFd, table, state)

def mkdirComponents : (components : List String) → (currentFd : Int) → PathTable → σ →
    Option (Except Errno Nat × PathTable × σ)
  | [], _, table, state => some (.ok 0, table, state)
  | component :: components, currentFd, table, state =>
    match table.openFd openFile state currentFd (.piece component) (Fs.oDirectory ||| Fs.oCreat) with
    | none => none
    | some (.error errno, table, state) => some (.error errno, table, state)
    | some (.ok newFd, table, state) => mkdirComponents components newFd table state

def root : PathText := { absolute := true, pieces := ["", ""] }

def components (path : PathText) : List String := path.pieces.filter fun piece => piece ≠ ""

def sysMkdirAt (table : PathTable) (state : σ) (dirFd : Int) (path : PathText) :
    Option (Except Errno Nat × PathTable × σ) :=
  if components path = [] then some (.error .EEXIST, table, state)
  else if path.absolute then
    match table.openFd openFile state atCwd root Fs.oDirectory with
    | none => none
    | some (.error errno, table, state) => some (.error errno, table, state)
    | some (.ok rootFd, table, state) => mkdirComponents openFile (components path) rootFd table state
  else mkdirComponents openFile (components path) dirFd table state

def firstOpen (table : PathTable) (state : σ) (dirFd : Int) (path : PathText) : Option (Except Errno PathBuf × σ) :=
  if path.absolute then table.fdOpen openFile state atCwd root Fs.oDirectory
  else table.fdOpen openFile state dirFd (.piece ((components path).headD "")) (Fs.oDirectory ||| Fs.oCreat)

end

/-! ## Descriptors that stay open -/

variable {σ : Type} {openFile : σ → PathBuf → (flags : Nat) → Option (Except Errno Unit × σ)}
  {table after : PathTable} {state last : σ} {path : PathBuf}

inductive Installed (table : PathTable) (path : PathBuf) : Option (Option Nat × PathTable) → Prop where
  | full {after : PathTable} (full : table.process.lowerFree table.process.pcb.fileLimit = ∅)
      (filled : table.process.Filled after.process []) : Installed table path (some (none, after))
  | taken {fd : Nat} {after : PathTable} (filled : table.process.Filled after.process [fd])
      (file : after.process.file fd = some table.files.length) (files : after.files = table.files ++ [path]) :
      Installed table path (some (some fd, after))

theorem install_installed (table : PathTable) (path : PathBuf) : Installed table path (table.install path) := by
  unfold install
  rcases allocated : table.process.allocFd with ⟨answer, _⟩
  obtain ⟨limit, same⟩ := allocFd_frame allocated
  cases answer with
  | none => exact .full (allocFd_none allocated) (.of_same limit same)
  | some _ =>
    obtain ⟨_, set⟩ := setFd_allocated allocated table.files.length
    have bound := (freeFd_iff.mp (allocFd_lowest allocated).1).1
    have files := (setFd_spec (limit ▸ bound) set).2
    simp only [set, map_some]
    exact .taken (.of_allocFd allocated set) (by rw [files, Function.update_self]) rfl

inductive OpenedFd (openFile : σ → PathBuf → (flags : Nat) → Option (Except Errno Unit × σ)) (table : PathTable)
    (state : σ) (fd : Int) (filename : PathText) (flags : Nat) :
    Option (Except Errno Nat × PathTable × σ) → Prop where
  | panics (opened : table.fdOpen openFile state fd filename flags = none) :
      OpenedFd openFile table state fd filename flags none
  | refused {errno : Errno} {last : σ}
      (opened : table.fdOpen openFile state fd filename flags = some (.error errno, last)) :
      OpenedFd openFile table state fd filename flags (some (.error errno, table, last))
  | full {path : PathBuf} {after : PathTable} {last : σ}
      (opened : table.fdOpen openFile state fd filename flags = some (.ok path, last))
      (full : table.process.lowerFree table.process.pcb.fileLimit = ∅)
      (filled : table.process.Filled after.process []) :
      OpenedFd openFile table state fd filename flags (some (.error .EMFILE, after, last))
  | taken {path : PathBuf} {newFd : Nat} {after : PathTable} {last : σ}
      (opened : table.fdOpen openFile state fd filename flags = some (.ok path, last))
      (installed : table.install path = some (some newFd, after))
      (filled : table.process.Filled after.process [newFd]) :
      OpenedFd openFile table state fd filename flags (some (.ok newFd, after, last))

theorem openFd_opened (table : PathTable) (state : σ) (fd : Int) (filename : PathText) (flags : Nat) :
    OpenedFd openFile table state fd filename flags (table.openFd openFile state fd filename flags) := by
  unfold openFd
  split
  next opened => exact .panics opened
  next opened => exact .refused opened
  next path _ opened =>
    have outcome := table.install_installed path
    cases installed : table.install path with
    | none =>
      rw [installed] at outcome
      cases outcome
    | some _ =>
      rw [installed] at outcome
      cases outcome with
      | full full filled => exact .full opened full filled
      | taken filled => exact .taken opened installed filled

variable {answer : Except Errno Nat} {names : List String}

theorem mkdirComponents_keeps {currentFd : Int}
    (done : mkdirComponents openFile names currentFd table state = some (answer, after, last)) :
    openFds table.process ⊆ openFds after.process := by
  induction names generalizing currentFd table state with
  | nil =>
    cases done
    exact subset_rfl
  | cons name names ih =>
    rw [mkdirComponents] at done
    have outcome := @openFd_opened _ openFile table state currentFd (.piece name) (Fs.oDirectory ||| Fs.oCreat)
    generalize table.openFd openFile state currentFd (.piece name) (Fs.oDirectory ||| Fs.oCreat) = result
      at done outcome
    cases outcome with
    | panics => cases done
    | refused =>
      cases done
      exact subset_rfl
    | full _ _ filled =>
      cases done
      rw [PairCall.openFds_filled filled]
      exact Set.subset_union_left
    | taken _ _ filled =>
      refine Set.Subset.trans ?_ (ih done)
      rw [PairCall.openFds_filled filled]
      exact Set.subset_union_left

theorem walk_keeps_iff {fd : Int} {filename : PathText} {flags : Nat}
    (done : (match table.openFd openFile state fd filename flags with
      | none => none
      | some (.error errno, table, state) => some (.error errno, table, state)
      | some (.ok newFd, table, state) => mkdirComponents openFile names newFd table state) =
        some (answer, after, last)) :
    openFds after.process = openFds table.process ↔
      table.process.lowerFree table.process.pcb.fileLimit = ∅ ∨
        ∃ errno left, table.fdOpen openFile state fd filename flags = some (.error errno, left) := by
  have outcome := @openFd_opened _ openFile table state fd filename flags
  generalize table.openFd openFile state fd filename flags = result at done outcome
  cases outcome with
  | panics => cases done
  | refused opened =>
    cases done
    exact iff_of_true rfl (.inr ⟨_, _, opened⟩)
  | full _ full filled =>
    cases done
    refine iff_of_true ?_ (.inl full)
    simp [PairCall.openFds_filled filled]
  | @taken _ newFd _ _ opened _ filled =>
    have closed := PairCall.not_open_of_filled filled List.mem_cons_self
    have now : newFd ∈ openFds after.process := mkdirComponents_keeps done (filled.occupied newFd List.mem_cons_self)
    refine iff_of_false (fun same => closed (same ▸ now)) ?_
    rintro (full | ⟨_, _, refused⟩)
    · have free := filled.free newFd List.mem_cons_self
      have member : newFd ∈ table.process.lowerFree table.process.pcb.fileLimit :=
        Finset.mem_filter.mpr ⟨Finset.mem_range.mpr (freeFd_iff.mp free).1, free⟩
      simp [full] at member
    · rw [opened] at refused
      cases refused

/-- `mkdirat` leaves the same descriptors open exactly if there is nothing to make, no
descriptor is free, or the first directory on the way cannot be opened. -/
theorem mkdir_keeps_descriptors_iff {dirFd : Int} {path : PathText} {answer : Except Errno Nat}
    (done : table.sysMkdirAt openFile state dirFd path = some (answer, after, last)) :
    openFds after.process = openFds table.process ↔
      components path = [] ∨ table.process.lowerFree table.process.pcb.fileLimit = ∅ ∨
        ∃ errno left, table.firstOpen openFile state dirFd path = some (.error errno, left) := by
  unfold sysMkdirAt at done
  split at done
  next nothing =>
    cases done
    exact iff_of_true rfl (.inl nothing)
  next some =>
    rw [or_iff_right some]
    split at done
    next absolute =>
      rw [firstOpen, if_pos absolute]
      exact walk_keeps_iff done
    next relative =>
      obtain ⟨name, names, split⟩ := List.exists_cons_of_ne_nil some
      rw [split, mkdirComponents] at done
      rw [firstOpen, if_neg relative, split, List.headD_cons]
      exact walk_keeps_iff done

/-! ## On a ram file system -/

section Ramfs

open Fs Ramfs

variable {mounted : MountedFs Nat} {fs : RamFs} {fd newFd : Nat}

def ramOpen (mounted : MountedFs Nat) (fs : RamFs) (path : PathBuf) (flags : Nat) :
    Option (Except Errno Unit × RamFs) :=
  (Fs.openFile mounted fs path flags).map fun opened => (opened.1.map fun _ => (), opened.2)

theorem fdOpen_ramOpen (table : PathTable) (fs : RamFs) (fd : Int) (filename : PathText) (flags : Nat) :
    table.fdOpen (ramOpen mounted) fs fd filename flags =
      (Fs.fdOpen mounted fs (table.dir fd) filename flags).map fun opened =>
        (opened.1.map OpenFile.pathBuf, opened.2) := by
  unfold fdOpen Fs.fdOpen
  cases fdResolve (table.dir fd) filename with
  | error errno => rfl
  | ok path =>
    simp only [ramOpen]
    cases opened : Fs.openFile mounted fs path flags with
    | none => rfl
    | some done =>
      obtain ⟨answer, _⟩ := done
      cases answer with
      | error errno => rfl
      | ok _ =>
        simp only [map_some, Except.map]
        rw [(openFile_resolves opened).1]

theorem dir_installed (bound : newFd < usizeBound) (done : table.install path = some (some newFd, after)) :
    after.dir newFd = some path := by
  have outcome := table.install_installed path
  rw [done] at outcome
  cases outcome with
  | taken _ file files =>
    have index : ((newFd : Int) % usizeBound).toNat = newFd := by
      rw [Int.emod_eq_of_lt (Int.natCast_nonneg newFd) (Int.ofNat_lt.mpr bound), Int.toNat_natCast]
    have plain : (newFd : Int) ≠ atCwd := by
      unfold atCwd
      omega
    rw [dir, if_neg plain, index, file, files]
    simp

inductive Steps (table : PathTable) :
    Option (Except Errno OpenFile × RamFs) → Option (Except Errno Nat × PathTable × RamFs) → Prop where
  | panics : Steps table none none
  | refused {errno : Errno} {last : RamFs} : Steps table (some (.error errno, last)) (some (.error errno, table, last))
  | full {file : OpenFile} {last : RamFs} {after : PathTable}
      (none : (table.process.lowerFree table.process.pcb.fileLimit).card = 0) :
      Steps table (some (.ok file, last)) (some (.error .EMFILE, after, last))
  | taken {file : OpenFile} {newFd : Nat} {last : RamFs} {after : PathTable}
      (dir : after.dir newFd = some file.pathBuf) (limit : after.process.pcb.fileLimit = table.process.pcb.fileLimit)
      (one : (table.process.lowerFree table.process.pcb.fileLimit).card =
        (after.process.lowerFree after.process.pcb.fileLimit).card + 1) :
      Steps table (some (.ok file, last)) (some (.ok newFd, after, last))

theorem openFd_steps (word : table.process.pcb.fileLimit ≤ usizeBound) (fs : RamFs) (fd : Int) (filename : PathText)
    (flags : Nat) :
    Steps table (Fs.fdOpen mounted fs (table.dir fd) filename flags)
      (table.openFd (ramOpen mounted) fs fd filename flags) := by
  have outcome := @openFd_opened _ (ramOpen mounted) table fs fd filename flags
  have same := @fdOpen_ramOpen mounted table fs fd filename flags
  generalize table.openFd (ramOpen mounted) fs fd filename flags = result at outcome ⊢
  generalize Fs.fdOpen mounted fs (table.dir fd) filename flags = answered at same ⊢
  cases outcome with
  | panics opened =>
    rw [same, map_eq_none_iff] at opened
    rw [opened]
    exact .panics
  | refused opened =>
    rw [same] at opened
    obtain ⟨⟨_ | _, _⟩, rfl, ⟨⟩⟩ := map_eq_some_iff.mp opened
    exact .refused
  | full opened full =>
    rw [same] at opened
    obtain ⟨⟨_ | _, _⟩, rfl, ⟨⟩⟩ := map_eq_some_iff.mp opened
    exact .full (by rw [full, Finset.card_empty])
  | @taken _ newFd _ _ opened installed filled =>
    rw [same] at opened
    obtain ⟨⟨_ | _, _⟩, rfl, ⟨⟩⟩ := map_eq_some_iff.mp opened
    have bound : newFd < usizeBound :=
      (freeFd_iff.mp (filled.free newFd List.mem_cons_self)).1.trans_le word
    exact .taken (dir_installed bound installed) filled.limit filled.card_lowerFree_limit

theorem mkdirComponents_counts (word : table.process.pcb.fileLimit ≤ usizeBound) (names : List String) (fd : Int) :
    Fs.mkdirComponents mounted names (table.dir fd) (table.process.lowerFree table.process.pcb.fileLimit).card fs =
      (mkdirComponents (ramOpen mounted) names fd table fs).map fun done => (done.1, done.2.2) := by
  induction names generalizing table fd fs with
  | nil => rfl
  | cons name names ih =>
    rw [Fs.mkdirComponents, mkdirComponents]
    have step := @openFd_steps table mounted word fs fd (.piece name) (oDirectory ||| oCreat)
    generalize table.openFd (ramOpen mounted) fs fd (.piece name) (oDirectory ||| oCreat) = left at step ⊢
    generalize Fs.fdOpen mounted fs (table.dir fd) (.piece name) (oDirectory ||| oCreat) = right at step ⊢
    cases step with
    | panics | refused => rfl
    | full none =>
      rw [none]
      rfl
    | @taken _ newFd last after dir limit one =>
      have rest := @ih after last (limit.trans_le word) newFd
      rw [dir] at rest
      rw [one]
      exact rest

/-- `mkdirat` in the tree is `mkdirat` with the table, which is seen there as the number of its
free descriptors. -/
theorem sysMkdirAt_counts (word : table.process.pcb.fileLimit ≤ usizeBound) (dirFd : Int) (path : PathText) :
    Fs.sysMkdirAt mounted fs (table.dir dirFd) (table.process.lowerFree table.process.pcb.fileLimit).card path =
      (table.sysMkdirAt (ramOpen mounted) fs dirFd path).map fun done => (done.1, done.2.2) := by
  unfold Fs.sysMkdirAt sysMkdirAt
  change (if components path = [] then _ else _) = _
  split
  · rfl
  · split
    · have step : Steps table (Fs.openFile mounted fs [] oDirectory) _ := openFd_steps word fs atCwd root oDirectory
      generalize table.openFd (ramOpen mounted) fs atCwd root oDirectory = left at step ⊢
      generalize Fs.openFile mounted fs [] oDirectory = right at step ⊢
      cases step with
      | panics | refused => rfl
      | full none =>
        rw [none]
        rfl
      | @taken _ newFd last after dir limit one =>
        have rest := @mkdirComponents_counts after mounted last (limit.trans_le word) (components path) newFd
        rw [dir] at rest
        rw [one]
        exact rest
    · exact mkdirComponents_counts word (components path) dirFd

def shell : PathTable := { process := new 1 (fileTable 0), files := [[]], currDir := [] }

theorem mkdir_keeps_descriptors_iff_closed :
    openFds shell.process = openFds shell.process ↔
      components (.piece "a") = [] ∨ shell.process.lowerFree shell.process.pcb.fileLimit = ∅ ∨
        ∃ errno left, shell.firstOpen (ramOpen [([], 0)]) RamFs.new 7 (.piece "a") = some (.error errno, left) :=
  @mkdir_keeps_descriptors_iff _ (ramOpen [([], 0)]) shell shell RamFs.new RamFs.new 7 (.piece "a") (.error .EBADF) rfl

/-- After `mkdir("/a")` descriptors of `/` and of `/a` are open. -/
theorem mkdir_leaves_directories_open :
    (shell.sysMkdirAt (ramOpen [([], 0)]) RamFs.new atCwd { absolute := true, pieces := ["", "a"] }).map
        (fun done => (done.1.toOption, [3, 4].map done.2.1.process.file, (done.2.1.files : List (List String)))) =
      some (some 0, [some 1, some 2], [[], [], ["a"]]) ∧
      [3, 4].map shell.process.file = [none, none] := by
  decide +kernel

end Ramfs

end PathTable

end MonkeyOS.Syscall
