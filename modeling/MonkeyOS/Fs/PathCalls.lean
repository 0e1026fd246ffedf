import MonkeyOS.Fs.PathBuf

/-!
# Calls on paths

`sys_truncate`, `sys_statfs` and `sys_readlinkat` of `kernel/src/syscall/fd.rs`, beside
what `sys_openat` finds under the same name. The file systems are any that have the
methods of `INodeInterface` these calls use; files are opened without `O_CREAT`, so
opening changes nothing. Each call is what it does with the inode it opens, and the
route on which it opens it.
-/

set_option autoImplicit false

namespace MonkeyOS.Fs

open Tasks Ramfs List PathBuf

/-- The inodes `ν` of file systems with state `σ`; `φ` is what `statfs` tells. -/
structure Inodes (σ ν φ : Type) where
  lookup : σ → ν → String → Except Errno ν
  /-- `file_type` is `Link`. -/
  isLink : σ → ν → Except Errno Bool
  truncate : σ → ν → Nat → Except Errno Unit × σ
  statfs : σ → ν → Except Errno φ
  resolveLink : σ → ν → Except Errno String

namespace Inodes

variable {σ ν φ : Type} (inodes : Inodes σ ν φ) (mounted : MountedFs ν) (state : σ)

/-- `File::open` without `O_CREAT`. No answer if the path has no mount. -/
def openFile (pathBuf : PathBuf) : Option (Except Errno ν) :=
  (mounted.getMounted pathBuf).map fun (root, path) =>
    if path.length > 0 then do
      let parent ← path.dir.foldlM (inodes.lookup state) root
      inodes.lookup state parent path.filename
    else .ok root

def fdOpen (dir : Option PathBuf) (filename : String) : Option (Except Errno ν) :=
  match fdResolve dir (.ofString filename) with
  | .error errno => some (.error errno)
  | .ok path => inodes.openFile mounted state path

/-! ## What is done with an opened file -/

def truncateOpened (length : Nat) : Option (Except Errno ν) → Option (Except Errno Nat × σ)
  | none => none
  | some (.error errno) => some (.error errno, state)
  | some (.ok file) =>
    let (answer, state) := inodes.truncate state file length
    some (answer.map fun _ => 0, state)

def statfsOpened : Option (Except Errno ν) → Option (Except Errno (Nat × φ))
  | none => none
  | some (.error errno) => some (.error errno)
  | some (.ok file) => some ((inodes.statfs state file).map fun statfs => (0, statfs))

/-- The type of one file is looked at, and the link of the other one is read; the answer
is what is copied for the user. -/
def readlinkOpened (bufferSize : Nat) (typed linked : Option (Except Errno ν)) : Option (Except Errno (List UInt8)) :=
  match typed with
  | none => none
  | some (.error errno) => some (.error errno)
  | some (.ok file) =>
    match inodes.isLink state file with
    | .error errno => some (.error errno)
    | .ok false => some (.error .EINVAL)
    | .ok true =>
      match linked with
      | none => none
      | some (.error errno) => some (.error errno)
      | some (.ok file) =>
        some ((inodes.resolveLink state file).map fun path => path.toUTF8.toList.take bufferSize)

/-! ## Calls -/

def sysTruncate (pathname : String) (length : Nat) : Option (Except Errno Nat × σ) :=
  inodes.truncateOpened state length (inodes.openFile mounted state (.ofString pathname))

def sysStatfs (path : String) : Option (Except Errno (Nat × φ)) :=
  inodes.statfsOpened state (inodes.openFile mounted state (.ofString path))

def sysReadlinkat (dir : Option PathBuf) (filename : String) (bufferSize : Nat) : Option (Except Errno (List UInt8)) :=
  inodes.readlinkOpened state bufferSize (inodes.fdOpen mounted state dir filename)
    (inodes.openFile mounted state (.ofString filename))

variable {inodes} {mounted} {state}

theorem fdOpen_eq (currDir : PathBuf) (filename : String) :
    inodes.fdOpen mounted state (some currDir) filename = inodes.openFile mounted state (currDir.join filename) := by
  unfold fdOpen fdResolve
  cases absolute : (PathText.ofString filename).absolute with
  | true =>
    simp only [if_true, join_eq, joinText, absolute]
  | false => rfl

end Inodes

/-! ## The same inode as `openat` -/

/-- In every file system, a process with this current directory that truncates the path
truncates what it opens. -/
def TruncateAlike (currDir : PathBuf) (path : String) : Prop :=
  ∀ {σ ν φ : Type} (inodes : Inodes σ ν φ) (mounted : MountedFs ν) (state : σ) (length : Nat),
    inodes.sysTruncate mounted state path length =
      inodes.truncateOpened state length (inodes.fdOpen mounted state (some currDir) path)

def StatfsAlike (currDir : PathBuf) (path : String) : Prop :=
  ∀ {σ ν φ : Type} (inodes : Inodes σ ν φ) (mounted : MountedFs ν) (state : σ),
    inodes.sysStatfs mounted state path = inodes.statfsOpened state (inodes.fdOpen mounted state (some currDir) path)

def ReadlinkAlike (currDir : PathBuf) (path : String) : Prop :=
  ∀ {σ ν φ : Type} (inodes : Inodes σ ν φ) (mounted : MountedFs ν) (state : σ) (bufferSize : Nat),
    inodes.sysReadlinkat mounted state (some currDir) path bufferSize =
      inodes.readlinkOpened state bufferSize (inodes.fdOpen mounted state (some currDir) path)
        (inodes.fdOpen mounted state (some currDir) path)

variable {currDir : PathBuf} {path : String}

section Marked

/-- Inodes 0 and 1, without entries. All are links, and each call leaves its inode's number. -/
def marked : Inodes (List Nat) Nat Nat where
  lookup _ _ _ := .error .ENOENT
  isLink _ _ := .ok true
  truncate touched file _ := (.ok (), file :: touched)
  statfs _ file := .ok file
  resolveLink _ file := .ok (if file = 1 then "1" else "0")

def markedAt (target : PathBuf) : MountedFs Nat := [([], 0), (target, 1)]

theorem openFile_marked (target : PathBuf) : marked.openFile (markedAt target) [] target = some (.ok 1) := by
  have starts : target.startsWith target = true := MountedFs.startsWith_iff.mpr (prefix_refl target)
  simp [Inodes.openFile, MountedFs.getMounted, markedAt, starts, trimStart]

theorem openFile_marked_shorter {target other : PathBuf} (shorter : other.length < target.length) :
    marked.openFile (markedAt target) [] other = some (.ok 0) ∨
      marked.openFile (markedAt target) [] other = some (.error .ENOENT) := by
  have elsewhere : other.startsWith target = false := by
    rw [Bool.eq_false_iff]
    intro starts
    have := (MountedFs.startsWith_iff.mp starts).length_le
    omega
  have root : other.startsWith [] = true := rfl
  by_cases nonempty : other.length > 0
  · right
    simp only [Inodes.openFile, MountedFs.getMounted, markedAt, reverse_cons, reverse_nil, nil_append,
      singleton_append, find?_cons, elsewhere, root, Option.map_some, trimStart, if_true,
      length_nil, drop_zero, if_pos nonempty]
    cases other.dir with
    | nil | cons => rfl
  · left
    obtain rfl := eq_nil_of_length_eq_zero (Nat.eq_zero_of_not_pos nonempty)
    simp [Inodes.openFile, MountedFs.getMounted, markedAt, elsewhere, root, trimStart]

theorem marked_apart (relative : path.startsWith "/" = false)
    (inside : (PathBuf.Relative.ofString path).up < currDir.length) :
    ∃ mounted, marked.fdOpen mounted [] (some currDir) path = some (.ok 1) ∧
      (marked.openFile mounted [] (.ofString path) = some (.ok 0) ∨
        marked.openFile mounted [] (.ofString path) = some (.error .ENOENT)) := by
  refine ⟨markedAt (currDir.join path), ?_, openFile_marked_shorter ?_⟩
  · rw [Inodes.fdOpen_eq, openFile_marked]
  · rw [ofString, join_eq_apply relative, join_eq_apply relative, PathBuf.Relative.apply,
      PathBuf.Relative.apply, length_append, length_append, length_take, length_take,
      length_nil]
    omega

end Marked

private theorem alike_iff {Alike : Prop} (relative : path.startsWith "/" = false)
    (alike : (∀ {σ ν φ : Type} (inodes : Inodes σ ν φ) (mounted : MountedFs ν) (state : σ),
      inodes.openFile mounted state (.ofString path) = inodes.fdOpen mounted state (some currDir) path) → Alike)
    (apart : ∀ mounted, marked.fdOpen mounted [] (some currDir) path = some (.ok 1) →
      (marked.openFile mounted [] (.ofString path) = some (.ok 0) ∨
        marked.openFile mounted [] (.ofString path) = some (.error .ENOENT)) → ¬ Alike) :
    Alike ↔ currDir.length ≤ (PathBuf.Relative.ofString path).up := by
  constructor
  · intro holds
    by_contra inside
    obtain ⟨mounted, opened, elsewhere⟩ := marked_apart relative (Nat.lt_of_not_le inside)
    exact apart mounted opened elsewhere holds
  · intro climbs
    refine alike fun _ mounted _ => ?_
    rw [Inodes.fdOpen_eq, (join_eq_ofString_iff relative).mpr climbs]

/-- A relative path means the same to all path calls exactly if it climbs out of the
current directory: only `openat` starts there. -/
theorem relative_paths_alike_iff (relative : path.startsWith "/" = false) :
    (TruncateAlike currDir path ↔ currDir.length ≤ (PathBuf.Relative.ofString path).up) ∧
      (StatfsAlike currDir path ↔ currDir.length ≤ (PathBuf.Relative.ofString path).up) ∧
      (ReadlinkAlike currDir path ↔ currDir.length ≤ (PathBuf.Relative.ofString path).up) := by
  refine ⟨alike_iff relative ?_ ?_, alike_iff relative ?_ ?_, alike_iff relative ?_ ?_⟩
  · intro same σ ν φ inodes mounted state length
    rw [Inodes.sysTruncate, same]
  · intro mounted opened elsewhere alike
    have truncated := alike marked mounted [] 0
    rw [Inodes.sysTruncate, opened] at truncated
    rcases elsewhere with other | missing
    · rw [other] at truncated
      cases truncated
    · rw [missing] at truncated
      cases truncated
  · intro same σ ν φ inodes mounted state
    rw [Inodes.sysStatfs, same]
  · intro mounted opened elsewhere alike
    have told := alike marked mounted []
    rw [Inodes.sysStatfs, opened] at told
    rcases elsewhere with other | missing
    · rw [other] at told
      cases told
    · rw [missing] at told
      cases told
  · intro same σ ν φ inodes mounted state bufferSize
    rw [Inodes.sysReadlinkat, same]
  · intro mounted opened elsewhere alike
    have read := alike marked mounted [] 1
    rw [Inodes.sysReadlinkat, opened] at read
    rcases elsewhere with other | missing
    · rw [other] at read
      exact absurd read (by decide +kernel)
    · rw [missing] at read
      cases read

theorem relative_paths_alike_iff_climbing : TruncateAlike ["bin"] "../a" := by
  refine (relative_paths_alike_iff (by decide +kernel)).1.mpr ?_
  rw [PathBuf.Relative.ofString, show "../a".splitOn "/" = ["..", "a"] from Lib.splitOn_eq_map "../a" '/']
  decide

/-! ## The ram file system -/

section Ramfs

variable {σ : Type} (alloc : σ → Option Page × σ)

/-- The inodes of a ram file system, and the allocator of frames for them. -/
def ramInodes : Inodes (RamFs × σ) RamNode Unit where
  lookup state file name := file.lookup state.1 name
  isLink _ file := .ok (file.fileType = .Link)
  truncate state file size := file.truncate state.1 alloc state.2 size
  statfs _ _ := .error .EPERM
  resolveLink _ _ := .error .EPERM

theorem getMounted_map {Node Other : Type} (change : Node → Other) (mounted : MountedFs Node) (path : PathBuf) :
    MountedFs.getMounted (mounted.map fun entry => (entry.1, change entry.2)) path =
      (mounted.getMounted path).map fun found => (change found.1, found.2) := by
  simp only [MountedFs.getMounted, ← map_reverse, find?_map, Option.map_map]
  rfl

theorem openFile_ramInodes {flags : Nat} (plain : O_CREAT flags = false) (mounted : MountedFs Nat) (fs : RamFs)
    (state : σ) (pathBuf : PathBuf) :
    openFile mounted fs pathBuf flags =
      ((ramInodes alloc).openFile (mounted.map fun entry => (entry.1, .ramDir entry.2)) (fs, state) pathBuf).map
        fun opened => (opened.map fun inner => { inner, pathBuf, flags }, fs) := by
  rw [Inodes.openFile, getMounted_map, openFile]
  cases mounted.getMounted pathBuf with
  | none => rfl
  | some found =>
    obtain ⟨root, path⟩ := found
    simp only [Option.map_some, plain, Bool.false_eq_true, if_false]
    split
    · change _ = some ((walk fs (.ramDir root) path.dir >>= fun parent => parent.lookup fs path.filename).map _, fs)
      cases walk fs (.ramDir root) path.dir with
      | error _ => rfl
      | ok parent => rfl
    · rfl

end Ramfs

def twoNamesakes : RamFs where
  dirs := [[.File "a" 0, .Dir "bin" 1], [.File "a" 1]]
  files := [.new, .new]

/-- In `/bin`, the file `a` is opened and another one is truncated. -/
theorem truncate_misses_current_directory :
    fdOpen [([], 0)] twoNamesakes (some ["bin"]) (.ofString "a") 0 =
        some (.ok { inner := .ramFile 1, pathBuf := ["bin", "a"], flags := 0 }, twoNamesakes) ∧
      ∃ fs, (ramInodes fun state : Unit => (some Page.zero, state)).sysTruncate [([], .ramDir 0)] (twoNamesakes, ())
          "a" 1 = some (.ok 0, fs, ()) ∧
        (fs.file 0).len = 1 ∧ (fs.file 1).len = 0 := by
  have pieces : "a".splitOn "/" = ["a"] := Lib.splitOn_eq_map "a" '/'
  have relative : "a".startsWith "/" = false := by decide +kernel
  have text : PathText.ofString "a" = { absolute := false, pieces := ["a"] } := by
    rw [PathText.ofString, pieces, relative]
  have root : ofString "a" = ["a"] := by
    rw [ofString, join_eq, text]
    rfl
  refine ⟨by rw [text]; rfl, { twoNamesakes with files := [{ len := 1, pages := [Page.zero] }, .new] }, ?_, rfl, rfl⟩
  rw [Inodes.sysTruncate, root]
  rfl

end MonkeyOS.Fs
