import MonkeyOS.Tasks.Exec

/-!
# Mounted file systems

The mount table of `filesystem/fs/src/dentry.rs`, `starts_with` and `trim_start` of
`filesystem/fs/src/pathbuf.rs` and `sys_umount2` of `kernel/src/syscall/fd.rs`. A
mounted file system is a value of any type. No inode of the kernel has an `umount`
of its own, so the result of unmounting a device is not looked at.
-/

set_option autoImplicit false

namespace MonkeyOS.Tasks.PathBuf

/-- `PathBuf::from` -/
def ofString (path : String) : PathBuf := join [] path

def startsWith (path target : PathBuf) : Bool := target.isPrefixOf path

def trimStart (path target : PathBuf) : PathBuf :=
  if path.startsWith target then path.drop target.length else path

end MonkeyOS.Tasks.PathBuf

namespace MonkeyOS.Fs

open Lib Tasks

/-- `MOUNTED_FS`: targets with what is mounted there, the latest one last. -/
abbrev MountedFs (Node : Type) := List (PathBuf × Node)

namespace MountedFs

variable {Node : Type}

/-- The latest mount whose target is a prefix of the path, and the rest of the path; no
answer if `unwrap` panics. -/
def getMounted (mounted : MountedFs Node) (path : PathBuf) : Option (Node × PathBuf) :=
  (mounted.reverse.find? fun entry => path.startsWith entry.1).map fun entry => (entry.2, path.trimStart entry.1)

def mountFs (mounted : MountedFs Node) (node : Node) (path : String) : MountedFs Node :=
  mounted ++ [(.ofString path, node)]

def umount (mounted : MountedFs Node) (path : PathBuf) : MountedFs Node :=
  mounted.filter fun entry => entry.1 ≠ path

/-- The file systems `init` mounts, in order. -/
def init (root dev tmp shm home var proc : Node) : MountedFs Node :=
  [(root, "/"), (dev, "/dev"), (tmp, "/tmp"), (shm, "/dev/shm"), (home, "/home"), (var, "/var"), (proc, "/proc")].foldl
    (fun mounted entry => mounted.mountFs entry.1 entry.2) []

/-- `special` is no text if the bytes are not. A device is opened, which looks its path up. -/
def sysUmount2 (mounted : MountedFs Node) (special : Option String) : Option (Except Errno Nat × MountedFs Node) :=
  match special with
  | none => some (.error .EINVAL, mounted)
  | some special =>
    if special.isEmpty then some (.error .EINVAL, mounted)
    else if special.startsWith "/dev" then
      (mounted.getMounted (.ofString special)).map fun _ => (.ok 0, mounted)
    else some (.ok 0, mounted.umount (.ofString special))

def Covers (mounted : MountedFs Node) : Prop :=
  ∀ path, ∃ target node rest, mounted.getMounted path = some (node, rest) ∧ (target, node) ∈ mounted ∧
    target ++ rest = path

inductive Call (Node : Type) where
  | mountFs (node : Node) (path : String)
  | umount2 (special : Option String)

inductive Step : MountedFs Node → Call Node → MountedFs Node → Prop where
  | mountFs {mounted node path} : Step mounted (.mountFs node path) (mounted.mountFs node path)
  | umount2 {mounted special answer after} (done : sysUmount2 mounted special = some (answer, after)) :
      Step mounted (.umount2 special) after

/-- The path to unmount, if one is given that is not taken for a device, is not the root. -/
def Call.SparesRoot : Call Node → Prop
  | .umount2 (some special) =>
    special.isEmpty ∨ special.startsWith "/dev" ∨ PathBuf.ofString special ≠ []
  | _ => True

/-! ## What covers every path -/

variable {mounted before after : MountedFs Node} {call : Call Node}

theorem startsWith_iff {path target : PathBuf} : path.startsWith target ↔ target <+: path :=
  List.isPrefixOf_iff_prefix

theorem getMounted_eq_some {path rest : PathBuf} {node : Node} (found : mounted.getMounted path = some (node, rest)) :
    ∃ target, (target, node) ∈ mounted ∧ target ++ rest = path := by
  obtain ⟨⟨target, _⟩, search, ⟨⟩⟩ := Option.map_eq_some_iff.mp found
  have starts : path.startsWith target := by simpa using List.find?_some search
  obtain ⟨_, rfl⟩ := startsWith_iff.mp starts
  refine ⟨target, List.mem_reverse.mp (List.mem_of_find?_eq_some search), ?_⟩
  rw [PathBuf.trimStart, if_pos starts, List.drop_left]

theorem covers_iff : mounted.Covers ↔ ∃ node, ([], node) ∈ mounted := by
  constructor
  · intro covers
    obtain ⟨target, node, _, -, member, joined⟩ := covers []
    obtain ⟨rfl, -⟩ := List.append_eq_nil_iff.mp joined
    exact ⟨node, member⟩
  · rintro ⟨node, member⟩ path
    have found : (mounted.reverse.find? fun entry => path.startsWith entry.1).isSome := by
      rw [List.find?_isSome]
      exact ⟨([], node), List.mem_reverse.mpr member, rfl⟩
    obtain ⟨entry, search⟩ := Option.isSome_iff_exists.mp found
    have answer : mounted.getMounted path = some (entry.2, path.trimStart entry.1) := by
      rw [getMounted, search, Option.map_some]
    obtain ⟨target, mount, joined⟩ := getMounted_eq_some answer
    exact ⟨target, entry.2, _, answer, mount, joined⟩

theorem sysUmount2_cases {special : Option String} {answer : Except Errno Nat}
    (done : sysUmount2 before special = some (answer, after)) :
    (after = before ∧ Call.SparesRoot (.umount2 special : Call Node)) ∨
      ∃ path, after = before.umount path ∧ (Call.SparesRoot (.umount2 special : Call Node) ↔ path ≠ []) := by
  unfold sysUmount2 at done
  split at done
  · cases done
    exact .inl ⟨rfl, trivial⟩
  · split at done
    · next empty =>
      cases done
      exact .inl ⟨rfl, .inl empty⟩
    · next text =>
      split at done
      · next device =>
        obtain ⟨_, -, ⟨⟩⟩ := Option.map_eq_some_iff.mp done
        exact .inl ⟨rfl, .inr (.inl device)⟩
      · next other =>
        cases done
        exact .inr ⟨_, rfl, by simp [Call.SparesRoot, text, other]⟩

theorem step_covers_iff (covers : before.Covers) (step : Step before call after) : after.Covers ↔ call.SparesRoot := by
  rw [covers_iff] at covers ⊢
  obtain ⟨node, root⟩ := covers
  cases step with
  | mountFs => exact iff_of_true ⟨node, List.mem_append_left _ root⟩ trivial
  | umount2 done =>
    rcases sysUmount2_cases done with ⟨rfl, spares⟩ | ⟨_, rfl, condition⟩
    · exact iff_of_true ⟨node, root⟩ spares
    · rw [condition]
      constructor
      · rintro ⟨_, kept⟩ rfl
        simp [umount] at kept
      · intro elsewhere
        exact ⟨node, by simp [umount, root, Ne.symm elsewhere]⟩

/-! ## Every history -/

theorem ofString_root : PathBuf.ofString "/" = [] := PathBuf.join_root []

theorem init_covers (root dev tmp shm home var proc : Node) : (init root dev tmp shm home var proc).Covers :=
  covers_iff.mpr ⟨root, by simp [init, mountFs, ofString_root]⟩

/-- Every path stays covered exactly as long as nobody unmounts the root. -/
theorem mounts_cover_every_path_iff {root dev tmp shm home var proc : Node} {calls : List (Call Node)}
    {mounted : MountedFs Node} :
    Run (fun before call after => Step before call after ∧ after.Covers) (init root dev tmp shm home var proc)
        calls mounted ↔
      Run (fun before call after => Step before call after ∧ call.SparesRoot) (init root dev tmp shm home var proc)
        calls mounted := by
  have initial := init_covers root dev tmp shm home var proc
  constructor
  · intro run
    refine (@Run.assuming _ _ _ Covers (fun _ step => step.2) _ _ _ run initial).mono ?_
    rintro before call after ⟨⟨step, covered⟩, covers⟩
    exact ⟨step, (step_covers_iff covers step).mp covered⟩
  · intro run
    refine (@Run.assuming _ _ _ Covers (fun covers step => (step_covers_iff covers step.1).mpr step.2) _ _ _ run
      initial).mono ?_
    rintro before call after ⟨⟨step, spares⟩, covers⟩
    exact ⟨step, (step_covers_iff covers step).mpr spares⟩

/-- After `umount2("/")` the root is not found. -/
theorem unmounted_root_panics :
    ∃ mounted : MountedFs Unit, Run Step (init () () () () () () ()) [.umount2 (some "/")] mounted ∧
      mounted.getMounted [] = none := by
  have done : sysUmount2 (init () () () () () () ()) (some "/") =
      some (.ok 0, (init () () () () () () ()).umount []) := by
    rw [sysUmount2, if_neg (by decide +kernel), if_neg (by decide +kernel), ofString_root]
  refine ⟨_, .cons (.umount2 done) .refl, Option.eq_none_iff_forall_ne_some.mpr fun answer found => ?_⟩
  obtain ⟨target, member, joined⟩ := getMounted_eq_some found
  obtain ⟨rfl, -⟩ := List.append_eq_nil_iff.mp joined
  simp [umount] at member

end MountedFs

end MonkeyOS.Fs
