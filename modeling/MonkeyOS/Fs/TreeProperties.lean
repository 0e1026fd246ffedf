import MonkeyOS.Fs.Tree

/-!
# Names in directories

`create` does not look whether a name is taken. An open with `O_CREAT` therefore adds an
entry each time, and every component of a path given to `mkdirat` is opened that way.
All other operations keep the names of a directory apart.
-/

set_option autoImplicit false

namespace MonkeyOS

open List Option

namespace Ramfs.RamFs

variable {fs : RamFs} {dir : Nat} {name : String} {directory : Bool}

def Unique (fs : RamFs) : Prop := ∀ dir, (fs.names dir).Nodup

/-! ## Children -/

theorem children_push (child : FileContainer) (other : Nat) :
    (fs.push dir child).children other =
      if other = dir ∧ dir < fs.dirs.length then fs.children other ++ [child] else fs.children other := by
  simp only [children, push, getD_eq_getElem?_getD, getElem?_modify]
  by_cases same : dir = other
  · subst same
    by_cases inside : dir < fs.dirs.length <;> simp [inside]
  · simp [same, Ne.symm same]

def created (fs : RamFs) (name : String) (directory : Bool) : FileContainer :=
  if directory then .Dir name fs.dirs.length else .File name fs.files.length

@[simp] theorem filename_created : (fs.created name directory).filename = name := by
  unfold created
  split <;> rfl

@[simp] theorem isDir_created : (fs.created name directory).isDir = directory := by
  cases directory <;> rfl

theorem children_create (other : Nat) :
    (fs.create dir name directory).children other =
      if other = dir ∧ dir < fs.dirs.length then fs.children other ++ [fs.created name directory]
      else fs.children other := by
  rw [← children_push]
  cases directory with
  | false => rfl
  | true =>
    simp only [create, created, children, if_true, getD_eq_getElem?_getD]
    by_cases inside : other < (fs.push dir (.Dir name fs.dirs.length)).dirs.length
    · rw [getElem?_append_left inside]
    · rw [getElem?_append_right (by omega), getElem?_eq_none (by omega : _ ≤ other)]
      cases other - (fs.push dir (.Dir name fs.dirs.length)).dirs.length <;> rfl

theorem names_push (child : FileContainer) (other : Nat) :
    (fs.push dir child).names other =
      if other = dir ∧ dir < fs.dirs.length then fs.names other ++ [child.filename] else fs.names other := by
  rw [names, children_push]
  split
  · rw [map_append]
    rfl
  · rfl

theorem names_create (other : Nat) :
    (fs.create dir name directory).names other =
      if other = dir ∧ dir < fs.dirs.length then fs.names other ++ [name] else fs.names other := by
  rw [names, children_create]
  split
  · rw [map_append, map_singleton, filename_created]
    rfl
  · rfl

theorem names_eq_nil (outside : fs.dirs.length ≤ dir) : fs.names dir = [] := by
  rw [names, children, getD_eq_getElem?_getD, getElem?_eq_none outside]
  rfl

/-! ## Names -/

theorem unique_of_joins {after : RamFs}
    (joins : ∀ other, after.names other =
      if other = dir ∧ dir < fs.dirs.length then fs.names other ++ [name] else fs.names other) :
    after.Unique ↔ fs.Unique ∧ name ∉ fs.names dir := by
  constructor
  · intro unique
    have kept : fs.Unique := by
      intro other
      have apart := unique other
      rw [joins] at apart
      split at apart
      · exact (nodup_append.mp apart).1
      · exact apart
    refine ⟨kept, fun taken => ?_⟩
    have inside : dir < fs.dirs.length := by
      by_contra outside
      rw [names_eq_nil (Nat.le_of_not_lt outside)] at taken
      cases taken
    have apart := unique dir
    rw [joins, if_pos ⟨rfl, inside⟩] at apart
    exact (nodup_append.mp apart).2.2 name taken name (.head _) rfl
  · rintro ⟨unique, fresh⟩ other
    rw [joins]
    split
    · next here =>
      rw [here.1, nodup_append]
      refine ⟨unique dir, nodup_singleton name, fun taken member _ added same => fresh ?_⟩
      rw [mem_singleton.mp added] at same
      exact same ▸ member
    · exact unique other

theorem unique_create_iff : (fs.create dir name directory).Unique ↔ fs.Unique ∧ name ∉ fs.names dir :=
  unique_of_joins names_create

theorem unique_mkdir (unique : fs.Unique) : (fs.mkdir dir name).2.Unique := by
  unfold mkdir
  split
  · exact unique
  · next fresh => exact unique_create_iff.mpr ⟨unique, fresh⟩

theorem unique_link {src : RamNode} (unique : fs.Unique) : (fs.link dir name src).2.Unique := by
  unfold link
  split
  · exact unique
  · next fresh => exact (unique_of_joins (names_push (.Link name src))).mpr ⟨unique, fresh⟩

theorem children_extract (gone : FileContainer → Bool) (other : Nat) :
    (fs.extract dir gone).2.children other =
      if other = dir then (fs.children other).filter fun child => !gone child else fs.children other := by
  simp only [children, extract, getD_eq_getElem?_getD, getElem?_modify]
  by_cases same : dir = other
  · subst same
    cases fs.dirs[dir]? <;> simp
  · simp [same, Ne.symm same]

theorem unique_extract {gone : FileContainer → Bool} (unique : fs.Unique) : (fs.extract dir gone).2.Unique := by
  intro other
  rw [names, children_extract]
  split
  · exact (unique other).sublist (filter_sublist.map _)
  · exact unique other

end Ramfs.RamFs

namespace Fs

open Ramfs Tasks

variable {mounted : MountedFs Nat} {fs after : RamFs} {path : PathBuf} {flags : Nat}

/-! ## Opens that create -/

def creates (mounted : MountedFs Nat) (fs : RamFs) (path : PathBuf) (flags : Nat) : Option (Nat × String) :=
  match mounted.getMounted path with
  | none => none
  | some (root, path) =>
    if path.length > 0 ∧ O_CREAT flags then
      match walk fs (.ramDir root) path.dir with
      | .ok (.ramDir dir) => some (dir, path.filename)
      | _ => none
    else none

variable {opened : Except Errno OpenFile}

theorem openFile_tree (done : openFile mounted fs path flags = some (opened, after)) :
    creates mounted fs path flags = none ∧ after = fs ∨
      ∃ dir name, creates mounted fs path flags = some (dir, name) ∧
        after = fs.create dir name (O_DIRECTORY flags) := by
  unfold openFile at done
  unfold creates
  cases found : mounted.getMounted path with
  | none =>
    rw [found] at done
    cases done
  | some mount =>
    obtain ⟨root, rest⟩ := mount
    simp only [found] at done ⊢
    by_cases levels : rest.length > 0
    · rw [if_pos levels] at done
      cases walked : walk fs (.ramDir root) rest.dir with
      | error _ =>
        simp only [walked] at done ⊢
        cases done
        exact .inl ⟨ite_self none, rfl⟩
      | ok parent =>
        simp only [walked] at done
        by_cases creat : O_CREAT flags
        · rw [if_pos creat] at done
          rw [if_pos ⟨levels, creat⟩]
          cases parent with
          | ramDir dir =>
            cases done
            exact .inr ⟨dir, _, rfl, rfl⟩
          | ramFile _ =>
            cases done
            exact .inl ⟨rfl, rfl⟩
          | ramLink _ =>
            cases done
            exact .inl ⟨rfl, rfl⟩
        · rw [if_neg creat] at done
          cases done
          exact .inl ⟨if_neg fun both => creat both.2, rfl⟩
    · rw [if_neg levels] at done
      cases done
      exact .inl ⟨if_neg fun both => levels both.1, rfl⟩

def Duplicates (mounted : MountedFs Nat) (fs : RamFs) (path : PathBuf) (flags : Nat) : Prop :=
  ∃ dir name, creates mounted fs path flags = some (dir, name) ∧ name ∈ fs.names dir

theorem unique_openFile_iff (done : openFile mounted fs path flags = some (opened, after)) :
    after.Unique ↔ fs.Unique ∧ ¬ Duplicates mounted fs path flags := by
  unfold Duplicates
  rcases openFile_tree done with ⟨none, rfl⟩ | ⟨_, _, some, rfl⟩
  · simp [none]
  · rw [RamFs.unique_create_iff, some]
    simp

theorem openFile_keeps (plain : O_CREAT flags = false) (done : openFile mounted fs path flags = some (opened, after)) :
    after = fs := by
  rcases openFile_tree done with ⟨-, same⟩ | ⟨_, _, made, -⟩
  · exact same
  · simp [creates, plain] at made
    split at made <;> simp at made

/-! ## Operations -/

inductive TreeOp where
  | openat (dir : Option PathBuf) (freeFds : Nat) (path : PathText) (flags : Nat)
  | mkdirat (dir : Option PathBuf) (freeFds : Nat) (path : PathText)
  | linkat (dir : Option PathBuf) (path : PathText)
  | unlinkat (dir : Option PathBuf) (path : PathText) (flags : Nat)
  /-- Methods of an open file, on the inode behind the path. -/
  | mkdir (path : PathBuf) (name : String)
  | link (path : PathBuf) (name : String) (src : RamNode)
  | unlink (path : PathBuf) (name : String)
  | rmdir (path : PathBuf) (name : String)

def through (mounted : MountedFs Nat) (fs : RamFs) (path : PathBuf) (method : RamFs → RamNode → RamFs) : Option RamFs :=
  match openFile mounted fs path oDirectory with
  | none => none
  | some (.error _, fs) => some fs
  | some (.ok file, fs) => some (method fs file.inner)

def TreeOp.apply (mounted : MountedFs Nat) (fs : RamFs) : TreeOp → Option RamFs
  | openat dir freeFds path flags => (sysOpenat mounted fs dir freeFds path flags).map Prod.snd
  | mkdirat dir freeFds path => (sysMkdirAt mounted fs dir freeFds path).map Prod.snd
  | linkat dir path => (sysLinkat mounted fs dir path).map Prod.snd
  | unlinkat dir path flags => (sysUnlinkat mounted fs dir path flags).map Prod.snd
  | mkdir path name => through mounted fs path fun fs node => (node.mkdir fs name).2
  | link path name src => through mounted fs path fun fs node => (node.link fs name src).2
  | unlink path name => through mounted fs path fun fs node => (node.unlink fs name).2
  | rmdir path name => through mounted fs path fun fs node => (node.rmdir fs name).2

def fdOpens (fs : RamFs) (dir : Option PathBuf) (path : PathText) (flags : Nat) : List (RamFs × PathBuf × Nat) :=
  match fdResolve dir path with
  | .error _ => []
  | .ok path => [(fs, path, flags)]

def mkdirOpens (mounted : MountedFs Nat) : (components : List String) → Option PathBuf → (freeFds : Nat) → RamFs →
    List (RamFs × PathBuf × Nat)
  | [], _, _, _ => []
  | component :: components, dir, freeFds, fs =>
    fdOpens fs dir (.piece component) (oDirectory ||| oCreat) ++
      match fdOpen mounted fs dir (.piece component) (oDirectory ||| oCreat), freeFds with
      | some (.ok file, fs), freeFds + 1 => mkdirOpens mounted components (some file.pathBuf) freeFds fs
      | _, _ => []

def TreeOp.opens (mounted : MountedFs Nat) (fs : RamFs) : TreeOp → List (RamFs × PathBuf × Nat)
  | openat dir _ path flags => fdOpens fs dir path flags
  | mkdirat dir freeFds path =>
    let components := path.pieces.filter fun piece => piece ≠ ""
    if path.absolute then
      match freeFds with
      | 0 => []
      | freeFds + 1 => mkdirOpens mounted components (some []) freeFds fs
    else mkdirOpens mounted components dir freeFds fs
  | _ => []

/-- What `unlinkat` creates, it may remove at once. -/
def TreeOp.Plain : TreeOp → Prop
  | unlinkat _ _ flags => O_CREAT flags = false
  | _ => True

def TreeOp.Collides (mounted : MountedFs Nat) (fs : RamFs) (op : TreeOp) : Prop :=
  ∃ found ∈ op.opens mounted fs, Duplicates mounted found.1 found.2.1 found.2.2

section Steps

variable {dir : Option PathBuf} {text : PathText}

variable {opened : Except Errno OpenFile} {answer : Except Errno Nat} {kept : RamFs → Prop} {freeFds : Nat}

theorem unique_fdOpen_iff (done : fdOpen mounted fs dir text flags = some (opened, after)) :
    after.Unique ↔ fs.Unique ∧ ∀ found ∈ fdOpens fs dir text flags,
      ¬ Duplicates mounted found.1 found.2.1 found.2.2 := by
  unfold fdOpen at done
  unfold fdOpens
  cases resolved : fdResolve dir text with
  | error _ =>
    rw [resolved] at done
    cases done
    simp
  | ok _ =>
    rw [resolved] at done
    rw [unique_openFile_iff done]
    simp

theorem fdOpen_keeps (plain : O_CREAT flags = false) (done : fdOpen mounted fs dir text flags = some (opened, after)) :
    after = fs := by
  unfold fdOpen at done
  split at done
  · cases done
    rfl
  · exact openFile_keeps plain done

theorem unique_mkdirComponents_iff {components : List String}
    (done : mkdirComponents mounted components dir freeFds fs = some (answer, after)) :
    after.Unique ↔ fs.Unique ∧ ∀ found ∈ mkdirOpens mounted components dir freeFds fs,
      ¬ Duplicates mounted found.1 found.2.1 found.2.2 := by
  induction components generalizing dir freeFds fs with
  | nil =>
    cases done
    simp [mkdirOpens]
  | cons component components ih =>
    unfold mkdirComponents at done
    unfold mkdirOpens
    rw [forall_mem_append, ← and_assoc]
    cases opening : fdOpen mounted fs dir (.piece component) (oDirectory ||| oCreat) with
    | none =>
      rw [opening] at done
      cases done
    | some result =>
      obtain ⟨opened, _⟩ := result
      rw [← unique_fdOpen_iff opening]
      cases opened with
      | error _ =>
        simp only [opening] at done
        cases done
        simp
      | ok _ =>
        cases freeFds with
        | zero =>
          simp only [opening] at done
          cases done
          simp
        | succ freeFds =>
          simp only [opening] at done
          exact ih done

theorem through_keeps {method : RamFs → RamNode → RamFs}
    (keeps : ∀ {fs : RamFs} (node : RamNode), kept fs → kept (method fs node)) (holds : kept fs)
    (done : through mounted fs path method = some after) : kept after := by
  unfold through at done
  split at done
  · cases done
  · next opening =>
    cases done
    rwa [openFile_keeps rfl opening]
  · next opening =>
    cases done
    rw [openFile_keeps rfl opening]
    exact keeps _ holds

section Methods

variable (name : String) (src node : RamNode) (unique : fs.Unique)
include unique

theorem unique_mkdir : (node.mkdir fs name).2.Unique := by
  cases node with
  | ramDir _ => exact RamFs.unique_mkdir unique
  | ramFile | ramLink => exact unique

theorem unique_link : (node.link fs name src).2.Unique := by
  cases node with
  | ramDir _ => exact RamFs.unique_link unique
  | ramFile | ramLink => exact unique

theorem unique_remove : (node.remove fs name).2.Unique := by
  cases node with
  | ramDir _ => exact RamFs.unique_extract unique
  | ramFile | ramLink => exact unique

theorem unique_unlink : (node.unlink fs name).2.Unique := by
  cases node with
  | ramDir _ => exact RamFs.unique_extract unique
  | ramFile | ramLink => exact unique

theorem unique_rmdir : (node.rmdir fs name).2.Unique := by
  cases node with
  | ramDir _ => exact RamFs.unique_extract unique
  | ramFile | ramLink => exact unique

end Methods

theorem openFile_root (done : openFile mounted fs [] flags = some (opened, after)) :
    after = fs ∧ ∃ root, opened = .ok { inner := .ramDir root, pathBuf := [], flags } := by
  unfold openFile at done
  cases found : mounted.getMounted [] with
  | none =>
    rw [found] at done
    cases done
  | some mount =>
    obtain ⟨root, _⟩ := mount
    obtain ⟨_, -, joined⟩ := MountedFs.getMounted_eq_some found
    obtain ⟨-, rfl⟩ := append_eq_nil_iff.mp joined
    simp only [found] at done
    cases done
    exact ⟨rfl, root, rfl⟩

theorem unique_mkdirAt_iff (done : sysMkdirAt mounted fs dir freeFds text = some (answer, after)) :
    after.Unique ↔ fs.Unique ∧ ¬ TreeOp.Collides mounted fs (.mkdirat dir freeFds text) := by
  unfold sysMkdirAt at done
  dsimp only at done
  simp only [TreeOp.Collides, TreeOp.opens, not_exists, not_and]
  split at done
  · next none =>
    cases done
    rw [none]
    simp only [mkdirOpens]
    split <;> [split; skip] <;> simp
  · split at done
    · next absolute =>
      rw [if_pos absolute]
      split at done
      · cases done
      · next opening =>
        obtain ⟨-, root, wrong⟩ := openFile_root opening
        cases wrong
      · next opening =>
        obtain ⟨rfl, root, opened⟩ := openFile_root opening
        cases opened
        split at done
        · cases done
          simp
        · exact unique_mkdirComponents_iff done
    · next relative =>
      rw [if_neg relative]
      exact unique_mkdirComponents_iff done

theorem sysUnlinkat_keeps
    (removes : ∀ {fs : RamFs} (name : String) (node : RamNode), kept fs → kept (node.remove fs name).2)
    (opens : ∀ {opened middle}, fdOpen mounted fs dir text flags = some (opened, middle) → kept middle)
    (done : sysUnlinkat mounted fs dir text flags = some (answer, after)) : kept after := by
  unfold sysUnlinkat at done
  split at done
  · cases done
  · next opening =>
    cases done
    exact opens opening
  · next opening =>
    obtain ⟨_, removing, same⟩ := map_eq_some_iff.mp done
    obtain ⟨-, rfl⟩ := Prod.mk.inj same
    unfold OpenFile.removeSelf at removing
    split at removing
    · cases removing
    · next reopening =>
      cases removing
      rw [openFile_keeps rfl reopening]
      exact opens opening
    · next reopening =>
      cases removing
      rw [openFile_keeps rfl reopening]
      exact removes _ _ (opens opening)

theorem TreeOp.unique_iff {op : TreeOp} (plain : op.Plain) (unique : fs.Unique)
    (done : op.apply mounted fs = some after) : after.Unique ↔ ¬ op.Collides mounted fs := by
  have calm : ∀ {other : TreeOp}, other.opens mounted fs = [] → ¬ other.Collides mounted fs := by
    rintro other none ⟨_, member, -⟩
    rw [none] at member
    cases member
  cases op with
  | openat dir freeFds path _ =>
    obtain ⟨⟨answer, tree⟩, called, rfl⟩ := map_eq_some_iff.mp done
    obtain ⟨⟨opened, tree'⟩, opening, same⟩ := map_eq_some_iff.mp called
    obtain ⟨-, rfl⟩ := Prod.mk.inj same
    rw [unique_fdOpen_iff opening, and_iff_right unique]
    simp only [Collides, opens, not_exists, not_and]
  | mkdirat dir freeFds path =>
    obtain ⟨⟨answer, tree⟩, making, rfl⟩ := map_eq_some_iff.mp done
    rw [unique_mkdirAt_iff making, and_iff_right unique]
  | linkat dir path =>
    obtain ⟨⟨answer, tree⟩, called, rfl⟩ := map_eq_some_iff.mp done
    obtain ⟨⟨opened, tree'⟩, opening, same⟩ := map_eq_some_iff.mp called
    obtain ⟨-, rfl⟩ := Prod.mk.inj same
    rw [fdOpen_keeps rfl opening]
    exact iff_of_true unique (calm rfl)
  | unlinkat dir path flags =>
    obtain ⟨⟨answer, tree⟩, removing, rfl⟩ := map_eq_some_iff.mp done
    refine iff_of_true (sysUnlinkat_keeps unique_remove (fun opening => ?_) removing) (calm rfl)
    rwa [fdOpen_keeps plain opening]
  | mkdir path name => exact iff_of_true (through_keeps (unique_mkdir name) unique done) (calm rfl)
  | link path name src => exact iff_of_true (through_keeps (unique_link name src) unique done) (calm rfl)
  | unlink path name => exact iff_of_true (through_keeps (unique_unlink name) unique done) (calm rfl)
  | rmdir path name => exact iff_of_true (through_keeps (unique_rmdir name) unique done) (calm rfl)

end Steps

/-! ## Sequences of operations -/

def StaysUnique (mounted : MountedFs Nat) : RamFs → List TreeOp → Prop
  | fs, [] => fs.Unique
  | fs, op :: ops => fs.Unique ∧ ∀ after, op.apply mounted fs = some after → StaysUnique mounted after ops

def NeverCollides (mounted : MountedFs Nat) : RamFs → List TreeOp → Prop
  | _, [] => True
  | fs, op :: ops =>
    ∀ after, op.apply mounted fs = some after → ¬ op.Collides mounted fs ∧ NeverCollides mounted after ops

/-- Names stay unique if and only if no open creates a name that is there. -/
theorem names_stay_unique_iff {ops : List TreeOp} (plain : ∀ op ∈ ops, op.Plain) (unique : fs.Unique) :
    StaysUnique mounted fs ops ↔ NeverCollides mounted fs ops := by
  induction ops generalizing fs with
  | nil => exact iff_of_true unique trivial
  | cons op ops ih =>
    obtain ⟨here, plain⟩ := forall_mem_cons.mp plain
    simp only [StaysUnique, NeverCollides, and_iff_right unique]
    refine forall₂_congr fun after done => ?_
    rw [← TreeOp.unique_iff here unique done]
    constructor
    · intro stays
      have here : after.Unique := by
        cases ops with
        | nil => exact stays
        | cons next ops => exact stays.1
      exact ⟨here, (ih plain here).mp stays⟩
    · rintro ⟨here, never⟩
      exact (ih plain here).mpr never

theorem RamFs.new_unique : RamFs.new.Unique := by
  intro dir
  cases dir with
  | zero => exact .nil
  | succ dir => exact .nil

/-- `open("a", O_CREAT)` in the root, which is all there is. -/
def createA : TreeOp := .openat (some []) 3 (.piece "a") oCreat

theorem names_stay_unique_iff_once : StaysUnique [([], 0)] RamFs.new [createA] := by
  refine (names_stay_unique_iff (by simp [createA, TreeOp.Plain]) RamFs.new_unique).mpr fun after done => ⟨?_, trivial⟩
  rintro ⟨found, member, dir, name, made, taken⟩
  obtain rfl := mem_singleton.mp member
  have here : creates [([], 0)] RamFs.new ["a"] oCreat = some (0, "a") := by decide
  cases (here.symm.trans made)
  cases taken

/-- A second `open` of the same name makes a second entry. -/
theorem open_makes_second_entry :
    ((createA.apply [([], 0)] RamFs.new).bind (createA.apply [([], 0)])).map (fun fs => fs.names 0) =
        some ["a", "a"] ∧
      ¬ StaysUnique [([], 0)] RamFs.new [createA, createA] := by
  refine (and_iff_left_of_imp fun twice stays => ?_).mpr (by decide)
  obtain ⟨second, done, names⟩ := map_eq_some_iff.mp twice
  obtain ⟨first, created, again⟩ := bind_eq_some_iff.mp done
  have unique := (stays.2 first created).2 second again 0
  rw [names] at unique
  exact absurd unique (by decide)

end Fs

end MonkeyOS
