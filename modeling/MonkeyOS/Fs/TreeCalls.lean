import MonkeyOS.Fs.TreeProperties
import MonkeyOS.Ramfs.FileRefinement

/-!
# Making, removing and renaming through paths

`unlinkat` removes through `RamDir::remove`, which passes over directories, so that no
directory is ever removed. `renameat2` opens the new file with no flag but `O_CREAT`, so
that nothing is ever written to it.
-/

set_option autoImplicit false

namespace MonkeyOS

open List Option

namespace Ramfs.RamFs

variable {kind : FileContainer → Prop} {fs middle after : RamFs} {dir : Nat} {name : String} {directory : Bool}

def Appends (kind : FileContainer → Prop) (fs after : RamFs) : Prop :=
  ∀ dir, ∃ added, (∀ child ∈ added, kind child) ∧ after.children dir = fs.children dir ++ added

/-- Names that lead to a node of a kind still lead to it. -/
def Spares (kept : RamNode → Prop) (fs after : RamFs) : Prop :=
  ∀ dir name node, kept node → fs.lookup dir name = .ok node → after.lookup dir name = .ok node

namespace Appends

theorem refl (fs : RamFs) : Appends kind fs fs := fun _ => ⟨[], forall_mem_nil _, (append_nil _).symm⟩

theorem trans (first : Appends kind fs middle) (second : Appends kind middle after) : Appends kind fs after := by
  intro dir
  obtain ⟨added, kinds, here⟩ := first dir
  obtain ⟨added', kinds', there⟩ := second dir
  exact ⟨added ++ added', forall_mem_append.mpr ⟨kinds, kinds'⟩, by rw [there, here, append_assoc]⟩

theorem create (fits : kind (fs.created name directory)) : Appends kind fs (fs.create dir name directory) := by
  intro other
  rw [children_create]
  split
  · exact ⟨[fs.created name directory], forall_mem_singleton.mpr fits, rfl⟩
  · exact refl fs other

theorem spares {kept : RamNode → Prop} (appends : Appends kind fs after) : Spares kept fs after := by
  intro dir _ _ _ found
  obtain ⟨_, -, here⟩ := appends dir
  unfold RamFs.lookup at found ⊢
  split at found
  · next _ search =>
    rw [here, find?_append, search]
    exact found
  · cases found

end Appends

theorem spares_remove : Spares (fun node => node.fileType = .Directory) fs (fs.remove dir name).2 := by
  intro other wanted node directory found
  unfold lookup at found ⊢
  split at found
  · next child search =>
    have kept : ((fs.remove dir name).2.children other).find? (fun child => child.filename = wanted) = some child := by
      rw [remove, children_extract]
      split
      · obtain ⟨named, front, back, listed, before⟩ := find?_eq_some_iff_append.mp search
        cases found
        rw [find?_filter]
        refine find?_eq_some_iff_append.mpr ⟨?_, front, back, listed, fun child member => ?_⟩
        · cases child <;> simp_all [FileContainer.isDir, FileContainer.toInode, RamNode.fileType]
        · simp_all
      · exact search
    rw [kept]
    exact found
  · cases found

theorem extract_none {gone : FileContainer → Bool} (absent : ∀ child ∈ fs.children dir, gone child = false) :
    fs.extract dir gone = (.error .ENOENT, fs) := by
  have kept : (fs.dirs.modify dir fun children => children.filter fun child => !gone child) = fs.dirs := by
    refine ext_getElem? fun other => ?_
    rw [getElem?_modify]
    by_cases same : dir = other
    · subst same
      cases here : fs.dirs[dir]? with
      | none => rfl
      | some children =>
        have own : fs.children dir = children := by
          rw [RamFs.children, getD_eq_getElem?_getD, here, Option.getD_some]
        rw [own] at absent
        simp only [if_true, Option.map_eq_map, Option.map_some, Option.some.injEq]
        exact filter_eq_self.mpr fun child member => by rw [absent child member]; rfl
    · simp [same]
  unfold extract
  rw [if_neg (by simpa using absent), kept]

theorem remove_fresh (fresh : name ∉ fs.names dir) (appends : Appends (fun child => child.isDir) fs after) :
    after.remove dir name = (.error .ENOENT, after) := by
  refine extract_none fun child member => ?_
  obtain ⟨_, kinds, here⟩ := appends dir
  rw [here] at member
  rcases mem_append.mp member with old | new
  · have other : child.filename ≠ name := fun same => fresh (same ▸ mem_map_of_mem old)
    simp [other]
  · simp [kinds child new]

end Ramfs.RamFs

namespace Fs

open Ramfs Tasks Lib

variable {mounted : MountedFs Nat} {kind : FileContainer → Prop} {fs middle after : RamFs} {path : PathBuf}
  {flags : Nat} {dir : Option PathBuf} {text : PathText}

/-! ## Resolution -/

theorem walk_append (fs : RamFs) (node : RamNode) (front back : PathBuf) :
    walk fs node (front ++ back) = (walk fs node front).bind fun node => walk fs node back :=
  foldlM_append

variable {found node : RamNode} {name : String} {opened : Except Errno OpenFile} {answer : Except Errno Nat}
  {file : OpenFile} {errno : Errno} {freeFds : Nat}

theorem walk_spares {kept : RamNode → Prop} (spares : RamFs.Spares kept fs after) (dirs : ∀ dir, kept (.ramDir dir))
    (last : kept found) (walked : walk fs node path = .ok found) : walk after node path = .ok found := by
  induction path generalizing node with
  | nil => exact walked
  | cons name path ih =>
    simp only [walk, foldlM_cons] at walked ⊢
    cases here : node.lookup fs name with
    | error _ =>
      rw [here] at walked
      cases walked
    | ok next =>
      rw [here] at walked
      have same : node.lookup after name = .ok next := by
        cases node with
        | ramDir _ =>
          refine spares _ _ _ ?_ here
          cases next with
          | ramDir _ => exact dirs _
          | ramFile | ramLink =>
            cases path <;> cases walked
            exact last
        | ramFile | ramLink => cases here
      rw [same]
      exact ih walked

theorem walk_appends (appends : RamFs.Appends kind fs after) (walked : walk fs node path = .ok found) :
    walk after node path = .ok found :=
  walk_spares (appends.spares : RamFs.Spares (fun _ => True) fs after) (fun _ => trivial) trivial walked

theorem lookup_error (missed : node.lookup fs name = .error errno) : errno = .ENOENT := by
  cases node with
  | ramDir _ =>
    simp only [RamNode.lookup, RamFs.lookup] at missed
    split at missed
    · cases missed
    · cases missed
      rfl
  | ramFile | ramLink =>
    cases missed
    rfl

theorem walk_error (missed : walk fs node path = .error errno) : errno = .ENOENT := by
  induction path generalizing node with
  | nil => cases missed
  | cons name path ih =>
    simp only [walk, foldlM_cons] at missed
    cases here : node.lookup fs name with
    | error _ =>
      rw [here] at missed
      cases missed
      exact lookup_error here
    | ok _ =>
      rw [here] at missed
      exact ih missed

def resolve (mounted : MountedFs Nat) (fs : RamFs) (path : PathBuf) : Option (Except Errno RamNode) :=
  (mounted.getMounted path).map fun mount => walk fs (.ramDir mount.1) mount.2

theorem resolve_appends (appends : RamFs.Appends kind fs after)
    (resolved : resolve mounted fs path = some (.ok found)) : resolve mounted after path = some (.ok found) := by
  obtain ⟨_, covered, walked⟩ := map_eq_some_iff.mp resolved
  rw [resolve, covered, map_some, walk_appends appends walked]

theorem dir_append_filename (levels : path.length > 0) : path.dir ++ [path.filename] = path := by
  cases path with
  | nil => cases levels
  | cons _ path =>
    refine dropLast_append_getLast? _ ?_
    rfl

theorem walk_split (levels : path.length > 0) :
    walk fs node path = (walk fs node path.dir).bind fun parent => parent.lookup fs path.filename := by
  conv => lhs; rw [← dir_append_filename levels]
  rw [walk_append]
  refine congrArg _ (funext fun _ => ?_)
  exact bind_pure _

theorem openFile_plain (plain : O_CREAT flags = false) :
    openFile mounted fs path flags = (resolve mounted fs path).map fun found =>
      (found.map fun inner => { inner, pathBuf := path, flags }, fs) := by
  unfold openFile resolve
  cases mounted.getMounted path with
  | none => rfl
  | some mount =>
    obtain ⟨root, rest⟩ := mount
    simp only [plain, map_some]
    by_cases levels : rest.length > 0
    · rw [if_pos levels, walk_split levels]
      cases walk fs (.ramDir root) rest.dir <;> rfl
    · obtain rfl : rest = [] := length_eq_zero_iff.mp (by omega)
      rfl

theorem openFile_appends (done : openFile mounted fs path flags = some (opened, after))
    (fits : ∀ child : FileContainer, child.isDir = O_DIRECTORY flags → kind child) : RamFs.Appends kind fs after := by
  rcases openFile_tree done with ⟨-, rfl⟩ | ⟨_, _, -, rfl⟩
  · exact .refl _
  · exact .create (fits _ RamFs.isDir_created)

theorem openFile_resolves (done : openFile mounted fs path flags = some (.ok file, after)) :
    file.pathBuf = path ∧ file.flags = flags ∧ resolve mounted after path = some (.ok file.inner) := by
  have appends : RamFs.Appends (fun _ => True) fs after := openFile_appends done fun _ _ => trivial
  unfold openFile at done
  unfold resolve
  cases found : mounted.getMounted path with
  | none =>
    rw [found] at done
    cases done
  | some mount =>
    obtain ⟨_, rest⟩ := mount
    simp only [found] at done
    rw [map_some]
    by_cases levels : rest.length > 0
    · rw [if_pos levels] at done
      split at done
      · cases done
      · next parent walked =>
        split at done
        · cases done
        · next tree _ =>
          obtain ⟨looked, rfl⟩ := Prod.mk.inj (Option.some.inj done)
          rw [walk_split levels, walk_appends appends walked]
          cases here : parent.lookup tree rest.filename with
          | error _ =>
            rw [here] at looked
            cases looked
          | ok _ =>
            rw [here] at looked
            cases looked
            exact ⟨rfl, rfl, congrArg some here⟩
    · rw [if_neg levels] at done
      cases done
      obtain rfl : rest = [] := length_eq_zero_iff.mp (by omega)
      exact ⟨rfl, rfl, rfl⟩

theorem lookup_create {dir : Nat} {name : String} {directory : Bool} (inside : dir < fs.dirs.length) :
    ∃ node, (fs.create dir name directory).lookup dir name = .ok node := by
  unfold RamFs.lookup
  rw [RamFs.children_create, if_pos ⟨rfl, inside⟩, find?_append]
  cases (fs.children dir).find? fun child => child.filename = name with
  | some child => exact ⟨_, rfl⟩
  | none =>
    rw [none_or, find?_singleton, if_pos (by simp)]
    exact ⟨_, rfl⟩

theorem openFile_created {dir : Nat} (made : creates mounted fs path flags = some (dir, name))
    (inside : dir < fs.dirs.length) (done : openFile mounted fs path flags = some (opened, after)) :
    ∃ file, opened = .ok file ∧ after = fs.create dir name (O_DIRECTORY flags) := by
  unfold creates at made
  unfold openFile at done
  cases found : mounted.getMounted path with
  | none =>
    rw [found] at done
    cases done
  | some mount =>
    obtain ⟨_, rest⟩ := mount
    simp only [found] at made done
    split at made
    · next both =>
      rw [if_pos both.1] at done
      split at made
      · next walked =>
        cases made
        simp only [walked, both.2, if_true, RamNode.create] at done
        obtain ⟨_, looked⟩ := @lookup_create fs dir rest.filename (O_DIRECTORY flags) inside
        simp only [RamNode.lookup, looked] at done
        cases done
        exact ⟨_, rfl, rfl⟩
      · cases made
    · cases made

/-! ## Making directories -/

theorem fdOpen_resolves (done : fdOpen mounted fs dir text flags = some (.ok file, after)) :
    fdResolve dir text = .ok file.pathBuf ∧ file.flags = flags ∧
      resolve mounted after file.pathBuf = some (.ok file.inner) := by
  unfold fdOpen at done
  split at done
  · cases done
  · next _ resolved =>
    obtain ⟨rfl, found⟩ := openFile_resolves done
    exact ⟨resolved, found⟩

theorem fdOpen_appends (done : fdOpen mounted fs dir text flags = some (opened, after))
    (fits : ∀ child : FileContainer, child.isDir = O_DIRECTORY flags → kind child) : RamFs.Appends kind fs after := by
  unfold fdOpen at done
  split at done
  · cases done
    exact .refl _
  · exact openFile_appends done fits

theorem mkdirComponents_spec {components : List String}
    (done : mkdirComponents mounted components dir freeFds fs = some (answer, after)) :
    RamFs.Appends (fun child => child.isDir) fs after ∧
      ∀ value, answer = .ok value → components ≠ [] →
        ∃ start node, dir = some start ∧ resolve mounted after (components.foldl PathBuf.pushPiece start) =
          some (.ok node) := by
  induction components generalizing dir freeFds fs with
  | nil =>
    cases done
    exact ⟨.refl _, fun _ _ some => absurd rfl some⟩
  | cons component components ih =>
    unfold mkdirComponents at done
    split at done
    · cases done
    · next opening =>
      cases done
      exact ⟨fdOpen_appends opening fun _ isDir => isDir, fun _ wrong => (by cases wrong)⟩
    · next file _ opening =>
      have opened := fdOpen_appends opening fun _ isDir => isDir
      obtain ⟨resolved, -, found⟩ := fdOpen_resolves opening
      split at done
      · cases done
        exact ⟨opened, fun _ wrong => (by cases wrong)⟩
      · next freeFds =>
        obtain ⟨appends, resolves⟩ := ih done
        refine ⟨opened.trans appends, fun value same _ => ?_⟩
        have start : ∃ start, dir = some start ∧ start.pushPiece component = file.pathBuf := by
          cases dir with
          | none => cases resolved
          | some start => exact ⟨start, rfl, Except.ok.inj resolved⟩
        obtain ⟨start, rfl, pushed⟩ := start
        cases components with
        | nil =>
          refine ⟨start, file.inner, rfl, ?_⟩
          rw [foldl_cons, pushed]
          exact resolve_appends appends found
        | cons next _ =>
          obtain ⟨_, node, same', last⟩ := resolves value same (cons_ne_nil _ _)
          cases same'
          refine ⟨start, node, rfl, ?_⟩
          rw [foldl_cons, pushed]
          exact last

theorem foldl_pushPiece_filter (pieces : List String) (start : PathBuf) :
    (pieces.filter fun piece => piece ≠ "").foldl PathBuf.pushPiece start = pieces.foldl PathBuf.pushPiece start := by
  induction pieces generalizing start with
  | nil => rfl
  | cons piece pieces ih =>
    by_cases empty : piece = ""
    · subst empty
      exact ih start
    · rw [filter_cons_of_pos (by simpa using empty), foldl_cons, foldl_cons, ih]

theorem sysMkdirAt_spec (target : fdResolve dir text = .ok path)
    (done : sysMkdirAt mounted fs dir freeFds text = some (answer, after)) :
    RamFs.Appends (fun child => child.isDir) fs after ∧
      ∀ value, answer = .ok value → ∃ node, resolve mounted after path = some (.ok node) := by
  unfold sysMkdirAt at done
  dsimp only at done
  split at done
  · cases done
    exact ⟨.refl _, fun _ wrong => (by cases wrong)⟩
  · next some =>
    split at done
    · next absolute =>
      unfold fdResolve at target
      rw [if_pos absolute] at target
      cases target
      split at done
      · cases done
      · next opening =>
        obtain ⟨rfl, root, wrong⟩ := openFile_root opening
        cases wrong
      · next opening =>
        obtain ⟨rfl, root, opened⟩ := openFile_root opening
        cases opened
        split at done
        · cases done
          exact ⟨.refl _, fun _ wrong => (by cases wrong)⟩
        · obtain ⟨appends, resolves⟩ := mkdirComponents_spec done
          refine ⟨appends, fun value same => ?_⟩
          obtain ⟨start, node, same', last⟩ := resolves value same some
          cases same'
          rw [foldl_pushPiece_filter] at last
          exact ⟨node, by rw [PathBuf.joinText, if_pos absolute]; exact last⟩
    · next relative =>
      obtain ⟨appends, resolves⟩ := mkdirComponents_spec done
      refine ⟨appends, fun value same => ?_⟩
      obtain ⟨start, node, rfl, last⟩ := resolves value same some
      unfold fdResolve at target
      rw [if_neg relative] at target
      cases target
      rw [foldl_pushPiece_filter] at last
      exact ⟨node, by rw [PathBuf.joinText, if_neg relative]; exact last⟩

theorem getMounted_append {target : PathBuf} (name : String) (covered : (mounted.getMounted target).isSome) :
    (mounted.getMounted (target ++ [name])).isSome := by
  unfold MountedFs.getMounted at covered ⊢
  rw [isSome_map, find?_isSome] at covered ⊢
  obtain ⟨entry, member, starts⟩ := covered
  exact ⟨entry, member, MountedFs.startsWith_iff.mpr ((MountedFs.startsWith_iff.mp starts).trans (prefix_append _ _))⟩

/-! ## Directories stay -/

/-- The operations that are system calls. -/
def TreeOp.IsCall : TreeOp → Prop
  | openat .. | mkdirat .. | linkat .. | unlinkat .. => True
  | mkdir .. | link .. | unlink .. | rmdir .. => False

theorem TreeOp.spares {op : TreeOp} (done : op.apply mounted fs = some after) (calls : op.IsCall) :
    fs.Spares (fun node => node.fileType = .Directory) after := by
  cases op with
  | openat | linkat =>
    obtain ⟨_, called, rfl⟩ := map_eq_some_iff.mp done
    obtain ⟨_, opening, rfl⟩ := map_eq_some_iff.mp called
    exact (fdOpen_appends opening fun _ _ => trivial : RamFs.Appends (fun _ => True) _ _).spares
  | mkdirat dir _ path =>
    obtain ⟨_, making, rfl⟩ := map_eq_some_iff.mp done
    cases target : fdResolve dir path with
    | ok _ => exact (sysMkdirAt_spec target making).1.spares
    | error _ =>
      simp only [sysMkdirAt] at making
      split at making
      · cases making
        exact fun _ _ _ _ found => found
      · split at making
        · next absolute =>
          unfold fdResolve at target
          rw [if_pos absolute] at target
          cases target
        · exact (mkdirComponents_spec making).1.spares
  | unlinkat =>
    obtain ⟨_, removing, rfl⟩ := map_eq_some_iff.mp done
    refine sysUnlinkat_keeps (fun name node spares => ?_) (fun opening =>
      (fdOpen_appends opening fun _ _ => trivial : RamFs.Appends (fun _ => True) _ _).spares) removing
    cases node with
    | ramDir _ => exact fun _ _ _ kept found => RamFs.spares_remove _ _ _ kept (spares _ _ _ kept found)
    | ramFile | ramLink => exact spares
  | mkdir | link | unlink | rmdir => cases calls

/-- What leads to a directory leads to it ever after: no call takes it away, `rmdir` neither, and
none puts an entry in front of it. -/
theorem directories_stay {ops : List TreeOp} {inner : Nat}
    (run : Run (fun before op after => op.apply mounted before = some after ∧ op.IsCall) fs ops after)
    (found : resolve mounted fs path = some (.ok (.ramDir inner))) :
    resolve mounted after path = some (.ok (.ramDir inner)) := by
  refine @Run.preserves _ _ _ (fun fs => resolve mounted fs path = some (.ok (.ramDir inner))) ?_ _ _ _ run found
  intro _ _ _ found ⟨done, calls⟩
  obtain ⟨_, covered, walked⟩ := map_eq_some_iff.mp found
  rw [resolve, covered, map_some, walk_spares (TreeOp.spares done calls) (fun _ => rfl) rfl walked]

def onlyA : RamFs := { dirs := [[.Dir "a" 1], []], files := [] }

theorem directories_stay_unlinked :
    ∃ after, TreeOp.apply [([], 0)] onlyA (.unlinkat (some []) (.piece "a") atRemovedir) = some after ∧
      resolve [([], 0)] after ["a"] = some (.ok (.ramDir 1)) :=
  ⟨_, rfl,
    @directories_stay _ onlyA _ _ [.unlinkat (some []) (.piece "a") atRemovedir] 1 (.cons ⟨rfl, trivial⟩ .refl) rfl⟩

/-! ## Directories that are removed -/

/-- Both calls succeed, every path resolves as before and the new one does not. -/
def MkdirRmdirInverse (mounted : MountedFs Nat) (fs : RamFs) (dir : Option PathBuf) (freeFds : Nat) (text : PathText)
    (path : PathBuf) : Prop :=
  ∃ made removed first second, sysMkdirAt mounted fs dir freeFds text = some (.ok first, made) ∧
    sysUnlinkat mounted made dir text atRemovedir = some (.ok second, removed) ∧
    (∀ other, resolve mounted removed other = resolve mounted fs other) ∧
    ∀ node, resolve mounted removed path ≠ some (.ok node)

theorem sysUnlinkat_directory {parent : PathBuf} {inner : Nat} (target : fdResolve dir text = .ok (parent ++ [name]))
    (found : resolve mounted fs parent = some (.ok (.ramDir inner)))
    (absent : fs.remove inner name = (.error .ENOENT, fs)) (plain : O_CREAT flags = false) :
    sysUnlinkat mounted fs dir text flags = some (.error .ENOENT, fs) := by
  have covered := getMounted_append name (by
    obtain ⟨mount, covered, -⟩ := map_eq_some_iff.mp found
    rw [covered]
    rfl : (mounted.getMounted parent).isSome)
  obtain ⟨mount, covered⟩ := isSome_iff_exists.mp covered
  have opening : fdOpen mounted fs dir text flags = openFile mounted fs (parent ++ [name]) flags := by
    unfold fdOpen
    rw [target]
  unfold sysUnlinkat
  rw [opening, openFile_plain plain, resolve, covered, map_some, map_some]
  cases walked : walk fs (.ramDir mount.1) mount.2 with
  | error _ =>
    rw [walk_error walked]
    rfl
  | ok _ =>
    have above : PathBuf.dir (parent ++ [name]) = parent := dropLast_concat
    have last : PathBuf.filename (parent ++ [name]) = name := by simp [PathBuf.filename]
    simp only [Except.map, OpenFile.removeSelf, above, last, openFile_plain (rfl : O_CREAT oDirectory = false), found,
      map_some, RamNode.remove, absent]

/-- A directory that was made is never removed: the second call answers `ENOENT`, and the
new directory is still there. -/
theorem rmdir_never_undoes_mkdir {parent : PathBuf} {name : String} {inner freeFds : Nat}
    (target : fdResolve dir text = .ok (parent ++ [name]))
    (found : resolve mounted fs parent = some (.ok (.ramDir inner)))
    (absent : name ∉ fs.names inner) :
    ¬ MkdirRmdirInverse mounted fs dir freeFds text (parent ++ [name]) ∧
      ∀ answer made, sysMkdirAt mounted fs dir freeFds text = some (answer, made) →
        sysUnlinkat mounted made dir text atRemovedir = some (.error .ENOENT, made) ∧
          ∀ value, answer = .ok value → ∃ node, resolve mounted made (parent ++ [name]) = some (.ok node) := by
  refine (and_iff_right_of_imp fun second => ?_).mpr fun answer made done => ?_
  · rintro ⟨made, removed, value, _, making, removing, -⟩
    rw [(second _ made making).1] at removing
    cases removing
  · obtain ⟨appends, resolves⟩ := sysMkdirAt_spec target done
    have missed := RamFs.remove_fresh absent appends
    exact ⟨sysUnlinkat_directory target (resolve_appends appends found) missed rfl, resolves⟩

theorem rmdir_never_undoes_mkdir_root :
    ¬ MkdirRmdirInverse [([], 0)] RamFs.new (some []) 3 (.piece "a") ["a"] :=
  (@rmdir_never_undoes_mkdir [([], 0)] RamFs.new (some []) (.piece "a") [] "a" 0 3 rfl rfl (by decide)).1

/-- The directory is made, and `rmdir` does not find it. -/
theorem rmdir_misses_directory :
    (sysMkdirAt [([], 0)] RamFs.new (some []) 3 (.piece "a")).map (fun made => (made.1, made.2.names 0)) =
        some (.ok 0, ["a"]) ∧
      ((sysMkdirAt [([], 0)] RamFs.new (some []) 3 (.piece "a")).bind fun made =>
        (sysUnlinkat [([], 0)] made.2 (some []) (.piece "a") atRemovedir).map fun removed =>
          (removed.1, removed.2.names 0)) = some (.error .ENOENT, ["a"]) ∧
      ¬ MkdirRmdirInverse [([], 0)] RamFs.new (some []) 3 (.piece "a") ["a"] := by
  refine ⟨rfl, (and_iff_left_of_imp fun missed => ?_).mpr rfl⟩
  rintro ⟨made, removed, first, second, making, removing, -⟩
  rw [making, bind_some, removing] at missed
  cases missed

/-! ## Renaming -/

section Rename

variable {σ : Type} {alloc : σ → Option Page × σ} {state : σ} {olddir newdir : Option PathBuf}
  {oldtext newtext : PathText} {old new : PathBuf} {inner : Nat}

/-- What a rename is for: the call succeeds, the new path leads to a file with the bytes of the
old one, the old one is gone and every other path is as it was; a call that fails
changes nothing. -/
structure MovesFile (mounted : MountedFs Nat) (alloc : σ → Option Page × σ) (fs : RamFs) (state : σ)
    (olddir : Option PathBuf) (oldtext : PathText) (newdir : Option PathBuf) (newtext : PathText) (old new : PathBuf)
    (inner : Nat) : Prop where
  moved : ∃ value after state', sysRenameat2 mounted alloc fs state olddir oldtext newdir newtext 0 =
      some (.ok value, after, state') ∧
    (∃ moved, resolve mounted after new = some (.ok (.ramFile moved)) ∧
      (after.file moved).contents = (fs.file inner).contents) ∧
    (∀ node, resolve mounted after old ≠ some (.ok node)) ∧
    ∀ other, other ≠ old → other ≠ new → resolve mounted after other = resolve mounted fs other
  failed : ∀ errno after state', sysRenameat2 mounted alloc fs state olddir oldtext newdir newtext 0 =
      some (.error errno, after, state') → after = fs

theorem sysRenameat2_file {state' : σ} (target : fdResolve olddir oldtext = .ok old)
    (isFile : resolve mounted fs old = some (.ok (.ramFile inner)))
    (done : sysRenameat2 mounted alloc fs state olddir oldtext newdir newtext 0 = some (answer, after, state')) :
    ∃ opened, fdOpen mounted fs newdir newtext oCreat = some (opened, after) ∧
      ((∃ errno, opened = .error errno ∧ answer = .error errno) ∨
        (∃ file, opened = .ok file) ∧ answer = .error .EPERM) := by
  have opening : fdOpen mounted fs olddir oldtext 0 =
      some (.ok { inner := .ramFile inner, pathBuf := old, flags := 0 }, fs) := by
    unfold fdOpen
    simp only [target]
    rw [openFile_plain rfl, isFile]
    rfl
  unfold sysRenameat2 at done
  simp only [opening, RamNode.fileType, Nat.or_zero] at done
  split at done
  · cases done
  · next errno tree creating =>
    cases done
    exact ⟨_, creating, .inl ⟨errno, rfl, rfl⟩⟩
  · next file tree creating =>
    have flags := (fdOpen_resolves creating).2.1
    have shut : ¬ (O_RDWR oCreat || O_WRONLY oCreat) := by decide
    have refused : ∀ buffer, file.write alloc tree state buffer = (.error .EPERM, tree, state) := by
      intro buffer
      rw [OpenFile.write, flags, if_neg shut]
    simp only [refused] at done
    split at done
    · cases done
    · next errno reading =>
      simp [RamNode.readat] at reading
    · cases done
      exact ⟨_, creating, .inr ⟨⟨file, rfl⟩, rfl⟩⟩

/-- A file is never renamed: no call succeeds. Where the directory of the new path is there,
the call answers `EPERM` with an entry of the new name made, and the old file is where
it was. -/
theorem rename_never_moves (target : fdResolve olddir oldtext = .ok old)
    (isFile : resolve mounted fs old = some (.ok (.ramFile inner))) :
    ¬ MovesFile mounted alloc fs state olddir oldtext newdir newtext old new inner ∧
      ∀ answer after state', sysRenameat2 mounted alloc fs state olddir oldtext newdir newtext 0 =
          some (answer, after, state') →
        resolve mounted after old = some (.ok (.ramFile inner)) ∧
          ∀ parent name, fdResolve newdir newtext = .ok new → creates mounted fs new oCreat = some (parent, name) →
            parent < fs.dirs.length → answer = .error .EPERM ∧ after.names parent = fs.names parent ++ [name] := by
  constructor
  · rintro ⟨⟨value, after, state', done, -⟩, -⟩
    obtain ⟨opened, -, ⟨errno, -, wrong⟩ | ⟨-, wrong⟩⟩ := sysRenameat2_file target isFile done <;> cases wrong
  · intro answer after state' done
    obtain ⟨opened, creating, outcome⟩ := sysRenameat2_file target isFile done
    have appends : RamFs.Appends (fun _ => True) fs after := fdOpen_appends creating fun _ _ => trivial
    refine ⟨resolve_appends appends isFile, fun parent name newTarget made inside => ?_⟩
    have opening : openFile mounted fs new oCreat = some (opened, after) := by
      rw [← creating, fdOpen, newTarget]
    obtain ⟨file, rfl, rfl⟩ := openFile_created made inside opening
    rcases outcome with ⟨errno, wrong, -⟩ | ⟨-, refused⟩
    · cases wrong
    · exact ⟨refused, by rw [RamFs.names_create, if_pos ⟨rfl, inside⟩]⟩

def oneFile : RamFs := { dirs := [[.File "a" 0]], files := [{ len := 1, pages := [fun _ => 7] }] }

def noFrames : Unit → Option Page × Unit := fun _ => (none, ())

theorem rename_never_moves_one :
    ¬ MovesFile [([], 0)] noFrames oneFile () (some []) (.piece "a") (some []) (.piece "b") ["a"] ["b"] 0 :=
  (rename_never_moves rfl rfl).1

/-- `rename("a", "b")` fails and leaves both names behind. -/
theorem rename_leaves_both :
    (sysRenameat2 [([], 0)] noFrames oneFile () (some []) (.piece "a") (some []) (.piece "b") 0).map
        (fun renamed => (renamed.1, renamed.2.1.names 0)) = some (.error .EPERM, ["a", "b"]) ∧
      ¬ MovesFile [([], 0)] noFrames oneFile () (some []) (.piece "a") (some []) (.piece "b") ["a"] ["b"] 0 := by
  refine (and_iff_left_of_imp fun refused => ?_).mpr rfl
  rintro ⟨⟨value, after, state, done, -⟩, -⟩
  rw [done] at refused
  cases refused

end Rename

end Fs

end MonkeyOS
