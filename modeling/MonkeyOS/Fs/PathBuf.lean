import MonkeyOS.Fs.Tree
import MonkeyOS.Lib.Split

/-!
# Path components

What `join`, `dir` and `trim_start` of `filesystem/fs/src/pathbuf.rs` make of texts. A
path is a stack of components, and joining pushes and pops piece by piece, so joining
goes through a text as it stands.
-/

set_option autoImplicit false

namespace MonkeyOS.Tasks.PathBuf

open Lib List PathBuf

/-- A path that the operations on paths have made out of texts. `trim_start` takes away
the start of a path whatever the path it is given. -/
inductive Built : PathBuf → Prop where
  | ofString (path : String) : Built (ofString path)
  | join {directory} (built : Built directory) (path : String) : Built (directory.join path)
  | dir {path} (built : Built path) : Built path.dir
  | trimStart {path} (built : Built path) (target : PathBuf) : Built (path.trimStart target)

structure Component (name : String) : Prop where
  nonempty : name ≠ ""
  noSlash : '/' ∉ name.toList
  notDot : name ≠ "."
  notDotDot : name ≠ ".."

def Canonical (path : PathBuf) : Prop := ∀ name ∈ path, Component name

variable {directory path : PathBuf}

/-! ## Pieces -/

variable {text : String}

theorem startsWith_slash_iff : text.startsWith "/" = true ↔ text.toList.head? = some '/' := by
  rw [String.startsWith_string_iff]
  cases text.toList with
  | nil => simp
  | cons _ _ => simp [eq_comm]

theorem splitOn_append_slash (first second : String) :
    (first ++ "/" ++ second).splitOn "/" = first.splitOn "/" ++ second.splitOn "/" :=
  splitOn_append_separator first second '/'

theorem join_eq_foldl (directory : PathBuf) (text : String) :
    directory.join text = (text.splitOn "/").foldl pushPiece (if text.startsWith "/" then [] else directory) := rfl

/-- Joining two texts one after the other is joining them with a slash between. -/
theorem join_composes {first second : String} (nonempty : first ≠ "") (relative : second.startsWith "/" = false) :
    (directory.join first).join second = directory.join (first ++ "/" ++ second) := by
  have start : (first ++ "/" ++ second).startsWith "/" = first.startsWith "/" := by
    rw [Bool.eq_iff_iff, startsWith_slash_iff, startsWith_slash_iff, String.toList_append, String.toList_append,
      append_assoc, head?_append_of_ne_nil _ (by simpa using nonempty)]
  rw [join_eq_foldl (directory.join first), relative, join_eq_foldl, join_eq_foldl, splitOn_append_slash, start,
    foldl_append]
  rfl

theorem join_composes_climbing :
    (join ["usr"] "./lib/").join "../../../bin" = join ["usr"] "./lib//../../../bin" :=
  join_composes (by decide) (by decide +kernel)

/-! ## Canonical paths -/

theorem Canonical.push (canonical : directory.Canonical) {piece : String} (noSlash : '/' ∉ piece.toList) :
    (directory.pushPiece piece).Canonical := by
  unfold pushPiece
  split_ifs with skipped up
  · exact canonical
  · exact fun name member => canonical name (dropLast_subset _ member)
  · intro name member
    rcases mem_append.mp member with old | new
    · exact canonical name old
    · rw [mem_singleton.mp new]
      exact ⟨fun empty => skipped (.inr empty), noSlash, fun dot => skipped (.inl dot), up⟩

theorem Canonical.foldl {pieces : List String} (canonical : directory.Canonical)
    (noSlash : ∀ piece ∈ pieces, '/' ∉ piece.toList) : (pieces.foldl pushPiece directory).Canonical := by
  induction pieces generalizing directory with
  | nil => exact canonical
  | cons _ pieces ih =>
    rw [forall_mem_cons] at noSlash
    exact ih (canonical.push noSlash.1) noSlash.2

theorem Canonical.join (canonical : directory.Canonical) (text : String) : (directory.join text).Canonical := by
  refine Canonical.foldl ?_ fun _ member => separator_not_mem_piece member
  split
  · exact forall_mem_nil _
  · exact canonical

theorem Built.canonical (built : path.Built) : path.Canonical := by
  induction built with
  | ofString text => exact Canonical.join (forall_mem_nil _) text
  | join _ text ih => exact ih.join text
  | dir _ ih => exact fun name member => ih name (dropLast_subset _ member)
  | trimStart _ _ ih =>
    rw [PathBuf.trimStart]
    split
    · exact fun name member => ih name (drop_subset _ _ member)
    · exact ih

theorem Canonical.foldl_pushPiece (canonical : path.Canonical) (directory : PathBuf) :
    path.foldl pushPiece directory = directory ++ path := by
  induction path generalizing directory with
  | nil => exact (append_nil _).symm
  | cons name path ih =>
    obtain ⟨component, rest⟩ := forall_mem_cons.mp canonical
    have pushed : directory.pushPiece name = directory ++ [name] := by
      simp [pushPiece, component.nonempty, component.notDot, component.notDotDot]
    rw [foldl_cons, pushed, ih rest, append_assoc, singleton_append]

theorem splitOn_path (canonical : path.Canonical) (nonempty : path ≠ []) : path.path.splitOn "/" = "" :: path := by
  have pieces : ("/".intercalate path).splitOn "/" = path :=
    splitOn_intercalate_separator nonempty fun name member => (canonical name member).noSlash
  have printed : path.path = "" ++ "/" ++ "/".intercalate path := by
    rfl
  have empty : "".splitOn "/" = [""] := splitOn_eq_map "" '/'
  rw [printed, splitOn_append_slash, empty, pieces]
  rfl

theorem Canonical.ofString_path (canonical : path.Canonical) : ofString path.path = path := by
  by_cases nonempty : path = []
  · subst nonempty
    exact join_root []
  · rw [ofString, join_eq_foldl, ite_self, splitOn_path canonical nonempty, foldl_cons]
    exact canonical.foldl_pushPiece []

/-- Every path made out of texts is canonical and is known by its printed form. -/
theorem built_paths_canonical {other : PathBuf} (built : path.Built) (otherBuilt : other.Built) :
    path.Canonical ∧ ofString path.path = path ∧ (path = other ↔ path.path = other.path) := by
  refine ⟨built.canonical, built.canonical.ofString_path, congrArg PathBuf.path, fun printed => ?_⟩
  calc path = ofString path.path := built.canonical.ofString_path.symm
    _ = ofString other.path := by rw [printed]
    _ = other := otherBuilt.canonical.ofString_path

theorem built_paths_canonical_joined :
    ofString (PathBuf.path (dir (join (ofString "//usr/./") "lib/../bin"))) =
      dir (join (ofString "//usr/./") "lib/../bin") :=
  (built_paths_canonical (.dir (.join (.ofString _) _)) (.ofString "/")).2.1

/-! ## Relative paths -/

/-- What a relative path does to a directory: so many levels up, and then down. -/
structure Relative where
  up : Nat
  down : List String

namespace Relative

def push (relative : Relative) (piece : String) : Relative :=
  if piece = "." ∨ piece = "" then relative
  else if piece = ".." then
    if relative.down = [] then { relative with up := relative.up + 1 }
    else { relative with down := relative.down.dropLast }
  else { relative with down := relative.down ++ [piece] }

def ofString (text : String) : Relative := (text.splitOn "/").foldl push { up := 0, down := [] }

def apply (relative : Relative) (directory : PathBuf) : PathBuf :=
  directory.take (directory.length - relative.up) ++ relative.down

theorem apply_push (relative : Relative) (directory : PathBuf) (piece : String) :
    (relative.push piece).apply directory = (relative.apply directory).pushPiece piece := by
  unfold push pushPiece
  split_ifs with skipped up climbed
  · rfl
  · simp only [apply, climbed, append_nil, dropLast_eq_take, take_take, length_take]
    congr 1
    omega
  · simp only [apply, dropLast_append_of_ne_nil climbed]
  · simp only [apply, append_assoc]

theorem apply_foldl (pieces : List String) (relative : Relative) (directory : PathBuf) :
    (pieces.foldl push relative).apply directory = pieces.foldl pushPiece (relative.apply directory) := by
  induction pieces generalizing relative with
  | nil => rfl
  | cons _ pieces ih => rw [foldl_cons, ih, apply_push, foldl_cons]

end Relative

theorem join_eq_apply (relative : text.startsWith "/" = false) (directory : PathBuf) :
    directory.join text = (Relative.ofString text).apply directory := by
  rw [Relative.ofString, Relative.apply_foldl, join_eq_foldl, relative]
  simp [Relative.apply]

theorem join_eq_ofString_iff (relative : text.startsWith "/" = false) :
    directory.join text = ofString text ↔ directory.length ≤ (Relative.ofString text).up := by
  rw [ofString, join_eq_apply relative, join_eq_apply relative, Relative.apply, Relative.apply, take_nil,
    append_left_inj, take_eq_nil_iff]
  constructor
  · rintro (climbs | rfl)
    · omega
    · exact Nat.zero_le _
  · intro climbs
    exact .inl (by omega)

end MonkeyOS.Tasks.PathBuf
