import MonkeyOS.Fs.Descriptor
import MonkeyOS.Fs.Mount
import MonkeyOS.Ramfs.Directory

/-!
# Paths into the ram file system

`File::open` and `File::remove_self` of `filesystem/fs/src/file.rs`, `fd_resolve` of
`kernel/src/tasks/task.rs` and the calls of `kernel/src/syscall/fd.rs` that make, rename
and remove entries. Every mount is a directory of one `RamFs`. A path text is given by
its pieces between slashes. Of the descriptor table these calls see the path behind
`dir_fd`, or that of the current directory, and how many descriptors are free.
-/

set_option autoImplicit false

namespace MonkeyOS

namespace Tasks

/-- A path text: whether it begins with a slash, and `split("/")`. -/
structure PathText where
  absolute : Bool
  pieces : List String
  deriving DecidableEq, Repr

def PathText.ofString (path : String) : PathText := { absolute := path.startsWith "/", pieces := path.splitOn "/" }

def PathText.piece (piece : String) : PathText := { absolute := false, pieces := [piece] }

namespace PathBuf

def pushPiece (components : PathBuf) (name : String) : PathBuf :=
  if name = "." ∨ name = "" then components
  else if name = ".." then components.dropLast
  else components ++ [name]

def joinText (directory : PathBuf) (path : PathText) : PathBuf :=
  path.pieces.foldl pushPiece (if path.absolute then [] else directory)

theorem join_eq (directory : PathBuf) (path : String) : directory.join path = directory.joinText (.ofString path) :=
  rfl

def filename (path : PathBuf) : String := path.getLast?.getD "/"

def dir (path : PathBuf) : PathBuf := path.dropLast

end PathBuf

end Tasks

namespace Fs

open Ramfs Tasks

def oCreat : Nat := 0x40

def oDirectory : Nat := 0x10000

def O_CREAT (flags : Nat) : Bool := flags.testBit 6

def O_DIRECTORY (flags : Nat) : Bool := flags.testBit 16

/-- `AT_REMOVEDIR`, the bit that `OpenFlags` reads as `O_TRUNC`. -/
def atRemovedir : Nat := 0x200

/-- A file as `open` returns it: at its beginning. -/
structure OpenFile where
  inner : RamNode
  pathBuf : PathBuf
  flags : Nat
  deriving DecidableEq, Repr

section Calls

variable (mounted : MountedFs Nat)

def walk (fs : RamFs) (node : RamNode) (path : PathBuf) : Except Errno RamNode :=
  path.foldlM (fun node name => node.lookup fs name) node

/-- No answer if the path has no mount. -/
def openFile (fs : RamFs) (pathBuf : PathBuf) (flags : Nat) : Option (Except Errno OpenFile × RamFs) :=
  match mounted.getMounted pathBuf with
  | none => none
  | some (root, path) =>
    if path.length > 0 then
      match walk fs (.ramDir root) path.dir with
      | .error errno => some (.error errno, fs)
      | .ok parent =>
        match if O_CREAT flags then parent.create fs path.filename (O_DIRECTORY flags) else .ok fs with
        | .error errno => some (.error errno, fs)
        | .ok fs => some ((parent.lookup fs path.filename).map fun inner => { inner, pathBuf, flags }, fs)
    else some (.ok { inner := .ramDir root, pathBuf, flags }, fs)

def OpenFile.removeSelf (file : OpenFile) (fs : RamFs) : Option (Except Errno Unit × RamFs) :=
  match openFile mounted fs file.pathBuf.dir oDirectory with
  | none => none
  | some (.error errno, fs) => some (.error errno, fs)
  | some (.ok dir, fs) => some (dir.inner.remove fs file.pathBuf.filename)

/-- The path behind `dir_fd` is missing if the descriptor is not open. -/
def fdResolve (dir : Option PathBuf) (filename : PathText) : Except Errno PathBuf :=
  if filename.absolute then .ok (PathBuf.joinText [] filename)
  else
    match dir with
    | none => .error .EBADF
    | some parent => .ok (parent.joinText filename)

def fdOpen (fs : RamFs) (dir : Option PathBuf) (filename : PathText) (flags : Nat) :
    Option (Except Errno OpenFile × RamFs) :=
  match fdResolve dir filename with
  | .error errno => some (.error errno, fs)
  | .ok path => openFile mounted fs path flags

/-- The answer of `openat` is the new descriptor; its number is left out. -/
def sysOpenat (fs : RamFs) (dir : Option PathBuf) (freeFds : Nat) (filename : PathText) (flags : Nat) :
    Option (Except Errno Unit × RamFs) :=
  (fdOpen mounted fs dir filename flags).map fun opened =>
    (match opened.1 with
      | .error errno => .error errno
      | .ok _ => if freeFds = 0 then .error .EMFILE else .ok (),
      opened.2)

/-- The loop over the components of `sys_mkdir_at`; every directory on the way gets a
descriptor that is not closed. -/
def mkdirComponents : (components : List String) → (dir : Option PathBuf) → (freeFds : Nat) → RamFs →
    Option (Except Errno Nat × RamFs)
  | [], _, _, fs => some (.ok 0, fs)
  | component :: components, dir, freeFds, fs =>
    match fdOpen mounted fs dir (.piece component) (oDirectory ||| oCreat) with
    | none => none
    | some (.error errno, fs) => some (.error errno, fs)
    | some (.ok file, fs) =>
      match freeFds with
      | 0 => some (.error .EMFILE, fs)
      | freeFds + 1 => mkdirComponents components (some file.pathBuf) freeFds fs

def sysMkdirAt (fs : RamFs) (dir : Option PathBuf) (freeFds : Nat) (path : PathText) :
    Option (Except Errno Nat × RamFs) :=
  let components := path.pieces.filter fun piece => piece ≠ ""
  if components = [] then some (.error .EEXIST, fs)
  else if path.absolute then
    match openFile mounted fs [] oDirectory with
    | none => none
    | some (.error errno, fs) => some (.error errno, fs)
    | some (.ok root, fs) =>
      match freeFds with
      | 0 => some (.error .EMFILE, fs)
      | freeFds + 1 => mkdirComponents mounted components (some root.pathBuf) freeFds fs
  else mkdirComponents mounted components dir freeFds fs

def sysUnlinkat (fs : RamFs) (dir : Option PathBuf) (path : PathText) (flags : Nat) :
    Option (Except Errno Nat × RamFs) :=
  match fdOpen mounted fs dir path flags with
  | none => none
  | some (.error errno, fs) => some (.error errno, fs)
  | some (.ok file, fs) => (file.removeSelf mounted fs).map fun removed => (removed.1.map fun _ => 0, removed.2)

/-- `linkat` opens the old path, and makes no link. -/
def sysLinkat (fs : RamFs) (olddir : Option PathBuf) (oldpath : PathText) : Option (Except Errno Nat × RamFs) :=
  (fdOpen mounted fs olddir oldpath 0).map fun opened => (opened.1.map fun _ => 0, opened.2)

variable {σ : Type} (alloc : σ → Option Page × σ)

def OpenFile.write (file : OpenFile) (fs : RamFs) (state : σ) (buffer : List UInt8) : Except Errno Nat × RamFs × σ :=
  if O_RDWR file.flags || O_WRONLY file.flags then
    if buffer.length = 0 then (.ok 0, fs, state) else file.inner.writeat fs alloc state 0 buffer
  else (.error .EPERM, fs, state)

/-- The bytes of the old file are copied into the new one; the old one stays. No answer if
it is a link, or cannot be read. -/
def sysRenameat2 (fs : RamFs) (state : σ) (olddir : Option PathBuf) (oldpath : PathText) (newdir : Option PathBuf)
    (newpath : PathText) (flags : Nat) : Option (Except Errno Nat × RamFs × σ) :=
  match fdOpen mounted fs olddir oldpath flags with
  | none => none
  | some (.error errno, fs) => some (.error errno, fs, state)
  | some (.ok oldFile, fs) =>
    match oldFile.inner.fileType with
    | .File =>
      match fdOpen mounted fs newdir newpath (oCreat ||| flags) with
      | none => none
      | some (.error errno, fs) => some (.error errno, fs, state)
      | some (.ok newFile, fs) =>
        let fileSize := oldFile.inner.size fs
        match oldFile.inner.readat fs 0 fileSize with
        | none => none
        | some (.error errno) => some (.error errno, fs, state)
        | some (.ok (_, bytes)) =>
          let buffer := bytes ++ List.replicate (fileSize - bytes.length) 0
          match newFile.write alloc fs state buffer with
          | (.error errno, fs, state) => some (.error errno, fs, state)
          | (.ok _, fs, state) =>
            let (truncated, fs, state) := newFile.inner.truncate fs alloc state buffer.length
            some (truncated.map fun _ => 0, fs, state)
    | .Directory =>
      match fdOpen mounted fs newdir newpath (oCreat ||| oDirectory ||| flags) with
      | none => none
      | some (opened, fs) => some (opened.map fun _ => 0, fs, state)
    | .Link => none

end Calls

end Fs

end MonkeyOS
