import MonkeyOS.Ramfs.File

/-!
# Directories of the ram file system

`RamFs`, `RamDir` and `RamLink` of `filesystem/ramfs/src/lib.rs`, with the defaults of
`INodeInterface` in `filesystem/vfscore/src/lib.rs` for what a node does not do itself.
Directories and files are shared by reference, and a reference is a number here. Of
`stat` the type and the size are kept; times are left out.
-/

set_option autoImplicit false

namespace MonkeyOS.Ramfs

inductive FileType where
  | File | Directory | Link
  deriving DecidableEq, Repr

inductive RamNode where
  | ramFile (inner : Nat)
  | ramDir (inner : Nat)
  | ramLink (linkFile : RamNode)
  deriving DecidableEq, Repr

inductive FileContainer where
  | File (name : String) (inner : Nat)
  | Dir (name : String) (inner : Nat)
  | Link (name : String) (linkFile : RamNode)
  deriving DecidableEq, Repr

namespace FileContainer

def toInode : FileContainer → RamNode
  | File _ inner => .ramFile inner
  | Dir _ inner => .ramDir inner
  | Link _ linkFile => .ramLink linkFile

def filename : FileContainer → String
  | File name _ | Dir name _ | Link name _ => name

def isDir : FileContainer → Bool
  | Dir _ _ => true
  | _ => false

end FileContainer

/-- The children of every directory and the files, each at its number. -/
structure RamFs where
  dirs : List (List FileContainer)
  files : List RamFile

namespace RamFs

/-- `RamFs::new`: an empty root, number 0. -/
def new : RamFs := { dirs := [[]], files := [] }

def children (fs : RamFs) (dir : Nat) : List FileContainer := fs.dirs.getD dir []

def file (fs : RamFs) (inner : Nat) : RamFile := fs.files.getD inner .new

def names (fs : RamFs) (dir : Nat) : List String := (fs.children dir).map FileContainer.filename

def push (fs : RamFs) (dir : Nat) (child : FileContainer) : RamFs :=
  { fs with dirs := fs.dirs.modify dir fun children => children ++ [child] }

/-! ## Methods of a directory -/

def lookup (fs : RamFs) (dir : Nat) (name : String) : Except Errno RamNode :=
  match (fs.children dir).find? fun child => child.filename = name with
  | some child => .ok child.toInode
  | none => .error .ENOENT

/-- Only directories and files are asked for; no name is looked for. -/
def create (fs : RamFs) (dir : Nat) (name : String) (directory : Bool) : RamFs :=
  if directory then
    let pushed := fs.push dir (.Dir name fs.dirs.length)
    { pushed with dirs := pushed.dirs ++ [[]] }
  else
    let pushed := fs.push dir (.File name fs.files.length)
    { pushed with files := pushed.files ++ [.new] }

def mkdir (fs : RamFs) (dir : Nat) (name : String) : Except Errno Unit × RamFs :=
  if name ∈ fs.names dir then (.error .EEXIST, fs) else (.ok (), fs.create dir name true)

def link (fs : RamFs) (dir : Nat) (name : String) (src : RamNode) : Except Errno Unit × RamFs :=
  if name ∈ fs.names dir then (.error .EEXIST, fs) else (.ok (), fs.push dir (.Link name src))

/-- `extract_if`, answering `ENOENT` if there is nothing to extract. -/
def extract (fs : RamFs) (dir : Nat) (gone : FileContainer → Bool) : Except Errno Unit × RamFs :=
  (if (fs.children dir).any gone then .ok () else .error .ENOENT,
    { fs with dirs := fs.dirs.modify dir fun children => children.filter fun child => !gone child })

def rmdir (fs : RamFs) (dir : Nat) (name : String) : Except Errno Unit × RamFs :=
  fs.extract dir fun child => child.isDir && child.filename = name

def remove (fs : RamFs) (dir : Nat) (name : String) : Except Errno Unit × RamFs :=
  fs.extract dir fun child => !child.isDir && child.filename = name

def unlink (fs : RamFs) (dir : Nat) (name : String) : Except Errno Unit × RamFs := fs.remove dir name

end RamFs

/-! ## Methods of an inode -/

namespace RamNode

variable (fs : RamFs)

def lookup : RamNode → String → Except Errno RamNode
  | ramDir inner, name => fs.lookup inner name
  | _, _ => .error .ENOENT

def create : RamNode → (name : String) → (directory : Bool) → Except Errno RamFs
  | ramDir inner, name, directory => .ok (fs.create inner name directory)
  | _, _, _ => .error .ENOTDIR

def mkdir : RamNode → String → Except Errno Unit × RamFs
  | ramDir inner, name => fs.mkdir inner name
  | _, _ => (.error .EEXIST, fs)

def rmdir : RamNode → String → Except Errno Unit × RamFs
  | ramDir inner, name => fs.rmdir inner name
  | _, _ => (.error .ENOENT, fs)

def remove : RamNode → String → Except Errno Unit × RamFs
  | ramDir inner, name => fs.remove inner name
  | _, _ => (.error .ENOENT, fs)

def unlink : RamNode → String → Except Errno Unit × RamFs
  | ramDir inner, name => fs.unlink inner name
  | _, _ => (.error .EPERM, fs)

def link : RamNode → String → (src : RamNode) → Except Errno Unit × RamFs
  | ramDir inner, name, src => fs.link inner name src
  | _, _, _ => (.error .EPERM, fs)

def fileType : RamNode → FileType
  | ramFile _ => .File
  | ramDir _ => .Directory
  | ramLink _ => .Link

def size : RamNode → Nat
  | ramFile inner => (fs.file inner).len
  | ramDir _ => 0
  | ramLink _ => 3

def readat : RamNode → (offset bufferLen : Nat) → Option (Except Errno (Nat × List UInt8))
  | ramFile inner, offset, bufferLen => ((fs.file inner).readat offset bufferLen).map .ok
  | ramDir _, _, _ => some (.error .ENOENT)
  | ramLink linkFile, offset, bufferLen => linkFile.readat offset bufferLen

variable {σ : Type} (alloc : σ → Option Page × σ) (state : σ)

def writeat : RamNode → (offset : Nat) → List UInt8 → Except Errno Nat × RamFs × σ
  | ramFile inner, offset, buffer =>
    let (result, file, state) := (fs.file inner).writeat alloc state offset buffer
    (result, { fs with files := fs.files.set inner file }, state)
  | ramDir _, _, _ => (.error .ENOENT, fs, state)
  | ramLink linkFile, offset, buffer => linkFile.writeat offset buffer

def truncate : RamNode → (size : Nat) → Except Errno Unit × RamFs × σ
  | ramFile inner, size =>
    let (result, file, state) := (fs.file inner).truncate alloc state size
    (result, { fs with files := fs.files.set inner file }, state)
  | ramDir _, _ => (.error .EPERM, fs, state)
  | ramLink linkFile, size => linkFile.truncate size

end RamNode

end MonkeyOS.Ramfs
