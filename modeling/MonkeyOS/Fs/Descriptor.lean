import MonkeyOS.Fs.Blocking
import MonkeyOS.Ramfs.File

/-!
# Writing through descriptors

`File` of `filesystem/fs/src/file.rs`, and the calls of `kernel/src/syscall/fd.rs` that
write through a descriptor. Whether the file was opened for writing is checked by
`File::write` and `File::writeat`, one by one; `async_write` and `truncate` do not
check. Offsets that a call stores in user memory are left out.
-/

set_option autoImplicit false

namespace MonkeyOS.Fs

open Lib Function

/-- An inode that holds a file: reading it changes nothing. -/
structure Node (ν : Type) extends INode ν UInt8 where
  truncate : ν → Nat → Except Errno Unit × ν
  /-- The size in the answer of `stat`. -/
  size : ν → Except Errno Nat
  readat_same : ∀ state offset len, (readat state offset len).2 = state

def O_WRONLY (flags : Nat) : Bool := flags.testBit 0

def O_RDWR (flags : Nat) : Bool := flags.testBit 1

structure File where
  /-- The inode, by number. -/
  inner : Nat
  offset : Nat
  flags : Nat
  deriving DecidableEq, Repr

def File.checkWriteable (file : File) : Except Errno Unit :=
  if O_RDWR file.flags || O_WRONLY file.flags then .ok () else .error .EPERM

/-- Open files; descriptors made by `dup` share one. -/
structure OpenFiles (ν : Type) where
  nodes : Nat → ν
  files : Nat → File
  fdTable : Nat → Option Nat
  /-- The `async_write` a thread waits in, with its file. -/
  waiting : Nat → Option (Nat × WaitBlockingWrite UInt8)

namespace OpenFiles

variable {ν : Type} (node : Node ν)

def setOffset (fs : OpenFiles ν) (file offset : Nat) : OpenFiles ν :=
  { fs with files := update fs.files file { fs.files file with offset } }

def advance (fs : OpenFiles ν) (file count : Nat) : OpenFiles ν :=
  fs.setOffset file (wrapAdd (fs.files file).offset count)

/-! ## Methods of a file -/

def readat (fs : OpenFiles ν) (file offset len : Nat) : Except Errno (List UInt8) × OpenFiles ν :=
  let inner := (fs.files file).inner
  let (answer, state) := node.readat (fs.nodes inner) offset len
  (answer, { fs with nodes := update fs.nodes inner state })

def read (fs : OpenFiles ν) (file len : Nat) : Except Errno (List UInt8) × OpenFiles ν :=
  match fs.readat node file (fs.files file).offset len with
  | (.ok bytes, fs) => (.ok bytes, fs.advance file bytes.length)
  | (.error err, fs) => (.error err, fs)

def fileSize (fs : OpenFiles ν) (file : Nat) : Except Errno Nat := node.size (fs.nodes (fs.files file).inner)

/-- `seek(SeekFrom::CURRENT(0))`; an offset with the sign bit becomes zero. -/
def seekCurrent (fs : OpenFiles ν) (file : Nat) : Except Errno Nat × OpenFiles ν :=
  match fs.fileSize node file with
  | .error err => (.error err, fs)
  | .ok _ =>
    let offset := (fs.files file).offset
    let newOff := if offset < 2 ^ 63 then offset else 0
    (.ok newOff, fs.setOffset file newOff)

def writeat (fs : OpenFiles ν) (file offset : Nat) (buffer : List UInt8) : Except Errno Nat × OpenFiles ν :=
  match (fs.files file).checkWriteable with
  | .error err => (.error err, fs)
  | .ok () =>
    if buffer.length = 0 then (.ok 0, fs)
    else
      let inner := (fs.files file).inner
      let (answer, state) := node.writeat (fs.nodes inner) offset buffer
      (answer, { fs with nodes := update fs.nodes inner state })

def write (fs : OpenFiles ν) (file : Nat) (buffer : List UInt8) : Except Errno Nat × OpenFiles ν :=
  match (fs.files file).checkWriteable with
  | .error err => (.error err, fs)
  | .ok () =>
    if buffer.length = 0 then (.ok 0, fs)
    else
      let inner := (fs.files file).inner
      match node.writeat (fs.nodes inner) (fs.files file).offset buffer with
      | (.ok count, state) =>
        (.ok count, { fs with nodes := update fs.nodes inner state }.advance file count)
      | (.error err, state) => (.error err, { fs with nodes := update fs.nodes inner state })

def pollWrite (fs : OpenFiles ν) (thread file : Nat) (future : WaitBlockingWrite UInt8) :
    Poll (Except Errno Nat) × OpenFiles ν :=
  let inner := (fs.files file).inner
  match future.poll node.toINode (fs.nodes inner) with
  | (.pending, future, state) =>
    (.pending, { fs with
      nodes := update fs.nodes inner state
      waiting := update fs.waiting thread (some (file, future)) })
  | (.ready answer, _, state) =>
    let fs := { fs with
      nodes := update fs.nodes inner state
      waiting := update fs.waiting thread none }
    (.ready answer,
      match answer with
      | .ok count => fs.advance file count
      | .error _ => fs)

/-- The first poll; `check_writeable` is commented out in the source. -/
def asyncWrite (fs : OpenFiles ν) (thread file : Nat) (buffer : List UInt8) : Poll (Except Errno Nat) × OpenFiles ν :=
  if buffer.length = 0 then (.ready (.ok 0), fs)
  else fs.pollWrite node thread file { buffer, offset := (fs.files file).offset, retries := 0 }

def truncate (fs : OpenFiles ν) (file size : Nat) : Except Errno Unit × OpenFiles ν :=
  let inner := (fs.files file).inner
  let (answer, state) := node.truncate (fs.nodes inner) size
  (answer, { fs with nodes := update fs.nodes inner state })

/-! ## Calls -/

def sysWrite (fs : OpenFiles ν) (thread fd : Nat) (buffer : List UInt8) : Poll (Except Errno Nat) × OpenFiles ν :=
  match fs.fdTable fd with
  | none => (.ready (.error .EBADF), fs)
  | some file => fs.asyncWrite node thread file buffer

/-- The loop of `sys_writev`, with what it has written. -/
def writeAll (file : Nat) : List (List UInt8) → Nat → OpenFiles ν → Except Errno Nat × OpenFiles ν
  | [], wsize, fs => (.ok wsize, fs)
  | buffer :: buffers, wsize, fs =>
    match fs.write node file buffer with
    | (.ok count, fs) => writeAll file buffers (wrapAdd wsize count) fs
    | (.error err, fs) => (.error err, fs)

def sysWritev (fs : OpenFiles ν) (fd : Nat) (buffers : List (List UInt8)) : Except Errno Nat × OpenFiles ν :=
  match fs.fdTable fd with
  | none => (.error .EBADF, fs)
  | some file => writeAll node file buffers 0 fs

def sysPwrite (fs : OpenFiles ν) (fd : Nat) (buffer : List UInt8) (offset : Nat) : Except Errno Nat × OpenFiles ν :=
  match fs.fdTable fd with
  | none => (.error .EBADF, fs)
  | some file => fs.writeat node file offset buffer

def filled (bytes : List UInt8) (len : Nat) : List UInt8 := bytes ++ List.replicate (len - bytes.length) 0

/-- The lengths of the byte vectors that the heap, and the frames it grows by, can give now.
Otherwise `vec!` panics; it always does from 2^63 bytes on. -/
structure VecRoom where
  gives : Nat → Bool
  empty : gives 0
  short : ∀ len, gives len → len < 2 ^ 63

/-- No answer if there is no memory for the buffer. The descriptor of the input is set to
the file it already has. -/
def sysSendfile (fs : OpenFiles ν) (room : VecRoom) (outFd inFd offset count : Nat) :
    Option (Except Errno Nat × OpenFiles ν) :=
  match fs.fdTable outFd, fs.fdTable inFd with
  | some outFile, some inFile =>
    let (start, fs) := if offset ≠ 0 then (.ok offset, fs) else fs.seekCurrent node inFile
    match start, fs.fileSize node inFile with
    | .ok currOff, .ok size =>
      let rlen := min (wrapSub size currOff) count
      if !room.gives rlen then none
      else
        match if offset = 0 then fs.read node inFile rlen else fs.readat node inFile offset rlen with
        | (.ok bytes, fs) => some (fs.write node outFile (filled bytes rlen))
        | (.error err, fs) => some (.error err, fs)
    | .error err, _ => some (.error err, fs)
    | .ok _, .error err => some (.error err, fs)
  | _, _ => some (.error .EINVAL, fs)

/-- `off_in` and `off_out` are there if their pointers are not null. No answer if the
flags are refused or there is no memory for the buffer. -/
def sysCopyFileRange (fs : OpenFiles ν) (room : VecRoom) (fdIn : Nat) (offIn : Option Nat) (fdOut : Nat)
    (offOut : Option Nat) (len flags : Nat) : Option (Except Errno Nat × OpenFiles ν) :=
  if flags ≠ 0 then none
  else
    match fs.fdTable fdIn, fs.fdTable fdOut with
    | some inFile, some outFile =>
      if !room.gives len then none
      else
        match match offIn with
          | some offset => fs.readat node inFile offset len
          | none => fs.read node inFile len with
        | (.error err, fs) => some (.error err, fs)
        | (.ok bytes, fs) =>
          if bytes.length = 0 then some (.ok 0, fs)
          else
            match match offOut with
              | some offset => fs.writeat node outFile offset bytes
              | none => fs.write node outFile bytes with
            | (.error err, fs) => some (.error err, fs)
            | (.ok _, fs) => some (.ok bytes.length, fs)
    | _, _ => some (.error .EBADF, fs)

def sysFtruncate (fs : OpenFiles ν) (fields len : Nat) : Except Errno Nat × OpenFiles ν :=
  if fields = usizeBound - 1 then (.error .EPERM, fs)
  else
    match fs.fdTable fields with
    | none => (.error .EINVAL, fs)
    | some file =>
      match fs.truncate node file len with
      | (.ok (), fs) => (.ok 0, fs)
      | (.error err, fs) => (.error err, fs)

end OpenFiles

inductive WriteCall where
  | write (thread : Nat) (buffer : List UInt8)
  /-- The next poll of a `write` that waits. -/
  | poll (thread : Nat)
  | writev (buffers : List (List UInt8))
  | pwrite (buffer : List UInt8) (offset : Nat)
  | sendfile (inFd offset count : Nat)
  | copyFileRange (fdIn : Nat) (offIn offOut : Option Nat) (len flags : Nat)
  | ftruncate (len : Nat)

namespace OpenFiles

variable {ν : Type} (node : Node ν) (fd : Nat)

inductive Step : OpenFiles ν → WriteCall → OpenFiles ν → Prop where
  | write {fs thread buffer} (free : fs.waiting thread = none) :
      Step fs (.write thread buffer) (fs.sysWrite node thread fd buffer).2
  | poll {fs thread file future} (waits : fs.waiting thread = some (file, future)) :
      Step fs (.poll thread) (fs.pollWrite node thread file future).2
  | writev {fs buffers} : Step fs (.writev buffers) (fs.sysWritev node fd buffers).2
  | pwrite {fs buffer offset} : Step fs (.pwrite buffer offset) (fs.sysPwrite node fd buffer offset).2
  | sendfile {fs inFd offset count answer after} (room : VecRoom)
      (done : fs.sysSendfile node room fd inFd offset count = some (answer, after)) :
      Step fs (.sendfile inFd offset count) after
  | copyFileRange {fs fdIn offIn offOut len flags answer after} (room : VecRoom)
      (done : fs.sysCopyFileRange node room fdIn offIn fd offOut len flags = some (answer, after)) :
      Step fs (.copyFileRange fdIn offIn offOut len flags) after
  | ftruncate {fs len} : Step fs (.ftruncate len) (fs.sysFtruncate node fd len).2

/-! ## Files that are not open for writing -/

variable {node} {fd}

/-- At most offsets have moved. -/
structure Same (before after : OpenFiles ν) : Prop where
  nodes : after.nodes = before.nodes
  fdTable : after.fdTable = before.fdTable
  waiting : after.waiting = before.waiting
  inner : ∀ file, (after.files file).inner = (before.files file).inner
  flags : ∀ file, (after.files file).flags = (before.files file).flags

variable {fs middle after : OpenFiles ν} {file : Nat}

theorem Same.refl : fs.Same fs := ⟨rfl, rfl, rfl, fun _ => rfl, fun _ => rfl⟩

theorem Same.trans (left : fs.Same middle) (right : middle.Same after) : fs.Same after where
  nodes := right.nodes.trans left.nodes
  fdTable := right.fdTable.trans left.fdTable
  waiting := right.waiting.trans left.waiting
  inner file := (right.inner file).trans (left.inner file)
  flags file := (right.flags file).trans (left.flags file)

theorem same_setOffset (fs : OpenFiles ν) (file offset : Nat) : fs.Same (fs.setOffset file offset) := by
  have others (other : Nat) : ((fs.setOffset file offset).files other).inner = (fs.files other).inner ∧
      ((fs.setOffset file offset).files other).flags = (fs.files other).flags := by
    by_cases same : other = file
    · simp [setOffset, same]
    · simp [setOffset, update_of_ne same]
  exact ⟨rfl, rfl, rfl, fun other => (others other).1, fun other => (others other).2⟩

theorem same_readat (fs : OpenFiles ν) (file offset len : Nat) : fs.Same (fs.readat node file offset len).2 := by
  have kept : (fs.readat node file offset len).2 = fs := by
    simp only [readat, node.readat_same, update_eq_self]
  rw [kept]
  exact .refl

theorem same_read (fs : OpenFiles ν) (file len : Nat) : fs.Same (fs.read node file len).2 := by
  have readat := @same_readat ν node fs file (fs.files file).offset len
  unfold read
  split
  next _ _ answered =>
    rw [answered] at readat
    exact readat.trans (same_setOffset ..)
  next answered =>
    rw [answered] at readat
    exact readat

theorem same_seekCurrent (fs : OpenFiles ν) (file : Nat) : fs.Same (fs.seekCurrent node file).2 := by
  unfold seekCurrent
  split
  · exact .refl
  · exact same_setOffset ..

section ReadOnly

variable (readOnly : (fs.files file).checkWriteable = .error .EPERM)
include readOnly

theorem write_refused (buffer : List UInt8) : fs.write node file buffer = (.error .EPERM, fs) := by
  simp only [write, readOnly]

theorem writeat_refused (offset : Nat) (buffer : List UInt8) :
    fs.writeat node file offset buffer = (.error .EPERM, fs) := by
  simp only [writeat, readOnly]

theorem writeAll_refused (buffers : List (List UInt8)) (wsize : Nat) :
    (writeAll node file buffers wsize fs).2 = fs := by
  cases buffers with
  | nil => rfl
  | cons _ buffers => simp only [writeAll, write_refused readOnly]

end ReadOnly

theorem Same.readOnly (same : fs.Same after) (readOnly : (fs.files file).checkWriteable = .error .EPERM) :
    (after.files file).checkWriteable = .error .EPERM := by
  rw [File.checkWriteable, same.flags]
  exact readOnly

variable {answer : Except Errno Nat} {room : VecRoom}

variable (opened : fs.fdTable fd = some file) (readOnly : (fs.files file).checkWriteable = .error .EPERM)
include opened readOnly

theorem same_sysSendfile {inFd offset count : Nat}
    (done : fs.sysSendfile node room fd inFd offset count = some (answer, after)) : fs.Same after := by
  unfold sysSendfile at done
  rw [opened] at done
  cases input : fs.fdTable inFd with
  | none =>
    rw [input] at done
    cases done
    exact .refl
  | some inFile =>
    rw [input] at done
    have sought : fs.Same (if offset ≠ 0 then (Except.ok offset, fs) else fs.seekCurrent node inFile).2 := by
      split
      · exact .refl
      · exact same_seekCurrent ..
    dsimp only at done
    generalize (if offset ≠ 0 then (Except.ok offset, fs) else fs.seekCurrent node inFile) = seek at done sought
    obtain ⟨_, seekFs⟩ := seek
    split at done
    next currOff size _ _ =>
      split at done
      · cases done
      · have read : seekFs.Same (if offset = 0 then seekFs.read node inFile (min (wrapSub size currOff) count)
            else seekFs.readat node inFile offset (min (wrapSub size currOff) count)).2 := by
          split
          · exact same_read ..
          · exact same_readat ..
        split at done
        next _ _ answered =>
          rw [answered] at read
          rw [write_refused ((sought.trans read).readOnly readOnly)] at done
          cases done
          exact sought.trans read
        next answered =>
          rw [answered] at read
          cases done
          exact sought.trans read
    · cases done
      exact sought
    · cases done
      exact sought

theorem same_sysCopyFileRange {fdIn len flags : Nat} {offIn offOut : Option Nat}
    (done : fs.sysCopyFileRange node room fdIn offIn fd offOut len flags = some (answer, after)) : fs.Same after := by
  unfold sysCopyFileRange at done
  rw [opened] at done
  split at done
  · cases done
  cases input : fs.fdTable fdIn with
  | none =>
    rw [input] at done
    cases done
    exact .refl
  | some inFile =>
    rw [input] at done
    dsimp only at done
    split at done
    · cases done
    have read : fs.Same (match offIn with
        | some offset => fs.readat node inFile offset len
        | none => fs.read node inFile len).2 := by
      cases offIn with
      | some => exact same_readat ..
      | none => exact same_read ..
    split at done
    next answered =>
      rw [answered] at read
      cases done
      exact read
    next _ _ answered =>
      rw [answered] at read
      have refused := read.readOnly readOnly
      split at done
      · cases done
        exact read
      · cases offOut with
        | some =>
          simp only [writeat_refused refused] at done
          cases done
          exact read
        | none =>
          simp only [write_refused refused] at done
          cases done
          exact read

omit opened readOnly

/-- Calls that check: `write` with a buffer and `ftruncate` do not. -/
def Checked : WriteCall → Prop
  | .write _ buffer => buffer = []
  | .ftruncate _ => False
  | _ => True

theorem Step.same {call : WriteCall} (step : Step node fd fs call after) (checked : Checked call)
    (opened : fs.fdTable fd = some file) (readOnly : (fs.files file).checkWriteable = .error .EPERM)
    (idle : ∀ thread, fs.waiting thread = none) : fs.Same after := by
  cases step with
  | write =>
    obtain rfl := checked
    simp only [sysWrite, opened, asyncWrite, List.length_nil, if_true]
    exact .refl
  | @poll thread _ _ waits =>
    rw [idle thread] at waits
    cases waits
  | writev =>
    simp only [sysWritev, opened, writeAll_refused readOnly]
    exact .refl
  | pwrite =>
    simp only [sysPwrite, opened, writeat_refused readOnly]
    exact .refl
  | sendfile _ done => exact same_sysSendfile opened readOnly done
  | copyFileRange _ done => exact same_sysCopyFileRange opened readOnly done
  | ftruncate => exact checked.elim

/-- A file that is not open for writing keeps its inode, as long as nothing is written by
`write` and the file is not truncated. -/
theorem read_only_unchanged {start finish : OpenFiles ν} {calls : List WriteCall}
    (opened : start.fdTable fd = some file)
    (readOnly : O_WRONLY (start.files file).flags = false ∧ O_RDWR (start.files file).flags = false)
    (idle : ∀ thread, start.waiting thread = none)
    (run : Run (fun before call after => Step node fd before call after ∧ Checked call) start calls finish) :
    finish.nodes (start.files file).inner = start.nodes (start.files file).inner := by
  have refused : (start.files file).checkWriteable = .error .EPERM := by
    simp [File.checkWriteable, readOnly]
  have same : start.Same finish := by
    refine run.preserves (fun same step => same.trans ?_) .refl
    exact step.1.same step.2 (by rw [same.fdTable, opened]) (same.readOnly refused)
      fun thread => by rw [same.waiting, idle thread]
  rw [same.nodes]

end OpenFiles

/-- A file of the ram file system, on a machine that does not run out of frames. A file
that has its pages does not panic when it is read. -/
def ramNode : Node Ramfs.RamFile where
  readat file offset len :=
    (match file.readat offset len with
      | some (_, bytes) => .ok bytes
      | none => .error .EFAULT, file)
  writeat file offset buffer :=
    let (answer, file, _) := file.writeat (fun state => (some Page.zero, state)) () offset buffer
    (answer, file)
  truncate file size :=
    let (answer, file, _) := file.truncate (fun state => (some Page.zero, state)) () size
    (answer, file)
  size file := .ok file.len
  readat_same _ _ _ := rfl

/-- There is memory for a vector of a page. -/
def OpenFiles.onePage : OpenFiles.VecRoom where
  gives len := len ≤ pageSize
  empty := rfl
  short _ given := (of_decide_eq_true given).trans_lt (by decide)

/-- Descriptor 3 has an empty file opened with `O_RDONLY`, descriptor 4 another one. -/
def OpenFiles.twoFiles : OpenFiles Ramfs.RamFile where
  nodes
    | 1 => { len := 2, pages := [fun _ => 7] }
    | _ => .new
  files file := { inner := file, offset := 0, flags := 0 }
  fdTable
    | 3 => some 0
    | 4 => some 1
    | _ => none
  waiting _ := none

namespace OpenFiles

theorem read_only_unchanged_checked :
    ∃ finish, Run (fun before call after => Step ramNode 3 before call after ∧ Checked call) OpenFiles.twoFiles
        [.writev [[1], [2]], .pwrite [1] 5, .sendfile 4 0 2, .copyFileRange 4 (some 0) none 2 0, .write 1 []] finish ∧
      (finish.nodes 0).len = 0 := by
  obtain ⟨finish, run⟩ : ∃ finish, Run (fun before call after => Step ramNode 3 before call after ∧ Checked call)
      OpenFiles.twoFiles
      [.writev [[1], [2]], .pwrite [1] 5, .sendfile 4 0 2, .copyFileRange 4 (some 0) none 2 0, .write 1 []] finish :=
    ⟨_, .cons ⟨.writev, trivial⟩ (.cons ⟨.pwrite, trivial⟩
      (.cons ⟨.sendfile onePage (Option.some_get (by decide +kernel)).symm, trivial⟩
        (.cons ⟨.copyFileRange onePage (Option.some_get (by decide +kernel)).symm, trivial⟩
          (.cons ⟨.write (by decide +kernel), rfl⟩ .refl))))⟩
  refine ⟨finish, run, ?_⟩
  have unchanged := @read_only_unchanged _ _ 3 0 _ _ _ rfl ⟨rfl, rfl⟩ (fun _ => rfl) run
  exact congrArg Ramfs.RamFile.len unchanged

/-- `write` and `ftruncate` change a file that is open for reading only. -/
theorem read_only_written :
    (OpenFiles.twoFiles.nodes 0).readat 0 1 = some (0, []) ∧
      ∃ written truncated, Step ramNode 3 OpenFiles.twoFiles (.write 1 [65]) written ∧
        (written.nodes 0).readat 0 1 = some (1, [65]) ∧
        Step ramNode 3 OpenFiles.twoFiles (.ftruncate 1) truncated ∧ (truncated.nodes 0).len = 1 := by
  refine ⟨by decide +kernel, _, _, .write rfl, ?_, .ftruncate, ?_⟩
  all_goals decide +kernel

end OpenFiles

end MonkeyOS.Fs
