import MonkeyOS.Fs.Descriptor
import MonkeyOS.Ramfs.FileRefinement
import MonkeyOS.Ramfs.FileStorage

/-!
# Copies inside the kernel

`sys_sendfile` and `sys_copy_file_range`, from a file of the ram file system to any other
file, at the positions of the two. To say what the output received, the inodes are run
with a log of the bytes they accepted. The position of the input moves before anything is
written, and the length of a `sendfile` is an unsigned difference.
-/

set_option autoImplicit false

namespace MonkeyOS.Fs

open List hiding count
open Lib Ramfs Function RamFile Nat

variable {ν : Type} {node : Node ν}

/-- The inode with a log of the bytes it accepted. -/
def Node.logged (node : Node ν) : Node (ν × List UInt8) where
  readat state offset len := ((node.readat state.1 offset len).1, state)
  writeat state offset buffer :=
    match node.writeat state.1 offset buffer with
    | (.ok count, after) => (.ok count, after, state.2 ++ buffer.take count)
    | (.error err, after) => (.error err, after, state.2)
  truncate state size :=
    let (answer, after) := node.truncate state.1 size
    (answer, after, state.2)
  size state := node.size state.1
  readat_same _ _ _ := rfl

def Node.Words (node : Node ν) : Prop :=
  ∀ state offset buffer count, buffer.length < usizeBound → (node.writeat state offset buffer).1 = .ok count →
    count < usizeBound

namespace OpenFiles

/-! ## Logs observe -/

def erase (fs : OpenFiles (ν × List UInt8)) : OpenFiles ν := { fs with nodes := fun inner => (fs.nodes inner).1 }

variable {fs after : OpenFiles (ν × List UInt8)} {inFile outFile : Nat}

theorem erase_setNode (inner : Nat) (state : ν) (log : List UInt8) :
    ({ fs with nodes := update fs.nodes inner (state, log) } : OpenFiles _).erase =
      { fs.erase with nodes := update fs.erase.nodes inner state } := by
  have nodes : (fun other => (update fs.nodes inner (state, log) other).1) =
      update (fun other => (fs.nodes other).1) inner state := by
    funext other
    by_cases same : other = inner
    · rw [same, update_self, update_self]
    · rw [update_of_ne same, update_of_ne same]
  simp only [erase, nodes]

theorem erase_files : fs.erase.files = fs.files := rfl

theorem erase_fdTable : fs.erase.fdTable = fs.fdTable := rfl

theorem erase_advance (file count : Nat) : (fs.advance file count).erase = fs.erase.advance file count := rfl

theorem readat_logged (file offset len : Nat) :
    fs.readat node.logged file offset len = ((node.readat (fs.nodes (fs.files file).inner).1 offset len).1, fs) := by
  simp only [readat, Node.logged, update_eq_self]

theorem readat_erase (file offset len : Nat) :
    fs.erase.readat node file offset len = (fs.readat node.logged file offset len).map id erase := by
  rw [readat_logged]
  simp only [readat, node.readat_same, update_eq_self, Prod.map]
  rfl

theorem read_erase (file len : Nat) : fs.erase.read node file len = (fs.read node.logged file len).map id erase := by
  unfold read
  rw [readat_erase, erase_files]
  rcases fs.readat node.logged file (fs.files file).offset len with ⟨answer, _⟩
  cases answer <;> rfl

theorem fileSize_erase (file : Nat) : fs.erase.fileSize node file = fs.fileSize node.logged file := rfl

theorem seekCurrent_erase (file : Nat) :
    fs.erase.seekCurrent node file = (fs.seekCurrent node.logged file).map id erase := by
  unfold seekCurrent
  rw [fileSize_erase]
  cases fs.fileSize node.logged file <;> rfl

theorem write_erase (file : Nat) (buffer : List UInt8) :
    fs.erase.write node file buffer = (fs.write node.logged file buffer).map id erase := by
  unfold write
  rw [erase_files]
  cases (fs.files file).checkWriteable with
  | error err => rfl
  | ok _ =>
    dsimp only
    split
    · rfl
    · have plain : fs.erase.nodes (fs.files file).inner = (fs.nodes (fs.files file).inner).1 := rfl
      simp only [Node.logged, plain]
      rcases node.writeat (fs.nodes (fs.files file).inner).1 (fs.files file).offset buffer with ⟨answer, _⟩
      cases answer with
      | error err =>
        simp only [Prod.map, erase_setNode]
        rfl
      | ok _ =>
        simp only [Prod.map, erase_advance, erase_setNode]
        rfl

/-- `sendfile` does with logs what it does without. -/
theorem sysSendfile_erase (room : VecRoom) (outFd inFd count : Nat) :
    fs.erase.sysSendfile node room outFd inFd 0 count =
      (fs.sysSendfile node.logged room outFd inFd 0 count).map (Prod.map id erase) := by
  simp only [sysSendfile, if_neg (not_not_intro rfl), if_pos, erase_fdTable]
  cases fs.fdTable outFd with
  | none => rfl
  | some _ =>
    cases fs.fdTable inFd with
    | none => rfl
    | some inFile =>
      dsimp only
      rw [seekCurrent_erase]
      rcases fs.seekCurrent node.logged inFile with ⟨start, middle⟩
      cases start with
      | error err => rfl
      | ok currOff =>
        simp only [Prod.map, id, fileSize_erase]
        cases middle.fileSize node.logged inFile with
        | error err => rfl
        | ok size =>
          dsimp only
          split
          · rfl
          · rw [read_erase]
            rcases middle.read node.logged inFile (min (wrapSub size currOff) count) with ⟨answer, _⟩
            cases answer with
            | error err => rfl
            | ok _ => exact congrArg some (write_erase ..)

theorem sysCopyFileRange_erase (room : VecRoom) (fdIn fdOut len flags : Nat) :
    fs.erase.sysCopyFileRange node room fdIn none fdOut none len flags =
      (fs.sysCopyFileRange node.logged room fdIn none fdOut none len flags).map (Prod.map id erase) := by
  unfold sysCopyFileRange
  split
  · rfl
  · rw [erase_fdTable]
    cases fs.fdTable fdIn with
    | none => rfl
    | some inFile =>
      cases fs.fdTable fdOut with
      | none => rfl
      | some outFile =>
        dsimp only
        split
        · rfl
        · rw [read_erase]
          rcases fs.read node.logged inFile len with ⟨answer, last⟩
          cases answer with
          | error _ => rfl
          | ok bytes =>
            simp only [Prod.map, id]
            split
            · rfl
            · rw [write_erase]
              rcases last.write node.logged outFile bytes with ⟨answer, _⟩
              cases answer <;> rfl

/-! ## Exact copies -/

def position (fs : OpenFiles (ν × List UInt8)) (file : Nat) : Nat := (fs.files file).offset

def log (fs : OpenFiles (ν × List UInt8)) (file : Nat) : List UInt8 := (fs.nodes (fs.files file).inner).2

structure RamInput (node : Node ν) (fs : OpenFiles (ν × List UInt8)) (file : Nat) (ram : RamFile) : Prop where
  size : node.size (fs.nodes (fs.files file).inner).1 = .ok ram.len
  readat : ∀ offset len,
    (node.readat (fs.nodes (fs.files file).inner).1 offset len).1 = (ramNode.readat ram offset len).1
  stored : ram.Stored
  len : ram.len < usizeBound
  position : fs.position file < usizeBound

/-- Of the contents `bytes`, the output has received as many as the answer says from the
position of the input on, and the input has moved past them; after an error the input
stands where it stood. -/
def Moved (fs : OpenFiles (ν × List UInt8)) (inFile outFile : Nat) (bytes : List UInt8) (answer : Except Errno Nat)
    (after : OpenFiles (ν × List UInt8)) : Prop :=
  match answer with
  | .ok count =>
    count ≤ bytes.length - fs.position inFile ∧
      (after.nodes (fs.files outFile).inner).2 = fs.log outFile ++ (bytes.drop (fs.position inFile)).take count ∧
      after.position inFile = fs.position inFile + count
  | .error _ => after.position inFile = fs.position inFile

def wanted (fs : OpenFiles (ν × List UInt8)) (inFile : Nat) (bytes : List UInt8) (count : Nat) : List UInt8 :=
  (bytes.drop (fs.position inFile)).take count

def Exact (fs : OpenFiles (ν × List UInt8)) (inFile outFile : Nat) (bytes : List UInt8)
    (result : Option (Except Errno Nat × OpenFiles (ν × List UInt8))) : Prop :=
  ∃ answer after, result = some (answer, after) ∧ fs.Moved inFile outFile bytes answer after

variable {room : VecRoom} {ram : RamFile} {inFd outFd : Nat} {buffer : List UInt8}

variable {bytes : List UInt8} {answer : Except Errno Nat} {offset count : Nat} {err : Errno}

theorem not_exact_none : ¬ fs.Exact inFile outFile bytes none := by
  rintro ⟨_, _, answered, -⟩
  cases answered

theorem exact_some :
    fs.Exact inFile outFile bytes (some (answer, after)) ↔ fs.Moved inFile outFile bytes answer after := by
  constructor
  · rintro ⟨_, _, answered, moved⟩
    cases answered
    exact moved
  · exact fun moved => ⟨answer, after, rfl, moved⟩

theorem position_setOffset (offset : Nat) : (fs.setOffset inFile offset).position inFile = offset := by
  simp [setOffset, position]

theorem RamInput.setOffset (input : RamInput node fs inFile ram) (word : offset < usizeBound) :
    RamInput node (fs.setOffset inFile offset) inFile ram where
  size := by
    rw [(same_setOffset fs inFile offset).inner]
    exact input.size
  readat := by
    rw [(same_setOffset fs inFile offset).inner]
    exact input.readat
  stored := input.stored
  len := input.len
  position := by
    rw [position_setOffset]
    exact word

theorem length_wanted (bytes : List UInt8) (count : Nat) :
    (fs.wanted inFile bytes count).length = min count (bytes.length - fs.position inFile) := by
  rw [wanted, length_take, length_drop]

variable (input : RamInput node fs inFile ram)
include input

theorem RamInput.wanted_fits (len : Nat) :
    fs.position inFile + (fs.wanted inFile ram.contents len).length < usizeBound := by
  have := input.len
  have := input.position
  rw [length_wanted, contents_length]
  omega

theorem RamInput.read (len : Nat) :
    fs.read node.logged inFile len =
      (.ok (fs.wanted inFile ram.contents len),
        fs.setOffset inFile (fs.position inFile + (fs.wanted inFile ram.contents len).length)) := by
  have bytes : (ramNode.readat ram (fs.files inFile).offset len).1 = .ok (fs.wanted inFile ram.contents len) := by
    simp only [ramNode, readat_refines input.stored]
    rfl
  rw [OpenFiles.read, readat_logged, input.readat, bytes]
  simp only [advance]
  rw [show (fs.files inFile).offset = fs.position inFile from rfl, wrapAdd_eq (input.wanted_fits len)]

theorem RamInput.seekCurrent :
    fs.seekCurrent node.logged inFile =
      if fs.position inFile < 2 ^ 63 then (.ok (fs.position inFile), fs) else (.ok 0, fs.setOffset inFile 0) := by
  have size : fs.fileSize node.logged inFile = .ok ram.len := input.size
  have same : fs.setOffset inFile (fs.files inFile).offset = fs := by
    simp [OpenFiles.setOffset]
  have place : fs.position inFile = (fs.files inFile).offset := rfl
  simp only [OpenFiles.seekCurrent, size, place]
  split
  · rw [same]
  · rfl

omit input

/-! ### Writes to the output -/

theorem write_nil :
    fs.write node.logged outFile [] = (.ok 0, fs) ∨ ∃ err, fs.write node.logged outFile [] = (.error err, fs) := by
  unfold write
  cases (fs.files outFile).checkWriteable with
  | error err => exact .inr ⟨err, rfl⟩
  | ok _ => exact .inl rfl

theorem write_error (done : fs.write node.logged outFile buffer = (.error err, after)) : after.files = fs.files := by
  unfold write at done
  split at done
  · cases done
    rfl
  · split at done
    · cases done
    · dsimp only at done
      split at done <;> cases done
      rfl

theorem write_ok (some : buffer ≠ []) (done : fs.write node.logged outFile buffer = (.ok count, after)) :
    after.files = (fs.advance outFile count).files ∧
      (after.nodes (fs.files outFile).inner).2 = fs.log outFile ++ buffer.take count := by
  unfold write at done
  split at done
  · cases done
  · rw [if_neg (by simpa using some)] at done
    simp only [Node.logged] at done
    generalize node.writeat (fs.nodes (fs.files outFile).inner).1 (fs.files outFile).offset buffer = result at done
    obtain ⟨answer, _⟩ := result
    cases answer with
    | error _ => cases done
    | ok _ =>
      cases done
      refine ⟨rfl, ?_⟩
      simp [advance, OpenFiles.setOffset, log]

theorem write_setOffset (distinct : outFile ≠ inFile) (offset : Nat) :
    ((fs.setOffset inFile offset).write node.logged outFile buffer).1 = (fs.write node.logged outFile buffer).1 := by
  have file : (fs.setOffset inFile offset).files outFile = fs.files outFile := update_of_ne distinct ..
  unfold write
  rw [file]
  split
  · rfl
  · split
    · rfl
    · have nodes : (fs.setOffset inFile offset).nodes = fs.nodes := rfl
      simp only [nodes]
      rcases node.logged.writeat (fs.nodes (fs.files outFile).inner) (fs.files outFile).offset buffer with ⟨answer, _⟩
      cases answer <;> rfl

theorem position_advance_self (count : Nat) :
    (fs.advance inFile count).position inFile = wrapAdd (fs.position inFile) count := position_setOffset _

theorem position_advance_of_ne (distinct : inFile ≠ outFile) (count : Nat) :
    (fs.advance outFile count).position inFile = fs.position inFile :=
  congrArg File.offset (update_of_ne distinct ..)

theorem position_write (word : fs.position inFile < usizeBound)
    (done : fs.write node.logged outFile buffer = (.ok count, after)) :
    after.position inFile = if inFile = outFile then wrapAdd (fs.position inFile) count else fs.position inFile := by
  by_cases none : buffer = []
  · subst none
    rcases @write_nil ν node fs outFile with wrote | ⟨_, wrote⟩
    · cases wrote.symm.trans done
      rw [wrapAdd_eq (by exact word), add_zero, ite_self]
    · cases wrote.symm.trans done
  · have files := (write_ok none done).1
    rw [position, files]
    split
    next same =>
      subst same
      exact position_advance_self count
    next distinct => exact position_advance_of_ne distinct count

theorem wanted_eq_take (bytes : List UInt8) (count : Nat) :
    fs.wanted inFile bytes count = (bytes.drop (fs.position inFile)).take (fs.wanted inFile bytes count).length := by
  rw [length_wanted, ← length_drop, ← take_eq_take_min]
  rfl

/-- What was read is written: the input has moved past all of it, so all of it has to be
accepted and reported, by another file. -/
theorem moved_iff (input : RamInput node fs inFile ram) {accepted reported : Nat}
    (some : fs.wanted inFile ram.contents count ≠ []) (word : accepted < usizeBound)
    (done : (fs.setOffset inFile (fs.position inFile + (fs.wanted inFile ram.contents count).length)).write
      node.logged outFile (fs.wanted inFile ram.contents count) = (.ok accepted, after)) :
    fs.Moved inFile outFile ram.contents (.ok reported) after ↔
      inFile ≠ outFile ∧ reported = (fs.wanted inFile ram.contents count).length ∧
        (fs.wanted inFile ram.contents count).length ≤ accepted := by
  have fits := input.wanted_fits count
  have length := @length_wanted ν fs inFile ram.contents count
  have positive := length_pos_of_ne_nil some
  have slice := @wanted_eq_take ν fs inFile ram.contents count
  have place := position_write (by rwa [position_setOffset]) done
  have log := (write_ok some done).2
  rw [position_setOffset] at place
  rw [OpenFiles.log, (same_setOffset fs inFile _).inner] at log
  generalize fs.wanted inFile ram.contents count = bytes at *
  simp only [Moved, place]
  rw [show (after.nodes (fs.files outFile).inner).2 = fs.log outFile ++ bytes.take accepted from log,
    append_cancel_left_eq]
  constructor
  · rintro ⟨_, same, moved⟩
    have counts := congrArg List.length same
    rw [length_take, length_take, length_drop] at counts
    split at moved
    · rw [wrapAdd, usizeBound] at moved
      rw [usizeBound] at word fits
      omega
    · next distinct => exact ⟨distinct, by omega, by omega⟩
  · rintro ⟨distinct, rfl, all⟩
    rw [if_neg distinct, take_of_length_le all, ← slice]
    exact ⟨length ▸ min_le_right .., rfl, rfl⟩

theorem moved_error_iff (done : (fs.setOffset inFile offset).write node.logged outFile buffer = (.error err, after)) :
    fs.Moved inFile outFile bytes (.error err) after ↔ offset = fs.position inFile := by
  have place : after.position inFile = offset := by
    rw [position, write_error done]
    exact position_setOffset offset
  rw [Moved, place]

theorem moved_nil (done : fs.write node.logged outFile [] = (answer, after)) :
    fs.Moved inFile outFile bytes answer after := by
  rcases @write_nil ν node fs outFile with wrote | ⟨_, wrote⟩
  · cases wrote.symm.trans done
    exact ⟨zero_le _, (append_nil _).symm, rfl⟩
  · cases wrote.symm.trans done
    rfl

theorem write_word (words : node.Words) (fits : buffer.length < usizeBound)
    (done : fs.write node.logged outFile buffer = (.ok count, after)) : count < usizeBound := by
  unfold write at done
  split at done
  · cases done
  · split at done
    · cases done
      decide
    · simp only [Node.logged] at done
      have word := words (fs.nodes (fs.files outFile).inner).1 (fs.files outFile).offset buffer
      generalize node.writeat (fs.nodes (fs.files outFile).inner).1 (fs.files outFile).offset buffer = result
        at done word
      obtain ⟨answer, _⟩ := result
      cases answer with
      | error _ => cases done
      | ok _ =>
        cases done
        exact word _ fits rfl

theorem setOffset_position (fs : OpenFiles (ν × List UInt8)) (file : Nat) :
    fs.setOffset file (fs.position file) = fs := by
  simp [OpenFiles.setOffset, position]

section

variable (input : RamInput node fs inFile ram)
include input

theorem write_wanted_iff (words : node.Words) (some : fs.wanted inFile ram.contents count ≠ []) (reported : Nat → Nat)
    (done : (fs.setOffset inFile (fs.position inFile + (fs.wanted inFile ram.contents count).length)).write
      node.logged outFile (fs.wanted inFile ram.contents count) = (answer, after)) :
    fs.Moved inFile outFile ram.contents (answer.map reported) after ↔
      inFile ≠ outFile ∧ ∃ accepted,
        (fs.write node.logged outFile (fs.wanted inFile ram.contents count)).1 = .ok accepted ∧
          reported accepted = (fs.wanted inFile ram.contents count).length ∧
          (fs.wanted inFile ram.contents count).length ≤ accepted := by
  have answers (distinct : inFile ≠ outFile) := @write_setOffset ν node fs inFile outFile
    (fs.wanted inFile ram.contents count) distinct.symm
    (fs.position inFile + (fs.wanted inFile ram.contents count).length)
  rw [done] at answers
  cases answer with
  | error _ =>
    refine iff_of_false (fun moved => ?_) ?_
    · have := length_pos_of_ne_nil some
      have := (moved_error_iff done).mp moved
      omega
    · rintro ⟨distinct, accepted, wrote, -⟩
      cases (answers distinct).trans wrote
  | ok accepted =>
    have fits := input.wanted_fits count
    have word := write_word words (by omega) done
    change fs.Moved inFile outFile ram.contents (.ok (reported accepted)) after ↔ _
    rw [moved_iff input some word done]
    constructor
    · rintro ⟨distinct, all⟩
      exact ⟨distinct, accepted, (answers distinct).symm, all⟩
    · rintro ⟨distinct, _, wrote, all⟩
      cases (answers distinct).trans wrote
      exact ⟨distinct, all⟩

/-! ### The two calls -/

/-- The length of the copy, with the unsigned difference of the source. -/
def sendLen (fs : OpenFiles (ν × List UInt8)) (inFile : Nat) (ram : RamFile) (count : Nat) : Nat :=
  min (wrapSub ram.len (fs.position inFile)) count

def send (node : Node ν) (fs : OpenFiles (ν × List UInt8)) (room : VecRoom) (inFile outFile : Nat) (ram : RamFile)
    (count : Nat) : Option (Except Errno Nat × OpenFiles (ν × List UInt8)) :=
  if !room.gives (fs.sendLen inFile ram count) then none
  else
    some ((fs.setOffset inFile (fs.position inFile +
      (fs.wanted inFile ram.contents (fs.sendLen inFile ram count)).length)).write node.logged outFile
        (filled (fs.wanted inFile ram.contents (fs.sendLen inFile ram count)) (fs.sendLen inFile ram count)))

/-- The position has no sign bit and the heap can give the buffer. Up to the end there
is nothing to send or another file takes all of it; past the end the output takes none of
the zeros. -/
def SendsExactly (node : Node ν) (fs : OpenFiles (ν × List UInt8)) (room : VecRoom) (inFile outFile : Nat)
    (ram : RamFile) (count : Nat) : Prop :=
  fs.position inFile < 2 ^ 63 ∧
    if fs.position inFile ≤ ram.len then
      room.gives (fs.wanted inFile ram.contents count).length ∧
        (fs.wanted inFile ram.contents count = [] ∨
          inFile ≠ outFile ∧ (fs.write node.logged outFile (fs.wanted inFile ram.contents count)).1 =
            .ok (fs.wanted inFile ram.contents count).length)
    else
      room.gives count ∧ ∀ accepted,
        (fs.write node.logged outFile (List.replicate count 0)).1 = .ok accepted → accepted = 0

/-- The flags are accepted, the heap can give the buffer, and there is nothing to
copy or another file takes all of it. -/
def CopiesExactly (node : Node ν) (fs : OpenFiles (ν × List UInt8)) (room : VecRoom) (inFile outFile : Nat)
    (ram : RamFile) (len flags : Nat) : Prop :=
  flags = 0 ∧ room.gives len ∧
    (fs.wanted inFile ram.contents len = [] ∨
      inFile ≠ outFile ∧ ∃ accepted,
        (fs.write node.logged outFile (fs.wanted inFile ram.contents len)).1 = .ok accepted ∧
          (fs.wanted inFile ram.contents len).length ≤ accepted)

theorem sysSendfile_eq_send (inOpen : fs.fdTable inFd = some inFile)
    (outOpen : fs.fdTable outFd = some outFile) (count : Nat) :
    fs.sysSendfile node.logged room outFd inFd 0 count =
      if fs.position inFile < 2 ^ 63 then fs.send node room inFile outFile ram count
      else (fs.setOffset inFile 0).send node room inFile outFile ram count := by
  by_cases low : fs.position inFile < 2 ^ 63
  · have size : fs.fileSize node.logged inFile = .ok ram.len := input.size
    simp only [sysSendfile, inOpen, outOpen, if_neg (not_not_intro rfl), if_pos, input.seekCurrent, if_pos low, size,
      input.read]
    rfl
  · have rewound := input.setOffset (show 0 < usizeBound by decide)
    have size : (fs.setOffset inFile 0).fileSize node.logged inFile = .ok ram.len := rewound.size
    simp only [sysSendfile, inOpen, outOpen, if_neg (not_not_intro rfl), if_pos, input.seekCurrent, if_neg low, size,
      rewound.read]
    rw [send, sendLen, position_setOffset]

/-- A position with the sign bit is lost: the seek has set it to zero. -/
theorem send_high (high : 2 ^ 63 ≤ fs.position inFile) (count : Nat) :
    ¬ fs.Exact inFile outFile ram.contents ((fs.setOffset inFile 0).send node room inFile outFile ram count) := by
  have rewound := input.setOffset (show 0 < usizeBound by decide)
  generalize length : (fs.setOffset inFile 0).sendLen inFile ram count = rlen
  have fits := rewound.wanted_fits rlen
  have below := @length_wanted ν (fs.setOffset inFile 0) inFile ram.contents rlen
  rw [send, length]
  split
  · exact not_exact_none
  · next given =>
    have short := room.short rlen (by simpa using given)
    rcases done : ((fs.setOffset inFile 0).setOffset inFile _).write node.logged outFile _ with ⟨answer, after⟩
    rw [exact_some]
    cases answer with
    | error _ =>
      intro moved
      change after.position inFile = _ at moved
      rw [position, write_error done] at moved
      have same := (position_setOffset _).symm.trans moved
      rw [position_setOffset] at same
      omega
    | ok _ =>
      rintro ⟨-, -, moved⟩
      rw [position_write (by rwa [position_setOffset]) done, position_setOffset, position_setOffset, wrapAdd,
        usizeBound] at moved
      split at moved <;> omega

theorem send_past_iff (low : fs.position inFile < 2 ^ 63) (past : ram.len < fs.position inFile) (count : Nat) :
    fs.Exact inFile outFile ram.contents (fs.send node room inFile outFile ram count) ↔
      room.gives count ∧ ∀ accepted,
        (fs.write node.logged outFile (List.replicate count 0)).1 = .ok accepted → accepted = 0 := by
  have none (len : Nat) : fs.wanted inFile ram.contents len = [] := by
    rw [wanted, drop_eq_nil_of_le (by rw [contents_length]; omega), take_nil]
  have wraps : 2 ^ 63 ≤ wrapSub ram.len (fs.position inFile) := by
    rw [wrapSub, usizeBound]
    omega
  by_cases given : room.gives count
  · have length : fs.sendLen inFile ram count = count := min_eq_right ((room.short _ given).le.trans wraps)
    have zeros : filled [] count = List.replicate count 0 := rfl
    rw [send, length, if_neg (by simp [given]), and_iff_right given, none, length_nil, add_zero,
      setOffset_position, zeros]
    rcases done : fs.write node.logged outFile (List.replicate count 0) with ⟨answer, _⟩
    rw [exact_some]
    cases answer with
    | error _ =>
      refine iff_of_true ?_ fun accepted same => by cases same
      rw [← setOffset_position fs inFile] at done
      exact (moved_error_iff done).mpr rfl
    | ok accepted =>
      constructor
      · rintro ⟨enough, -, -⟩ _ same
        cases same
        rw [contents_length] at enough
        omega
      · intro nothing
        obtain rfl := nothing accepted rfl
        by_cases empty : List.replicate count (0 : UInt8) = []
        · rw [empty] at done
          exact moved_nil done
        · refine ⟨zero_le _, (write_ok empty done).2, ?_⟩
          rw [position_write input.position done, wrapAdd_eq (by exact input.position), add_zero, ite_self]
  · have refused : ¬ room.gives (fs.sendLen inFile ram count) := by
      intro gives
      have short := room.short _ gives
      rw [sendLen, min_eq_right (by unfold sendLen at short; omega)] at gives
      exact given gives
    rw [send, if_pos (by simp [refused])]
    exact iff_of_false not_exact_none fun exact => given exact.1

theorem send_inside_iff (words : node.Words) (inside : fs.position inFile ≤ ram.len) (count : Nat) :
    fs.Exact inFile outFile ram.contents (fs.send node room inFile outFile ram count) ↔
      room.gives (fs.wanted inFile ram.contents count).length ∧
        (fs.wanted inFile ram.contents count = [] ∨
          inFile ≠ outFile ∧ (fs.write node.logged outFile (fs.wanted inFile ram.contents count)).1 =
            .ok (fs.wanted inFile ram.contents count).length) := by
  have length : fs.sendLen inFile ram count = (fs.wanted inFile ram.contents count).length := by
    rw [sendLen, wrapSub_eq inside input.len, length_wanted, contents_length, min_comm]
  have same : fs.wanted inFile ram.contents (fs.wanted inFile ram.contents count).length =
      fs.wanted inFile ram.contents count := (wanted_eq_take ..).symm
  have whole : filled (fs.wanted inFile ram.contents count) (fs.wanted inFile ram.contents count).length =
      fs.wanted inFile ram.contents count := by
    rw [filled, Nat.sub_self, replicate_zero, append_nil]
  rw [send, length, same, whole]
  by_cases given : room.gives (fs.wanted inFile ram.contents count).length
  swap
  · rw [if_pos (by simp [given])]
    exact iff_of_false not_exact_none fun exact => given exact.1
  rw [if_neg (by simp [given]), and_iff_right given]
  rcases done : (fs.setOffset inFile (fs.position inFile + (fs.wanted inFile ram.contents count).length)).write
    node.logged outFile (fs.wanted inFile ram.contents count) with ⟨answer, after⟩
  rw [exact_some]
  by_cases none : fs.wanted inFile ram.contents count = []
  · rw [none, length_nil, add_zero, setOffset_position] at done
    exact iff_of_true (moved_nil done) (.inl none)
  · have moved := write_wanted_iff input words none id done
    have plain : answer.map id = answer := by cases answer <;> rfl
    rw [plain] at moved
    rw [or_iff_right none, moved]
    refine and_congr_right fun _ => ⟨?_, fun wrote => ⟨_, wrote, rfl, le_rfl⟩⟩
    rintro ⟨_, wrote, rfl, -⟩
    exact wrote

end

section Calls

variable (input : RamInput node fs inFile ram) (words : node.Words) (inOpen : fs.fdTable inFd = some inFile)
  (outOpen : fs.fdTable outFd = some outFile)
include input words inOpen outOpen

theorem copyFileRange_exact_iff (len flags : Nat) :
    fs.Exact inFile outFile ram.contents (fs.sysCopyFileRange node.logged room inFd none outFd none len flags) ↔
      fs.CopiesExactly node room inFile outFile ram len flags := by
  rw [CopiesExactly]
  simp only [sysCopyFileRange, inOpen, outOpen, input.read]
  by_cases plain : flags = 0
  swap
  · rw [if_pos plain]
    exact iff_of_false not_exact_none fun exact => plain exact.1
  by_cases given : room.gives len
  swap
  · rw [if_neg (not_not_intro plain), if_pos (by simp [given])]
    exact iff_of_false not_exact_none fun exact => given exact.2.1
  rw [if_neg (not_not_intro plain), if_neg (by simp [given]), and_iff_right plain, and_iff_right given]
  by_cases none : fs.wanted inFile ram.contents len = []
  · simp only [none, length_nil, add_zero, if_true, setOffset_position, exact_some]
    exact iff_of_true ⟨zero_le _, (append_nil _).symm, rfl⟩ (.inl trivial)
  · rw [if_neg (mt eq_nil_of_length_eq_zero none), or_iff_right none]
    rcases done : (fs.setOffset inFile (fs.position inFile + (fs.wanted inFile ram.contents len).length)).write
      node.logged outFile (fs.wanted inFile ram.contents len) with ⟨answer, after⟩
    have moved := write_wanted_iff input words none (fun _ => (fs.wanted inFile ram.contents len).length) done
    simp only [true_and] at moved
    cases answer with
    | error _ => exact exact_some.trans moved
    | ok _ => exact exact_some.trans moved

theorem sendfile_exact_iff (count : Nat) :
    fs.Exact inFile outFile ram.contents (fs.sysSendfile node.logged room outFd inFd 0 count) ↔
      fs.SendsExactly node room inFile outFile ram count := by
  rw [SendsExactly]
  rw [sysSendfile_eq_send input inOpen outOpen]
  by_cases low : fs.position inFile < 2 ^ 63
  · rw [if_pos low, and_iff_right low]
    split
    next inside => exact send_inside_iff input words inside count
    next past => exact send_past_iff input low (not_le.mp past) count
  · rw [if_neg low]
    exact iff_of_false (send_high input (not_lt.mp low) count) fun exact => low exact.1

theorem kernel_copies_exact_iff (room : VecRoom) (count flags : Nat) :
    (fs.Exact inFile outFile ram.contents (fs.sysSendfile node.logged room outFd inFd 0 count) ↔
      fs.SendsExactly node room inFile outFile ram count) ∧
      (fs.Exact inFile outFile ram.contents (fs.sysCopyFileRange node.logged room inFd none outFd none count flags) ↔
        fs.CopiesExactly node room inFile outFile ram count flags) :=
  ⟨sendfile_exact_iff input words inOpen outOpen count, copyFileRange_exact_iff input words inOpen outOpen count flags⟩

end Calls

/-! ### Two files of the ram file system -/

theorem ramNode_words : ramNode.Words := by
  intro file offset buffer _ fits answered
  by_cases refused : 0 < file.writeNeeds offset buffer ∧
      granted (fun state : Unit => (some Page.zero, state)) (file.writeNeeds offset buffer) () = 0
  · have failed := (RamFile.writeat_refused _ refused.1 refused.2).1
    cases failed.symm.trans answered
  · obtain ⟨wrote, -⟩ := @writeat_accepted Unit (fun state => (some Page.zero, state)) file () offset buffer (by omega)
    cases wrote.symm.trans answered
    exact (min_le_left ..).trans_lt fits

/-- Descriptor 3 has a file of two bytes, at a position, and descriptor 4 an empty one, with flags. -/
def pair (offset flags : Nat) : OpenFiles (RamFile × List UInt8) where
  nodes
    | 0 => ({ len := 2, pages := [fun _ => 7] }, [])
    | _ => (.new, [])
  files
    | 0 => { inner := 0, offset, flags := 0 }
    | file => { inner := file, offset := 0, flags }
  fdTable
    | 3 => some 0
    | 4 => some 1
    | _ => none
  waiting _ := none

theorem pair_input (word : offset < usizeBound) (flags : Nat) :
    RamInput ramNode (pair offset flags) 0 { len := 2, pages := [fun _ => 7] } where
  size := rfl
  readat _ _ := rfl
  stored := show 2 ≤ 1 * pageSize by decide
  len := by decide
  position := word

theorem kernel_copies_exact_iff_pair :
    (pair 0 1).Exact 0 1 [7, 7] ((pair 0 1).sysSendfile ramNode.logged onePage 4 3 0 5) ∧
      (pair 0 1).Exact 0 1 [7, 7] ((pair 0 1).sysCopyFileRange ramNode.logged onePage 3 none 4 none 5 0) := by
  have both := kernel_copies_exact_iff (pair_input (show 0 < usizeBound by decide) 1) ramNode_words
    (show (pair 0 1).fdTable 3 = some 0 from rfl) (show (pair 0 1).fdTable 4 = some 1 from rfl) onePage 5 0
  exact ⟨both.1.mpr ⟨by decide, by decide, .inr ⟨by decide, rfl⟩⟩,
    both.2.mpr ⟨rfl, by decide, .inr ⟨by decide, 2, rfl, le_rfl⟩⟩⟩

/-- Past the end of the two bytes, `sendfile` writes three zeros and reports three bytes. To a
file that is not open for writing nothing is copied, but the input has moved. -/
theorem sendfile_writes_past_end :
    ((pair 5 1).sysSendfile ramNode.logged onePage 4 3 0 3).map
          (fun done => (done.1.toOption, done.2.log 1, done.2.position 0)) =
        some (some 3, [0, 0, 0], 5) ∧
      ((pair 0 0).sysSendfile ramNode.logged onePage 4 3 0 2).map (fun done => (done.1.toOption, done.2.position 0)) =
        some (none, 2) ∧
      ((pair 0 0).sysCopyFileRange ramNode.logged onePage 3 none 4 none 2 0).map
        (fun done => (done.1.toOption, done.2.position 0)) = some (none, 2) := by
  decide +kernel

end OpenFiles

end MonkeyOS.Fs
