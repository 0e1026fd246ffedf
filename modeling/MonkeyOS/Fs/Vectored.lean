import MonkeyOS.Fs.Descriptor
import MonkeyOS.Fs.Pipe

/-!
# Vectored calls on pipes

`sys_readv` and `sys_writev` of `kernel/src/syscall/fd.rs` over any inode, and what they
account for at the ends of a pipe. Both go through the buffers one by one and leave the
loop at the first error, whatever was moved before.
-/

set_option autoImplicit false

namespace MonkeyOS.Fs

open List hiding count
open Lib Function Nat

section

variable {σ : Type} (inode : INode σ UInt8)

def File.read (file : File) (state : σ) (len : Nat) : Except Errno (List UInt8) × File × σ :=
  match inode.readat state file.offset len with
  | (.ok bytes, state) => (.ok bytes, { file with offset := wrapAdd file.offset bytes.length }, state)
  | (.error err, state) => (.error err, file, state)

def File.write (file : File) (state : σ) (buffer : List UInt8) : Except Errno Nat × File × σ :=
  match file.checkWriteable with
  | .error err => (.error err, file, state)
  | .ok () =>
    if buffer.length = 0 then (.ok 0, file, state)
    else
      match inode.writeat state file.offset buffer with
      | (.ok count, state) => (.ok count, { file with offset := wrapAdd file.offset count }, state)
      | (.error err, state) => (.error err, file, state)

structure Readv (σ : Type) where
  answer : Except Errno Nat
  /-- What was put in each buffer that was filled. -/
  buffers : List (List UInt8)
  file : File
  state : σ

def readAll : (iov : List Nat) → (rsize : Nat) → File → σ → Readv σ
  | [], rsize, file, state => { answer := .ok rsize, buffers := [], file, state }
  | len :: iov, rsize, file, state =>
    match file.read inode state len with
    | (.ok bytes, file, state) =>
      let rest := readAll iov (wrapAdd rsize bytes.length) file state
      { rest with buffers := bytes :: rest.buffers }
    | (.error err, file, state) => { answer := .error err, buffers := [], file, state }

def sysReadv (file : File) (state : σ) (iov : List Nat) : Readv σ := readAll inode iov 0 file state

def writeAll : (iov : List (List UInt8)) → (wsize : Nat) → File → σ → Except Errno Nat × File × σ
  | [], wsize, file, state => (.ok wsize, file, state)
  | buffer :: iov, wsize, file, state =>
    match file.write inode state buffer with
    | (.ok count, file, state) => writeAll iov (wrapAdd wsize count) file state
    | (.error err, file, state) => (.error err, file, state)

def sysWritev (file : File) (state : σ) (iov : List (List UInt8)) : Except Errno Nat × File × σ :=
  writeAll inode iov 0 file state

end

/-! ## Files with contents -/

namespace OpenFiles

variable {ν : Type} {node : Node ν} {fs : OpenFiles ν} {file : Nat}

def setFile (fs : OpenFiles ν) (file : Nat) (done : File × ν) : OpenFiles ν :=
  { fs with
    nodes := update fs.nodes (fs.files file).inner done.2
    files := update fs.files file done.1 }

theorem write_eq_setFile (buffer : List UInt8) :
    fs.write node file buffer =
      ((fs.files file).write node.toINode (fs.nodes (fs.files file).inner) buffer).map id (fs.setFile file) := by
  unfold write File.write
  cases (fs.files file).checkWriteable with
  | error err => simp [setFile]
  | ok _ =>
    dsimp only
    split
    · simp [setFile]
    · rcases node.writeat (fs.nodes (fs.files file).inner) (fs.files file).offset buffer with ⟨answer, _⟩
      cases answer with
      | error err => simp [setFile]
      | ok _ => rfl

theorem setFile_setFile {done : File × ν} (same : done.1.inner = (fs.files file).inner) (later : File × ν) :
    (fs.setFile file done).setFile file later = fs.setFile file later := by
  simp [setFile, same]

theorem write_inner (done : File) (state : ν) (buffer : List UInt8) :
    (done.write node.toINode state buffer).2.1.inner = done.inner := by
  unfold File.write
  split
  · rfl
  · split
    · rfl
    · split <;> rfl

/-- The loop over open files is the loop over the one file. -/
theorem writeAll_eq_setFile (iov : List (List UInt8)) (wsize : Nat) :
    writeAll node file iov wsize fs =
      (Fs.writeAll node.toINode iov wsize (fs.files file) (fs.nodes (fs.files file).inner)).map id
        (fs.setFile file) := by
  induction iov generalizing wsize fs with
  | nil => simp [writeAll, Fs.writeAll, setFile]
  | cons buffer iov ih =>
    have inner := @write_inner ν node (fs.files file) (fs.nodes (fs.files file).inner) buffer
    rw [writeAll, Fs.writeAll, write_eq_setFile]
    generalize (fs.files file).write node.toINode (fs.nodes (fs.files file).inner) buffer = result at inner ⊢
    obtain ⟨answer, done, state⟩ := result
    cases answer with
    | error _ => rfl
    | ok count =>
      change writeAll node file iov (wrapAdd wsize count) (fs.setFile file (done, state)) = _
      have file_eq : (fs.setFile file (done, state)).files file = done := update_self ..
      have node_eq : (fs.setFile file (done, state)).nodes done.inner = state := by
        rw [inner]
        exact update_self ..
      have later : (fs.setFile file (done, state)).setFile file = fs.setFile file :=
        funext fun later => setFile_setFile inner later
      rw [ih, file_eq, node_eq, later]

end OpenFiles

/-! ## Ends of a pipe -/

def scatter : (iov : List Nat) → List UInt8 → List (List UInt8)
  | [], _ => []
  | len :: iov, bytes => bytes.take len :: scatter iov (bytes.drop len)

theorem scatter_flatten (iov : List Nat) (bytes : List UInt8) : (scatter iov bytes).flatten = bytes.take iov.sum := by
  induction iov generalizing bytes with
  | nil => rfl
  | cons _ iov ih => rw [scatter, flatten_cons, ih, sum_cons, take_add]

theorem scatter_take (iov : List Nat) (bytes : List UInt8) : scatter iov (bytes.take iov.sum) = scatter iov bytes := by
  induction iov generalizing bytes with
  | nil => rfl
  | cons _ iov ih =>
    simp only [scatter, sum_cons]
    rw [take_take, Nat.min_eq_left (Nat.le_add_right ..), drop_take, Nat.add_sub_cancel_left, ih]

namespace Pipe

variable {pipe : Pipe} {file : File} {len id : Nat} {buffer : List UInt8} {iov : List Nat} {buffers : List (List UInt8)}

/-- An error has removed nothing, and else the first bytes of the queue, as many as
the answer says, are in the buffers. -/
structure ReadAccountable (pipe : Pipe) (iov : List Nat) (done : Readv Pipe) : Prop where
  failed : ∀ errno, done.answer = .error errno → done.state.queue = pipe.queue
  moved : ∀ count, done.answer = .ok count →
    count ≤ pipe.queue.length ∧ done.buffers = scatter iov (pipe.queue.take count) ∧
      done.buffers.flatten = pipe.queue.take count ∧ done.state.queue = pipe.queue.drop count

/-- An error has appended nothing, and else the first bytes of the buffers, as many as
the answer says, are in the queue. -/
structure WriteAccountable (pipe : Pipe) (buffers : List (List UInt8)) (done : Except Errno Nat × File × Pipe) :
    Prop where
  failed : ∀ errno, done.1 = .error errno → done.2.2.queue = pipe.queue
  moved : ∀ count, done.1 = .ok count →
    count ≤ buffers.flatten.length ∧ done.2.2.queue = pipe.queue ++ buffers.flatten.take count

def RunsDry (pipe : Pipe) : (iov : List Nat) → Prop
  | [] => False
  | len :: iov => pipe.Dry len ∨ (pipe.drop len).RunsDry iov

def Overruns (pipe : Pipe) : List (List UInt8) → Prop
  | [] => False
  | buffer :: buffers => pipe.Overflows buffer ∨ (pipe.append buffer).Overruns buffers

def OverrunsAtOnce (pipe : Pipe) : List (List UInt8) → Prop
  | [] => False
  | buffer :: buffers => pipe.Overflows buffer ∨ buffer = [] ∧ pipe.OverrunsAtOnce buffers

theorem OverrunsAtOnce.overruns (full : pipe.OverrunsAtOnce buffers) : pipe.Overruns buffers := by
  induction buffers with
  | nil => exact full
  | cons _ buffers ih =>
    rcases full with now | ⟨rfl, later⟩
    · exact .inl now
    · refine .inr ?_
      rw [append_nil]
      exact ih later

/-! ### `readv` -/

theorem read_dry (dry : pipe.Dry len) :
    file.read (inode (.receiver id)) pipe len = (.error EWOULDBLOCK, file, pipe) := by
  simp only [File.read, inode, readat_dry dry]

theorem read_flows (flows : ¬ pipe.Dry len) :
    ∃ later, file.read (inode (.receiver id)) pipe len = (.ok (pipe.queue.take len), later, pipe.drop len) := by
  refine ⟨{ file with offset := wrapAdd file.offset (pipe.queue.take len).length }, ?_⟩
  simp only [File.read, inode, readat_flows flows]

theorem readAll_sender (rsize : Nat) :
    (readAll (inode (.sender id)) iov rsize file pipe).state = pipe ∧
      (readAll (inode (.sender id)) iov rsize file pipe).buffers = [] ∧
        ∀ count, (readAll (inode (.sender id)) iov rsize file pipe).answer = .ok count → iov = [] ∧ count = rsize := by
  cases iov with
  | nil => exact ⟨rfl, rfl, fun count done => ⟨rfl, (Except.ok.inj done).symm⟩⟩
  | cons _ iov => exact ⟨rfl, rfl, fun count done => nomatch done⟩

theorem readAll_runsDry (dry : pipe.RunsDry iov) (rsize : Nat) :
    (readAll (inode (.receiver id)) iov rsize file pipe).answer = .error EWOULDBLOCK ∧
      (readAll (inode (.receiver id)) iov rsize file pipe).state.queue = [] := by
  induction iov generalizing pipe rsize file with
  | nil => exact dry.elim
  | cons len iov ih =>
    rw [readAll]
    by_cases now : pipe.Dry len
    · rw [read_dry now]
      exact ⟨rfl, now.2.1⟩
    · obtain ⟨_, done⟩ := read_flows now
      rw [done]
      exact ih (dry.resolve_left now) _

theorem readAll_flows (flows : ¬ pipe.RunsDry iov) {rsize : Nat} (bound : rsize < usizeBound) :
    (readAll (inode (.receiver id)) iov rsize file pipe).answer =
        .ok (wrapAdd rsize (min iov.sum pipe.queue.length)) ∧
      (readAll (inode (.receiver id)) iov rsize file pipe).buffers = scatter iov pipe.queue ∧
        (readAll (inode (.receiver id)) iov rsize file pipe).state = pipe.drop iov.sum := by
  induction iov generalizing pipe rsize file with
  | nil =>
    refine ⟨?_, rfl, rfl⟩
    rw [sum_nil, zero_min, wrapAdd_eq bound]
    rfl
  | cons len iov ih =>
    rw [RunsDry, not_or] at flows
    obtain ⟨later, done⟩ := read_flows flows.1
    obtain ⟨answer, buffers, state⟩ := @ih (pipe.drop len) later flows.2 _ (wrapAdd_lt rsize _)
    have total : (pipe.queue.take len).length + min iov.sum (pipe.drop len).queue.length =
        min (len :: iov).sum pipe.queue.length := by
      rw [drop, length_take, length_drop, sum_cons]
      omega
    rw [readAll, done]
    refine ⟨answer.trans ?_, congrArg (_ :: ·) buffers, state.trans ?_⟩
    · rw [wrapAdd_wrapAdd, total]
    · rw [drop_drop, sum_cons]

/-- `readv` accounts for what it takes at the sending end, where there is nothing to take,
and else exactly if the count fits in a word and no buffer finds the queue dry. -/
theorem readv_accountable_iff (who : PipeUser) (file : File) (pipe : Pipe) (iov : List Nat) :
    pipe.ReadAccountable iov (sysReadv (inode who) file pipe iov) ↔
      (∃ id, who = .sender id) ∨ pipe.queue = [] ∨
        (min iov.sum pipe.queue.length < usizeBound ∧ ¬ pipe.RunsDry iov) := by
  cases who with
  | sender id =>
    obtain ⟨state, buffers, answer⟩ := readAll_sender 0
    refine iff_of_true ⟨fun errno failed => congrArg queue state, fun count done => ?_⟩ (.inl ⟨id, rfl⟩)
    obtain ⟨rfl, rfl⟩ := answer count done
    exact ⟨zero_le _, rfl, rfl, rfl⟩
  | receiver id =>
    rw [or_iff_right (by rintro ⟨_, same⟩; cases same)]
    by_cases dry : pipe.RunsDry iov
    · obtain ⟨answer, state⟩ := readAll_runsDry dry 0
      rw [or_iff_left fun both => both.2 dry]
      constructor
      · intro accountable
        rw [← accountable.failed _ answer]
        exact state
      · intro empty
        refine ⟨fun errno failed => state.trans empty.symm, fun count done => ?_⟩
        cases answer.symm.trans done
    · obtain ⟨answer, buffers, state⟩ := @readAll_flows pipe file id iov dry 0 (by decide)
      rw [wrapAdd, zero_add] at answer
      rw [and_iff_left dry]
      constructor
      · intro accountable
        obtain ⟨-, -, -, rest⟩ := accountable.moved _ answer
        have rest := congrArg List.length ((congrArg queue state).symm.trans rest)
        rw [drop, length_drop, length_drop] at rest
        by_cases word : min iov.sum pipe.queue.length < usizeBound
        · exact .inr word
        · have below := mod_lt (min iov.sum pipe.queue.length) (show 0 < usizeBound by decide)
          omega
      · intro word
        have word : min iov.sum pipe.queue.length < usizeBound := by
          rcases word with empty | word
          · rw [empty, length_nil, min_zero]
            decide
          · exact word
        rw [mod_eq_of_lt word] at answer
        refine ⟨fun errno failed => (by cases answer.symm.trans failed), fun count done => ?_⟩
        cases Except.ok.inj (answer.symm.trans done)
        rw [← take_eq_take_min, ← drop_eq_drop_min, scatter_take]
        exact ⟨min_le_right .., buffers, by rw [sysReadv, buffers, scatter_flatten], congrArg queue state⟩

/-! ### `writev` -/

def NoWriter (who : PipeUser) (file : File) : Prop :=
  file.checkWriteable ≠ .ok () ∨ ∃ id, who = .receiver id

theorem write_noWriter {who : PipeUser} (refused : NoWriter who file) (buffer : List UInt8) :
    (buffer = [] ∧ file.write (inode who) pipe buffer = (.ok 0, file, pipe)) ∨
      ∃ errno, file.write (inode who) pipe buffer = (.error errno, file, pipe) := by
  unfold File.write
  cases check : file.checkWriteable with
  | error err => exact .inr ⟨err, rfl⟩
  | ok _ =>
    cases buffer with
    | nil => exact .inl ⟨rfl, rfl⟩
    | cons _ buffer =>
      obtain ⟨_, rfl⟩ := refused.resolve_left fun closed => closed check
      exact .inr ⟨.ENOENT, rfl⟩

theorem writeAll_noWriter {who : PipeUser} (refused : NoWriter who file) {wsize : Nat} (bound : wsize < usizeBound) :
    (writeAll (inode who) buffers wsize file pipe).2.2 = pipe ∧
      ∀ count, (writeAll (inode who) buffers wsize file pipe).1 = .ok count → count = wsize ∧ buffers.flatten = [] := by
  induction buffers generalizing wsize with
  | nil => exact ⟨rfl, fun count done => ⟨(Except.ok.inj done).symm, rfl⟩⟩
  | cons buffer buffers ih =>
    rw [writeAll]
    rcases @write_noWriter pipe file who refused buffer with ⟨rfl, done⟩ | ⟨_, done⟩
    · rw [done]
      dsimp only
      rw [wrapAdd_eq bound]
      exact ih bound
    · rw [done]
      exact ⟨rfl, fun count done => nomatch done⟩

section Writer

variable (writeable : file.checkWriteable = .ok ())
include writeable

theorem write_overflows (full : pipe.Overflows buffer) :
    file.write (inode (.sender id)) pipe buffer = (.error EWOULDBLOCK, file, pipe) := by
  have some : buffer.length ≠ 0 := by
    have := full.1
    omega
  simp only [File.write, writeable, if_neg some, inode, writeat_overflows full]

theorem write_fits (fits : ¬ pipe.Overflows buffer) :
    ∃ later, file.write (inode (.sender id)) pipe buffer = (.ok buffer.length, later, pipe.append buffer) ∧
      later.checkWriteable = .ok () := by
  cases buffer with
  | nil =>
    refine ⟨file, ?_, writeable⟩
    rw [append_nil]
    simp only [File.write, writeable]
    rfl
  | cons byte buffer =>
    refine ⟨{ file with offset := wrapAdd file.offset (byte :: buffer).length }, ?_, writeable⟩
    have some : (byte :: buffer).length ≠ 0 := length_cons ▸ succ_ne_zero _
    simp only [File.write, writeable, if_neg some, inode, writeat_fits fits]

theorem writeAll_overruns (full : pipe.Overruns buffers) (wsize : Nat) :
    (writeAll (inode (.sender id)) buffers wsize file pipe).1 = .error EWOULDBLOCK ∧
      ∃ bytes, (writeAll (inode (.sender id)) buffers wsize file pipe).2.2 = pipe.append bytes ∧
        (bytes = [] ↔ pipe.OverrunsAtOnce buffers) := by
  induction buffers generalizing pipe wsize file with
  | nil => exact full.elim
  | cons buffer buffers ih =>
    rw [writeAll, OverrunsAtOnce]
    by_cases now : pipe.Overflows buffer
    · rw [write_overflows writeable now]
      exact ⟨rfl, [], (append_nil pipe).symm, iff_of_true rfl (.inl now)⟩
    · obtain ⟨later, done, still⟩ := write_fits writeable now
      obtain ⟨failed, bytes, state, none⟩ :=
        @ih (pipe.append buffer) later still (full.resolve_left now) (wrapAdd wsize buffer.length)
      rw [done, or_iff_right now]
      refine ⟨failed, buffer ++ bytes, state.trans (append_append ..), ?_⟩
      rw [append_eq_nil_iff]
      refine and_congr_right ?_
      rintro rfl
      rw [none, append_nil]

theorem writeAll_fits (fits : ¬ pipe.Overruns buffers) {wsize : Nat} (bound : wsize < usizeBound) :
    (writeAll (inode (.sender id)) buffers wsize file pipe).1 = .ok (wrapAdd wsize buffers.flatten.length) ∧
      (writeAll (inode (.sender id)) buffers wsize file pipe).2.2 = pipe.append buffers.flatten := by
  induction buffers generalizing pipe wsize file with
  | nil =>
    refine ⟨?_, (append_nil pipe).symm⟩
    rw [flatten_nil, length_nil, wrapAdd_eq bound]
    rfl
  | cons buffer buffers ih =>
    rw [Overruns, not_or] at fits
    obtain ⟨later, done, still⟩ := write_fits writeable fits.1
    obtain ⟨answer, state⟩ := @ih (pipe.append buffer) later still fits.2 _ (wrapAdd_lt wsize _)
    rw [writeAll, done]
    refine ⟨answer.trans ?_, state.trans (append_append ..)⟩
    rw [wrapAdd_wrapAdd, flatten_cons, length_append]

end Writer

/-- `writev` accounts for what it appends where nothing can be written, where the first
bytes do not fit, and else exactly if all buffers fit and the count fits in a word. -/
theorem writev_accountable_iff (who : PipeUser) (file : File) (pipe : Pipe) (buffers : List (List UInt8)) :
    pipe.WriteAccountable buffers (sysWritev (inode who) file pipe buffers) ↔
      NoWriter who file ∨ pipe.OverrunsAtOnce buffers ∨
        (buffers.flatten.length < usizeBound ∧ ¬ pipe.Overruns buffers) := by
  by_cases refused : NoWriter who file
  · obtain ⟨state, answer⟩ := @writeAll_noWriter pipe file buffers who refused 0 (by decide)
    refine iff_of_true ⟨fun errno failed => congrArg queue state, fun count done => ?_⟩ (.inl refused)
    obtain ⟨rfl, _⟩ := answer count done
    exact ⟨zero_le _, (congrArg queue state).trans (List.append_nil _).symm⟩
  · rw [or_iff_right refused]
    obtain ⟨writeable, sends⟩ := not_or.mp refused
    have writeable := not_not.mp writeable
    cases who with
    | receiver id => exact absurd ⟨id, rfl⟩ sends
    | sender id =>
      by_cases full : pipe.Overruns buffers
      · obtain ⟨answer, _, state, none⟩ := writeAll_overruns writeable full 0
        rw [or_iff_left fun both => both.2 full, ← none]
        constructor
        · intro accountable
          have same := (congrArg queue state).symm.trans (accountable.failed _ answer)
          exact append_right_eq_self.mp same
        · rintro rfl
          refine ⟨fun errno failed => (congrArg queue state).trans (List.append_nil _), fun count done => ?_⟩
          cases answer.symm.trans done
      · obtain ⟨answer, state⟩ := @writeAll_fits pipe file id buffers writeable full 0 (by decide)
        rw [wrapAdd, zero_add] at answer
        rw [and_iff_left full, or_iff_right (mt OverrunsAtOnce.overruns full)]
        constructor
        · intro accountable
          obtain ⟨-, rest⟩ := accountable.moved _ answer
          have rest := congrArg List.length (append_cancel_left ((congrArg queue state).symm.trans rest))
          rw [length_take] at rest
          have below := mod_lt buffers.flatten.length (show 0 < usizeBound by decide)
          omega
        · intro word
          rw [mod_eq_of_lt word] at answer
          refine ⟨fun errno failed => (by cases answer.symm.trans failed), fun count done => ?_⟩
          cases Except.ok.inj (answer.symm.trans done)
          rw [take_length]
          exact ⟨le_rfl, congrArg queue state⟩

theorem vectored_accountable_iff (who : PipeUser) (file : File) (pipe : Pipe) :
    (∀ iov, pipe.ReadAccountable iov (sysReadv (inode who) file pipe iov) ↔
      (∃ id, who = .sender id) ∨ pipe.queue = [] ∨
        (min iov.sum pipe.queue.length < usizeBound ∧ ¬ pipe.RunsDry iov)) ∧
      ∀ buffers, pipe.WriteAccountable buffers (sysWritev (inode who) file pipe buffers) ↔
        NoWriter who file ∨ pipe.OverrunsAtOnce buffers ∨
          (buffers.flatten.length < usizeBound ∧ ¬ pipe.Overruns buffers) :=
  ⟨readv_accountable_iff who file pipe, writev_accountable_iff who file pipe⟩

theorem writev_fails_second (size : buffer.length = pipeBufferSize) :
    sysWritev (inode (.sender 0)) ⟨0, 0, 1⟩ createPipe [[7], buffer] =
      (.error EWOULDBLOCK, ⟨0, 1, 1⟩, { queue := [7], senders := 1 }) := by
  have full : ({ queue := [7], senders := 1 } : Pipe).Overflows buffer := by
    rw [Overflows, size]
    decide
  have second := @write_overflows _ ⟨0, 1, 1⟩ 0 buffer rfl full
  change writeAll (inode (.sender 0)) [buffer] 1 ⟨0, 1, 1⟩ { queue := [7], senders := 1 } = _
  rw [writeAll, second]

/-- One byte is there and a sender: `readv` takes the byte for the first of two buffers and
fails at the second. `writev` appends a byte and fails at a buffer that does not fit. -/
theorem failed_vectored_calls_move_bytes :
    (sysReadv (inode (.receiver 0)) ⟨0, 0, 0⟩ { queue := [7], senders := 1 } [1, 1]).answer = .error EWOULDBLOCK ∧
      (sysReadv (inode (.receiver 0)) ⟨0, 0, 0⟩ { queue := [7], senders := 1 } [1, 1]).state.queue = [] ∧
      (sysWritev (inode (.sender 0)) ⟨0, 0, 1⟩ createPipe [[7], List.replicate pipeBufferSize 0]).1 =
        .error EWOULDBLOCK ∧
      (sysWritev (inode (.sender 0)) ⟨0, 0, 1⟩ createPipe [[7], List.replicate pipeBufferSize 0]).2.2.queue = [7] := by
  rw [writev_fails_second length_replicate]
  exact ⟨rfl, rfl, rfl, rfl⟩

end Pipe

end MonkeyOS.Fs
