import MonkeyOS.Fs.Blocking

/-!
# Pipes

`filesystem/fs/src/pipe.rs`. The state is the queue of bytes shared by the two
ends and the number of references to the sending end. Log output and `stat` are left
out; `poll`, which changes nothing, is in `Fs.Readiness`.
-/

set_option autoImplicit false

namespace MonkeyOS.Fs

open Lib List

structure Pipe where
  queue : List UInt8
  /-- `Weak::strong_count(&self.sender)` -/
  senders : Nat

namespace Pipe

def pipeBufferSize : Nat := 0x10000

def writeat (pipe : Pipe) (_offset : Nat) (buffer : List UInt8) : Except Errno Nat × Pipe :=
  if buffer.isEmpty then (.ok 0, pipe)
  else if buffer.length ≤ 16 then (.ok buffer.length, { pipe with queue := pipe.queue ++ buffer })
  else if pipe.queue.length + buffer.length ≤ pipeBufferSize then
    (.ok buffer.length, { pipe with queue := pipe.queue ++ buffer })
  else (.error EWOULDBLOCK, pipe)

def readat (pipe : Pipe) (_offset requested : Nat) : Except Errno (List UInt8) × Pipe :=
  if requested = 0 then (.ok [], pipe)
  else
    let available := pipe.queue.length
    if available > 0 then
      let rlen := min available requested
      (.ok (pipe.queue.take rlen), { pipe with queue := pipe.queue.drop rlen })
    else if pipe.senders > 0 then (.error EWOULDBLOCK, pipe)
    else (.ok [], pipe)

inductive PipeUser where
  | sender (id : Nat)
  | receiver (id : Nat)
  deriving DecidableEq, Repr

/-- The calls an end does not implement fail. -/
def inode : PipeUser → INode Pipe UInt8
  | .sender _ => { readat := fun pipe _ _ => (.error .ENOENT, pipe), writeat }
  | .receiver _ => { readat, writeat := fun pipe _ _ => (.error .ENOENT, pipe) }

def createPipe : Pipe := { queue := [], senders := 1 }

/-- References to the sending end come from other such references. -/
inductive SenderChange where
  | clone
  | drop
  deriving DecidableEq, Repr

def changeSenders (pipe : Pipe) : SenderChange → Option Pipe
  | .clone => if pipe.senders = 0 then none else some { pipe with senders := pipe.senders + 1 }
  | .drop => if pipe.senders = 0 then none else some { pipe with senders := pipe.senders - 1 }

abbrev PipeSystem := System Pipe PipeUser UInt8

abbrev PipeEvent := Event PipeUser SenderChange UInt8

def Step : PipeSystem → PipeEvent → PipeSystem → Prop := System.Step inode changeSenders

def start : PipeSystem := { state := createPipe, futures := fun _ => none }

def written (event : PipeEvent) : List UInt8 :=
  match event.outcome with
  | .wrote _ buffer (.ok _) => buffer
  | _ => []

def returned (event : PipeEvent) : List UInt8 :=
  match event.outcome with
  | .got _ _ (.ok bytes) => bytes
  | _ => []

/-- A read for some bytes that returns none has found the end of the stream. -/
def EndOfFile (before : PipeSystem) (event : PipeEvent) : Prop :=
  ∀ who len, event.outcome = .got who len (.ok []) → len ≠ 0 → before.state.queue = [] ∧ before.state.senders = 0

def drop (pipe : Pipe) (count : Nat) : Pipe := { pipe with queue := pipe.queue.drop count }

def append (pipe : Pipe) (bytes : List UInt8) : Pipe := { pipe with queue := pipe.queue ++ bytes }

def Dry (pipe : Pipe) (len : Nat) : Prop := 0 < len ∧ pipe.queue = [] ∧ 0 < pipe.senders

def Overflows (pipe : Pipe) (buffer : List UInt8) : Prop :=
  16 < buffer.length ∧ pipeBufferSize < pipe.queue.length + buffer.length

variable {pipe after : Pipe} {offset len : Nat} {buffer bytes : List UInt8} {who : PipeUser} {errno : Errno}

theorem drop_drop (pipe : Pipe) (first second : Nat) : (pipe.drop first).drop second = pipe.drop (first + second) := by
  rw [drop, drop, drop, List.drop_drop]

theorem append_nil (pipe : Pipe) : pipe.append [] = pipe := by rw [append, List.append_nil]

theorem append_append (pipe : Pipe) (first second : List UInt8) :
    (pipe.append first).append second = pipe.append (first ++ second) := by
  rw [append, append, append, append_assoc]

theorem writeat_overflows (full : pipe.Overflows buffer) : pipe.writeat offset buffer = (.error EWOULDBLOCK, pipe) := by
  obtain ⟨large, full⟩ := full
  have some : ¬ buffer.isEmpty := by
    rw [List.isEmpty_iff]
    rintro rfl
    exact absurd large (by decide)
  rw [writeat, if_neg some, if_neg (by omega), if_neg (by omega)]

theorem writeat_fits (fits : ¬ pipe.Overflows buffer) :
    pipe.writeat offset buffer = (.ok buffer.length, pipe.append buffer) := by
  unfold writeat
  split
  next empty =>
    cases isEmpty_iff.mp empty
    rw [append_nil]
    rfl
  · split
    · rfl
    · exact if_pos (by have := not_and.mp fits; omega)

theorem readat_dry (dry : pipe.Dry len) : pipe.readat offset len = (.error EWOULDBLOCK, pipe) := by
  obtain ⟨some, empty, alive⟩ := dry
  simp [readat, empty, some.ne', alive]

theorem readat_flows (flows : ¬ pipe.Dry len) :
    pipe.readat offset len = (.ok (pipe.queue.take len), pipe.drop len) := by
  unfold readat
  split
  next none => simp [none, drop]
  next some =>
    dsimp only
    split
    · rw [min_comm, ← take_eq_take_min, ← drop_eq_drop_min]
      rfl
    next none =>
      have empty : pipe.queue = [] := eq_nil_of_length_eq_zero (by omega)
      have closed : ¬ pipe.senders > 0 := fun alive => flows ⟨pos_of_ne_zero some, empty, alive⟩
      obtain ⟨queue, senders⟩ := pipe
      cases empty
      simp [closed, drop]

theorem writeat_ok {count : Nat} (done : (inode who).writeat pipe offset buffer = (.ok count, after)) :
    count = buffer.length ∧ after = { pipe with queue := pipe.queue ++ buffer } := by
  cases who with
  | receiver id => cases done
  | sender id =>
    change pipe.writeat offset buffer = _ at done
    by_cases full : pipe.Overflows buffer
    · rw [writeat_overflows full] at done
      cases done
    · rw [writeat_fits full] at done
      cases done
      exact ⟨rfl, rfl⟩

theorem writeat_error (done : (inode who).writeat pipe offset buffer = (.error errno, after)) : after = pipe := by
  cases who with
  | receiver id =>
    cases done
    rfl
  | sender id =>
    change pipe.writeat offset buffer = _ at done
    by_cases full : pipe.Overflows buffer
    · rw [writeat_overflows full] at done
      cases done
      rfl
    · rw [writeat_fits full] at done
      cases done

theorem readat_ok (done : (inode who).readat pipe offset len = (.ok bytes, after)) :
    bytes ++ after.queue = pipe.queue ∧ (len ≠ 0 → bytes = [] → pipe.queue = [] ∧ pipe.senders = 0) := by
  cases who with
  | sender id => cases done
  | receiver id =>
    change pipe.readat offset len = _ at done
    by_cases dry : pipe.Dry len
    · rw [readat_dry dry] at done
      cases done
    · rw [readat_flows dry] at done
      cases done
      refine ⟨take_append_drop .., fun some none => ?_⟩
      have empty : pipe.queue = [] := (take_eq_nil_iff.mp none).resolve_left some
      refine ⟨empty, Nat.eq_zero_of_not_pos fun alive => dry ⟨Nat.pos_of_ne_zero some, empty, alive⟩⟩

theorem readat_error (done : (inode who).readat pipe offset len = (.error errno, after)) : after = pipe := by
  cases who with
  | sender id =>
    cases done
    rfl
  | receiver id =>
    change pipe.readat offset len = _ at done
    by_cases dry : pipe.Dry len
    · rw [readat_dry dry] at done
      cases done
      rfl
    · rw [readat_flows dry] at done
      cases done

theorem inode_steady (who : PipeUser) : (inode who).Steady := ⟨readat_error, writeat_error⟩

variable {before finish : PipeSystem} {event : PipeEvent}

theorem Step.flow {after : PipeSystem} (step : Step before event after) :
    returned event ++ after.state.queue = before.state.queue ++ written event := by
  have explained := System.Step.explained inode_steady step
  obtain ⟨_, outcome⟩ := event
  cases outcome with
  | silent =>
    rw [show after.state = before.state from explained]
    exact (List.append_nil _).symm
  | wrote who _ answer =>
    obtain ⟨offset, called⟩ := explained
    cases answer with
    | ok _ =>
      rw [(writeat_ok called).2]
      rfl
    | error errno =>
      rw [writeat_error called]
      exact (List.append_nil _).symm
  | got who _ answer =>
    obtain ⟨offset, called⟩ := explained
    cases answer with
    | ok _ => exact (readat_ok called).1.trans (List.append_nil _).symm
    | error errno =>
      rw [readat_error called]
      exact (List.append_nil _).symm
  | changed kind =>
    have same : after.state.queue = before.state.queue := by
      cases kind with
      | clone | drop =>
        simp only [Outcome.Explains, changeSenders] at explained
        split at explained
        · cases explained
        · rw [← Option.some.inj explained]
    rw [same]
    exact (List.append_nil _).symm

theorem Step.endOfFile {after : PipeSystem} (step : Step before event after) : EndOfFile before event := by
  intro _ _ same some
  have explained := System.Step.explained inode_steady step
  rw [same] at explained
  obtain ⟨_, called⟩ := explained
  exact (readat_ok called).2 some rfl

/-- However the callers interleave: the bytes read and those left are the buffers
of the successful writes, in the order in which these completed, and a read finds
the end of the stream only when it is there. -/
theorem pipe_stream {events : List PipeEvent} (run : Run Step start events finish) :
    events.flatMap returned ++ finish.state.queue = events.flatMap written ∧
      Run (fun before event after => Step before event after ∧ EndOfFile before event) start events finish := by
  constructor
  · exact @Run.flow _ _ _ _ returned written (fun system => system.state.queue) Step.flow _ _ _ run
  · exact run.mono fun step => ⟨step, step.endOfFile⟩

/-- A reader waits for the bytes of a writer; the last sender goes; the next read
finds the end. -/
def waitingReader : List PipeEvent :=
  [⟨.await 7 (.read (.receiver 0) { len := 4, offset := 0, retries := 0 }), .silent⟩,
    ⟨.poll 7, .silent⟩,
    ⟨.write (.sender 1) 0 [104, 105], .wrote (.sender 1) [104, 105] (.ok 2)⟩,
    ⟨.poll 7, .got (.receiver 0) 4 (.ok [104, 105])⟩,
    ⟨.change .drop, .changed .drop⟩,
    ⟨.read (.receiver 0) 0 4, .got (.receiver 0) 4 (.ok [])⟩]

theorem pipe_stream_waiting_reader :
    ∃ finish, Run Step start waitingReader finish ∧
      waitingReader.flatMap returned ++ finish.state.queue = waitingReader.flatMap written := by
  exact ⟨_, (and_iff_left_of_imp fun run => (pipe_stream run).1).mpr
    (.cons rfl (.cons rfl (.cons rfl (.cons rfl (.cons rfl (.cons rfl .refl))))))⟩

end Pipe

end MonkeyOS.Fs
