import MonkeyOS.Fs.Pipe

/-!
# Readiness of pipes

`PollEvent` of `filesystem/vfscore/src/lib.rs` and `poll` of the two ends of a pipe in
`filesystem/fs/src/pipe.rs`, against what the ends answer to reads and writes.
-/

set_option autoImplicit false

namespace MonkeyOS.Fs

abbrev PollEvent := UInt16

namespace PollEvent

def NONE : PollEvent := 0

def POLLIN : PollEvent := 0x001

def POLLOUT : PollEvent := 0x004

def POLLERR : PollEvent := 0x008

def contains (events flag : PollEvent) : Bool := events &&& flag == flag

end PollEvent

open PollEvent

def Reports (answer : Except Errno PollEvent) (flag : PollEvent) : Prop :=
  ∃ res, answer = .ok res ∧ res.contains flag

theorem reports_ok (res flag : PollEvent) : Reports (.ok res) flag ↔ res.contains flag :=
  ⟨fun ⟨_, same, contains⟩ => Except.ok.inj same ▸ contains, fun contains => ⟨res, rfl, contains⟩⟩

namespace Pipe

def senderPoll (pipe : Pipe) (events : PollEvent) : Except Errno PollEvent :=
  .ok (if events.contains POLLOUT ∧ pipe.queue.length ≤ pipeBufferSize then POLLOUT else NONE)

def receiverPoll (pipe : Pipe) (events : PollEvent) : Except Errno PollEvent :=
  let queueLen := pipe.queue.length
  let senderAlive := pipe.senders > 0
  let res :=
    if events.contains POLLIN then if queueLen > 0 then POLLIN else if senderAlive then NONE else POLLERR
    else NONE
  .ok (if events.contains POLLERR ∧ queueLen = 0 ∧ ¬ senderAlive then res ||| POLLERR else res)

/-- `PIPE_BUF` of POSIX -/
def pipeBuf : Nat := 4096

structure ReadinessAgrees (pipe : Pipe) : Prop where
  input : Reports (pipe.receiverPoll POLLIN) POLLIN ↔
    ∀ offset len, 0 < len → (pipe.readat offset len).1 ≠ .error EWOULDBLOCK
  output : Reports (pipe.senderPoll POLLOUT) POLLOUT →
    ∀ offset buffer, buffer.length ≤ pipeBuf → (pipe.writeat offset buffer).1 ≠ .error EWOULDBLOCK

variable (pipe : Pipe)

theorem receiverPoll_reports : Reports (pipe.receiverPoll POLLIN) POLLIN ↔ pipe.queue ≠ [] := by
  obtain ⟨queue, _⟩ := pipe
  rw [receiverPoll, reports_ok, if_neg (fun asked => absurd asked.1 (by decide)), if_pos (by decide)]
  cases queue with
  | nil =>
    rw [if_neg (by simp)]
    split <;> simp <;> decide
  | cons _ queue =>
    simp
    decide

theorem senderPoll_reports : Reports (pipe.senderPoll POLLOUT) POLLOUT ↔ pipe.queue.length ≤ pipeBufferSize := by
  rw [senderPoll, reports_ok]
  by_cases room : pipe.queue.length ≤ pipeBufferSize
  · rw [if_pos ⟨by decide, room⟩, iff_true_right room]
    decide
  · rw [if_neg (fun both => room both.2), iff_false_right room]
    decide

theorem reads_iff :
    (∀ offset len, 0 < len → (pipe.readat offset len).1 ≠ .error EWOULDBLOCK) ↔ pipe.queue = [] → pipe.senders = 0 := by
  constructor
  · intro reads empty
    by_contra alive
    exact reads 0 1 one_pos (by rw [readat_dry ⟨one_pos, empty, pos_of_ne_zero alive⟩])
  · intro closed _ len _ blocks
    have flows : ¬ pipe.Dry len := fun dry => dry.2.2.ne' (closed dry.2.1)
    rw [readat_flows flows] at blocks
    cases blocks

theorem writes_iff :
    (∀ offset buffer, buffer.length ≤ pipeBuf → (pipe.writeat offset buffer).1 ≠ .error EWOULDBLOCK) ↔
      pipe.queue.length + pipeBuf ≤ pipeBufferSize := by
  constructor
  · intro writes
    by_contra full
    have long : (List.replicate pipeBuf (0 : UInt8)).length = pipeBuf := List.length_replicate
    have overflows : pipe.Overflows (List.replicate pipeBuf 0) := ⟨by rw [long]; decide, by omega⟩
    exact writes 0 _ long.le (by rw [writeat_overflows overflows])
  · intro _ _ buffer _ blocks
    have fits : ¬ pipe.Overflows buffer := fun full => by have := full.2; omega
    rw [writeat_fits fits] at blocks
    cases blocks

/-- The receiver does not report the end of the stream as input, and the sender reports
room as long as the queue is not over its limit. -/
theorem readiness_agrees_iff :
    pipe.ReadinessAgrees ↔
      (pipe.queue = [] → 0 < pipe.senders) ∧
        (pipe.queue.length ≤ pipeBufferSize → pipe.queue.length + pipeBuf ≤ pipeBufferSize) := by
  have input : (pipe.queue ≠ [] ↔ (pipe.queue = [] → pipe.senders = 0)) ↔ (pipe.queue = [] → 0 < pipe.senders) := by
    by_cases empty : pipe.queue = [] <;> simp [empty, Nat.pos_iff_ne_zero]
  rw [← input, ← receiverPoll_reports, ← senderPoll_reports, ← reads_iff, ← writes_iff]
  exact ⟨fun agrees => ⟨agrees.input, agrees.output⟩, fun ⟨input, output⟩ => ⟨input, output⟩⟩

/-- An empty pipe without sender, and one with room for 4095 bytes. -/
theorem readiness_disagrees :
    ¬ ReadinessAgrees { queue := [], senders := 0 } ∧
      ¬ ReadinessAgrees { queue := List.replicate 61441 0, senders := 1 } := by
  constructor
  · intro agrees
    exact (receiverPoll_reports _).mp (agrees.input.mpr ((reads_iff _).mpr fun _ => rfl)) rfl
  · generalize filled : List.replicate 61441 (0 : UInt8) = queue
    have len : queue.length = 61441 := by rw [← filled, List.length_replicate]
    intro agrees
    have reported := (senderPoll_reports { queue, senders := 1 }).mpr (len.trans_le (by decide))
    have room : queue.length + pipeBuf ≤ pipeBufferSize := (writes_iff _).mp (agrees.output reported)
    rw [len] at room
    exact absurd room (by decide)

end Pipe

end MonkeyOS.Fs
