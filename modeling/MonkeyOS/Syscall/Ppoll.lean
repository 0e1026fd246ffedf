import MonkeyOS.Fs.Tty
import MonkeyOS.Syscall.Receive
import MonkeyOS.User.SocketPair

/-!
# Polling files

`poll` of sockets, socket pairs and `/dev/urandom`, the default of `INodeInterface` that
every other file has, and `sys_ppoll` of `kernel/src/syscall/fd.rs`. A waiting call looks
at its descriptors once each turn; between two turns anything may happen to them.
-/

set_option autoImplicit false

namespace MonkeyOS.Syscall

open Lib Tasks Fs User PollEvent Function List

/-! ## Sockets -/

namespace Socket

/-- The net stack tells whether the connection is `closed` and whether it has a peer;
`readable` is taken to mean that `recv_from` has a segment. -/
def poll (socket : Socket) (closed connected : Bool) (events : PollEvent) : Except Errno PollEvent :=
  let res := if events.contains POLLOUT ∧ !closed ∧ connected then POLLOUT else NONE
  .ok (if !socket.segments.isEmpty ∧ events.contains POLLIN then res ||| POLLIN else res)

def ReadinessAgrees (socket : Socket) (closed connected : Bool) : Prop :=
  Reports (socket.poll closed connected POLLIN) POLLIN ↔
    ∀ offset len, 0 < len → (socket.readat offset len).1 ≠ .error EWOULDBLOCK

theorem poll_reports (socket : Socket) (closed connected : Bool) :
    Reports (socket.poll closed connected POLLIN) POLLIN ↔ socket.segments ≠ [] := by
  obtain ⟨_, segments⟩ := socket
  have output : POLLIN.contains POLLOUT = false := by decide
  have input : POLLIN.contains POLLIN = true := by decide
  rw [poll, reports_ok]
  cases segments with
  | nil =>
    simp only [output, isEmpty_nil, Bool.not_true, Bool.false_eq_true, false_and, if_false]
    exact iff_of_false (by decide) (· rfl)
  | cons =>
    simp only [output, input, isEmpty_cons, Bool.not_false, Bool.false_eq_true, false_and, true_and, if_false, if_true]
    exact iff_of_true (by decide) (cons_ne_nil _ _)

theorem readat_blocks_iff (socket : Socket) (offset len : Nat) :
    (socket.readat offset len).1 = .error EWOULDBLOCK ↔ socket.buf = [] ∧ socket.segments = [] := by
  obtain ⟨buf, segments⟩ := socket
  cases buf with
  | nil => cases segments <;> simp [readat, recvFrom, copyOut]
  | cons => simp [readat, copyOut]

/-- What an earlier read left over is not reported. -/
theorem socket_readiness_iff (socket : Socket) (closed connected : Bool) :
    socket.ReadinessAgrees closed connected ↔ (socket.buf = [] ∨ socket.segments ≠ []) := by
  have reads : (∀ offset len, 0 < len → (socket.readat offset len).1 ≠ .error EWOULDBLOCK) ↔
      ¬ (socket.buf = [] ∧ socket.segments = []) := by
    simp only [ne_eq, readat_blocks_iff]
    exact ⟨fun reads => reads 0 1 Nat.one_pos, fun some _ _ _ => some⟩
  rw [ReadinessAgrees, poll_reports, reads]
  tauto

/-- A segment of two bytes is read one byte at a time. -/
theorem leftover_unreported : ¬ (readat { buf := [], segments := [[1, 2]] } 0 1).2.ReadinessAgrees false true := by
  intro agrees
  rw [ReadinessAgrees, poll_reports] at agrees
  refine agrees.mpr (fun offset len _ blocks => ?_) rfl
  exact absurd ((readat_blocks_iff _ offset len).mp blocks).1 (by decide)

end Socket

def socketPairPoll (pair : SocketPair) (events : PollEvent) : Except Errno PollEvent :=
  let res := if events.contains POLLOUT ∧ pair.inner.length ≤ 0x50000 then POLLOUT else NONE
  .ok (if events.contains POLLIN ∧ pair.inner.length > 0 then res ||| POLLIN else res)

def urandomPoll (events : PollEvent) : Except Errno PollEvent := .ok (if events.contains POLLIN then POLLIN else NONE)

/-! ## Files -/

/-- The kinds of files, with the state that `poll` looks at. Files, directories and links
of a disk, the ram disk and `procfs`, the other devices, and epoll files have the default. -/
inductive PollFile where
  | pipeSender (pipe : Pipe)
  | pipeReceiver (pipe : Pipe)
  | socket (socket : Socket) (closed connected : Bool)
  | socketPair (pair : SocketPair)
  | tty (tty : Tty)
  | urandom
  | regular
  | directory
  | device
  | epoll

namespace PollFile

def poll (file : PollFile) (uart : List UInt8) (events : PollEvent) : Except Errno PollEvent × PollFile × List UInt8 :=
  match file with
  | .pipeSender pipe => (pipe.senderPoll events, file, uart)
  | .pipeReceiver pipe => (pipe.receiverPoll events, file, uart)
  | .socket inner closed connected => (inner.poll closed connected events, file, uart)
  | .socketPair pair => (socketPairPoll pair events, file, uart)
  | .tty terminal =>
    let (answer, terminal, uart) := terminal.poll uart events
    (answer, .tty terminal, uart)
  | .urandom => (urandomPoll events, file, uart)
  | .regular | .directory | .device | .epoll => (.error .EPERM, file, uart)

end PollFile

structure TimeSpec where
  sec : Nat
  nsec : Nat

def TimeSpec.toNsec (time : TimeSpec) : Nat := wrapAdd (wrapMul time.sec 1000000000) time.nsec

/-- When a call that starts at `now` gives up; `usize::MAX` without a timeout. -/
def deadline (now : Nat) (timeout : Option TimeSpec) : Nat :=
  timeout.elim (usizeBound - 1) fun time => wrapAdd now time.toNsec

end MonkeyOS.Syscall
