import MonkeyOS.Fs.Blocking

/-!
# Receiving on a TCP socket

`recv_from` and `readat` of `kernel/src/socket.rs` and `sys_recvfrom` of
`kernel/src/syscall/socket.rs`. The net stack hands over one segment at a time. A
read keeps what does not fit its buffer for the next read; `recvfrom` looks at the
segments only and forgets what does not fit. Sending, counters and the address of
the peer are left out.
-/

set_option autoImplicit false

namespace MonkeyOS.Syscall

open Lib Fs List

structure Socket where
  buf : List UInt8
  /-- What `inner` has received and not yet handed over, the oldest segment first. -/
  segments : List (List UInt8)

namespace Socket

/-- `inner.recv_from()`, with its error as both callers turn it. -/
def recvFrom (socket : Socket) : Except Errno (List UInt8) × Socket :=
  match socket.segments with
  | [] => (.error EWOULDBLOCK, socket)
  | data :: segments => (.ok data, { socket with segments })

/-- The part of `readat` that has data: the rest of it goes to the side buffer. -/
def copyOut (socket : Socket) (data : List UInt8) (len : Nat) : Except Errno (List UInt8) × Socket :=
  let rlen := min data.length len
  (.ok (data.take rlen), { socket with buf := if rlen < data.length then data.drop rlen else [] })

def readat (socket : Socket) (_offset len : Nat) : Except Errno (List UInt8) × Socket :=
  if socket.buf.length = 0 then
    match socket.recvFrom with
    | (.ok data, socket) => socket.copyOut data len
    | (.error errno, socket) => (.error errno, socket)
  else socket.copyOut socket.buf len

def sysRecvfrom (socket : Socket) (nonblock : Bool) (len : Nat) : Poll (Except Errno (List UInt8)) × Socket :=
  match socket.recvFrom with
  | (.ok data, socket) => (.ready (.ok (data.take (min data.length len))), socket)
  | (.error _, socket) => (if nonblock then .ready (.error .EAGAIN) else .pending, socket)

/-- What is received and not yet returned, in order. -/
def held (socket : Socket) : List UInt8 := socket.buf ++ socket.segments.flatten

/-- `sendto` is what the net stack answers to bytes to send. -/
def inode (sendto : List UInt8 → Except Errno Nat) : INode Socket UInt8 where
  readat
  writeat socket _ buffer := (sendto buffer, socket)

def deliver (socket : Socket) (segment : List UInt8) : Option Socket :=
  some { socket with segments := socket.segments ++ [segment] }

end Socket

/-! ## Callers of one socket -/

abbrev SocketSystem := System Socket Unit UInt8

/-- Reads and writes through the file, their futures and arriving segments, and turns of
`recvfrom` loops. -/
inductive SocketEvent where
  | file (event : Event Unit (List UInt8) UInt8)
  | recvfrom (nonblock : Bool) (len : Nat) (reply : Poll (Except Errno (List UInt8)))

namespace SocketEvent

def returned : SocketEvent → List UInt8
  | .file ⟨_, .got _ _ (.ok bytes)⟩ => bytes
  | .recvfrom _ _ (.ready (.ok bytes)) => bytes
  | _ => []

def received : SocketEvent → List UInt8
  | .file ⟨_, .changed segment⟩ => segment
  | _ => []

/-- A turn of `recvfrom` that finds a segment has room for it, and nothing is left over
from an earlier read. -/
def TakesWhole (before : SocketSystem) : SocketEvent → Prop
  | .file _ => True
  | .recvfrom _ len _ => ∀ data ∈ before.state.segments.head?, before.state.buf = [] ∧ data.length ≤ len

end SocketEvent

namespace Socket

inductive Step (sendto : List UInt8 → Except Errno Nat) : SocketSystem → SocketEvent → SocketSystem → Prop where
  | file {before event after} (step : before.Step (fun _ => inode sendto) deliver event after) :
      Step sendto before (.file event) after
  | recvfrom {before nonblock len reply state} (polled : before.state.sysRecvfrom nonblock len = (reply, state)) :
      Step sendto before (.recvfrom nonblock len reply) { before with state }

def start : SocketSystem := { state := { buf := [], segments := [] }, futures := fun _ => none }

variable {socket after : Socket} {data bytes : List UInt8} {len : Nat} {errno : Errno}

theorem recvFrom_ok (done : socket.recvFrom = (.ok data, after)) :
    socket.segments.head? = some data ∧ after.buf = socket.buf ∧
      data ++ after.segments.flatten = socket.segments.flatten := by
  unfold recvFrom at done
  split at done
  · cases done
  · next segments =>
    cases done
    exact ⟨by rw [segments]; rfl, rfl, by rw [segments, flatten_cons]⟩

theorem recvFrom_error (done : socket.recvFrom = (.error errno, after)) : after = socket := by
  unfold recvFrom at done
  split at done
  · cases done
    rfl
  · cases done

theorem copyOut_spec (done : socket.copyOut data len = (.ok bytes, after)) :
    after.segments = socket.segments ∧ bytes ++ after.buf = data := by
  cases done
  refine ⟨rfl, ?_⟩
  split
  · exact take_append_drop _ data
  · rw [take_of_length_le (by omega), append_nil]

theorem readat_ok (offset : Nat) (done : socket.readat offset len = (.ok bytes, after)) :
    bytes ++ after.held = socket.held := by
  unfold readat at done
  split at done
  · next none =>
    have empty : socket.buf = [] := length_eq_zero_iff.mp none
    split at done
    · next _ _ received =>
      obtain ⟨-, -, flattened⟩ := recvFrom_ok received
      obtain ⟨segments, split⟩ := copyOut_spec done
      rw [held, held, ← append_assoc, split, segments, flattened, empty, nil_append]
    · cases done
  · obtain ⟨segments, split⟩ := copyOut_spec done
    rw [held, held, ← append_assoc, split, segments]

theorem readat_error (offset : Nat) (done : socket.readat offset len = (.error errno, after)) : after = socket := by
  unfold readat at done
  split at done
  · split at done
    · cases done
    · next received =>
      cases done
      exact recvFrom_error received
  · cases done

theorem inode_steady (sendto : List UInt8 → Except Errno Nat) : (inode sendto).Steady where
  readat {_ offset _ _ _} done := readat_error offset done
  writeat done := (Prod.mk.inj done).2.symm

theorem sysRecvfrom_flow {before : SocketSystem} {nonblock : Bool} {reply : Poll (Except Errno (List UInt8))}
    (polled : before.state.sysRecvfrom nonblock len = (reply, after))
    (whole : SocketEvent.TakesWhole before (.recvfrom nonblock len reply)) :
    SocketEvent.returned (.recvfrom nonblock len reply) ++ after.held = before.state.held := by
  unfold sysRecvfrom at polled
  split at polled
  · next data _ received =>
    cases polled
    obtain ⟨first, buf, flattened⟩ := recvFrom_ok received
    obtain ⟨empty, room⟩ := whole data first
    rw [SocketEvent.returned, min_eq_left room, take_length, held, held, buf, empty]
    exact flattened
  · next failed =>
    rw [recvFrom_error failed] at polled
    cases nonblock <;> cases polled <;> rfl

theorem Step.flow {sendto : List UInt8 → Except Errno Nat} {before after : SocketSystem} {event : SocketEvent}
    (step : Step sendto before event after) (whole : event.TakesWhole before) :
    event.returned ++ after.state.held = before.state.held ++ event.received := by
  cases step with
  | recvfrom polled =>
    exact (sysRecvfrom_flow polled whole).trans (append_nil _).symm
  | @file event _ step =>
    have explained := System.Step.explained (fun _ => inode_steady sendto) step
    obtain ⟨_, outcome⟩ := event
    cases outcome with
    | silent =>
      rw [show after.state = before.state from explained]
      exact (append_nil _).symm
    | wrote who _ answer =>
      obtain ⟨offset, called⟩ := explained
      rw [show after.state = before.state from (Prod.mk.inj called).2.symm]
      exact (append_nil _).symm
    | got who _ answer =>
      obtain ⟨offset, called⟩ := explained
      cases answer with
      | ok _ => exact (readat_ok offset called).trans (append_nil _).symm
      | error _ =>
        rw [show after.state = before.state from readat_error offset called]
        exact (append_nil _).symm
    | changed _ =>
      rw [← show _ = after.state from Option.some.inj explained]
      simp [SocketEvent.returned, SocketEvent.received, held]

/-- As long as every `recvfrom` takes a whole segment and no read has left a part of one,
the bytes returned so far and those still held are the bytes received. -/
theorem received_in_order {sendto : List UInt8 → Except Errno Nat} {events : List SocketEvent} {finish : SocketSystem}
    (run : Run (fun before event after => Step sendto before event after ∧ event.TakesWhole before)
      start events finish) :
    events.flatMap SocketEvent.returned ++ finish.state.held = events.flatMap SocketEvent.received ∧
      events.flatMap SocketEvent.returned <+: events.flatMap SocketEvent.received := by
  have total := @Run.flow _ _ _ _ SocketEvent.returned SocketEvent.received (fun system => system.state.held)
    (fun step => step.1.flow step.2) _ _ _ run
  exact ⟨total, _, total⟩

def mixedReads : List SocketEvent :=
  [.file ⟨.change [1, 2], .changed [1, 2]⟩, .file ⟨.change [3], .changed [3]⟩,
    .file ⟨.read () 0 1, .got () 1 (.ok [1])⟩, .file ⟨.read () 0 4, .got () 4 (.ok [2])⟩,
    .recvfrom false 4 (.ready (.ok [3]))]

theorem received_in_order_mixed :
    ∃ finish, Run (fun before event after => Step (fun buffer => .ok buffer.length) before event after ∧
        event.TakesWhole before) start mixedReads finish ∧
      mixedReads.flatMap SocketEvent.returned <+: mixedReads.flatMap SocketEvent.received := by
  have room : ∀ data ∈ [[(3 : UInt8)]].head?, ([] : List UInt8) = [] ∧ data.length ≤ 4 := by
    intro data first
    cases first
    exact ⟨rfl, by decide⟩
  exact ⟨_, (and_iff_left_of_imp fun run => (received_in_order run).2).mpr
    (.cons ⟨.file rfl, trivial⟩ (.cons ⟨.file rfl, trivial⟩ (.cons ⟨.file rfl, trivial⟩
      (.cons ⟨.file rfl, trivial⟩ (.cons ⟨.recvfrom rfl, room⟩ .refl)))))⟩

/-- A `recvfrom` with room for one byte of a segment of two; the other is never returned. -/
def shortRecvfrom : List SocketEvent :=
  [.file ⟨.change [1, 2], .changed [1, 2]⟩, .recvfrom false 1 (.ready (.ok [1])),
    .file ⟨.change [3], .changed [3]⟩, .file ⟨.read () 0 4, .got () 4 (.ok [3])⟩]

theorem short_recvfrom_loses :
    ∃ finish, Run (Step fun buffer => .ok buffer.length) start shortRecvfrom finish ∧
      ¬ shortRecvfrom.flatMap SocketEvent.returned <+: shortRecvfrom.flatMap SocketEvent.received :=
  ⟨_, .cons (.file rfl) (.cons (.recvfrom rfl) (.cons (.file rfl) (.cons (.file rfl) .refl))), by decide⟩

end Socket

end MonkeyOS.Syscall
