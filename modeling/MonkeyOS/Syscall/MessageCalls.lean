import MonkeyOS.Lib.LittleEndian
import MonkeyOS.Lib.Paged
import MonkeyOS.Machine.Memory
import MonkeyOS.Syscall.MessageQueue

/-!
# Sending and receiving messages

`sys_msgsnd` and `sys_msgrcv` of `kernel/src/syscall/shm.rs` on the table of
queues. The memory of the caller is a map from addresses to bytes; a pointer is
invalid if it is null. Log output is left out.
-/

set_option autoImplicit false

namespace MonkeyOS.Syscall

open Lib Function List

/-- `MESSAGE_QUEUES` -/
abbrev MessageQueues := Nat → Option MessageQueue

abbrev UserMem := Nat → UInt8

def IPC_NOWAIT (msgflg : Nat) : Bool := msgflg.testBit 11

def MSG_NOERROR (msgflg : Nat) : Bool := msgflg.testBit 12

def MSG_EXCEPT (msgflg : Nat) : Bool := msgflg.testBit 13

def i64FromLeBytes (bytes : List UInt8) : Int64 := Int64.ofBitVec (BitVec.ofNat 64 (leValue bytes))

def i64ToLeBytes (value : Int64) : List UInt8 := leBytes 8 value.toBitVec.toNat

def readMessage (mem : UserMem) (msgp size : Nat) : Message :=
  { mtype := i64FromLeBytes (window mem msgp 8), mtext := window mem (msgp + 8) size }

/-- No answer if the buffer is too long for a vector. -/
def sysMsgsnd (queues : MessageQueues) (mem : UserMem) (msqid msgp msgsz msgflg : Nat) :
    Option (Except Errno Nat × MessageQueues) :=
  match queues msqid with
  | none => some (.error .EINVAL, queues)
  | some queue =>
    if msgp = 0 then some (.error .EFAULT, queues)
    else if 2 ^ 63 ≤ msgsz then none
    else
      let message := readMessage mem msgp msgsz
      if queue.canSend msgsz then
        some (.ok 0, update queues msqid (some (queue.sendMessage message.mtype message.mtext).2))
      else if IPC_NOWAIT msgflg then some (.error .EAGAIN, queues)
      else some (.ok 0, queues)

def sysMsgrcv (queues : MessageQueues) (mem : UserMem) (msqid msgp msgsz : Nat) (msgtyp : Int64)
    (msgflg : Nat) : Except Errno Nat × MessageQueues × UserMem :=
  match queues msqid with
  | none => (.error .EINVAL, queues, mem)
  | some queue =>
    match queue.receiveMessage msgtyp (MSG_EXCEPT msgflg) with
    | (none, _) => (.error .ENOMSG, queues, mem)
    | (some message, queue) =>
      let queues := update queues msqid (some queue)
      if msgp = 0 then (.error .EFAULT, queues, mem)
      else
        let dataLen := min message.mtext.length msgsz
        let mem := overlay mem msgp (i64ToLeBytes message.mtype)
        let mem := overlay mem (msgp + 8) (message.mtext.take dataLen)
        if message.mtext.length > msgsz ∧ ¬ MSG_NOERROR msgflg then (.error .E2BIG, queues, mem)
        else (.ok dataLen, queues, mem)

/-! ## Calls on one queue -/

inductive MsgCall where
  | msgsnd (msgp msgsz msgflg : Nat)
  | msgrcv (msgp msgsz : Nat) (msgtyp : Int64) (msgflg : Nat)
  deriving Repr

/-- A call with the memory of its caller before and after it, and its answer. -/
structure MsgEvent where
  call : MsgCall
  mem : UserMem
  answer : Except Errno Nat
  memAfter : UserMem

def Performs (msqid : Nat) (before : MessageQueues) (event : MsgEvent) (after : MessageQueues) : Prop :=
  match event.call with
  | .msgsnd msgp msgsz msgflg =>
    sysMsgsnd before event.mem msqid msgp msgsz msgflg = some (event.answer, after) ∧ event.memAfter = event.mem
  | .msgrcv msgp msgsz msgtyp msgflg =>
    sysMsgrcv before event.mem msqid msgp msgsz msgtyp msgflg = (event.answer, after, event.memAfter)

def MsgEvent.sent (event : MsgEvent) : Option Message :=
  match event.call, event.answer with
  | .msgsnd msgp msgsz _, .ok _ => some (readMessage event.mem msgp msgsz)
  | _, _ => none

def MsgEvent.isDelivery (event : MsgEvent) : Bool :=
  match event.call, event.answer with
  | .msgrcv .., .ok _ => true
  | _, _ => false

/-- The call put the message into memory, whole or cut as `MSG_NOERROR` allows. -/
def MsgEvent.Delivers (event : MsgEvent) (message : Message) : Prop :=
  match event.call, event.answer with
  | .msgrcv msgp msgsz _ msgflg, .ok count =>
    count = min message.mtext.length msgsz ∧
      (message.mtext.length ≤ msgsz ∨ MSG_NOERROR msgflg) ∧
      readMessage event.memAfter msgp count = { message with mtext := message.mtext.take count }
  | _, _ => False

/-- A `sys_msgrcv` that returned `Err` leaves the queues alone. -/
def Settled (before : MessageQueues) (event : MsgEvent) (after : MessageQueues) : Prop :=
  match event.call, event.answer with
  | .msgrcv .., .error _ => after = before
  | _, _ => True

def waiting (msqid : Nat) (queues : MessageQueues) : List Message :=
  match queues msqid with
  | none => []
  | some queue => queue.messages

/-- What was sent is what was delivered and what still waits. -/
def Conserved (msqid : Nat) (start : MessageQueues) (events : List MsgEvent) (finish : MessageQueues) : Prop :=
  ∃ delivered, List.Forall₂ MsgEvent.Delivers (events.filter MsgEvent.isDelivery) delivered ∧
    (waiting msqid start ++ events.filterMap MsgEvent.sent).Perm (delivered ++ waiting msqid finish)

/-- A sender finds room or does not want to wait; a receiver whose message is
there has a valid pointer, and room for the message or no objection to a part. -/
def Clear (msqid : Nat) (before : MessageQueues) (event : MsgEvent) : Prop :=
  ∀ queue, before msqid = some queue →
    match event.call with
    | .msgsnd msgp msgsz msgflg => msgp ≠ 0 → queue.canSend msgsz ∨ IPC_NOWAIT msgflg
    | .msgrcv msgp msgsz msgtyp msgflg =>
      ∀ front message back, queue.messages = front ++ message :: back →
        Oldest (MessageQueue.Accepts msgtyp (MSG_EXCEPT msgflg)) (MessageQueue.precedence msgtyp)
          front message back →
        msgp ≠ 0 ∧ (message.mtext.length ≤ msgsz ∨ MSG_NOERROR msgflg)

theorem i64FromLeBytes_toLeBytes (value : Int64) : i64FromLeBytes (i64ToLeBytes value) = value := by
  have fits : value.toBitVec.toNat < 256 ^ 8 := value.toBitVec.isLt
  rw [i64FromLeBytes, i64ToLeBytes, leValue_leBytes fits, BitVec.ofNat_toNat, BitVec.setWidth_eq,
    Int64.ofBitVec_toBitVec]

theorem readMessage_written (mem : UserMem) (msgp : Nat) (mtype : Int64) (data : List UInt8) :
    readMessage (overlay (overlay mem msgp (i64ToLeBytes mtype)) (msgp + 8) data) msgp data.length =
      { mtype, mtext := data } := by
  have width : (i64ToLeBytes mtype).length = 8 := length_leBytes 8 _
  have typed : window (overlay (overlay mem msgp (i64ToLeBytes mtype)) (msgp + 8) data) msgp 8 =
      i64ToLeBytes mtype := by
    rw [window_congr fun _ _ below => overlay_before below, ← width, window_overlay]
  rw [readMessage, typed, i64FromLeBytes_toLeBytes, window_overlay]

variable {msqid : Nat} {before after : MessageQueues} {mem memAfter : UserMem}
  {msgp msgsz msgflg : Nat} {msgtyp : Int64} {answer : Except Errno Nat} {event : MsgEvent}

theorem waiting_some {queue : MessageQueue} (present : before msqid = some queue) :
    waiting msqid before = queue.messages := by
  rw [waiting, present]

theorem sysMsgsnd_cases (done : sysMsgsnd before mem msqid msgp msgsz msgflg = some (answer, after)) :
    (∃ errno, answer = .error errno) ∧ after = before ∧
        (∀ queue, before msqid = some queue → msgp ≠ 0 → IPC_NOWAIT msgflg) ∨
      ∃ queue, before msqid = some queue ∧ msgp ≠ 0 ∧ answer = .ok 0 ∧
        if queue.canSend msgsz then
          waiting msqid after = queue.messages ++ [readMessage mem msgp msgsz]
        else ¬ IPC_NOWAIT msgflg ∧ after = before := by
  unfold sysMsgsnd at done
  split at done
  · next missing =>
    cases done
    exact .inl ⟨⟨_, rfl⟩, rfl, fun queue present => by rw [missing] at present; cases present⟩
  · next queue present =>
    split at done
    · next null =>
      cases done
      exact .inl ⟨⟨_, rfl⟩, rfl, fun _ _ valid => absurd null valid⟩
    · next valid =>
      split at done
      · cases done
      · split at done
        · next room =>
          cases done
          refine .inr ⟨queue, present, valid, rfl, ?_⟩
          have accepted : queue.canSend (readMessage mem msgp msgsz).mtext.length = true := by
            rwa [readMessage, length_window]
          rw [if_pos room, waiting_some (update_self ..), MessageQueue.sendMessage, if_pos accepted]
        · next full =>
          split at done
          · next nowait =>
            cases done
            exact .inl ⟨⟨_, rfl⟩, rfl, fun _ _ _ => nowait⟩
          · next wait =>
            cases done
            refine .inr ⟨queue, present, valid, rfl, ?_⟩
            rw [if_neg full]
            exact ⟨wait, rfl⟩

theorem sysMsgrcv_cases
    (done : sysMsgrcv before mem msqid msgp msgsz msgtyp msgflg = (answer, after, memAfter)) :
    (∃ errno, answer = .error errno) ∧ after = before ∧
        (∀ queue, before msqid = some queue →
          ∀ message ∈ queue.messages, ¬ MessageQueue.Accepts msgtyp (MSG_EXCEPT msgflg) message) ∨
      ∃ queue front message back, before msqid = some queue ∧ queue.messages = front ++ message :: back ∧
        Oldest (MessageQueue.Accepts msgtyp (MSG_EXCEPT msgflg)) (MessageQueue.precedence msgtyp)
          front message back ∧
        waiting msqid after = front ++ back ∧
        if msgp ≠ 0 ∧ (message.mtext.length ≤ msgsz ∨ MSG_NOERROR msgflg) then
          answer = .ok (min message.mtext.length msgsz) ∧
            readMessage memAfter msgp (min message.mtext.length msgsz) =
              { message with mtext := message.mtext.take (min message.mtext.length msgsz) }
        else ∃ errno, answer = .error errno := by
  unfold sysMsgrcv at done
  split at done
  · next missing =>
    cases done
    exact .inl ⟨⟨_, rfl⟩, rfl, fun queue present => by rw [missing] at present; cases present⟩
  · next queue present =>
    rcases queue.receiveMessage_cases msgtyp (MSG_EXCEPT msgflg) with
      ⟨missed, received⟩ | ⟨front, message, back, split, oldest, received⟩
    · rw [received] at done
      cases done
      refine .inl ⟨⟨_, rfl⟩, rfl, fun _ same => ?_⟩
      cases present.symm.trans same
      exact missed
    · rw [received] at done
      refine .inr ⟨queue, front, message, back, present, split, oldest, ?_⟩
      have rest : ∀ {queue : MessageQueue}, waiting msqid (update before msqid (some queue)) = queue.messages :=
        waiting_some (update_self ..)
      dsimp only at done
      split at done
      · next null =>
        cases done
        exact ⟨rest, by rw [if_neg fun clear => clear.1 null]; exact ⟨_, rfl⟩⟩
      · next valid =>
        split at done
        · next cut =>
          cases done
          refine ⟨rest, ?_⟩
          rw [if_neg fun clear => clear.2.elim (not_le_of_gt cut.1) cut.2]
          exact ⟨_, rfl⟩
        · next whole =>
          cases done
          have fits : message.mtext.length ≤ msgsz ∨ MSG_NOERROR msgflg = true := by
            by_contra neither
            rw [not_or] at neither
            exact whole ⟨Nat.lt_of_not_le neither.1, neither.2⟩
          have count : (message.mtext.take (min message.mtext.length msgsz)).length =
              min message.mtext.length msgsz := by
            rw [length_take]
            omega
          have read := readMessage_written mem msgp message.mtype (message.mtext.take (min message.mtext.length msgsz))
          rw [count] at read
          refine ⟨rest, ?_⟩
          rw [if_pos ⟨valid, fits⟩]
          exact ⟨rfl, read⟩

/-- Everything a call can do to the messages. A call that is not clear loses one. -/
theorem Performs.effect (step : Performs msqid before event after) :
    Clear msqid before event ∧ Settled before event after ∧
        (∃ delivered : Option Message, event.isDelivery = delivered.isSome ∧
          (∀ message ∈ delivered, event.Delivers message) ∧
          (waiting msqid before ++ event.sent.toList).Perm (delivered.toList ++ waiting msqid after)) ∨
      ¬ Clear msqid before event ∧
        (event.sent.isSome ∧ event.isDelivery = false ∧ after = before ∨ ¬ Settled before event after) := by
  obtain ⟨call, _, _, _⟩ := event
  cases call with
  | msgsnd msgp msgsz msgflg =>
    rcases sysMsgsnd_cases step.1 with ⟨⟨errno, rfl⟩, rfl, nowait⟩ | ⟨queue, present, valid, rfl, rest⟩
    · exact .inl ⟨fun queue present valid => .inr (nowait queue present valid), trivial, none, rfl, nofun,
        by simp [MsgEvent.sent]⟩
    · split at rest
      · next room =>
        refine .inl ⟨fun other same _ => ?_, trivial, none, rfl, nofun, ?_⟩
        · cases present.symm.trans same
          exact .inl room
        · rw [rest, waiting_some present]
          exact .refl _
      · next full =>
        refine .inr ⟨fun clear => ?_, .inl ⟨rfl, rfl, rest.2⟩⟩
        exact (clear queue present valid).elim full rest.1
  | msgrcv msgp msgsz _ msgflg =>
    rcases sysMsgrcv_cases step with ⟨⟨errno, rfl⟩, rfl, missed⟩ |
      ⟨queue, front, message, back, present, split, oldest, rest, served⟩
    · refine .inl ⟨fun queue present front message back split oldest => ?_, rfl, none, rfl, nofun,
        by simp [MsgEvent.sent]⟩
      exact absurd oldest.admitted (missed queue present message (by simp [split]))
    · split at served
      · next clear =>
        obtain ⟨rfl, read⟩ := served
        refine .inl ⟨fun other same _ _ _ again oldest' => ?_, trivial, some message, rfl, ?_, ?_⟩
        · cases present.symm.trans same
          obtain ⟨_, rfl, _⟩ := oldest.unique oldest' (split.symm.trans again)
          exact clear
        · rintro _ ⟨⟩
          exact ⟨rfl, clear.2, read⟩
        · rw [rest, waiting_some present, split]
          simp only [MsgEvent.sent, Option.toList_none, append_nil]
          exact perm_middle
      · next lost =>
        obtain ⟨errno, rfl⟩ := served
        refine .inr ⟨fun clear => lost (clear queue present front message back split oldest), .inr fun same => ?_⟩
        have counted := congrArg List.length rest
        rw [show after = before from same, waiting_some present] at counted
        simp only [split, length_append, length_cons] at counted
        omega

variable {start finish : MessageQueues} {events : List MsgEvent}

private theorem sent_cons (event : MsgEvent) (events : List MsgEvent) :
    (event :: events).filterMap MsgEvent.sent = event.sent.toList ++ events.filterMap MsgEvent.sent := by
  cases sent : event.sent <;> simp [sent]

private theorem deliveries_cons {delivered : Option Message} (delivery : event.isDelivery = delivered.isSome) :
    ((event :: events).filter MsgEvent.isDelivery).length =
      delivered.toList.length + (events.filter MsgEvent.isDelivery).length := by
  cases delivered with
  | none => simp [delivery]
  | some _ => simp [delivery, add_comm]

theorem conserved_of_clear
    (run : Run (fun before event after => Performs msqid before event after ∧ Clear msqid before event)
      start events finish) :
    Run (fun before event after => Performs msqid before event after ∧ Settled before event after)
        start events finish ∧ Conserved msqid start events finish := by
  induction run with
  | refl => exact ⟨.refl, [], .nil, by simp⟩
  | @cons _ _ _ _ _ step _ ih =>
    obtain ⟨settledRest, later, delivers, counted⟩ := ih
    rcases step.1.effect with ⟨_, settled, delivered, delivery, delivering, kept⟩ | ⟨lost, _⟩
    · refine ⟨.cons ⟨step.1, settled⟩ settledRest, delivered.toList ++ later, ?_, ?_⟩
      · cases delivered with
        | none => simpa [delivery] using delivers
        | some message => simpa [delivery] using ⟨delivering message rfl, delivers⟩
      · rw [sent_cons, ← append_assoc, append_assoc delivered.toList]
        refine (kept.append_right _).trans ?_
        rw [append_assoc]
        exact counted.append_left _
    · exact absurd step.2 lost

theorem deliveries_le
    (run : Run (fun before event after => Performs msqid before event after ∧ Settled before event after)
      start events finish) :
    (events.filter MsgEvent.isDelivery).length + (waiting msqid finish).length ≤
        (waiting msqid start).length + (events.filterMap MsgEvent.sent).length ∧
      ((events.filter MsgEvent.isDelivery).length + (waiting msqid finish).length =
          (waiting msqid start).length + (events.filterMap MsgEvent.sent).length →
        Run (fun before event after => Performs msqid before event after ∧ Clear msqid before event)
          start events finish) := by
  induction run with
  | refl => exact ⟨by simp, fun _ => .refl⟩
  | @cons _ _ _ event _ step _ ih =>
    obtain ⟨_, balanced⟩ := ih
    rw [sent_cons, length_append]
    rcases step.1.effect with ⟨clear, _, _, delivery, _, kept⟩ | ⟨_, ⟨sent, other, rfl⟩ | unsettled⟩
    · have counted := kept.length_eq
      rw [length_append, length_append] at counted
      rw [deliveries_cons delivery]
      exact ⟨by omega, fun same => .cons ⟨step.1, clear⟩ (balanced (by omega))⟩
    · -- the message of this call is gone
      have one : event.sent.toList.length = 1 := by
        obtain ⟨message, same⟩ := Option.isSome_iff_exists.mp sent
        rw [same, Option.toList_some, length_singleton]
      rw [filter_cons_of_neg (by simp [other])]
      exact ⟨by omega, fun same => by omega⟩
    · exact absurd step.2 unsettled

/-- In every run of calls on one queue, failed receivers leave it alone and the
messages sent are those delivered and those waiting, exactly if every call was
clear. -/
theorem messages_conserved_iff :
    Run (fun before event after => Performs msqid before event after ∧ Settled before event after)
          start events finish ∧ Conserved msqid start events finish ↔
      Run (fun before event after => Performs msqid before event after ∧ Clear msqid before event)
        start events finish := by
  constructor
  · rintro ⟨run, delivered, delivers, counted⟩
    refine (deliveries_le run).2 ?_
    have same := counted.length_eq
    rw [length_append, length_append] at same
    rw [delivers.length_eq]
    exact same.symm
  · exact conserved_of_clear

/-! A message of two bytes for a receiver with room for one. -/

def oneQueue : MessageQueues := fun _ => some (MessageQueue.new 0)

def sender : MsgEvent :=
  { call := .msgsnd 0x1000 2 0, mem := fun _ => 0, answer := .ok 0, memAfter := fun _ => 0 }

def oneMessage : MessageQueues :=
  update oneQueue 0 (some ((MessageQueue.new 0).sendMessage 0 [0, 0]).2)

def shortReceiver : MsgEvent :=
  { call := .msgrcv 0x1000 1 0 0, mem := fun _ => 0, answer := .error .E2BIG
    memAfter := (sysMsgrcv oneMessage (fun _ => 0) 0 0x1000 1 0 0).2.2 }

theorem short_receiver_loses_message :
    ∃ finish, Run (Performs 0) oneQueue [sender, shortReceiver] finish ∧
      waiting 0 oneMessage = [{ mtype := 0, mtext := [0, 0] }] ∧ waiting 0 finish = [] ∧
      ¬ Conserved 0 oneQueue [sender, shortReceiver] finish := by
  have sends : Performs 0 oneQueue sender oneMessage := ⟨rfl, rfl⟩
  have fails : Performs 0 oneMessage shortReceiver (sysMsgrcv oneMessage (fun _ => 0) 0 0x1000 1 0 0).2.1 := rfl
  refine ⟨_, .cons sends (.cons fails .refl), rfl, rfl, ?_⟩
  rintro ⟨delivered, delivers, counted⟩
  cases delivers
  exact absurd counted.length_eq (by decide)

end MonkeyOS.Syscall
