import MonkeyOS.Lib.Run
import MonkeyOS.Lib.Selection
import MonkeyOS.Machine.Usize

/-!
# System V message queues

`Message` and `MessageQueue` of `kernel/src/syscall/shm.rs`. The bytes of a
message are a vector shorter than `2 ^ 63`, so the sum in `can_send` does not
wrap; the subtraction in `receive_message` is kept as the machine does it.
-/

set_option autoImplicit false

namespace MonkeyOS.Syscall

open Lib List

structure Message where
  mtype : Int64
  mtext : List UInt8
  deriving DecidableEq, Repr

structure MessageQueue where
  key : Nat
  messages : List Message
  maxBytes : Nat
  currentBytes : Nat
  maxMessages : Nat
  deriving DecidableEq, Repr

namespace MessageQueue

def new (key : Nat) : MessageQueue :=
  { key, messages := [], maxBytes := 16384, currentBytes := 0, maxMessages := 40 }

def canSend (queue : MessageQueue) (msgSize : Nat) : Bool :=
  queue.messages.length < queue.maxMessages && queue.currentBytes + msgSize ≤ queue.maxBytes

def sendMessage (queue : MessageQueue) (mtype : Int64) (data : List UInt8) : Bool × MessageQueue :=
  if queue.canSend data.length then
    (true,
      { queue with
        currentBytes := queue.currentBytes + data.length
        messages := queue.messages ++ [{ mtype, mtext := data }] })
  else (false, queue)

def position (messages : List Message) (mtype : Int64) (except : Bool) : Option Nat :=
  if mtype = 0 then
    if messages.isEmpty then none else some 0
  else if mtype > 0 then
    messages.findIdx? fun msg => if except then msg.mtype ≠ mtype else msg.mtype = mtype
  else
    let absType := -mtype
    ((messages.zipIdx.filter fun entry => entry.1.mtype ≤ absType).minOn? fun entry => entry.1.mtype).map Prod.snd

def receiveMessage (queue : MessageQueue) (mtype : Int64) (except : Bool) : Option Message × MessageQueue :=
  match position queue.messages mtype except with
  | none => (none, queue)
  | some index =>
    match queue.messages[index]? with
    -- `remove` panics; `position` never names such an index
    | none => (none, queue)
    | some msg =>
      (some msg,
        { queue with
          messages := queue.messages.eraseIdx index
          currentBytes := wrapSub queue.currentBytes msg.mtext.length })

/-! ## What a receiver asks for -/

/-- The messages a receiver takes: all, those of one type, those not of it, or
those of a type up to a limit. -/
def Matches (mtype : Int64) (except : Bool) (message : Message) : Prop :=
  if mtype = 0 then True
  else if mtype > 0 then (if except then message.mtype ≠ mtype else message.mtype = mtype)
  else message.mtype.toInt ≤ -mtype.toInt

/-- The same as the machine compares: the limit of `i64::MIN` is itself. -/
def Accepts (mtype : Int64) (except : Bool) (message : Message) : Prop :=
  if mtype = 0 then True
  else if mtype > 0 then (if except then message.mtype ≠ mtype else message.mtype = mtype)
  else message.mtype ≤ -mtype

def precedence (mtype : Int64) (message : Message) : Int64 := if mtype < 0 then message.mtype else 0

/-- The receiver gets the oldest message of those that go first, which leaves the
queue, or nothing, if no message matches. -/
inductive Selects (mtype : Int64) (except : Bool) : List Message → Option Message → List Message → Prop where
  | none {messages} : (∀ message ∈ messages, ¬ Matches mtype except message) →
      Selects mtype except messages none messages
  | some {front message back} : Oldest (Matches mtype except) (precedence mtype) front message back →
      Selects mtype except (front ++ message :: back) (some message) (front ++ back)

structure Accounted (queue : MessageQueue) : Prop where
  bytes : queue.currentBytes = (queue.messages.map fun message => message.mtext.length).sum
  withinBytes : queue.currentBytes ≤ queue.maxBytes
  withinMessages : queue.messages.length ≤ queue.maxMessages
  limit : queue.maxBytes = 16384

variable {queue after : MessageQueue} {mtype : Int64} {except : Bool}

private theorem toInt_neg (above : mtype ≠ Int64.minValue) : (-mtype).toInt = -mtype.toInt := by
  have low := Int64.le_toInt mtype
  have high := Int64.toInt_lt mtype
  have proper : mtype.toInt ≠ -2 ^ 63 := fun least =>
    above (Int64.toInt_inj.mp (least.trans Int64.toInt_minValue.symm))
  rw [Int64.toInt_neg]
  exact Int.bmod_eq_of_le (by omega) (by omega)

private theorem negative_of (nonzero : ¬ mtype = 0) (bounded : ¬ mtype > 0) : mtype < 0 := by
  have proper : mtype.toInt ≠ (0 : Int64).toInt := fun same => nonzero (Int64.toInt_inj.mp same)
  have upper := mt Int64.lt_iff_toInt_lt.mpr bounded
  exact Int64.lt_iff_toInt_lt.mpr (by omega)

private theorem accepts_iff (above : mtype ≠ Int64.minValue) {message : Message} :
    Accepts mtype except message ↔ Matches mtype except message := by
  simp only [Accepts, Matches, Int64.le_iff_toInt_le, toInt_neg above]

theorem position_oldest (messages : List Message) (mtype : Int64) (except : Bool) :
    match position messages mtype except with
    | none => ∀ message ∈ messages, ¬ Accepts mtype except message
    | some index => ∃ front message back, messages = front ++ message :: back ∧ index = front.length ∧
        Oldest (Accepts mtype except) (precedence mtype) front message back := by
  unfold position
  by_cases zero : mtype = 0
  · have every : Accepts mtype except = fun _ => True := by
      funext message
      simp only [Accepts, if_pos zero]
    rw [if_pos zero, every]
    cases messages with
    | nil => exact nofun
    | cons first rest =>
      refine ⟨[], first, rest, rfl, rfl, trivial, nofun, fun _ _ _ => ?_⟩
      simp only [precedence, zero, Std.lt_irrefl, if_false]
      exact Std.le_refl _
  rw [if_neg zero]
  by_cases positive : mtype > 0
  · have typed : Accepts mtype except = fun message =>
        if except then message.mtype ≠ mtype else message.mtype = mtype := by
      funext message
      simp only [Accepts, if_neg zero, if_pos positive]
    have level : ∀ left right, precedence mtype left = precedence mtype right := by
      intro left right
      simp only [precedence, if_neg (Std.not_gt_of_lt positive)]
    have asked : (fun message : Message =>
          if except then decide (message.mtype ≠ mtype) else decide (message.mtype = mtype)) =
        fun message => decide (if except then message.mtype ≠ mtype else message.mtype = mtype) := by
      funext message
      cases except <;> rfl
    rw [if_pos positive, typed, asked]
    split
    · next missed =>
      intro message member accepted
      exact Bool.noConfusion ((findIdx?_eq_none_iff.mp missed message member).symm.trans (decide_eq_true accepted))
    · next index found => exact oldest_of_findIdx? level found
  · have negative := negative_of zero positive
    have limited : Accepts mtype except = fun message => message.mtype ≤ -mtype := by
      funext message
      simp only [Accepts, if_neg zero, if_neg positive]
    have ranked : precedence mtype = Message.mtype := by
      funext message
      simp only [precedence, if_pos negative]
    rw [if_neg positive, limited, ranked]
    split
    · next missed => exact not_admits_of_minOn? (Option.map_eq_none_iff.mp missed)
    · next index found =>
      obtain ⟨⟨message, place⟩, least, rfl⟩ := Option.map_eq_some_iff.mp found
      have taken : ∃ front back, messages = front ++ message :: back ∧ place = 0 + front.length ∧
        Oldest (fun message => message.mtype ≤ -mtype) Message.mtype front message back := oldest_of_minOn? least
      obtain ⟨front, back, split, rfl, oldest⟩ := taken
      exact ⟨front, message, back, split, zero_add _, oldest⟩

variable {message : Option Message}

private theorem matches_of_mtype {left right : Message} (same : left.mtype = right.mtype)
    (matching : Matches mtype except left) : Matches mtype except right := by
  simpa only [Matches, same] using matching

private theorem precedence_of_mtype {left right : Message} (same : left.mtype = right.mtype) :
    precedence mtype left = precedence mtype right := by
  simp only [precedence, same]

theorem receiveMessage_cases (queue : MessageQueue) (mtype : Int64) (except : Bool) :
    (∀ message ∈ queue.messages, ¬ Accepts mtype except message) ∧
      queue.receiveMessage mtype except = (none, queue) ∨
    ∃ front taken back, queue.messages = front ++ taken :: back ∧
      Oldest (Accepts mtype except) (precedence mtype) front taken back ∧
      queue.receiveMessage mtype except =
        (some taken,
          { queue with
            messages := front ++ back, currentBytes := wrapSub queue.currentBytes taken.mtext.length }) := by
  have selected := position_oldest queue.messages mtype except
  unfold receiveMessage
  cases found : position queue.messages mtype except with
  | none =>
    rw [found] at selected
    exact .inl ⟨selected, rfl⟩
  | some _ =>
    rw [found] at selected
    obtain ⟨front, taken, back, split, rfl, oldest⟩ := selected
    have here : queue.messages[front.length]? = some taken := by
      rw [split, getElem?_append_right (Nat.le_refl _), Nat.sub_self, getElem?_cons_zero]
    have rest : queue.messages.eraseIdx front.length = front ++ back := by
      rw [split, eraseIdx_append_of_length_le (Nat.le_refl _), Nat.sub_self, eraseIdx_cons_zero]
    refine .inr ⟨front, taken, back, split, oldest, ?_⟩
    simp only [here, rest]

theorem receiveMessage_selects (queue : MessageQueue) (except : Bool) (above : mtype ≠ Int64.minValue) :
    Selects mtype except queue.messages (queue.receiveMessage mtype except).1
      (queue.receiveMessage mtype except).2.messages := by
  rcases queue.receiveMessage_cases mtype except with
    ⟨missed, received⟩ | ⟨_, _, _, split, oldest, received⟩
  · rw [received]
    exact .none fun message member matching => missed message member ((accepts_iff above).mpr matching)
  · rw [received, split]
    exact .some ⟨(accepts_iff above).mp oldest.admitted,
      fun item member matching => oldest.earlier item member ((accepts_iff above).mpr matching),
      fun item member matching => oldest.later item member ((accepts_iff above).mpr matching)⟩

theorem new_accounted (key : Nat) : (new key).Accounted :=
  ⟨rfl, Nat.zero_le _, Nat.zero_le _, rfl⟩

theorem Accounted.sendMessage (accounted : queue.Accounted) {data : List UInt8} {accepted : Bool}
    (sent : queue.sendMessage mtype data = (accepted, after)) : after.Accounted := by
  unfold MessageQueue.sendMessage at sent
  split at sent
  · next room =>
    simp only [canSend, Bool.and_eq_true, decide_eq_true_eq] at room
    obtain ⟨_, rfl⟩ := Prod.mk.inj sent
    refine ⟨?_, room.2, ?_, accounted.limit⟩
    · simp [accounted.bytes]
    · rw [length_append]
      exact room.1
  · obtain ⟨_, rfl⟩ := Prod.mk.inj sent
    exact accounted

theorem Accounted.receiveMessage (accounted : queue.Accounted)
    (received : queue.receiveMessage mtype except = (message, after)) : after.Accounted := by
  rcases queue.receiveMessage_cases mtype except with ⟨_, same⟩ | ⟨_, taken, _, split, _, same⟩
  · obtain ⟨_, rfl⟩ := Prod.mk.inj (same.symm.trans received)
    exact accounted
  · obtain ⟨_, rfl⟩ := Prod.mk.inj (same.symm.trans received)
    obtain ⟨bytes, _, withinMessages, limit⟩ := accounted
    rw [split] at bytes withinMessages
    simp only [map_append, map_cons, sum_append, sum_cons] at bytes
    simp only [length_append, length_cons] at withinMessages
    have counted : wrapSub queue.currentBytes taken.mtext.length =
        queue.currentBytes - taken.mtext.length := wrapSub_eq (by omega) (by unfold usizeBound; omega)
    refine ⟨?_, ?_, ?_, limit⟩
    · simp only [counted, map_append, sum_append]
      omega
    · simp only [counted]
      omega
    · simp only [length_append]
      omega

/-! ## Runs -/

inductive Event where
  | send (mtype : Int64) (data : List UInt8) (accepted : Bool)
  | receive (mtype : Int64) (except : Bool) (message : Option Message)
  deriving Repr

def Step (before : MessageQueue) (event : Event) (after : MessageQueue) : Prop :=
  match event with
  | .send mtype data accepted => before.sendMessage mtype data = (accepted, after)
  | .receive mtype except message =>
    mtype ≠ Int64.minValue ∧ before.receiveMessage mtype except = (message, after)

def Event.sent : Event → Option Message
  | .send mtype data true => some { mtype, mtext := data }
  | _ => none

def Event.received : Event → Option Message
  | .receive _ _ message => message
  | _ => none

theorem Step.accounted {event : Event} (step : Step queue event after) (accounted : queue.Accounted) :
    after.Accounted := by
  cases event with
  | send mtype _ _ => exact accounted.sendMessage step
  | receive mtype _ _ => exact accounted.receiveMessage step.2

theorem Step.inOrder {event : Event} (step : Step queue event after) {sent received : List Message}
    (ordered : InOrder Message.mtype sent received queue.messages) :
    InOrder Message.mtype (sent ++ event.sent.toList) (received ++ event.received.toList) after.messages := by
  cases event with
  | send mtype data _ =>
    unfold Step MessageQueue.sendMessage at step
    dsimp only at step
    split at step
    · cases step
      simpa [Event.sent, Event.received] using ordered.push { mtype, mtext := data }
    · cases step
      simpa [Event.sent, Event.received] using ordered
  | receive mtype except _ =>
    have selected := receiveMessage_selects queue except step.1
    rw [step.2] at selected
    generalize after.messages = rest, queue.messages = messages at *
    cases selected with
    | none => simpa [Event.sent, Event.received] using ordered
    | some oldest =>
      have first := oldest.first_of_kind matches_of_mtype precedence_of_mtype
      simpa [Event.sent, Event.received] using ordered.take first

theorem run_inOrder {events : List Event} (run : Run Step queue events after) {sent received : List Message}
    (ordered : InOrder Message.mtype sent received queue.messages) :
    InOrder Message.mtype (sent ++ events.filterMap Event.sent) (received ++ events.filterMap Event.received)
      after.messages := by
  simp only [filterMap_eq_flatMap_toList]
  induction run generalizing sent received with
  | refl => simpa using ordered
  | cons step _ ih => simpa [flatMap_cons] using ih (step.inOrder ordered)

/-- After any calls on a new queue the bytes are counted and within the limits;
every accepted message is waiting or was received, once, those of one type in the
order they were sent; and the next receiver gets the message it asks for. -/
theorem deliveries_in_order {key : Nat} {events : List Event} (run : Run Step (new key) events queue) :
    queue.currentBytes = (queue.messages.map fun message => message.mtext.length).sum ∧
      queue.currentBytes ≤ queue.maxBytes ∧ queue.messages.length ≤ queue.maxMessages ∧
      (events.filterMap Event.received ++ queue.messages).Perm (events.filterMap Event.sent) ∧
      (∀ mtype, (events.filterMap Event.received ++ queue.messages).filter (fun message => message.mtype = mtype) =
        (events.filterMap Event.sent).filter fun message => message.mtype = mtype) ∧
      ∀ mtype except, mtype ≠ Int64.minValue →
        Selects mtype except queue.messages (queue.receiveMessage mtype except).1
          (queue.receiveMessage mtype except).2.messages := by
  have accounted : queue.Accounted :=
    run.preserves (fun accounted step => step.accounted accounted) (new_accounted key)
  have ordered : InOrder Message.mtype (events.filterMap Event.sent) (events.filterMap Event.received)
      queue.messages := @run_inOrder (new key) queue events run [] [] fun _ => rfl
  exact ⟨accounted.bytes, accounted.withinBytes, accounted.withinMessages, ordered.perm, ordered,
    fun mtype except above => receiveMessage_selects queue except above⟩

theorem deliveries_in_order_overtaking :
    let events := [.send 5 [1] true, .send 3 [2] true, .receive (-5) false (some { mtype := 3, mtext := [2] })]
    let queue := { new 0 with messages := [{ mtype := 5, mtext := [1] }], currentBytes := 1 }
    Run Step (new 0) events queue ∧
      (events.filterMap Event.received ++ queue.messages).Perm (events.filterMap Event.sent) := by
  have run : Run Step (new 0)
      [.send 5 [1] true, .send 3 [2] true, .receive (-5) false (some { mtype := 3, mtext := [2] })]
      { new 0 with messages := [{ mtype := 5, mtext := [1] }], currentBytes := 1 } :=
    .cons rfl (.cons rfl (.cons ⟨by decide, by decide +kernel⟩ .refl))
  exact ⟨run, (deliveries_in_order run).2.2.2.1⟩

end MessageQueue

end MonkeyOS.Syscall
