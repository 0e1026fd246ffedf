import MonkeyOS.Fs.Readiness

/-!
# Terminals

`readat` and `poll` of `filesystem/devfs/src/tty.rs`. The terminals of `devfs` have a
buffer each and share the one UART, which `get_char` takes a character from. Tasks give
way only between calls, so a call is one step.
-/

set_option autoImplicit false

namespace MonkeyOS.Fs

open Lib PollEvent List

def getChar : List UInt8 → Option UInt8 × List UInt8
  | [] => (none, [])
  | char :: uart => (some char, uart)

structure Tty where
  buffer : List UInt8
  deriving DecidableEq, Repr

namespace Tty

def new : Tty := { buffer := [] }

/-- No answer if the buffer of the caller is empty. -/
def readat (tty : Tty) (uart : List UInt8) (_offset len : Nat) :
    Option (Except Errno (List UInt8) × Tty × List UInt8) :=
  if len = 0 then none
  else if tty.buffer.length > 0 then
    let rlen := min len tty.buffer.length
    some (.ok (tty.buffer.take rlen), { buffer := tty.buffer.drop rlen }, uart)
  else
    match getChar uart with
    | (some char, uart) => some (.ok [char], tty, uart)
    | (none, uart) => some (.error EWOULDBLOCK, tty, uart)

/-- The part of `poll` for input: a character found is kept. -/
def pollInput (tty : Tty) (uart : List UInt8) : PollEvent × Tty × List UInt8 :=
  if tty.buffer.length > 0 then (POLLIN, tty, uart)
  else
    match getChar uart with
    | (some char, uart) => (POLLIN, { buffer := tty.buffer ++ [char] }, uart)
    | (none, uart) => (NONE, tty, uart)

def poll (tty : Tty) (uart : List UInt8) (events : PollEvent) : Except Errno PollEvent × Tty × List UInt8 :=
  let (res, tty, uart) := if events.contains POLLIN then tty.pollInput uart else (NONE, tty, uart)
  (.ok (if events.contains POLLOUT then res ||| POLLOUT else res), tty, uart)

variable {tty after : Tty} {uart rest consumed : List UInt8}

theorem pollInput_buffer (tty : Tty) (taken : uart = consumed ++ (tty.pollInput uart).2.2) :
    (tty.pollInput uart).2.1.buffer = tty.buffer ++ consumed := by
  unfold pollInput at taken ⊢
  split
  next some =>
    rw [if_pos some, self_eq_append_left] at taken
    rw [taken, append_nil]
  next none =>
    rw [if_neg none] at taken
    cases uart with
    | nil =>
      rw [(append_eq_nil_iff.mp taken.symm).1, append_nil]
      rfl
    | cons char uart => rw [append_cancel_right (show consumed ++ uart = [char] ++ uart from taken.symm)]; rfl

theorem poll_buffer {events : PollEvent} {answer : Except Errno PollEvent}
    (done : tty.poll uart events = (answer, after, rest)) (taken : uart = consumed ++ rest) :
    after.buffer = tty.buffer ++ consumed := by
  rw [poll, Prod.mk.injEq, Prod.mk.injEq] at done
  obtain ⟨-, rfl, rfl⟩ := done
  split at taken
  next asked => rw [if_pos asked, tty.pollInput_buffer taken]
  next other =>
    rw [self_eq_append_left] at taken
    rw [if_neg other, taken, append_nil]

def returned : Except Errno (List UInt8) → List UInt8
  | .ok bytes => bytes
  | .error _ => []

theorem readat_buffer {offset len : Nat} {answer : Except Errno (List UInt8)}
    (done : tty.readat uart offset len = some (answer, after, rest)) (taken : uart = consumed ++ rest) :
    returned answer ++ after.buffer = tty.buffer ++ consumed ∧
      (answer = .error EWOULDBLOCK → tty.buffer = [] ∧ uart = []) := by
  rw [readat] at done
  split at done
  · cases done
  · split at done
    · cases done
      rw [self_eq_append_left] at taken
      rw [taken, append_nil]
      exact ⟨take_append_drop _ _, fun blocked => by cases blocked⟩
    · have empty : tty.buffer = [] := eq_nil_of_length_eq_zero (by omega)
      cases uart with
      | nil =>
        cases done
        rw [(append_eq_nil_iff.mp taken.symm).1, append_nil]
        exact ⟨rfl, fun _ => ⟨empty, rfl⟩⟩
      | cons char uart =>
        cases done
        rw [append_cancel_right (show consumed ++ rest = [char] ++ rest from taken.symm), empty]
        exact ⟨rfl, fun blocked => by cases blocked⟩

end Tty

inductive TtyCall where
  | poll (events : PollEvent)
  | readat (offset len : Nat)

/-- The bytes a call returns: none for a poll. -/
def Tty.perform (tty : Tty) (uart : List UInt8) : TtyCall → Option (Except Errno (List UInt8) × Tty × List UInt8)
  | .poll events => some (.ok [], (tty.poll uart events).2)
  | .readat offset len => tty.readat uart offset len

theorem Tty.perform_buffer {tty after : Tty} {uart rest consumed : List UInt8} {call : TtyCall}
    {answer : Except Errno (List UInt8)} (done : tty.perform uart call = some (answer, after, rest))
    (taken : uart = consumed ++ rest) :
    returned answer ++ after.buffer = tty.buffer ++ consumed ∧
      (answer = .error EWOULDBLOCK → tty.buffer = [] ∧ uart = []) := by
  cases call with
  | poll _ =>
    cases done
    exact ⟨poll_buffer rfl taken, fun blocked => by cases blocked⟩
  | readat offset len => exact readat_buffer (show tty.readat uart offset len = _ from done) taken

structure Terminals where
  ttys : Nat → Tty
  uart : List UInt8

inductive TtyEvent where
  /-- `consumed` is what the call took from the UART. -/
  | call (who : Nat) (call : TtyCall) (answer : Except Errno (List UInt8)) (consumed : List UInt8)
  | arrive (char : UInt8)

namespace Terminals

def boot (uart : List UInt8) : Terminals := { ttys := fun _ => .new, uart }

inductive Step : Terminals → TtyEvent → Terminals → Prop where
  | call {before who call answer tty uart consumed}
      (done : (before.ttys who).perform before.uart call = some (answer, tty, uart))
      (taken : before.uart = consumed ++ uart) :
      Step before (.call who call answer consumed) { ttys := Function.update before.ttys who tty, uart }
  | arrive {before char} : Step before (.arrive char) { before with uart := before.uart ++ [char] }

def consumed : TtyEvent → List UInt8
  | .call _ _ _ consumed => consumed
  | .arrive _ => []

def consumedBy (who : Nat) : TtyEvent → List UInt8
  | .call other _ _ consumed => if other = who then consumed else []
  | .arrive _ => []

def returnedBy (who : Nat) : TtyEvent → List UInt8
  | .call other _ answer _ => if other = who then Tty.returned answer else []
  | .arrive _ => []

def arrived : TtyEvent → List UInt8
  | .call _ _ _ _ => []
  | .arrive char => [char]

/-- A call blocks only if there is nothing to read. -/
def BlocksDry (before : Terminals) : TtyEvent → Prop
  | .call who _ answer _ => answer = .error EWOULDBLOCK → (before.ttys who).buffer = [] ∧ before.uart = []
  | .arrive _ => True

variable {before after : Terminals} {event : TtyEvent}

theorem Step.buffer (step : Step before event after) (who : Nat) :
    returnedBy who event ++ (after.ttys who).buffer = (before.ttys who).buffer ++ consumedBy who event := by
  cases step with
  | arrive => exact (append_nil _).symm
  | @call other _ _ _ _ _ done taken =>
    by_cases same : other = who
    · subst same
      simpa [returnedBy, consumedBy] using (Tty.perform_buffer done taken).1
    · simp [returnedBy, consumedBy, same, Function.update_of_ne (Ne.symm same)]

theorem Step.uart (step : Step before event after) : consumed event ++ after.uart = before.uart ++ arrived event := by
  cases step with
  | arrive => rfl
  | call _ taken => exact taken.symm.trans (append_nil _).symm

theorem Step.blocks (step : Step before event after) : BlocksDry before event := by
  cases step with
  | arrive => trivial
  | call done taken => exact (Tty.perform_buffer done taken).2

/-- No character is lost or returned out of order, whoever asks for it. -/
theorem input_kept {uart : List UInt8} {events : List TtyEvent} {finish : Terminals}
    (run : Run Step (boot uart) events finish) :
    (∀ who, events.flatMap (returnedBy who) ++ (finish.ttys who).buffer = events.flatMap (consumedBy who)) ∧
      events.flatMap consumed ++ finish.uart = uart ++ events.flatMap arrived ∧
        Run (fun before event after => Step before event after ∧ BlocksDry before event) (boot uart) events finish :=
  ⟨fun who => @Run.flow _ _ _ _ (returnedBy who) (consumedBy who) (fun state => (state.ttys who).buffer)
      (fun step => step.buffer who) _ _ _ run,
    @Run.flow _ _ _ _ consumed arrived Terminals.uart Step.uart _ _ _ run, run.mono fun step => ⟨step, step.blocks⟩⟩

/-- The first of two characters is found by a poll, and both are read. -/
theorem input_kept_polled :
    let events := [.call 0 (.poll POLLIN) (.ok []) [65], .call 0 (.readat 0 8) (.ok [65]) [],
      .call 0 (.readat 0 8) (.ok [66]) [66]]
    events.flatMap (returnedBy 0) ++ [] = events.flatMap (consumedBy 0) :=
  (@input_kept [65, 66] _ _ (.cons (.call rfl rfl) (.cons (.call rfl rfl) (.cons (.call rfl rfl) .refl)))).1 0

end Terminals

end MonkeyOS.Fs
