import MonkeyOS.Lib.Run
import MonkeyOS.Machine.Memory

/-!
# Blocking reads and writes

`readat` and `writeat` of an inode, and the futures `WaitBlockingRead` and
`WaitBlockingWrite` of `filesystem/fs/src/lib.rs`, which repeat them as long as
they answer `EWOULDBLOCK`. Any number of callers share a state, each through an
inode of its own; each call and each poll of a future is one step.
-/

set_option autoImplicit false

namespace MonkeyOS.Fs

open Lib Function

abbrev EWOULDBLOCK : Errno := .EAGAIN

/-- What an inode with state `σ` answers. A read that succeeds has put the
answered elements at the front of the buffer. -/
structure INode (σ α : Type) where
  readat : σ → Nat → Nat → Except Errno (List α) × σ
  writeat : σ → Nat → List α → Except Errno Nat × σ

inductive Poll (α : Type) where
  | pending
  | ready (answer : α)

variable {σ ι κ α : Type}

structure WaitBlockingRead where
  len : Nat
  offset : Nat
  retries : UInt32

structure WaitBlockingWrite (α : Type) where
  buffer : List α
  offset : Nat
  retries : UInt32

def WaitBlockingRead.poll (future : WaitBlockingRead) (inode : INode σ α) (state : σ) :
    Poll (Except Errno (List α)) × WaitBlockingRead × σ :=
  match inode.readat state future.offset future.len with
  | (.ok rsize, state) => (.ready (.ok rsize), future, state)
  | (.error err, state) =>
    if err = EWOULDBLOCK then (.pending, { future with retries := future.retries + 1 }, state)
    else (.ready (.error err), future, state)

def WaitBlockingWrite.poll (future : WaitBlockingWrite α) (inode : INode σ α) (state : σ) :
    Poll (Except Errno Nat) × WaitBlockingWrite α × σ :=
  match inode.writeat state future.offset future.buffer with
  | (.ok wsize, state) => (.ready (.ok wsize), future, state)
  | (.error err, state) =>
    if err = EWOULDBLOCK then (.pending, { future with retries := future.retries + 1 }, state)
    else (.ready (.error err), future, state)

/-! ## Callers that share a state -/

inductive Future (ι α : Type) where
  | read (who : ι) (future : WaitBlockingRead)
  | write (who : ι) (future : WaitBlockingWrite α)

structure System (σ ι α : Type) where
  state : σ
  futures : Nat → Option (Future ι α)

inductive Action (ι κ α : Type) where
  | write (who : ι) (offset : Nat) (buffer : List α)
  | read (who : ι) (offset len : Nat)
  | await (task : Nat) (future : Future ι α)
  | poll (task : Nat)
  /-- The future is dropped before it is ready. -/
  | cancel (task : Nat)
  | change (kind : κ)

inductive Outcome (ι κ α : Type) where
  | silent
  | wrote (who : ι) (buffer : List α) (answer : Except Errno Nat)
  | got (who : ι) (len : Nat) (answer : Except Errno (List α))
  | changed (kind : κ)

structure Event (ι κ α : Type) where
  action : Action ι κ α
  outcome : Outcome ι κ α

namespace System

variable (inode : ι → INode σ α) (effect : σ → κ → Option σ)

/-- A ready future answers its caller and is gone. -/
def pollFuture (system : System σ ι α) (task : Nat) : Future ι α → Outcome ι κ α × System σ ι α
  | .read who future =>
    match future.poll (inode who) system.state with
    | (.pending, future, state) =>
      (.silent, { state, futures := update system.futures task (some (.read who future)) })
    | (.ready answer, _, state) =>
      (.got who future.len answer, { state, futures := update system.futures task none })
  | .write who future =>
    match future.poll (inode who) system.state with
    | (.pending, future, state) =>
      (.silent, { state, futures := update system.futures task (some (.write who future)) })
    | (.ready answer, _, state) =>
      (.wrote who future.buffer answer, { state, futures := update system.futures task none })

def act (system : System σ ι α) : Action ι κ α → Option (Outcome ι κ α × System σ ι α)
  | .write who offset buffer =>
    let (answer, state) := (inode who).writeat system.state offset buffer
    some (.wrote who buffer answer, { system with state })
  | .read who offset len =>
    let (answer, state) := (inode who).readat system.state offset len
    some (.got who len answer, { system with state })
  | .await task future =>
    if (system.futures task).isSome then none
    else some (.silent, { system with futures := update system.futures task (some future) })
  | .poll task => (system.futures task).map (system.pollFuture inode task)
  | .cancel task => some (.silent, { system with futures := update system.futures task none })
  | .change kind => (effect system.state kind).map fun state => (.changed kind, { system with state })

def Step (before : System σ ι α) (event : Event ι κ α) (after : System σ ι α) : Prop :=
  before.act inode effect event.action = some (event.outcome, after)

end System

/-- Calls that fail change nothing. -/
structure INode.Steady (inode : INode σ α) : Prop where
  readat : ∀ {state offset len errno after}, inode.readat state offset len = (.error errno, after) → after = state
  writeat : ∀ {state offset buffer errno after},
    inode.writeat state offset buffer = (.error errno, after) → after = state

/-- The outcome is the answer of one call to the inode, or nothing happened. -/
def Outcome.Explains (inode : ι → INode σ α) (effect : σ → κ → Option σ) (before : σ) (after : σ) : Outcome ι κ α → Prop
  | .silent => after = before
  | .wrote who buffer answer => ∃ offset, (inode who).writeat before offset buffer = (answer, after)
  | .got who len answer => ∃ offset, (inode who).readat before offset len = (answer, after)
  | .changed kind => effect before kind = some after

variable {inode : ι → INode σ α} {effect : σ → κ → Option σ}

/-- A poll answers what the inode answers, or waits because the call failed. -/
theorem WaitBlockingRead.poll_cases (future : WaitBlockingRead) (inode : INode σ α) (state : σ) :
    (∃ answer after, inode.readat state future.offset future.len = (answer, after) ∧
        future.poll inode state = (.ready answer, future, after)) ∨
      ∃ errno later after, inode.readat state future.offset future.len = (.error errno, after) ∧
        future.poll inode state = (.pending, later, after) := by
  unfold poll
  split
  · next called => exact .inl ⟨_, _, called, rfl⟩
  · next called =>
    split
    · exact .inr ⟨_, _, _, called, rfl⟩
    · exact .inl ⟨_, _, called, rfl⟩

theorem WaitBlockingWrite.poll_cases (future : WaitBlockingWrite α) (inode : INode σ α) (state : σ) :
    (∃ answer after, inode.writeat state future.offset future.buffer = (answer, after) ∧
        future.poll inode state = (.ready answer, future, after)) ∨
      ∃ errno later after, inode.writeat state future.offset future.buffer = (.error errno, after) ∧
        future.poll inode state = (.pending, later, after) := by
  unfold poll
  split
  · next called => exact .inl ⟨_, _, called, rfl⟩
  · next called =>
    split
    · exact .inr ⟨_, _, _, called, rfl⟩
    · exact .inl ⟨_, _, called, rfl⟩

theorem System.pollFuture_explained (steady : ∀ who, (inode who).Steady) {before after : System σ ι α} {task : Nat}
    {future : Future ι α} {outcome : Outcome ι κ α}
    (polled : before.pollFuture inode task future = (outcome, after)) :
    outcome.Explains inode effect before.state after.state := by
  cases future with
  | read who future =>
    simp only [pollFuture] at polled
    rcases future.poll_cases (inode who) before.state with ⟨answer, _, called, ready⟩ | ⟨_, _, _, called, waits⟩
    · rw [ready] at polled
      cases polled
      exact ⟨_, called⟩
    · rw [waits] at polled
      cases polled
      exact (steady who).readat called
  | write who future =>
    simp only [pollFuture] at polled
    rcases future.poll_cases (inode who) before.state with ⟨answer, _, called, ready⟩ | ⟨_, _, _, called, waits⟩
    · rw [ready] at polled
      cases polled
      exact ⟨_, called⟩
    · rw [waits] at polled
      cases polled
      exact (steady who).writeat called

/-- Waiting adds nothing to what the calls do. -/
theorem System.Step.explained (steady : ∀ who, (inode who).Steady) {before after : System σ ι α} {event : Event ι κ α}
    (step : before.Step inode effect event after) :
    event.outcome.Explains inode effect before.state after.state := by
  obtain ⟨action, _⟩ := event
  cases action with
  | write who offset _ =>
    cases step
    exact ⟨offset, rfl⟩
  | read who offset _ =>
    cases step
    exact ⟨offset, rfl⟩
  | await task future =>
    simp only [System.Step, System.act] at step
    split at step
    · cases step
    · cases step
      rfl
  | poll task =>
    obtain ⟨future, _, polled⟩ := Option.map_eq_some_iff.mp step
    exact pollFuture_explained steady polled
  | cancel task =>
    cases step
    rfl
  | change _ =>
    obtain ⟨_, changed, ⟨⟩⟩ := Option.map_eq_some_iff.mp step
    exact changed

end MonkeyOS.Fs
