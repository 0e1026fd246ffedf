import MonkeyOS.Lib.Sharing
import MonkeyOS.Tasks.MachineProperties
import MonkeyOS.User.PageFaultProperties

/-!
# Memory by value

What forks and faults are for: every process has pages of bytes, and a fork copies
all of them at once. Pages of shared areas are objects that a process and its
relatives have in common.
-/

set_option autoImplicit false

namespace MonkeyOS.User

open Lib Tasks

inductive Action where
  | load (vaddr : Nat)
  | store (vaddr : Nat) (byte : UInt8)
  | fork (childId : Nat)

def Action.access : Action → Option (Nat × Bool)
  | .load vaddr => some (vaddr, false)
  | .store vaddr _ => some (vaddr, true)
  | .fork _ => none

inductive Answer where
  | byte (value : UInt8)
  | done
  /-- The fault was not served. -/
  | refused
  /-- The fault ended the task. -/
  | ended
  deriving DecidableEq

/-- An action of a thread of one process, with what the kernel around it holds,
and its answer. -/
structure Event where
  index : Nat
  taskId : Nat
  files : Files
  alive : Nat → Bool
  /-- References to a frame that are neither areas nor segments of the family. -/
  extra : Nat → Nat
  action : Action
  answer : Answer

/-- Processes by index: the areas they have, and the pages by process and address. -/
structure System where
  layouts : List MemSet
  store : Store (Nat × Nat) Page

def Plan.page (plan : Plan) (first page : Nat) : Option Page :=
  if page = first then some (frontPage plan.bytes)
  else if page % pageSize = 0 ∧ within first (first + plan.count * pageSize) page then some Page.zero
  else none

namespace System

def place (system : System) (index : Nat) (layout : MemSet) (vaddr : Nat) (plan : Plan) : System where
  layouts := system.layouts.set index (layout ++ [plan.area vaddr []])
  store := system.store.extend fun (other, page) =>
    if other = index then plan.page (pageFloor vaddr) page else none

/-- The first access to a page gives it a value. -/
def touch (files : Files) (index vaddr : Nat) (system : System) : Option System :=
  match system.store.cells (index, pageFloor vaddr) with
  | some _ => some system
  | none => do
      let layout ← system.layouts[index]?
      match layout.find? fun area => area.contains vaddr with
      | some area =>
        let value := frontPage (firstBytes files area vaddr)
        some { system with
          store := system.store.create (index, pageFloor vaddr) (SharedType area.mtype) value }
      | none => do
          let plan ← windowPlan files layout vaddr
          some (system.place index layout vaddr plan)

/-- The child gets the cells of the parent: values by copy, objects by reference. -/
def fork (system : System) (index : Nat) : Option System := do
  let layout ← system.layouts[index]?
  some
    { layouts := system.layouts ++ [layout]
      store := system.store.reindex fun (other, page) =>
        some (if other = system.layouts.length then index else other, page) }

def drop (system : System) (index : Nat) : System :=
  { system with store := system.store.reindex fun (other, page) =>
      if other = index then none else some (other, page) }

def perform (files : Files) (index : Nat) (system : System) : Action → Option (Answer × System)
  | .load vaddr => do
      let system ← system.touch files index vaddr
      let page ← system.store.read (index, pageFloor vaddr)
      some (.byte (page (vaddr % pageSize)), system)
  | .store vaddr byte => do
      let system ← system.touch files index vaddr
      let page ← system.store.read (index, pageFloor vaddr)
      let value := Function.update page (vaddr % pageSize) byte
      some (.done, { system with store := system.store.write (index, pageFloor vaddr) value })
  | .fork _ => do
      let system ← system.fork index
      some (.done, system)

/-- The event, if the answer is the right one. An access that was not served does nothing. -/
def follow (system : System) (event : Event) : Option System :=
  match event.answer with
  | .refused => some system
  | .ended => some (system.drop event.index)
  | answer => do
      let (right, system) ← system.perform event.files event.index event.action
      if right = answer then some system else none

end System

end MonkeyOS.User
