import Mathlib.Logic.Function.Basic

/-! Places that point to frames, and the values they stand for. A private place
stands for what its frame holds; all shared places of one frame stand for one
object. The rules say which changes of pointers and frames are reads, writes and
copies of values. -/

set_option autoImplicit false

namespace MonkeyOS.Lib

open Function Option

structure Pointer (Frame : Type) where
  frame : Frame
  shared : Bool

structure Heap (Place Frame Value : Type) where
  points : Place → Option (Pointer Frame)
  contents : Frame → Value

inductive Cell (Value : Type) where
  | own (value : Value)
  | shared (object : Nat)

structure Store (Place Value : Type) where
  cells : Place → Option (Cell Value)
  objects : Nat → Value
  next : Nat

variable {Place Frame Value : Type}

namespace Store

def value (store : Store Place Value) : Cell Value → Value
  | .own value => value
  | .shared object => store.objects object

def read (store : Store Place Value) (place : Place) : Option Value :=
  (store.cells place).map store.value

def extend (store : Store Place Value) (values : Place → Option Value) : Store Place Value :=
  { store with cells := fun place => (store.cells place).or ((values place).map .own) }

def reindex (store : Store Place Value) (source : Place → Option Place) : Store Place Value :=
  { store with cells := fun place => (source place).bind store.cells }

variable [DecidableEq Place]

def write (store : Store Place Value) (place : Place) (value : Value) : Store Place Value :=
  match store.cells place with
  | none => store
  | some (.own _) => { store with cells := update store.cells place (some (.own value)) }
  | some (.shared object) => { store with objects := update store.objects object value }

def create (store : Store Place Value) (place : Place) (shared : Bool) (value : Value) : Store Place Value :=
  if shared then
    { cells := update store.cells place (some (.shared store.next))
      objects := update store.objects store.next value, next := store.next + 1 }
  else { store with cells := update store.cells place (some (.own value)) }

variable {store : Store Place Value} {place other : Place}

theorem create_elsewhere (apart : other ≠ place) (shared : Bool) (value : Value) :
    (store.create place shared value).cells other = store.cells other := by
  unfold create
  split <;> exact update_of_ne apart ..

theorem write_elsewhere (apart : other ≠ place) (value : Value) :
    (store.write place value).cells other = store.cells other := by
  unfold write
  split
  · rfl
  · exact update_of_ne apart ..
  · rfl

end Store

namespace Heap

def Unused (heap : Heap Place Frame Value) (frame : Frame) : Prop :=
  ∀ place pointer, heap.points place = some pointer → pointer.frame ≠ frame

def Sole (heap : Heap Place Frame Value) (place : Place) : Prop :=
  ∀ pointer other otherPointer, heap.points place = some pointer →
    heap.points other = some otherPointer → otherPointer.frame = pointer.frame → other = place

def Sorted (heap : Heap Place Frame Value) : Prop :=
  ∀ left right leftPointer rightPointer, heap.points left = some leftPointer →
    heap.points right = some rightPointer → leftPointer.frame = rightPointer.frame →
    leftPointer.shared = rightPointer.shared

def Agrees (heap : Heap Place Frame Value) (contents : Frame → Value) : Prop :=
  ∀ place pointer, heap.points place = some pointer → contents pointer.frame = heap.contents pointer.frame

/-- What a pointer stands for, with `object` naming the shared frames. -/
def cell (contents : Frame → Value) (object : Frame → Nat) (pointer : Pointer Frame) : Cell Value :=
  if pointer.shared then .shared (object pointer.frame) else .own (contents pointer.frame)

structure Names (heap : Heap Place Frame Value) (store : Store Place Value) (object : Frame → Nat) :
    Prop where
  cells : ∀ place, store.cells place = (heap.points place).map (cell heap.contents object)
  objects : ∀ place pointer, heap.points place = some pointer → pointer.shared = true →
    object pointer.frame < store.next ∧ store.objects (object pointer.frame) = heap.contents pointer.frame
  injective : ∀ left right leftPointer rightPointer, heap.points left = some leftPointer →
    heap.points right = some rightPointer → leftPointer.shared = true → rightPointer.shared = true →
    object leftPointer.frame = object rightPointer.frame → leftPointer.frame = rightPointer.frame

def Represents (heap : Heap Place Frame Value) (store : Store Place Value) : Prop :=
  ∃ object, Names heap store object

variable {heap : Heap Place Frame Value} {store : Store Place Value} {place : Place} {contents : Frame → Value}

theorem Represents.cells_none_iff (represents : heap.Represents store) (place : Place) :
    store.cells place = none ↔ heap.points place = none := by
  obtain ⟨_, names⟩ := represents
  rw [names.cells, map_eq_none_iff]

theorem Represents.read (represents : heap.Represents store) (place : Place) :
    store.read place = (heap.points place).map fun pointer => heap.contents pointer.frame := by
  obtain ⟨_, names⟩ := represents
  rw [Store.read, names.cells, map_map]
  cases pointed : heap.points place with
  | none => rfl
  | some pointer =>
    simp only [map_some, comp_apply, cell]
    split
    · next shared => exact congrArg some (names.objects place pointer pointed shared).2
    · rfl

theorem Represents.of_agrees (represents : heap.Represents store) (agrees : heap.Agrees contents) :
    Represents { heap with contents } store := by
  obtain ⟨object, names⟩ := represents
  refine ⟨object, fun place => ?_, fun place pointer pointed shared => ?_, names.injective⟩
  · rw [names.cells]
    refine map_congr fun pointer pointed => ?_
    simp only [cell, agrees place pointer pointed]
  · obtain ⟨named, holds⟩ := names.objects place pointer pointed shared
    exact ⟨named, holds.trans (agrees place pointer pointed).symm⟩

private theorem Names.rearrange {points : Place → Option (Pointer Frame)} {cells : Place → Option (Cell Value)}
    {object : Frame → Nat} (names : heap.Names store object)
    (known : ∀ {place pointer}, points place = some pointer → pointer.shared = true →
      ∃ other, heap.points other = some pointer)
    (follows : ∀ place, cells place = (points place).map (cell heap.contents object)) :
    Names { heap with points } { store with cells } object where
  cells := follows
  objects := by
    intro _ pointer pointed shared
    obtain ⟨other, pointed⟩ := known pointed shared
    exact names.objects other pointer pointed shared
  injective := by
    intro left right leftPointer rightPointer leftPointed rightPointed leftShared rightShared
    obtain ⟨left, leftPointed⟩ := known leftPointed leftShared
    obtain ⟨right, rightPointed⟩ := known rightPointed rightShared
    exact names.injective left right leftPointer rightPointer leftPointed rightPointed leftShared rightShared

variable (represents : heap.Represents store)
include represents

theorem Represents.reindex (source : Place → Option Place) :
    Represents { heap with points := fun place => (source place).bind heap.points } (store.reindex source) := by
  obtain ⟨object, names⟩ := represents
  refine ⟨object, names.rearrange (fun pointed _ => ?_) fun place => ?_⟩
  · obtain ⟨other, _, pointed⟩ := bind_eq_some_iff.mp pointed
    exact ⟨other, pointed⟩
  · cases taken : source place with
    | none => rfl
    | some other => exact names.cells other

theorem Represents.extend (added : Place → Option Frame) (agrees : heap.Agrees contents) :
    Represents
      { points := fun place => (heap.points place).or ((added place).map fun frame => ⟨frame, false⟩), contents }
      (store.extend fun place => (added place).map contents) := by
  obtain ⟨object, names⟩ := represents.of_agrees agrees
  refine ⟨object, names.rearrange (fun {place pointer} pointed shared => ⟨place, ?_⟩) fun place => ?_⟩
  · cases old : heap.points place with
    | some _ => simpa [old] using pointed
    | none =>
      rw [old, none_or] at pointed
      obtain ⟨_, _, rfl⟩ := map_eq_some_iff.mp pointed
      cases shared
  · rw [names.cells]
    cases heap.points place with
    | some pointer => rfl
    | none =>
      dsimp only
      cases added place <;> rfl

variable [DecidableEq Place]

theorem Represents.create_own (place : Place) (frame : Frame) (agrees : heap.Agrees contents) :
    Represents { points := update heap.points place (some ⟨frame, false⟩), contents }
      (store.create place false (contents frame)) := by
  obtain ⟨object, names⟩ := represents.of_agrees agrees
  refine ⟨object, names.rearrange (fun {other pointer} pointed shared => ⟨other, ?_⟩) fun other => ?_⟩
  · by_cases here : other = place
    · subst here
      rw [update_self] at pointed
      cases pointed
      cases shared
    · rwa [update_of_ne here] at pointed
  · by_cases here : other = place
    · subst here
      simp [cell]
    · rw [update_of_ne here, update_of_ne here, names.cells]

theorem Represents.move {old frame : Frame}
    (pointed : heap.points place = some ⟨old, false⟩) (agrees : heap.Agrees contents)
    (copied : contents frame = heap.contents old) :
    Represents { points := update heap.points place (some ⟨frame, false⟩), contents } store := by
  have moved := represents.create_own place frame agrees
  obtain ⟨_, names⟩ := represents
  have same : store.create place false (contents frame) = store := by
    have held : store.cells place = some (.own (contents frame)) := by
      rw [names.cells, pointed, copied]
      rfl
    simp only [Store.create, Bool.false_eq_true, if_false, ← held, update_eq_self]
  rwa [same] at moved

theorem Represents.create_shared [DecidableEq Frame] (place : Place)
    {frame : Frame} (unused : heap.Unused frame) (agrees : heap.Agrees contents) :
    Represents { points := update heap.points place (some ⟨frame, true⟩), contents }
      (store.create place true (contents frame)) := by
  obtain ⟨object, names⟩ := represents.of_agrees agrees
  have elsewhere : ∀ {other pointer},
      update heap.points place (some ⟨frame, true⟩) other = some pointer →
      pointer = ⟨frame, true⟩ ∨ pointer.frame ≠ frame ∧ heap.points other = some pointer := by
    intro other pointer pointed
    by_cases here : other = place
    · subst here
      rw [update_self] at pointed
      exact .inl (Option.some.inj pointed).symm
    · rw [update_of_ne here] at pointed
      exact .inr ⟨unused other pointer pointed, pointed⟩
  refine ⟨update object frame store.next, fun other => ?_, fun other pointer pointed shared => ?_,
    fun left right leftPointer rightPointer leftPointed rightPointed leftShared rightShared same => ?_⟩
  · by_cases here : other = place
    · subst here
      simp [Store.create, cell]
    · simp only [Store.create, if_true, update_of_ne here]
      rw [names.cells]
      refine map_congr fun pointer pointed => ?_
      simp only [cell, update_of_ne (unused other pointer pointed)]
  · rcases elsewhere pointed with rfl | ⟨other', pointed⟩
    · simp [Store.create]
    · obtain ⟨named, holds⟩ := names.objects other pointer pointed shared
      simp only [Store.create, if_true, update_of_ne other', update_of_ne (Nat.ne_of_lt named)]
      exact ⟨Nat.lt_succ_of_lt named, holds⟩
  · rcases elsewhere leftPointed with rfl | ⟨leftOther, leftPointed⟩ <;>
      rcases elsewhere rightPointed with rfl | ⟨rightOther, rightPointed⟩
    · rfl
    · rw [update_self, update_of_ne rightOther] at same
      exact absurd (names.objects right rightPointer rightPointed rightShared).1 (by omega)
    · rw [update_self, update_of_ne leftOther] at same
      exact absurd (names.objects left leftPointer leftPointed leftShared).1 (by omega)
    · rw [update_of_ne leftOther, update_of_ne rightOther] at same
      exact names.injective left right leftPointer rightPointer leftPointed rightPointed leftShared rightShared same

/-- Writing the frame of a place writes the place, if the frame is shared or has
no other place. -/
theorem Represents.write [DecidableEq Frame] (sorted : heap.Sorted)
    {pointer : Pointer Frame} (pointed : heap.points place = some pointer)
    (sole : pointer.shared = false → heap.Sole place) (value : Value) :
    Represents { heap with contents := update heap.contents pointer.frame value } (store.write place value) := by
  obtain ⟨object, names⟩ := represents
  have here := names.cells place
  rw [pointed, map_some, cell] at here
  cases kind : pointer.shared with
  | false =>
    rw [kind] at here
    simp only [Store.write, here, Bool.false_eq_true, if_false]
    have apart : ∀ other otherPointer, other ≠ place → heap.points other = some otherPointer →
        otherPointer.frame ≠ pointer.frame := fun other otherPointer elsewhere otherPointed same =>
      elsewhere (sole kind pointer other otherPointer pointed otherPointed same)
    refine ⟨object, fun other => ?_, fun other otherPointer otherPointed shared => ?_, names.injective⟩
    · by_cases same : other = place
      · subst same
        simp [pointed, cell, kind]
      · simp only [update_of_ne same]
        refine (names.cells other).trans (map_congr fun otherPointer otherPointed => ?_)
        simp only [cell, update_of_ne (apart other otherPointer same otherPointed)]
    · have different : otherPointer.frame ≠ pointer.frame := fun same => by
        have kinds := sorted other place otherPointer pointer otherPointed pointed same
        rw [shared, kind] at kinds
        cases kinds
      simp only [update_of_ne different]
      exact names.objects other otherPointer otherPointed shared
  | true =>
    rw [kind] at here
    simp only [Store.write, here, if_true]
    refine ⟨object, fun other => ?_, fun other otherPointer otherPointed shared => ?_, names.injective⟩
    · refine (names.cells other).trans (map_congr fun otherPointer otherPointed => ?_)
      simp only [cell]
      split
      · rfl
      · next own =>
        have different : otherPointer.frame ≠ pointer.frame := fun same =>
          own ((sorted other place otherPointer pointer otherPointed pointed same).trans kind)
        rw [update_of_ne different]
    · obtain ⟨named, holds⟩ := names.objects other otherPointer otherPointed shared
      refine ⟨named, ?_⟩
      by_cases same : otherPointer.frame = pointer.frame
      · simp only [same, update_self]
      · have objects : object otherPointer.frame ≠ object pointer.frame := fun equal =>
          same (names.injective other place otherPointer pointer otherPointed pointed shared kind equal)
        simp only [update_of_ne same, update_of_ne objects]
        exact holds

end Heap

end MonkeyOS.Lib
