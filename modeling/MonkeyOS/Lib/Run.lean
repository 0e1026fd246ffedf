import Mathlib.Algebra.Order.Ring.Nat
import Mathlib.Data.Nat.Find
import Mathlib.Order.WellFounded

/-! Finite runs of a labelled transition relation, with the rules that lift a
fact about one step to every state a run passes through. -/

set_option autoImplicit false

namespace MonkeyOS.Lib

open List

variable {State Label : Type}

inductive Run (step : State → Label → State → Prop) : State → List Label → State → Prop where
  | refl {state} : Run step state [] state
  | cons {first middle last label labels} :
      step first label middle → Run step middle labels last →
      Run step first (label :: labels) last

namespace Run

variable {step : State → Label → State → Prop}

theorem preserves {invariant : State → Prop}
    (kept : ∀ {before label after}, invariant before → step before label after → invariant after)
    {start finish : State} {labels : List Label}
    (run : Run step start labels finish) (initial : invariant start) : invariant finish := by
  induction run with
  | refl => exact initial
  | cons first _ ih => exact ih (kept initial first)

variable {finish start : State} {labels : List Label}

theorem mono {weaker : State → Label → State → Prop}
    (weaken : ∀ {before label after}, step before label after → weaker before label after)
    (run : Run step start labels finish) :
    Run weaker start labels finish := by
  induction run with
  | refl => exact .refl
  | cons first _ ih => exact .cons (weaken first) ih

theorem assuming {invariant : State → Prop}
    (kept : ∀ {before label after}, invariant before → step before label after → invariant after)
    {start finish : State} {labels : List Label} (run : Run step start labels finish)
    (initial : invariant start) :
    Run (fun before label after => step before label after ∧ invariant before) start labels finish := by
  induction run with
  | refl => exact .refl
  | cons first _ ih => exact .cons ⟨first, initial⟩ (ih (kept initial first))

theorem image {Seen : Type} (view : State → Seen) {seen : Seen → Label → Seen → Prop}
    (visible : ∀ {before label after}, step before label after → seen (view before) label (view after))
    (run : Run step start labels finish) :
    Run seen (view start) labels (view finish) := by
  induction run with
  | refl => exact .refl
  | cons first _ ih => exact .cons (visible first) ih

theorem append {middle : State} {front back : List Label} (left : Run step start front middle)
    (right : Run step middle back finish) :
    Run step start (front ++ back) finish := by
  induction left with
  | refl => exact right
  | cons first _ ih => exact .cons first (ih right)

theorem of_steps {state : Nat → State} {label : Nat → Label} {count : Nat}
    (steps : ∀ index < count, step (state index) (label index) (state (index + 1))) :
    Run step (state 0) ((List.range count).map label) (state count) := by
  induction count with
  | zero => exact .refl
  | succ count ih =>
    have front := ih fun index below => steps index (below.trans (Nat.lt_succ_self count))
    rw [range_succ, map_append]
    exact front.append (.cons (steps count (Nat.lt_succ_self count)) .refl)

/-- What is taken out of a store, followed by what it still holds, is what it held
followed by what was put in, if every step keeps this law. -/
theorem flow {α : Type} {taken given : Label → List α} {held : State → List α}
    (balanced : ∀ {before label after}, step before label after →
      taken label ++ held after = held before ++ given label)
    {start finish : State} {labels : List Label} (run : Run step start labels finish) :
    labels.flatMap taken ++ held finish = held start ++ labels.flatMap given := by
  induction run with
  | refl => simp
  | @cons _ _ _ _ _ step _ ih =>
    rw [flatMap_cons, append_assoc, ih, ← append_assoc, balanced step, append_assoc, flatMap_cons]

theorem balance {taken given : Label → Nat} {held : State → Nat}
    (balanced : ∀ {before label after}, step before label after → held before + given label = held after + taken label)
    {start finish : State} {labels : List Label} (run : Run step start labels finish) :
    held start + (labels.map given).sum = held finish + (labels.map taken).sum := by
  induction run with
  | refl => rfl
  | cons first _ _ =>
    have law := balanced first
    simp only [map_cons, sum_cons]
    omega

theorem follows {Abstract : Type} {follow : Abstract → Label → Option Abstract} {relates : State → Abstract → Prop}
    (simulated : ∀ {before label after abstract}, relates before abstract → step before label after →
      ∃ next, follow abstract label = some next ∧ relates after next)
    {start finish : State} {labels : List Label} (run : Run step start labels finish) {abstract : Abstract}
    (initial : relates start abstract) :
    ∃ last, labels.foldlM follow abstract = some last ∧ relates finish last := by
  induction run generalizing abstract with
  | refl => exact ⟨abstract, rfl, initial⟩
  | cons first _ ih =>
    obtain ⟨_, followed, related⟩ := simulated initial first
    obtain ⟨last, rest, final⟩ := ih related
    exact ⟨last, by rw [foldlM_cons, followed]; exact rest, final⟩

end Run

/-! ## Executions that end -/

/-- An execution is done at some point if, until then, a quantity always falls again. -/
theorem exists_first_of_falls {done : Nat → Prop} {measure : Nat → Nat}
    (falls : (∀ index, ¬ done index) → ∀ index, ∃ later, measure later < measure index) :
    ∃ first, done first ∧ ∀ index < first, ¬ done index := by
  classical
  by_cases ends : ∃ index, done index
  · exact ⟨Nat.find ends, Nat.find_spec ends, fun index below => Nat.find_min ends below⟩
  · obtain ⟨later, fewer⟩ := falls (not_exists.mp ends) (Function.argmin measure)
    exact absurd fewer (Function.not_lt_argmin measure later)

/-! ## Executions that do not end -/

structure Endless (step : State → Label → State → Prop) where
  state : Nat → State
  label : Nat → Label
  taken : ∀ index, step (state index) (label index) (state (index + 1))

namespace Endless

variable {step : State → Label → State → Prop}

theorem always_from (run : Endless step) (holds : State → Prop) {start : Nat}
    (kept : ∀ index ≥ start, holds (run.state index) → holds (run.state (index + 1)))
    (initial : holds (run.state start)) {index : Nat} (later : start ≤ index) : holds (run.state index) :=
  Nat.le_induction initial kept index later

theorem exists_of_next {holds : Nat → State → Prop} {does : Nat → Label → Prop} {start : State}
    (initial : holds 0 start)
    (next : ∀ index before, holds index before →
      ∃ label after, step before label after ∧ does index label ∧ holds (index + 1) after) :
    ∃ run : Endless step, run.state 0 = start ∧
      ∀ index, holds index (run.state index) ∧ does index (run.label index) := by
  have someLabel : Nonempty Label := (next 0 start initial).nonempty
  choose! label after taken done kept using next
  let state (index : Nat) : State := Nat.rec start after index
  have held (index : Nat) : holds index (state index) := by
    induction index with
    | zero => exact initial
    | succ index ih => exact kept index _ ih
  exact ⟨{ state, label := fun index => label index (state index), taken := fun index => taken index _ (held index) },
    rfl, fun index => ⟨held index, done index _ (held index)⟩⟩

end Endless

/-! ## One-shot events -/

/-- The marked labels of a trace are the first one of a kind. -/
def MarksFirst (kind : Label → Prop) (marked : Label → Bool) (labels : List Label) : Prop :=
  ∀ front label back, labels = front ++ label :: back →
    (marked label = true ↔ kind label ∧ ∀ earlier ∈ front, ¬ kind earlier)

section MarksFirst

variable {kind : Label → Prop} {marked : Label → Bool} {label : Label} {labels : List Label}

theorem MarksFirst.nil : MarksFirst kind marked [] :=
  fun front label back empty => by simp at empty

theorem MarksFirst.cons_other (other : ¬ kind label) (unmarked : marked label = false)
    (rest : MarksFirst kind marked labels) : MarksFirst kind marked (label :: labels) := by
  intro front next back split
  cases front with
  | nil =>
    obtain ⟨rfl, rfl⟩ := List.cons.inj split
    simp [other, unmarked]
  | cons _ front =>
    obtain ⟨rfl, behind⟩ := List.cons.inj split
    simpa [other] using rest front next back behind

theorem MarksFirst.cons_first (first : kind label) (isMarked : marked label = true)
    (rest : ∀ later ∈ labels, marked later = false) : MarksFirst kind marked (label :: labels) := by
  intro front next _ split
  cases front with
  | nil =>
    obtain ⟨rfl, rfl⟩ := List.cons.inj split
    simp [first, isMarked]
  | cons _ front =>
    obtain ⟨rfl, behind⟩ := List.cons.inj split
    have later : next ∈ labels := by simp [behind]
    simp [rest next later, first]

theorem MarksFirst.countP (marks : MarksFirst kind marked labels) :
    labels.countP marked ≤ 1 ∧ (labels.countP marked = 1 ↔ ∃ label ∈ labels, kind label) := by
  induction labels with
  | nil => simp
  | cons label labels ih =>
    have head := marks [] label labels rfl
    have tail : ∀ front next back, labels = front ++ next :: back →
        (marked next = true ↔ kind next ∧ ¬ kind label ∧ ∀ earlier ∈ front, ¬ kind earlier) := by
      intro front next back split
      rw [marks (label :: front) next back (by rw [split]; rfl)]
      simp
    by_cases first : kind label
    · have unmarked : labels.countP marked = 0 := by
        refine countP_eq_zero.mpr fun later member isMarked => ?_
        obtain ⟨front, back, split⟩ := append_of_mem member
        exact ((tail front later back split).mp isMarked).2.1 first
      simp [head.mpr ⟨first, by simp⟩, unmarked, first]
    · have rest : MarksFirst kind marked labels := fun front next back split => by
        simpa [first] using tail front next back split
      have unmarked : marked label = false := by
        simpa using fun isMarked => first (head.mp isMarked).1
      simpa [countP_cons, unmarked, first] using ih rest

theorem Run.marksFirst {step : State → Label → State → Prop} {waits idles : State → Prop}
    (idle : ∀ {before label after}, idles before → step before label after → marked label = false ∧ idles after)
    (wait : ∀ {before label after}, waits before → step before label after →
      kind label ∧ marked label = true ∧ idles after ∨ ¬ kind label ∧ marked label = false ∧ waits after)
    {start finish : State} (run : Run step start labels finish) :
    (idles start → ∀ label ∈ labels, marked label = false) ∧ (waits start → MarksFirst kind marked labels) := by
  induction run with
  | refl => exact ⟨fun _ => forall_mem_nil _, fun _ => .nil⟩
  | cons first _ ih =>
    constructor
    · intro idling
      obtain ⟨unmarked, after⟩ := idle idling first
      exact forall_mem_cons.mpr ⟨unmarked, ih.1 after⟩
    · intro waiting
      rcases wait waiting first with ⟨found, isMarked, after⟩ | ⟨other, unmarked, after⟩
      · exact .cons_first found isMarked (ih.1 after)
      · exact .cons_other other unmarked (ih.2 after)

end MarksFirst

end MonkeyOS.Lib
