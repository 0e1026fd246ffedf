import Mathlib.Data.List.Perm.Subperm
import Mathlib.Order.Basic

/-! Chains of a partial function: a value, what the function gives for it, what
it gives for that, until it gives nothing. -/

set_option autoImplicit false

namespace MonkeyOS.Lib

open Nat

variable {α β : Type}

def StopsWithin (next : α → Option α) : (bound : Nat) → α → Prop
  | 0, value => next value = none
  | bound + 1, value => ∀ after, next value = some after → StopsWithin next bound after

def StopsAfter (next : α → Option α) : (steps : Nat) → α → Prop
  | 0, value => next value = none
  | steps + 1, value => ∃ after, next value = some after ∧ StopsAfter next steps after

variable {next : α → Option α} {value : α} {bound steps : Nat}

theorem StopsWithin.of_none (last : next value = none) : StopsWithin next bound value := by
  cases bound with
  | zero => exact last
  | succ bound =>
    intro _ step
    rw [last] at step
    cases step

theorem StopsAfter.unique {other : Nat} (stops : StopsAfter next steps value) (again : StopsAfter next other value) :
    steps = other := by
  induction steps generalizing value other with
  | zero =>
    cases other with
    | zero => rfl
    | succ other =>
      obtain ⟨after, step, -⟩ := again
      rw [StopsAfter, step] at stops
      cases stops
  | succ steps ih =>
    obtain ⟨after, step, rest⟩ := stops
    cases other with
    | zero =>
      rw [StopsAfter, step] at again
      cases again
    | succ other =>
      obtain ⟨_, step', rest'⟩ := again
      rw [step, Option.some.injEq] at step'
      subst step'
      rw [ih rest rest']

end MonkeyOS.Lib
