import MonkeyOS.Lib.Run

/-! Queues served in turns: whoever is first is served and, unless done, goes to
the back behind those who arrived meanwhile. -/

set_option autoImplicit false

namespace MonkeyOS.Lib

open List

variable {α : Type}

/-- Who is served, who arrives, and whether the one served comes back. -/
structure Serving (α : Type) where
  served : Option α
  arrived : List α
  again : Bool

namespace Serving

def done (serving : Serving α) : Option α := if serving.again then none else serving.served

inductive Serves : List α → Serving α → List α → Prop where
  | turn {who rest arrived again} :
      Serves (who :: rest) ⟨some who, arrived, again⟩ (rest ++ arrived ++ if again then [who] else [])
  | idle {queue arrived again} : Serves queue ⟨none, arrived, again⟩ (queue ++ arrived)

variable {queue front back before after last : List α} {who : α} {servings : List (Serving α)} {serving : Serving α}

theorem Serves.first (serves : Serves before serving after) (served : serving.served = some who) :
    ∃ rest, before = who :: rest ∧ after = rest ++ serving.arrived ++ if serving.again then [who] else [] := by
  cases serves with
  | turn =>
    cases served
    exact ⟨_, rfl, rfl⟩
  | idle => cases served

theorem served_until (fresh : who ∉ front) (run : Run Serves (front ++ who :: back) servings after)
    (absent : who ∉ servings.filterMap served) (next : Serves after serving last)
    (served : serving.served = some who) : servings.filterMap Serving.served = front := by
  generalize start : front ++ who :: back = queue at run
  induction run generalizing front back with
  | refl =>
    subst start
    cases front with
    | nil => rfl
    | cons first front =>
      cases next with
      | turn =>
        cases served
        exact absurd mem_cons_self fresh
      | idle => cases served
  | cons step _ ih =>
    cases step with
    | idle =>
      subst start
      exact ih fresh absent next (by rw [append_assoc, cons_append])
    | turn =>
      cases front with
      | nil =>
        cases start
        exact absurd mem_cons_self absent
      | cons first front =>
        obtain ⟨rfl, rfl⟩ := List.cons.inj (cons_append ▸ start)
        have later := ih (fun member => fresh (mem_cons_of_mem _ member))
          (fun member => absent (mem_cons_of_mem _ member)) next
          (by rw [append_assoc, append_assoc, cons_append])
        rw [filterMap_cons, later]

theorem count_arrived [DecidableEq α] (run : Run Serves before servings after) (name : α) :
    before.count name + (servings.flatMap arrived).count name =
      after.count name + (servings.filterMap done).count name := by
  induction run with
  | refl => simp
  | cons step _ ih =>
    rw [flatMap_cons, filterMap_cons, count_append]
    cases step with
    | @turn _ _ _ again =>
      cases again with
      | true =>
        simp only [done, if_true, count_append, count_cons] at ih ⊢
        simp only [count_nil] at ih
        omega
      | false =>
        simp only [done, Bool.false_eq_true, if_false, count_append, count_cons, count_nil] at ih ⊢
        omega
    | idle =>
      simp only [done, ite_self, count_append] at ih ⊢
      omega

end Serving

end MonkeyOS.Lib
