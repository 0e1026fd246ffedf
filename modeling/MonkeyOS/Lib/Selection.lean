import Mathlib.Data.List.Perm.Basic

/-! Taking elements out of a list: which one is taken, and what order survives
among the elements of one kind or with one tag. -/

set_option autoImplicit false

namespace MonkeyOS.Lib

open List

section Oldest

variable {α κ : Type} [LE κ] [LT κ]

/-- Among the admitted elements the chosen one has the least rank, and it is the
first with that rank. -/
structure Oldest (admits : α → Prop) (rank : α → κ) (front : List α) (chosen : α) (back : List α) :
    Prop where
  admitted : admits chosen
  earlier : ∀ item ∈ front, admits item → rank chosen < rank item
  later : ∀ item ∈ back, admits item → rank chosen ≤ rank item

variable {admits : α → Prop} {rank : α → κ} {front back : List α} {chosen : α}

variable (oldest : Oldest admits rank front chosen back)
include oldest

theorem Oldest.least [Std.IsLinearOrder κ] [Std.LawfulOrderLT κ] :
    ∀ item ∈ front ++ chosen :: back, admits item → rank chosen ≤ rank item := by
  intro item member admitted
  rcases mem_append.mp member with earlier | rest
  · exact Std.le_of_lt (oldest.earlier item earlier admitted)
  · cases rest with
    | head => exact Std.le_refl _
    | tail _ later => exact oldest.later item later admitted

theorem Oldest.unique [Std.IsLinearOrder κ] [Std.LawfulOrderLT κ] {front' back' : List α} {chosen' : α}
    (other : Oldest admits rank front' chosen' back') (same : front ++ chosen :: back = front' ++ chosen' :: back') :
    front = front' ∧ chosen = chosen' ∧ back = back' := by
  -- an element chosen later than another one would have to rank below it
  have clash : ∀ {front chosen back front' chosen' back' middle},
      Oldest admits rank front chosen back → Oldest admits rank front' chosen' back' →
      front' = front ++ chosen :: middle → back = middle ++ chosen' :: back' → False := by
    intro front chosen back front' chosen' back' middle oldest other before after
    have less := other.earlier chosen (by simp [before]) oldest.admitted
    have more := oldest.later chosen' (by simp [after]) other.admitted
    exact Std.not_lt_of_ge more less
  rcases append_eq_append_iff.mp same with ⟨middle, before, after⟩ | ⟨middle, before, after⟩
  · cases middle with
    | nil =>
      cases after
      exact ⟨by simpa using before.symm, rfl, rfl⟩
    | cons first middle =>
      cases after
      exact (clash oldest other before rfl).elim
  · cases middle with
    | nil =>
      cases after
      exact ⟨by simpa using before, rfl, rfl⟩
    | cons first middle =>
      cases after
      exact (clash other oldest before rfl).elim

theorem Oldest.first_of_kind [Std.LawfulOrderLT κ] {τ : Type} {kind : α → τ}
    (admits_kind : ∀ {left right}, kind left = kind right → admits left → admits right)
    (rank_kind : ∀ {left right}, kind left = kind right → rank left = rank right) :
    ∀ item ∈ front, kind item ≠ kind chosen := by
  intro item member same
  have less := oldest.earlier item member (admits_kind same.symm oldest.admitted)
  rw [rank_kind same] at less
  exact Std.lt_irrefl less

omit oldest

variable {index offset : Nat} {list : List α}

theorem oldest_of_findIdx? [Std.IsLinearOrder κ] [DecidablePred admits]
    (constant : ∀ left right, rank left = rank right) (found : list.findIdx? (fun item => admits item) = some index) :
    ∃ front chosen back, list = front ++ chosen :: back ∧ index = front.length ∧
      Oldest admits rank front chosen back := by
  obtain ⟨bound, admitted, earlier⟩ := findIdx?_eq_some_iff_getElem.mp found
  refine ⟨list.take index, list[index], list.drop (index + 1), ?_, ?_, ?_⟩
  · rw [getElem_cons_drop, take_append_drop]
  · rw [length_take, Nat.min_eq_left (Nat.le_of_lt bound)]
  · refine ⟨of_decide_eq_true admitted, fun item member accepted => ?_, fun item _ _ => ?_⟩
    · obtain ⟨place, _, rfl⟩ := mem_take_iff_getElem.mp member
      exact absurd (decide_eq_true accepted) (earlier place (by omega))
    · rw [constant item list[index]]
      exact Std.le_refl _

omit [LT κ] in
theorem not_admits_of_minOn? [DecidableLE κ] [DecidablePred admits]
    (missed : ((list.zipIdx offset).filter fun entry => admits entry.1).minOn? (fun entry => rank entry.1) = none) :
    ∀ item ∈ list, ¬ admits item := by
  intro _ member admitted
  rw [← List.zipIdx_map_fst offset list] at member
  obtain ⟨entry, listed, rfl⟩ := List.mem_map.mp member
  have kept : entry ∈ (list.zipIdx offset).filter fun entry => admits entry.1 :=
    List.mem_filter.mpr ⟨listed, decide_eq_true admitted⟩
  have found := @List.isSome_minOn?_of_mem _ _ _ _ (fun entry : α × Nat => rank entry.1) _ _ kept
  rw [missed] at found
  cases found

theorem oldest_of_minOn? [DecidableLE κ] [Std.IsLinearOrder κ] [Std.LawfulOrderLT κ] [DecidablePred admits]
    (found : ((list.zipIdx offset).filter fun entry => admits entry.1).minOn? (fun entry => rank entry.1) =
      some (chosen, index)) :
    ∃ front back, list = front ++ chosen :: back ∧ index = offset + front.length ∧
      Oldest admits rank front chosen back := by
  induction list generalizing offset chosen index with
  | nil => cases found
  | cons first rest ih =>
    rw [zipIdx_cons, filter_cons] at found
    split at found
    · next accepted =>
      rw [List.minOn?_cons] at found
      have here : Oldest admits rank [] first rest → (chosen, index) = (first, offset) →
          ∃ front back, first :: rest = front ++ chosen :: back ∧ index = offset + front.length ∧
            Oldest admits rank front chosen back := by
        rintro oldest same
        cases same
        exact ⟨[], rest, rfl, rfl, oldest⟩
      cases least : ((rest.zipIdx (offset + 1)).filter fun entry => admits entry.1).minOn?
          (fun entry => rank entry.1) with
      | none =>
        rw [least] at found
        refine here ⟨of_decide_eq_true accepted, nofun, fun item member admitted => ?_⟩ (Option.some.inj found).symm
        exact absurd admitted (not_admits_of_minOn? least item member)
      | some entry =>
        obtain ⟨_, _⟩ := entry
        obtain ⟨front, back, rfl, rfl, oldest⟩ := ih least
        rw [least, Option.elim_some, minOn_eq_if] at found
        split at found
        · next less =>
          exact here ⟨of_decide_eq_true accepted, nofun, fun item member admitted =>
            Std.le_trans less (oldest.least item member admitted)⟩ (Option.some.inj found).symm
        · next more =>
          cases found
          refine ⟨first :: front, back, rfl, by rw [length_cons]; omega, oldest.admitted, ?_, oldest.later⟩
          rintro item (_ | ⟨_, member⟩) admitted
          · exact Std.not_le.mp more
          · exact oldest.earlier item member admitted
    · next refused =>
      obtain ⟨front, back, rfl, rfl, oldest⟩ := ih found
      refine ⟨first :: front, back, rfl, by rw [length_cons]; omega, oldest.admitted, ?_, oldest.later⟩
      rintro item (_ | ⟨_, member⟩) admitted
      · exact absurd (decide_eq_true admitted) refused
      · exact oldest.earlier item member admitted

end Oldest

section InOrder

variable {α τ : Type} [DecidableEq τ] {kind : α → τ}

def InOrder (kind : α → τ) (sent received waiting : List α) : Prop :=
  ∀ wanted, (received ++ waiting).filter (fun item => kind item = wanted) = sent.filter fun item => kind item = wanted

variable {sent received waiting front back : List α} {item : α}

theorem InOrder.push (ordered : InOrder kind sent received waiting) (item : α) :
    InOrder kind (sent ++ [item]) received (waiting ++ [item]) := by
  intro wanted
  rw [← append_assoc, filter_append, ordered wanted, filter_append]

theorem InOrder.take (ordered : InOrder kind sent received (front ++ item :: back))
    (first : ∀ other ∈ front, kind other ≠ kind item) :
    InOrder kind sent (received ++ [item]) (front ++ back) := by
  intro wanted
  rw [← ordered wanted]
  by_cases same : kind item = wanted
  · have skipped : front.filter (fun other => kind other = wanted) = [] :=
      filter_eq_nil_iff.mpr fun other member equal =>
        first other member ((of_decide_eq_true equal).trans same.symm)
    simp [same, skipped]
  · simp [same]

theorem InOrder.perm [DecidableEq α] (ordered : InOrder kind sent received waiting) :
    (received ++ waiting).Perm sent := by
  refine perm_iff_count.mpr fun item => ?_
  have own : ∀ list : List α, list.count item = (list.filter fun other => kind other = kind item).count item :=
    fun list => (count_filter (by simp)).symm
  rw [own, own sent, ordered]

end InOrder

section Tagged

variable {α τ : Type} [DecidableEq τ]

def tagged (wanted : τ) (items : List α) (tags : List τ) : List α :=
  ((items.zip tags).filter fun entry => entry.2 = wanted).map Prod.fst

variable {wanted : τ} {items : List α} {tags : List τ}

theorem tagged_append (same : items.length = tags.length) (moreItems : List α) (moreTags : List τ) :
    tagged wanted (items ++ moreItems) (tags ++ moreTags) =
      tagged wanted items tags ++ tagged wanted moreItems moreTags := by
  simp only [tagged, zip_append same, filter_append, map_append]

theorem tagged_of_all (same : items.length = tags.length) (all : ∀ tag ∈ tags, tag = wanted) :
    tagged wanted items tags = items := by
  have every : (items.zip tags).filter (fun entry => entry.2 = wanted) = items.zip tags :=
    filter_eq_self.mpr fun entry member => decide_eq_true (all _ (of_mem_zip member).2)
  rw [tagged, every, map_fst_zip (Nat.le_of_eq same)]

theorem tagged_of_none (none : ∀ tag ∈ tags, tag ≠ wanted) : tagged wanted items tags = [] := by
  have nothing : (items.zip tags).filter (fun entry => entry.2 = wanted) = [] :=
    filter_eq_nil_iff.mpr fun entry member equal =>
      none _ (of_mem_zip member).2 (of_decide_eq_true equal)
  rw [tagged, nothing, map_nil]

end Tagged

end MonkeyOS.Lib
