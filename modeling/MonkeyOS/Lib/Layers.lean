import Mathlib.Data.Set.Basic

/-!
# Layers painted over each other

Each layer gives a value to the cells it covers, whatever was there. Every layer
shows through where it is to be seen exactly if the layers above it cover nothing
of it but blanks.
-/

set_option autoImplicit false

namespace MonkeyOS.Lib

variable {α β : Type}

/-- Cells that are painted, those among them that are to be seen, and the value of each. -/
structure Layer (α β : Type) where
  covers : Set α
  own : Set α
  value : α → β

namespace Layer

open Classical in
noncomputable def paint (cells : α → Option β) (layer : Layer α β) : α → Option β := fun cell =>
  if cell ∈ layer.covers then some (layer.value cell) else cells cell

variable {layer : Layer α β} {cells : α → Option β} {cell : α}

theorem paint_covered (covered : cell ∈ layer.covers) :
    layer.paint cells cell = some (layer.value cell) := if_pos covered

theorem paint_uncovered (uncovered : cell ∉ layer.covers) : layer.paint cells cell = cells cell := if_neg uncovered

variable {layers : List (Layer α β)} {blank : β}

theorem foldl_paint_cases (layers : List (Layer α β)) (cells : α → Option β) (cell : α) :
    (∃ layer ∈ layers, cell ∈ layer.covers ∧ layers.foldl paint cells cell = some (layer.value cell)) ∨
      (∀ layer ∈ layers, cell ∉ layer.covers) ∧ layers.foldl paint cells cell = cells cell := by
  induction layers generalizing cells with
  | nil => exact .inr ⟨nofun, rfl⟩
  | cons layer layers ih =>
    rcases ih (paint cells layer) with ⟨later, member, covered, shown⟩ | ⟨uncovered, shown⟩
    · exact .inl ⟨later, List.mem_cons_of_mem _ member, covered, shown⟩
    · by_cases covered : cell ∈ layer.covers
      · exact .inl ⟨layer, List.mem_cons_self, covered, shown.trans (paint_covered covered)⟩
      · exact .inr ⟨List.forall_mem_cons.mpr ⟨covered, uncovered⟩, shown.trans (paint_uncovered covered)⟩

/-- Where the layers above are blank, a layer shows exactly if they cover none of its
values but blanks. -/
theorem first_shows_iff (inside : layer.own ⊆ layer.covers)
    (apart : ∀ later ∈ layers, ∀ cell ∈ layer.own, later.value cell = blank) (cells : α → Option β) :
    (∀ cell ∈ layer.own, layers.foldl paint (paint cells layer) cell = some (layer.value cell)) ↔
      ∀ later ∈ layers, ∀ cell ∈ layer.own, cell ∈ later.covers → layer.value cell = blank := by
  constructor
  · intro shows later member cell owned covered
    rcases foldl_paint_cases layers (paint cells layer) cell with ⟨above, listed, _, shown⟩ | ⟨uncovered, _⟩
    · rw [shows cell owned, Option.some.injEq, apart above listed cell owned] at shown
      exact shown
    · exact absurd covered (uncovered later member)
  · intro spared cell owned
    rcases foldl_paint_cases layers (paint cells layer) cell with ⟨above, listed, covered, shown⟩ | ⟨_, shown⟩
    · rw [shown, apart above listed cell owned, spared above listed cell owned covered]
    · exact shown.trans (paint_covered (inside owned))

theorem all_show_iff (inside : ∀ layer ∈ layers, layer.own ⊆ layer.covers)
    (apart : layers.Pairwise fun layer later => ∀ cell ∈ layer.own, later.value cell = blank)
    (cells : α → Option β) :
    (∀ layer ∈ layers, ∀ cell ∈ layer.own, layers.foldl paint cells cell = some (layer.value cell)) ↔
      layers.Pairwise fun layer later => ∀ cell ∈ layer.own, cell ∈ later.covers → layer.value cell = blank := by
  induction layers generalizing cells with
  | nil => simp
  | cons layer layers ih =>
    obtain ⟨here, later⟩ := List.forall_mem_cons.mp inside
    obtain ⟨first, rest⟩ := List.pairwise_cons.mp apart
    rw [List.forall_mem_cons, List.pairwise_cons, List.foldl_cons, first_shows_iff here first,
      ih later rest (paint cells layer)]

end Layer

end MonkeyOS.Lib
