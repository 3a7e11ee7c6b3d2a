import Mathlib.Data.List.Chain
import Mathlib.Logic.Relation

/-!
# Histories that only grow

A history is the list of its items in the order they were made.  Where an item only ever refers to
items made before it, following the references backwards cannot come round in a circle, and what
was said about earlier items stays true when more are made.

## Main definitions

* `Earlier` — one item was made before another.
* `Line` — a list of items, each of which refers to the one before it.

## Main results

* `Earlier.append`, `earlier_concat` — growing the history.
* `not_transGen` — references to earlier items never come round in a circle.
* `Line.pairwise` — the items of a line are in the order they were made.
-/

namespace Lineage

variable {α : Type*} {history : List α} {a b c : α}

section Earlier

variable [DecidableEq α]

/-- `a` was made before `b`. -/
def Earlier (history : List α) (a b : α) : Prop :=
  history.idxOf a < history.idxOf b ∧ b ∈ history

theorem Earlier.mem_left (h : Earlier history a b) : a ∈ history := by
  rw [← List.idxOf_lt_length_iff]
  exact h.1.trans (List.idxOf_lt_length_iff.mpr h.2)

theorem Earlier.trans (h : Earlier history a b) (h' : Earlier history b c) : Earlier history a c :=
  ⟨h.1.trans h'.1, h'.2⟩

theorem not_earlier_self : ¬ Earlier history a a := fun h => lt_irrefl _ h.1

/-- What was earlier stays so. -/
theorem Earlier.append (h : Earlier history a b) (more : List α) :
    Earlier (history ++ more) a b := by
  refine ⟨?_, List.mem_append_left more h.2⟩
  rw [List.idxOf_append_of_mem h.mem_left, List.idxOf_append_of_mem h.2]
  exact h.1

/-- Whatever is there was made before a new item. -/
theorem earlier_concat (ha : a ∈ history) (hb : b ∉ history) : Earlier (history ++ [b]) a b := by
  refine ⟨?_, List.mem_append_right history (List.mem_singleton_self b)⟩
  rw [List.idxOf_append_of_mem ha, List.idxOf_append_of_notMem hb]
  have := List.idxOf_lt_length_iff.mpr ha
  omega

/-- **References to earlier items never come round in a circle.** -/
theorem not_transGen {refers : α → α → Prop}
    (h : ∀ x y, refers x y → Earlier history x y) : ¬ Relation.TransGen refers a a := by
  have htrans : ∀ {x y}, Relation.TransGen refers x y → Earlier history x y := by
    intro x y hxy
    induction hxy with
    | single hxy => exact h _ _ hxy
    | tail _ hyz ih => exact ih.trans (h _ _ hyz)
  intro hcircle
  exact not_earlier_self (htrans hcircle)

end Earlier

/-! ### Lines -/

/-- A list of items of the history, each of which refers to the one before it. -/
structure Line (history : List α) (refers : α → α → Prop) (items : List α) : Prop where
  mem : ∀ a ∈ items, a ∈ history
  chain : items.IsChain refers

variable {refers refers' : α → α → Prop} {items : List α}

theorem line_nil : Line history refers [] := ⟨by simp, .nil⟩

theorem line_singleton (ha : a ∈ history) : Line history refers [a] :=
  ⟨by simpa using ha, .singleton a⟩

/-- A line goes on with a new item that refers to its last one. -/
theorem Line.concat (h : Line history refers items) (hb : b ∈ history)
    (hlast : ∀ a, items.getLast? = some a → refers a b) : Line history refers (items ++ [b]) where
  mem := by
    intro x hx
    rcases List.mem_append.mp hx with hx | hx
    · exact h.mem x hx
    · rw [List.mem_singleton.mp hx]
      exact hb
  chain := by
    refine h.chain.append (.singleton b) ?_
    intro a ha x hx
    cases hx
    exact hlast a ha

/-- A line stays one when the history grows and the references of its items are kept. -/
theorem Line.mono {history' : List α} (h : Line history refers items)
    (hmem : ∀ a ∈ history, a ∈ history')
    (hrefers : ∀ a b, b ∈ history → refers a b → refers' a b) : Line history' refers' items where
  mem a ha := hmem a (h.mem a ha)
  chain := by
    have hall : items.IsChain fun x y => refers x y ∧ y ∈ history := by
      rw [List.isChain_iff_forall_rel_of_append_cons_cons]
      rintro x y l₁ l₂ rfl
      exact ⟨List.isChain_iff_forall_rel_of_append_cons_cons.mp h.chain rfl, h.mem y (by simp)⟩
    exact hall.imp fun x y hxy => hrefers x y hxy.2 hxy.1

/-- **The items of a line are in the order they were made.** -/
theorem Line.pairwise [DecidableEq α] (h : Line history refers items)
    (hearlier : ∀ x y, refers x y → Earlier history x y) : items.Pairwise (Earlier history) := by
  have htrans : ∀ {x y z}, Earlier history x y → Earlier history y z → Earlier history x z :=
    fun h h' => h.trans h'
  have : IsTrans α (Earlier history) := ⟨fun _ _ _ => htrans⟩
  exact List.isChain_iff_pairwise.mp (h.chain.imp fun x y hxy => hearlier x y hxy)

end Lineage
