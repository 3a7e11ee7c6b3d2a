import Mathlib.Data.List.Nodup
import Mathlib.Logic.Function.Basic

/-!
# Answers that do not depend on the data of others

A two-run property: in states that are related, the answer is the same.  Where the state is made of
tables whose rows have owners, two states are related when they have the same rows of one owner, and
what is read of a table is independent when only rows of that owner are found.

## Main definitions

* `Independent R f s` — the answer `f` is the same in every state that `s` is related to.
* `SameRows owner A l l'` — the tables differ in the rows of owners other than `A` only.
* `stateAfter`, `answersTo`, `EachAllowed` — a run, what it answers to one domain, and what its
  steps have in common.
* `Unwinds` — what a domain sees decides what its actions do, and the actions of others leave it.

## Main results

* `not_independent_of_two` — two related states with different answers.
* `filter_eq_of_sameRows`, `find?_eq_of_sameRows` — what is found among the rows of the owner is the
  same.
* `find?_key` — a row is what is found under its key.
* `nodup_key_cons`, `owned_update` — a row with a new key is added, and gets an owner.
* `sameRows_purge`, `sameRows_cons_purge` — the rows of others may be left out, and others added.
* `Unwinds.answersTo_purge` — **unwinding**: the answers to a domain are those of the run without
  the actions of others.
-/

namespace Noninterference

section Answers

variable {S α : Type*} {R : S → S → Prop} {f : S → α} {s : S}

/-- The answer is the same in every state that the state is related to. -/
def Independent (R : S → S → Prop) (f : S → α) (s : S) : Prop := ∀ s', R s s' → f s' = f s

/-- Two related states with different answers. -/
theorem not_independent_of_two {s₁ s₂ : S} (h₁ : R s s₁) (h₂ : R s s₂) (hne : f s₁ ≠ f s₂) :
    ¬ Independent R f s :=
  fun h => hne ((h s₁ h₁).trans (h s₂ h₂).symm)

end Answers

/-! ### Tables -/

section Tables

variable {ν τ κ : Type*} [DecidableEq τ] {owner : ν → τ} {A : τ} {l l' : List ν} {p : ν → Bool}

/-- The tables differ in the rows of other owners only. -/
def SameRows (owner : ν → τ) (A : τ) (l l' : List ν) : Prop :=
  l.filter (fun x => owner x = A) = l'.filter fun x => owner x = A

theorem mem_iff_of_sameRows (h : SameRows owner A l l') {x : ν} (hx : owner x = A) :
    x ∈ l ↔ x ∈ l' := by
  have hmem : x ∈ l.filter (fun x => owner x = A) ↔ x ∈ l'.filter fun x => owner x = A := by
    rw [h]
  simpa [List.mem_filter, hx] using hmem

/-- What is selected among the rows of the owner. -/
theorem filter_eq_filter_owner (hl : ∀ x ∈ l, p x = true → owner x = A) :
    l.filter p = (l.filter fun x => owner x = A).filter p := by
  rw [List.filter_filter]
  apply List.filter_congr
  intro x hx
  cases hp : p x with
  | false => rfl
  | true => simp [hl x hx hp]

/-- **A selection that finds rows of the owner only is the same.** -/
theorem filter_eq_of_sameRows (h : SameRows owner A l l')
    (hl : ∀ x ∈ l, p x = true → owner x = A) (hl' : ∀ x ∈ l', p x = true → owner x = A) :
    l.filter p = l'.filter p := by
  rw [filter_eq_filter_owner hl, filter_eq_filter_owner hl', h]

theorem find?_eq_of_sameRows (h : SameRows owner A l l')
    (hl : ∀ x ∈ l, p x = true → owner x = A) (hl' : ∀ x ∈ l', p x = true → owner x = A) :
    l.find? p = l'.find? p := by
  rw [← List.head?_filter, ← List.head?_filter, filter_eq_of_sameRows h hl hl']

/-- The rows of others left out. -/
def purge (owner : ν → τ) (A : τ) (l : List ν) : List ν := l.filter fun x => owner x = A

@[simp] theorem mem_purge {x : ν} : x ∈ purge owner A l ↔ x ∈ l ∧ owner x = A := by
  simp [purge]

theorem sameRows_purge : SameRows owner A l (purge owner A l) := by
  simp [SameRows, purge, List.filter_filter]

/-- A row of another is added. -/
theorem sameRows_cons_purge {x : ν} (hx : owner x ≠ A) :
    SameRows owner A l (x :: purge owner A l) := by
  unfold SameRows
  rw [List.filter_cons_of_neg (by simpa using hx)]
  exact sameRows_purge

theorem nodup_purge {key : ν → κ} (h : (l.map key).Nodup) : ((purge owner A l).map key).Nodup :=
  h.sublist (List.filter_sublist.map key)

/-- A row is what is found under its key. -/
theorem find?_key [DecidableEq κ] {key : ν → κ} (h : (l.map key).Nodup) {x : ν} (hx : x ∈ l) :
    (l.find? fun y => key y = key x) = some x := by
  cases hfind : l.find? fun y => key y = key x with
  | none =>
    have hnone := List.find?_eq_none.mp hfind x hx
    simp at hnone
  | some y =>
    have hy : y ∈ l := List.mem_of_find?_eq_some hfind
    have hkey : key y = key x := by simpa using List.find?_some hfind
    rw [List.inj_on_of_nodup_map h hy hx hkey]

/-- A row with a new key is added. -/
theorem nodup_key_cons {key : ν → κ} {x : ν} (h : (l.map key).Nodup)
    (hx : ∀ y ∈ l, key y ≠ key x) : ((x :: l).map key).Nodup := by
  rw [List.map_cons, List.nodup_cons]
  refine ⟨fun hmem => ?_, h⟩
  obtain ⟨y, hy, heq⟩ := List.mem_map.mp hmem
  exact hx y hy heq

omit [DecidableEq τ] in
/-- A key that no row has may be anyone's. -/
theorem owned_update [DecidableEq κ] (key : ν → κ) {owns : κ → τ} {k : κ} {t : τ}
    (hk : ∀ x ∈ l, key x ≠ k) (h : ∀ x ∈ l, owner x = owns (key x)) :
    ∀ x ∈ l, owner x = Function.update owns k t (key x) := by
  intro x hx
  rw [Function.update_of_ne (hk x hx)]
  exact h x hx

end Tables

/-! ### Runs -/

section Runs

variable {S A O D : Type*} [DecidableEq D] {step : S → A → O × S} {dom : A → D} {d : D}
  {allowed : S → A → Prop} {R : S → S → Prop}

/-- The state after the actions. -/
def stateAfter (step : S → A → O × S) (s : S) (as : List A) : S :=
  as.foldl (fun s a => (step s a).2) s

/-- What a run answers to the actions of `d`. -/
def answersTo (step : S → A → O × S) (dom : A → D) (d : D) : S → List A → List O
  | _, [] => []
  | s, a :: as =>
    if dom a = d then (step s a).1 :: answersTo step dom d (step s a).2 as
    else answersTo step dom d (step s a).2 as

/-- Every step of the run is allowed. -/
def EachAllowed (step : S → A → O × S) (allowed : S → A → Prop) : S → List A → Prop
  | _, [] => True
  | s, a :: as => allowed s a ∧ EachAllowed step allowed (step s a).2 as

/-- What `d` sees of a state decides what its actions answer and what it sees after them, and the
actions of others leave what it sees as it is. -/
structure Unwinds (step : S → A → O × S) (dom : A → D) (d : D) (allowed : S → A → Prop)
    (R : S → S → Prop) : Prop where
  answer : ∀ {s t a}, R s t → dom a = d → allowed s a → (step s a).1 = (step t a).1
  own : ∀ {s t a}, R s t → dom a = d → allowed s a → R (step s a).2 (step t a).2
  others : ∀ {s t a}, R s t → dom a ≠ d → allowed s a → R (step s a).2 t

@[simp] theorem stateAfter_nil (s : S) : stateAfter step s [] = s := rfl

@[simp] theorem stateAfter_cons (s : S) (a : A) (as : List A) :
    stateAfter step s (a :: as) = stateAfter step (step s a).2 as := rfl

theorem stateAfter_append (s : S) (as as' : List A) :
    stateAfter step s (as ++ as') = stateAfter step (stateAfter step s as) as' :=
  List.foldl_append

/-- What every step keeps, a run keeps. -/
theorem stateAfter_induction {P : S → Prop} (hstep : ∀ s a, P s → P (step s a).2) {s : S}
    (hs : P s) (as : List A) : P (stateAfter step s as) := by
  induction as generalizing s with
  | nil => exact hs
  | cons a as ih => exact ih (hstep s a hs)

/-- **Unwinding.** -/
theorem Unwinds.answersTo_purge (h : Unwinds step dom d allowed R) {as : List A} :
    ∀ {s t : S}, R s t → EachAllowed step allowed s as →
      answersTo step dom d s as = answersTo step dom d t (purge dom d as) ∧
        R (stateAfter step s as) (stateAfter step t (purge dom d as)) := by
  induction as with
  | nil => intro s t hR _; exact ⟨rfl, hR⟩
  | cons a as ih =>
    intro s t hR hall
    obtain ⟨hallowed, hrest⟩ := hall
    by_cases ha : dom a = d
    · have hpurge : purge dom d (a :: as) = a :: purge dom d as :=
        List.filter_cons_of_pos (by simpa using ha)
      obtain ⟨hanswers, hstate⟩ := ih (h.own hR ha hallowed) hrest
      rw [hpurge, answersTo, answersTo, if_pos ha, if_pos ha, h.answer hR ha hallowed, hanswers]
      exact ⟨rfl, hstate⟩
    · have hpurge : purge dom d (a :: as) = purge dom d as :=
        List.filter_cons_of_neg (by simpa using ha)
      rw [hpurge, answersTo, if_neg ha]
      exact ih (h.others hR ha hallowed) hrest

end Runs

end Noninterference
