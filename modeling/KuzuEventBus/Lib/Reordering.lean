import Mathlib.Data.Multiset.Bind

/-!
# Lists in another order

A collection without an order of its own is read as a list, and read twice it may give two lists.
Two such lists are compared element by element in any order, and two fallible computations by
whether they return, with related results, or fail, with related errors.

## Main definitions

* `Rearranged` — lists with related elements, in any two orders.
* `Alike` — computations that return related results or fail with related errors.

## Main results

* `Rearranged.map`, `Rearranged.filterMap`, `Rearranged.flatMap` — what is computed element by
  element is rearranged, too.
* `Rearranged.mapM` — **a loop over rearranged lists ends alike**, when the errors of its steps are
  all related to each other.
-/

namespace Reordering

variable {α β γ δ ε : Type*} {R : α → β → Prop} {S : γ → δ → Prop}

/-! ### Rearranged lists -/

/-- The lists have related elements, in any two orders. -/
def Rearranged (R : α → β → Prop) (l : List α) (l' : List β) : Prop :=
  Multiset.Rel R (l : Multiset α) (l' : Multiset β)

theorem Rearranged.nil : Rearranged R [] [] := .zero

theorem Rearranged.singleton {a : α} {b : β} (h : R a b) : Rearranged R [a] [b] := .cons h .zero

/-- One of the lists is put into the order of the other. -/
theorem rearranged_iff {l : List α} {l' : List β} :
    Rearranged R l l' ↔ ∃ m, l.Perm m ∧ List.Forall₂ R m l' := by
  constructor
  · intro h
    induction l' generalizing l with
    | nil =>
      have hnil : l = [] := by simpa using Multiset.rel_zero_right.mp h
      exact ⟨[], by rw [hnil], .nil⟩
    | cons b l' ih =>
      have hcons : Multiset.Rel R (l : Multiset α) (b ::ₘ (l' : Multiset β)) := h
      obtain ⟨a, s, hab, hs, heq⟩ := Multiset.rel_cons_right.mp hcons
      induction s using Quotient.inductionOn with | _ m =>
      obtain ⟨m', hperm, hall⟩ := ih hs
      exact ⟨a :: m', (Multiset.coe_eq_coe.mp heq).trans (hperm.cons a), .cons hab hall⟩
  · rintro ⟨m, hperm, hall⟩
    rw [Rearranged, Multiset.coe_eq_coe.mpr hperm]
    clear hperm
    induction hall with
    | nil => exact .zero
    | cons hab _ ih => exact .cons hab ih

theorem Rearranged.mono {R' : α → β → Prop} {l : List α} {l' : List β} (h : Rearranged R l l')
    (hR : ∀ a b, R a b → R' a b) : Rearranged R' l l' :=
  Multiset.Rel.mono h fun a _ b _ hab => hR a b hab

theorem Rearranged.append {l m : List α} {l' m' : List β} (h : Rearranged R l l')
    (h' : Rearranged R m m') : Rearranged R (l ++ m) (l' ++ m') :=
  Multiset.Rel.add h h'

theorem Rearranged.map {l : List α} {l' : List β} {f : α → γ} {g : β → δ}
    (h : Rearranged R l l') (hfg : ∀ a b, R a b → S (f a) (g b)) :
    Rearranged S (l.map f) (l'.map g) := by
  rw [Rearranged, ← Multiset.map_coe, ← Multiset.map_coe, Multiset.rel_map]
  exact h.mono hfg

theorem Rearranged.flatMap {l : List α} {l' : List β} {f : α → List γ} {g : β → List δ}
    (h : Rearranged R l l') (hfg : ∀ a b, R a b → Rearranged S (f a) (g b)) :
    Rearranged S (l.flatMap f) (l'.flatMap g) := by
  rw [Rearranged, ← Multiset.coe_bind, ← Multiset.coe_bind]
  exact Multiset.rel_bind hfg h

theorem Rearranged.filterMap {l : List α} {l' : List β} {f : α → Option γ} {g : β → Option δ}
    (h : Rearranged R l l') (hfg : ∀ a b, R a b → Option.Rel S (f a) (g b)) :
    Rearranged S (l.filterMap f) (l'.filterMap g) := by
  have hone : ∀ a b, R a b → Rearranged S (f a).toList (g b).toList := by
    intro a b hab
    have hrel := hfg a b hab
    generalize f a = x at hrel
    generalize g b = y at hrel
    cases hrel with
    | none => exact .nil
    | some hcd => exact .singleton hcd
  rw [List.filterMap_eq_flatMap_toList, List.filterMap_eq_flatMap_toList]
  exact h.flatMap hone

theorem Rearranged.filter {l : List α} {l' : List β} {p : α → Bool} {q : β → Bool}
    (h : Rearranged R l l') (hpq : ∀ a b, R a b → p a = q b) :
    Rearranged R (l.filter p) (l'.filter q) := by
  rw [← List.filterMap_eq_filter, ← List.filterMap_eq_filter]
  refine h.filterMap fun a b hab => ?_
  rw [Option.guard, Option.guard, hpq a b hab]
  split
  · exact .some hab
  · exact .none

/-- Functions that agree on related elements give a permutation. -/
theorem Rearranged.map_perm {l : List α} {l' : List β} {f : α → γ} {g : β → γ}
    (h : Rearranged R l l') (hfg : ∀ a b, R a b → f a = g b) : (l.map f).Perm (l'.map g) :=
  Multiset.coe_eq_coe.mp (Multiset.rel_eq.mp (h.map hfg))

/-! ### Computations that end alike -/

section

variable {α β γ δ ε : Type} {R : α → β → Prop} {S : γ → δ → Prop} {E : ε → ε → Prop}

/-- Both return, with related results, or both fail, with related errors. -/
inductive Alike (E : ε → ε → Prop) (R : α → β → Prop) : Except ε α → Except ε β → Prop
  | ok {a : α} {b : β} (h : R a b) : Alike E R (.ok a) (.ok b)
  | error {e e' : ε} (h : E e e') : Alike E R (.error e) (.error e')

theorem Alike.mono {R' : α → β → Prop} {x : Except ε α} {y : Except ε β} (h : Alike E R x y)
    (hR : ∀ a b, R a b → R' a b) : Alike E R' x y := by
  cases h with
  | ok hab => exact .ok (hR _ _ hab)
  | error he => exact .error he

theorem Alike.refl (hE : ∀ e, E e e) (x : Except ε α) : Alike E Eq x x := by
  cases x with
  | ok a => exact .ok rfl
  | error e => exact .error (hE e)

theorem Alike.bind {x : Except ε α} {y : Except ε β} {f : α → Except ε γ} {g : β → Except ε δ}
    (h : Alike E R x y) (hfg : ∀ a b, R a b → Alike E S (f a) (g b)) :
    Alike E S (x >>= f) (y >>= g) := by
  cases h with
  | ok hab => exact hfg _ _ hab
  | error he => exact .error he

theorem Alike.map {x : Except ε α} {y : Except ε β} {f : α → γ} {g : β → δ}
    (h : Alike E R x y) (hfg : ∀ a b, R a b → S (f a) (g b)) :
    Alike E S (x.map f) (y.map g) := by
  cases h with
  | ok hab => exact .ok (hfg _ _ hab)
  | error he => exact .error he

theorem Alike.trans {T : β → γ → Prop} (htrans : ∀ e e' e'', E e e' → E e' e'' → E e e'')
    {x : Except ε α} {y : Except ε β} {z : Except ε γ} (h : Alike E R x y) (h' : Alike E T y z) :
    Alike E (Relation.Comp R T) x z := by
  cases h with
  | ok hab =>
    cases h' with
    | ok hbc => exact .ok ⟨_, hab, hbc⟩
  | error he =>
    cases h' with
    | error he' => exact .error (htrans _ _ _ he he')

/-! ### Loops -/

/-- A loop over lists with related elements, in the same order. -/
theorem alike_mapM_forall₂ {f : α → Except ε γ} {g : β → Except ε δ} {l : List α} {l' : List β}
    (h : List.Forall₂ R l l') (hfg : ∀ a b, R a b → Alike E S (f a) (g b)) :
    Alike E (List.Forall₂ S) (l.mapM f) (l'.mapM g) := by
  induction h with
  | nil => exact .ok .nil
  | cons hab _ ih =>
    rw [List.mapM_cons, List.mapM_cons]
    exact (hfg _ _ hab).bind fun c d hcd => ih.bind fun cs ds hall => .ok (.cons hcd hall)

/-- A loop over a list in another order: which error comes first can differ. -/
theorem alike_mapM_perm (hE : ∀ e, E e e) (htrans : ∀ e e' e'', E e e' → E e' e'' → E e e'')
    {f : α → Except ε γ} (hf : ∀ a a' e e', f a = .error e → f a' = .error e' → E e e')
    {l l' : List α} (h : l.Perm l') : Alike E List.Perm (l.mapM f) (l'.mapM f) := by
  induction h with
  | nil => exact .ok (.refl _)
  | cons a _ ih =>
    rw [List.mapM_cons, List.mapM_cons]
    refine (Alike.refl hE (f a)).bind fun c c' hc => ih.bind fun cs cs' hcs => .ok ?_
    rw [hc]
    exact hcs.cons c'
  | swap a a' l =>
    rw [List.mapM_cons, List.mapM_cons, List.mapM_cons, List.mapM_cons]
    cases ha : f a with
    | error e =>
      cases ha' : f a' with
      | error e' => exact .error (hf a' a e' e ha' ha)
      | ok c' => exact .error (hE e)
    | ok c =>
      cases ha' : f a' with
      | error e' => exact .error (hE e')
      | ok c' =>
        cases l.mapM f with
        | error e => exact .error (hE e)
        | ok cs => exact .ok (.swap c c' cs)
  | trans _ _ ih ih' =>
    refine (ih.trans htrans ih').mono ?_
    rintro cs cs'' ⟨cs', h, h'⟩
    exact h.trans h'

/-- **A loop over rearranged lists ends alike.** -/
theorem Rearranged.mapM (hE : ∀ e, E e e)
    (htrans : ∀ e e' e'', E e e' → E e' e'' → E e e'') {f : α → Except ε γ}
    {g : β → Except ε δ} (hf : ∀ a a' e e', f a = .error e → f a' = .error e' → E e e')
    {l : List α} {l' : List β} (h : Rearranged R l l')
    (hfg : ∀ a b, R a b → Alike E S (f a) (g b)) :
    Alike E (Rearranged S) (l.mapM f) (l'.mapM g) := by
  obtain ⟨m, hperm, hall⟩ := rearranged_iff.mp h
  refine ((alike_mapM_perm hE htrans hf hperm).trans htrans (alike_mapM_forall₂ hall hfg)).mono ?_
  rintro cs ds ⟨ms, hcs, hds⟩
  exact rearranged_iff.mpr ⟨ms, hcs, hds⟩

end

end Reordering
