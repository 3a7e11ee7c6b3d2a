import Mathlib.Data.List.Perm.Subperm
import Mathlib.Data.Set.Basic
import Mathlib.Tactic.TypeStar

/-!
# Comparison functions

Sorting by several keys, where a key can compare some of the elements only: what
it cannot compare it calls equal.  A comparison put together from such keys need
not be transitive, and this file says exactly when it is.  It also holds a stable
insertion sort whose comparisons can fail.

## Main definitions

* `Key` — a comparison by one key, with the elements it can compare.
* `lexCmp`, `Precedes` — the comparison by several keys, and what it puts in front.
* `PreorderOn` — a comparison is a total preorder on a set of elements.
* `Undecided` — the first key that tells two of three elements apart cannot compare
  the third one, and the later keys put that one behind the second and in front of the first.
* `insertE`, `sortE` — insertion sort.

## Main results

* `preorderOn_lexCmp_iff` — **the comparison is a total preorder exactly where no three
  elements are undecided**.
* `sortE_perm`, `sortE_map` — what sorting keeps.
* `forall_perm_sortE_iff` — **sorting puts a list in a given order, whatever order it comes
  in, exactly when the comparison respects that order on each pair**.
-/

namespace Comparators

/-! ### Keys -/

/-- A comparison by one key: elements it cannot compare are equal to it, and among those
it can compare it is a total preorder. -/
structure Key (α : Type*) where
  cmp : α → α → Ordering
  Comparable : α → α → Prop
  symm : ∀ {a b}, Comparable a b → Comparable b a
  trans : ∀ {a b c}, Comparable a b → Comparable b c → Comparable a c
  eq_of_not : ∀ {a b}, ¬ Comparable a b → cmp a b = .eq
  swap : ∀ a b, cmp b a = (cmp a b).swap
  isLE_trans : ∀ {a b c}, Comparable a b → Comparable b c →
    (cmp a b).isLE → (cmp b c).isLE → (cmp a c).isLE

variable {α : Type*}

/-- What a key tells apart it can compare. -/
theorem Key.comparable_of_ne (k : Key α) {a b : α} (h : k.cmp a b ≠ .eq) : k.Comparable a b := by
  by_contra hnot
  exact h (k.eq_of_not hnot)

theorem isLE_iff_swap {o : Ordering} : o.isLE ↔ o.swap ≠ .lt := by
  cases o <;> simp

theorem not_isLE_iff_swap {o : Ordering} : ¬ o.isLE ↔ o.swap = .lt := by
  cases o <;> simp

/-- If the first of three elements is in front of the second, which is not behind the third,
the third is not in front of the first, as far as the key can compare them. -/
theorem Key.not_isLE (k : Key α) {a b c : α} (hab : k.cmp a b = .lt) (hac : k.Comparable a c)
    (hbc : (k.cmp b c).isLE) : ¬ (k.cmp c a).isLE := by
  intro hca
  have hba : k.Comparable b a := k.symm (k.comparable_of_ne (by simp [hab]))
  have hle := k.isLE_trans (k.trans hba hac) (k.symm hac) hbc hca
  rw [k.swap a b, hab] at hle
  simp at hle

/-! ### Several keys -/

/-- Compare by the first key that tells the two elements apart. -/
def lexCmp : List (Key α) → α → α → Ordering
  | [], _, _ => .eq
  | k :: ks, a, b => (k.cmp a b).then (lexCmp ks a b)

variable {keys : List (Key α)} {a b c : α}

theorem lexCmp_swap (keys : List (Key α)) (a b : α) :
    lexCmp keys b a = (lexCmp keys a b).swap := by
  induction keys with
  | nil => rfl
  | cons k ks ih => rw [lexCmp, lexCmp, Ordering.swap_then, ← k.swap, ih]

theorem lexCmp_self (keys : List (Key α)) (a : α) : lexCmp keys a a = .eq := by
  have h := lexCmp_swap keys a a
  cases hc : lexCmp keys a a <;> simp [hc] at h
  rfl

/-- Keys that do not tell two elements apart leave them to the keys that follow. -/
theorem lexCmp_append_of_eq {before after : List (Key α)} (h : ∀ k ∈ before, k.cmp a b = .eq) :
    lexCmp (before ++ after) a b = lexCmp after a b := by
  induction before with
  | nil => rfl
  | cons k ks ih =>
    rw [List.cons_append, lexCmp, h k List.mem_cons_self, Ordering.eq_then]
    exact ih fun k' hk' => h k' (List.mem_cons_of_mem _ hk')

/-- The first key that tells the two elements apart puts the first one in front. -/
def Precedes (keys : List (Key α)) (a b : α) : Prop :=
  ∃ before key after, keys = before ++ key :: after ∧ (∀ k ∈ before, k.cmp a b = .eq) ∧
    key.cmp a b = .lt

theorem precedes_cons {k : Key α} {ks : List (Key α)} :
    Precedes (k :: ks) a b ↔ k.cmp a b = .lt ∨ k.cmp a b = .eq ∧ Precedes ks a b := by
  constructor
  · rintro ⟨before, key, after, heq, hties, hlt⟩
    cases before with
    | nil =>
      obtain ⟨rfl, rfl⟩ := List.cons.inj heq
      exact .inl hlt
    | cons k' before =>
      obtain ⟨rfl, rfl⟩ := List.cons.inj heq
      rw [List.forall_mem_cons] at hties
      exact .inr ⟨hties.1, before, key, after, rfl, hties.2, hlt⟩
  · rintro (hlt | ⟨heq, before, key, after, rfl, hties, hlt⟩)
    · exact ⟨[], k, ks, rfl, by simp, hlt⟩
    · exact ⟨k :: before, key, after, rfl, List.forall_mem_cons.2 ⟨heq, hties⟩, hlt⟩

theorem lexCmp_eq_lt_iff : lexCmp keys a b = .lt ↔ Precedes keys a b := by
  induction keys with
  | nil => simp [lexCmp, Precedes]
  | cons k ks ih =>
    rw [precedes_cons, ← ih, lexCmp]
    cases k.cmp a b <;> simp

theorem isLE_lexCmp_iff : (lexCmp keys a b).isLE ↔ ¬ Precedes keys b a := by
  rw [← lexCmp_eq_lt_iff, lexCmp_swap keys a b, isLE_iff_swap]

/-! ### Total preorders -/

/-- A comparison is reflexive, antisymmetric in its result and transitive on a set. -/
structure PreorderOn (cmp : α → α → Ordering) (s : Set α) : Prop where
  refl : ∀ a ∈ s, cmp a a = .eq
  swap : ∀ a ∈ s, ∀ b ∈ s, cmp b a = (cmp a b).swap
  trans : ∀ a ∈ s, ∀ b ∈ s, ∀ c ∈ s, ∀ o, cmp a b = o → cmp b c = o → cmp a c = o

/-- Being transitive in each result is being transitive in "not greater". -/
theorem preorderOn_iff_isLE {cmp : α → α → Ordering} {s : Set α}
    (hswap : ∀ a b, cmp b a = (cmp a b).swap) :
    PreorderOn cmp s ↔ ∀ a ∈ s, ∀ b ∈ s, ∀ c ∈ s,
      (cmp a b).isLE → (cmp b c).isLE → (cmp a c).isLE := by
  constructor
  · rintro ⟨-, -, htrans⟩ a ha b hb c hc hab hbc
    -- otherwise `c` is in front of `a`, and one of the three results is transitive around
    by_contra hac
    have hca : cmp c a = .lt := by
      rw [hswap a c]
      exact not_isLE_iff_swap.1 hac
    cases h₁ : cmp a b with
    | gt => simp [h₁] at hab
    | lt =>
      have hcb := htrans c hc a ha b hb .lt hca h₁
      rw [hswap b c] at hcb
      exact not_isLE_iff_swap.2 hcb hbc
    | eq =>
      cases h₂ : cmp b c with
      | gt => simp [h₂] at hbc
      | lt =>
        have hba := htrans b hb c hc a ha .lt h₂ hca
        rw [hswap a b, h₁] at hba
        simp at hba
      | eq =>
        have := htrans a ha b hb c hc .eq h₁ h₂
        simp [this] at hac
  · intro hle
    refine ⟨?_, fun a _ b _ => hswap a b, ?_⟩
    · intro a _
      have h := hswap a a
      cases hc : cmp a a <;> simp [hc] at h
      rfl
    · intro a ha b hb c hc o hab hbc
      have hac := hle a ha b hb c hc
      have hca := hle c hc b hb a ha
      have hba := hle b hb c hc a ha
      have hab' := hle a ha c hc b hb
      rw [hab, hbc] at hac
      rw [hswap b c, hswap a b, hswap a c, hab, hbc] at hca
      rw [hswap a b, hswap a c, hab, hbc] at hba
      rw [hswap b c, hab, hbc] at hab'
      clear hle hswap
      cases o <;> cases h : cmp a c <;> simp_all

/-! ### When several keys give a total preorder -/

/-- The first key that tells two of the three elements apart cannot compare the third one with
them, and the keys that follow do not put the third one between them. -/
def Undecided (keys : List (Key α)) (x y z : α) : Prop :=
  ∃ before key after, keys = before ++ key :: after ∧
    (∀ k ∈ before, k.cmp x y = .eq ∧ k.cmp y z = .eq ∧ k.cmp z x = .eq) ∧
    key.cmp x y = .lt ∧ ¬ key.Comparable x z ∧ ¬ Precedes after z y ∧ ¬ Precedes after x z

theorem Undecided.cons {k : Key α} {x y z : α}
    (hk : k.cmp x y = .eq ∧ k.cmp y z = .eq ∧ k.cmp z x = .eq) (h : Undecided keys x y z) :
    Undecided (k :: keys) x y z := by
  obtain ⟨before, key, after, rfl, hties, hrest⟩ := h
  exact ⟨k :: before, key, after, rfl, List.forall_mem_cons.2 ⟨hk, hties⟩, hrest⟩

/-- Three undecided elements go round in a circle. -/
theorem Undecided.circle {x y z : α} (h : Undecided keys x y z) :
    lexCmp keys x y = .lt ∧ (lexCmp keys y z).isLE ∧ (lexCmp keys z x).isLE := by
  obtain ⟨before, key, after, rfl, hties, hlt, hnot, hzy, hxz⟩ := h
  have hxy : key.Comparable x y := key.comparable_of_ne (by simp [hlt])
  have hyz : key.cmp y z = .eq := key.eq_of_not fun h => hnot (key.trans hxy h)
  have hzx : key.cmp z x = .eq := key.eq_of_not fun h => hnot (key.symm h)
  refine ⟨?_, ?_, ?_⟩
  · rw [lexCmp_append_of_eq fun k hk => (hties k hk).1, lexCmp, hlt, Ordering.lt_then]
  · rw [lexCmp_append_of_eq fun k hk => (hties k hk).2.1, lexCmp, hyz, Ordering.eq_then,
      isLE_lexCmp_iff]
    exact hzy
  · rw [lexCmp_append_of_eq fun k hk => (hties k hk).2.2, lexCmp, hzx, Ordering.eq_then,
      isLE_lexCmp_iff]
    exact hxz

/-- A key that puts the first of the three elements in front of the second, and nothing else,
leaves them undecided if they go round in a circle. -/
theorem undecided_of_lt {k : Key α} {ks : List (Key α)} {x y z : α} (hxy : k.cmp x y = .lt)
    (hyz : (lexCmp (k :: ks) y z).isLE) (hzx : (lexCmp (k :: ks) z x).isLE) :
    Undecided (k :: ks) x y z := by
  have hyz' : (k.cmp y z).isLE := by
    rw [lexCmp] at hyz
    cases h : k.cmp y z <;> simp_all
  have hzx' : (k.cmp z x).isLE := by
    rw [lexCmp] at hzx
    cases h : k.cmp z x <;> simp_all
  have hnot : ¬ k.Comparable x z := fun h => k.not_isLE hxy h hyz' hzx'
  have hxy' : k.Comparable x y := k.comparable_of_ne (by simp [hxy])
  rw [lexCmp, k.eq_of_not fun h => hnot (k.trans hxy' h), Ordering.eq_then,
    isLE_lexCmp_iff] at hyz
  rw [lexCmp, k.eq_of_not fun h => hnot (k.symm h), Ordering.eq_then, isLE_lexCmp_iff] at hzx
  exact ⟨[], k, ks, rfl, by simp, hxy, hnot, hyz, hzx⟩

/-- Three elements that go round in a circle are undecided, from one of them on. -/
theorem undecided_of_circle {x y z : α} (hxy : lexCmp keys x y = .lt)
    (hyz : (lexCmp keys y z).isLE) (hzx : (lexCmp keys z x).isLE) :
    Undecided keys x y z ∨ Undecided keys y z x ∨ Undecided keys z x y := by
  induction keys with
  | nil => simp [lexCmp] at hxy
  | cons k ks ih =>
    have hle : (lexCmp (k :: ks) x y).isLE := by simp [hxy]
    -- the first key that tells any two of the three apart decides from where they are read
    cases h₁ : k.cmp x y with
    | lt => exact .inl (undecided_of_lt h₁ hyz hzx)
    | gt => simp [lexCmp, h₁] at hxy
    | eq =>
      cases h₂ : k.cmp y z with
      | lt => exact .inr (.inl (undecided_of_lt h₂ hzx hle))
      | gt => simp [lexCmp, h₂] at hyz
      | eq =>
        cases h₃ : k.cmp z x with
        | lt => exact .inr (.inr (undecided_of_lt h₃ hle hyz))
        | gt => simp [lexCmp, h₃] at hzx
        | eq =>
          rw [lexCmp, h₁, Ordering.eq_then] at hxy
          rw [lexCmp, h₂, Ordering.eq_then] at hyz
          rw [lexCmp, h₃, Ordering.eq_then] at hzx
          refine (ih hxy hyz hzx).imp ?_ (Or.imp ?_ ?_)
          · exact Undecided.cons ⟨h₁, h₂, h₃⟩
          · exact Undecided.cons ⟨h₂, h₃, h₁⟩
          · exact Undecided.cons ⟨h₃, h₁, h₂⟩

/-- **The comparison by several keys is a total preorder on a set exactly if no three of its
elements are undecided.** -/
theorem preorderOn_lexCmp_iff {s : Set α} :
    PreorderOn (lexCmp keys) s ↔ ∀ x ∈ s, ∀ y ∈ s, ∀ z ∈ s, ¬ Undecided keys x y z := by
  rw [preorderOn_iff_isLE (lexCmp_swap keys)]
  constructor
  · intro htrans x hx y hy z hz h
    obtain ⟨hxy, hyz, hzx⟩ := h.circle
    have hyx := htrans y hy z hz x hx hyz hzx
    rw [lexCmp_swap keys x y, hxy] at hyx
    simp at hyx
  · intro hdecided a ha b hb c hc hab hbc
    by_contra hac
    have hca : lexCmp keys c a = .lt := by
      rw [lexCmp_swap keys a c]
      exact not_isLE_iff_swap.1 hac
    rcases undecided_of_circle hca hab hbc with h | h | h
    · exact hdecided c hc a ha b hb h
    · exact hdecided a ha b hb c hc h
    · exact hdecided b hb c hc a ha h

/-! ### Sorting with comparisons that can fail -/

section Sorting

variable {α β ε : Type} {cmp : α → α → Except ε Ordering} {r : α → α → Prop}

/-- Insert an element in front of the first one that is not smaller. -/
def insertE (cmp : α → α → Except ε Ordering) (a : α) : List α → Except ε (List α)
  | [] => .ok [a]
  | b :: bs => do
    let o ← cmp a b
    if o = .gt then do
      let rest ← insertE cmp a bs
      pure (b :: rest)
    else pure (a :: b :: bs)

/-- Insertion sort, from the end of the list. -/
def sortE (cmp : α → α → Except ε Ordering) : List α → Except ε (List α)
  | [] => .ok []
  | a :: as => do
    let sorted ← sortE cmp as
    insertE cmp a sorted

/-- How an element is inserted in front of a list, or behind its first element. -/
theorem insertE_cons_eq_ok {a b : α} {bs out : List α} (h : insertE cmp a (b :: bs) = .ok out) :
    (∃ rest, cmp a b = .ok .gt ∧ insertE cmp a bs = .ok rest ∧ out = b :: rest) ∨
      ∃ o, cmp a b = .ok o ∧ o ≠ .gt ∧ out = a :: b :: bs := by
  rw [insertE] at h
  cases hc : cmp a b with
  | error e => simp [hc, bind, Except.bind] at h
  | ok o =>
    rw [hc] at h
    by_cases ho : o = .gt
    · cases hrest : insertE cmp a bs with
      | error e => simp [hrest, ho, bind, Except.bind] at h
      | ok rest =>
        simp only [ho, hrest, bind, Except.bind, if_true, pure, Except.pure,
          Except.ok.injEq] at h
        exact .inl ⟨rest, by rw [ho], rfl, h.symm⟩
    · simp only [ho, bind, Except.bind, if_false, pure, Except.pure, Except.ok.injEq] at h
      exact .inr ⟨o, rfl, ho, h.symm⟩

theorem sortE_cons_eq_ok {a : α} {as out : List α} (h : sortE cmp (a :: as) = .ok out) :
    ∃ sorted, sortE cmp as = .ok sorted ∧ insertE cmp a sorted = .ok out := by
  rw [sortE] at h
  cases hs : sortE cmp as with
  | error e => simp [hs, bind, Except.bind] at h
  | ok sorted => exact ⟨sorted, rfl, by rwa [hs] at h⟩

theorem insertE_perm {a : α} {as : List α} : ∀ {out : List α}, insertE cmp a as = .ok out →
    out.Perm (a :: as) := by
  induction as with
  | nil =>
    intro out h
    cases h
    rfl
  | cons b bs ih =>
    intro out h
    rcases insertE_cons_eq_ok h with ⟨rest, -, hrest, rfl⟩ | ⟨o, -, -, rfl⟩
    · exact ((ih hrest).cons b).trans (List.Perm.swap a b bs)
    · rfl

/-- **Sorting permutes.** -/
theorem sortE_perm {as : List α} : ∀ {out : List α}, sortE cmp as = .ok out → out.Perm as := by
  induction as with
  | nil =>
    intro out h
    cases h
    rfl
  | cons a as ih =>
    intro out h
    obtain ⟨sorted, hs, hout⟩ := sortE_cons_eq_ok h
    exact (insertE_perm hout).trans ((ih hs).cons a)

theorem sublist_insertE {a : α} {as : List α} : ∀ {out : List α}, insertE cmp a as = .ok out →
    as.Sublist out := by
  induction as with
  | nil =>
    intro out _
    exact List.nil_sublist out
  | cons b bs ih =>
    intro out h
    rcases insertE_cons_eq_ok h with ⟨rest, -, hrest, rfl⟩ | ⟨o, -, -, rfl⟩
    · exact (ih hrest).cons_cons b
    · exact List.sublist_cons_self a (b :: bs)

/-- What sorting made of the end of a list stays in that order. -/
theorem sortE_append {as bs : List α} : ∀ {out : List α}, sortE cmp (as ++ bs) = .ok out →
    ∃ sorted, sortE cmp bs = .ok sorted ∧ sorted.Sublist out := by
  induction as with
  | nil =>
    intro out h
    exact ⟨out, h, List.Sublist.refl out⟩
  | cons a as ih =>
    intro out h
    obtain ⟨rest, hrest, hout⟩ := sortE_cons_eq_ok h
    obtain ⟨sorted, hs, hsub⟩ := ih hrest
    exact ⟨sorted, hs, hsub.trans (sublist_insertE hout)⟩

/-- Elements are sorted together with what they are compared by. -/
theorem sortE_map {cmp : β → β → Except ε Ordering} (f : α → β) (as : List α) :
    sortE cmp (as.map f) = (sortE (fun a b => cmp (f a) (f b)) as).map (List.map f) := by
  have hinsert : ∀ (a : α) (bs : List α), insertE cmp (f a) (bs.map f) =
      (insertE (fun a b => cmp (f a) (f b)) a bs).map (List.map f) := by
    intro a bs
    induction bs with
    | nil => rfl
    | cons b bs ih =>
      rw [List.map_cons, insertE, insertE, ih]
      cases cmp (f a) (f b) with
      | error e => rfl
      | ok o =>
        by_cases ho : o = .gt
        · cases insertE (fun a b => cmp (f a) (f b)) a bs <;>
            simp [ho, bind, Except.bind, pure, Except.pure, Except.map]
        · simp [ho, bind, Except.bind, pure, Except.pure, Except.map]
  induction as with
  | nil => rfl
  | cons a as ih =>
    rw [List.map_cons, sortE, sortE, ih]
    cases sortE (fun a b => cmp (f a) (f b)) as with
    | error e => rfl
    | ok sorted => exact hinsert a sorted

/-- The comparison of two elements returns, and sorting by it puts them in a given order. -/
def Agrees (cmp : α → α → Except ε Ordering) (r : α → α → Prop) (a b : α) : Prop :=
  ∃ o, cmp a b = .ok o ∧ (o = .gt → r b a) ∧ (o ≠ .gt → r a b)

theorem insertE_sorted {a : α} {as : List α}
    (htrans : ∀ b ∈ as, ∀ c ∈ as, r a b → r b c → r a c) (hsorted : as.Pairwise r)
    (h : ∀ b ∈ as, Agrees cmp r a b) :
    ∃ out, insertE cmp a as = .ok out ∧ out.Pairwise r := by
  induction as with
  | nil => exact ⟨[a], rfl, List.pairwise_singleton r a⟩
  | cons b bs ih =>
    rw [List.pairwise_cons] at hsorted
    rw [List.forall_mem_cons] at h
    obtain ⟨o, ho, hgt, hle⟩ := h.1
    have htrans' : ∀ c ∈ bs, ∀ d ∈ bs, r a c → r c d → r a d := fun c hc d hd =>
      htrans c (List.mem_cons_of_mem b hc) d (List.mem_cons_of_mem b hd)
    obtain ⟨out, hout, hpair⟩ := ih htrans' hsorted.2 h.2
    by_cases hcase : o = .gt
    · refine ⟨b :: out, ?_, ?_⟩
      · rw [insertE, ho, hcase, hout]
        rfl
      · rw [List.pairwise_cons]
        refine ⟨?_, hpair⟩
        intro c hc
        rcases List.mem_cons.1 ((insertE_perm hout).mem_iff.1 hc) with rfl | hc
        · exact hgt hcase
        · exact hsorted.1 c hc
    · refine ⟨a :: b :: bs, ?_, ?_⟩
      · rw [insertE, ho]
        exact if_neg hcase
      · -- everything behind `b` is behind `a`, too
        rw [List.pairwise_cons, List.forall_mem_cons, List.pairwise_cons]
        refine ⟨⟨hle hcase, ?_⟩, hsorted⟩
        intro c hc
        exact htrans b List.mem_cons_self c (List.mem_cons_of_mem b hc) (hle hcase)
          (hsorted.1 c hc)

theorem sortE_sorted {as : List α}
    (htrans : ∀ a ∈ as, ∀ b ∈ as, ∀ c ∈ as, r a b → r b c → r a c)
    (h : as.Pairwise (Agrees cmp r)) : ∃ out, sortE cmp as = .ok out ∧ out.Pairwise r := by
  induction as with
  | nil => exact ⟨[], rfl, List.Pairwise.nil⟩
  | cons a as ih =>
    rw [List.pairwise_cons] at h
    have hmem : ∀ b ∈ as, b ∈ a :: as := fun b hb => List.mem_cons_of_mem a hb
    obtain ⟨sorted, hs, hpair⟩ :=
      ih (fun b hb c hc d hd => htrans b (hmem b hb) c (hmem c hc) d (hmem d hd)) h.2
    have hperm := sortE_perm hs
    have hagree : ∀ b ∈ sorted, Agrees cmp r a b :=
      fun b hb => h.1 b (hperm.mem_iff.1 hb)
    have htrans' : ∀ b ∈ sorted, ∀ c ∈ sorted, r a b → r b c → r a c := fun b hb c hc =>
      htrans a List.mem_cons_self b (hmem b (hperm.mem_iff.1 hb)) c (hmem c (hperm.mem_iff.1 hc))
    obtain ⟨out, hout, hsorted⟩ := insertE_sorted htrans' hpair hagree
    exact ⟨out, by rw [sortE, hs]; exact hout, hsorted⟩

/-- Two elements are sorted as they are compared. -/
theorem agrees_of_sortE_pair {a b : α} {out : List α} (h : sortE cmp [a, b] = .ok out)
    (hsorted : out.Pairwise r) : Agrees cmp r a b := by
  obtain ⟨sorted, hs, hout⟩ := sortE_cons_eq_ok h
  cases hs
  rcases insertE_cons_eq_ok hout with ⟨rest, hc, hrest, rfl⟩ | ⟨o, hc, hne, rfl⟩
  · cases hrest
    simp only [List.pairwise_cons, List.mem_singleton, forall_eq] at hsorted
    exact ⟨.gt, hc, fun _ => hsorted.1, fun hne => absurd rfl hne⟩
  · simp only [List.pairwise_cons, List.mem_singleton, forall_eq] at hsorted
    exact ⟨o, hc, fun hgt => absurd hgt hne, fun _ => hsorted.1⟩

/-- **Sorting returns, and puts the elements in a given order whatever order they come in,
exactly if it does so with each two of them.** -/
theorem forall_perm_sortE_iff {as : List α}
    (htrans : ∀ a ∈ as, ∀ b ∈ as, ∀ c ∈ as, r a b → r b c → r a c) :
    (∀ as' : List α, as'.Perm as → ∃ out, sortE cmp as' = .ok out ∧ out.Pairwise r) ↔
      ∀ a b, List.Subperm [a, b] as → Agrees cmp r a b := by
  constructor
  · intro h a b hab
    -- an order in which the two come last
    obtain ⟨pair, hpair, hsub⟩ := hab
    obtain ⟨rest, hrest⟩ := hsub.exists_perm_append
    have hperm : as.Perm (rest ++ [a, b]) :=
      hrest.trans (List.perm_append_comm.trans (hpair.append_left rest))
    obtain ⟨out, hout, hsorted⟩ := h (rest ++ [a, b]) hperm.symm
    obtain ⟨sorted, hs, hsub⟩ := sortE_append hout
    exact agrees_of_sortE_pair hs (hsorted.sublist hsub)
  · intro h as' hperm
    apply sortE_sorted fun a ha b hb c hc =>
      htrans a (hperm.mem_iff.1 ha) b (hperm.mem_iff.1 hb) c (hperm.mem_iff.1 hc)
    rw [List.pairwise_iff_forall_sublist]
    intro a b hsub
    exact h a b (hsub.subperm.trans hperm.subperm)

end Sorting

end Comparators
