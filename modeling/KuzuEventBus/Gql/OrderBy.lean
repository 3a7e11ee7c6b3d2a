import KuzuEventBus.Gql.ExistsDepth
import KuzuEventBus.Lib.Comparators

/-!
# The comparison of ORDER BY

The comparison function `OrderBy` gives to `sort_by`, `compareTuples`.  A key compares
two integers or two strings; a missing value, and a value of another type than the one
it is compared with, is equal to everything, and the next key decides.  `sort_by` asks
for a total preorder, which the comparison is not where such keys differ.

## Main definitions

* `SortKey`, `sortKey` — what the comparison looks at of a value.
* `itemKey`, `itemKeys` — the items of ORDER BY as keys.
* `SortByRequires` — what `sort_by` asks of the comparison on some tuples.

## Main results

* `compareTuples_eq_lexCmp` — the comparison of the source is the one by these keys.
* `compareTuples_preorder_iff` — **three tuples are compared as `sort_by` requires exactly
  if their keys return and they are not undecided**.
-/

namespace KuzuEventBus

open Comparators

/-! ### Values as keys -/

/-- What ORDER BY looks at of a value that is no float. -/
inductive SortKey where
  | int (i : ℤ)
  | string (s : String)
  /-- equal to everything -/
  | other

/-- The part of a key value that is compared. -/
def sortKey : Option Value → SortKey
  | some (.int i) => .int i.toInt
  | some (.string s) => .string s
  | _ => .other

namespace SortKey

/-- The comparison of two key values. -/
def cmp : SortKey → SortKey → Ordering
  | .int a, .int b => compare a b
  | .string a, .string b => compare a b
  | _, _ => .eq

/-- Two integers, or two strings. -/
def Comparable : SortKey → SortKey → Prop
  | .int _, .int _ | .string _, .string _ => True
  | _, _ => False

theorem Comparable.symm {a b : SortKey} (h : a.Comparable b) : b.Comparable a := by
  cases a <;> cases b <;> exact h

theorem Comparable.trans {a b c : SortKey} (hab : a.Comparable b) (hbc : b.Comparable c) :
    a.Comparable c := by
  cases a <;> cases b <;> cases c <;> first | exact hab.elim | exact hbc.elim | trivial

theorem cmp_eq_of_not {a b : SortKey} (h : ¬ a.Comparable b) : a.cmp b = .eq := by
  cases a <;> cases b <;> first | rfl | exact absurd trivial h

theorem cmp_swap : ∀ a b : SortKey, b.cmp a = (a.cmp b).swap
  | .int a, .int b => (Std.OrientedOrd.eq_swap : compare b a = (compare a b).swap)
  | .string a, .string b => (Std.OrientedOrd.eq_swap : compare b a = (compare a b).swap)
  | .int _, .string _ | .int _, .other | .string _, .int _ | .string _, .other => rfl
  | .other, .int _ | .other, .string _ | .other, .other => rfl

theorem cmp_isLE_trans {a b c : SortKey} (hab : a.Comparable b) (hbc : b.Comparable c)
    (h : (a.cmp b).isLE) (h' : (b.cmp c).isLE) : (a.cmp c).isLE := by
  cases a <;> cases b <;> cases c <;>
    first | exact hab.elim | exact hbc.elim |
      exact Std.TransOrd.isLE_trans (show (compare _ _).isLE from h) h'

end SortKey

/-- The values compared are no floats, or one of them is missing. -/
theorem compareValues_eq_cmp {v w : Option Value} (hv : ∀ f, v ≠ some (.float f)) :
    compareValues v w = (sortKey v).cmp (sortKey w) := by
  unfold compareValues
  split
  · rfl
  · next f g => exact absurd rfl (hv f)
  · rfl
  · next h₁ h₂ h₃ =>
    cases v with
    | none => rfl
    | some v =>
      cases w with
      | none => cases v <;> rfl
      | some w =>
        -- two values of one sortable type have been dealt with
        cases v <;> cases w <;>
          first | rfl | exact absurd rfl (hv _) | exact (h₁ _ _ rfl rfl).elim |
            exact (h₃ _ _ rfl rfl).elim

/-! ### The items as keys -/

/-- An ordering, the other way round for DESC. -/
def directed (descending : Bool) (o : Ordering) : Ordering := if descending then o.swap else o

theorem directed_swap (descending : Bool) (o : Ordering) :
    directed descending o.swap = (directed descending o).swap := by
  cases descending <;> rfl

/-- The key that looks at one value of an element. -/
def valueKey {α : Type*} (value : α → Option Value) (descending : Bool) : Key α where
  cmp a b := directed descending ((sortKey (value a)).cmp (sortKey (value b)))
  Comparable a b := (sortKey (value a)).Comparable (sortKey (value b))
  symm h := h.symm
  trans h h' := h.trans h'
  eq_of_not h := by
    rw [SortKey.cmp_eq_of_not h]
    cases descending <;> rfl
  swap a b := by rw [SortKey.cmp_swap (sortKey (value a)), directed_swap]
  isLE_trans {a b c} hab hbc h h' := by
    cases descending with
    | false => exact SortKey.cmp_isLE_trans hab hbc h h'
    | true =>
      -- the other way round, from `c` to `a`
      simp only [directed, if_true] at h h' ⊢
      rw [← SortKey.cmp_swap] at h h' ⊢
      exact SortKey.cmp_isLE_trans hbc.symm hab.symm h' h

/-- An item of ORDER BY as a key. -/
def itemKey (ev : Eval) (item : OrderByItem) : Key Tuple :=
  valueKey (fun t => (ev item.expr t).toOption) item.descending

/-- The items of ORDER BY as keys. -/
def itemKeys (ev : Eval) (items : List OrderByItem) : List (Key Tuple) := items.map (itemKey ev)

@[simp] theorem itemKeys_nil (ev : Eval) : itemKeys ev [] = [] := rfl

@[simp] theorem itemKeys_cons (ev : Eval) (item : OrderByItem) (items : List OrderByItem) :
    itemKeys ev (item :: items) = itemKey ev item :: itemKeys ev items := rfl

/-! ### The comparison of the source -/

/-- No key of the tuple panics. -/
def KeysReturn (ev : Eval) (items : List OrderByItem) (t : Tuple) : Prop :=
  ∀ item ∈ items, NoPanic (ev item.expr t)

/-- No key of the tuple is a float. -/
def NoFloatKeys (ev : Eval) (items : List OrderByItem) (t : Tuple) : Prop :=
  ∀ item ∈ items, ∀ f, ev item.expr t ≠ .ok (.float f)

theorem toOption_ne_some_float {x : Except Fault Value} (h : ∀ f, x ≠ .ok (.float f)) (f : Float) :
    x.toOption ≠ some (.float f) := by
  cases x with
  | ok v =>
    intro hv
    exact h f (congrArg Except.ok (Option.some.inj hv))
  | error e => nofun

variable {ev : Eval} {items : List OrderByItem} {t u : Tuple}

theorem compareTuples_cons {item : OrderByItem} (ht : NoPanic (ev item.expr t))
    (hu : NoPanic (ev item.expr u)) (hf : ∀ f, ev item.expr t ≠ .ok (.float f)) :
    compareTuples ev t u (item :: items) =
      if (itemKey ev item).cmp t u ≠ .eq then .ok ((itemKey ev item).cmp t u)
      else compareTuples ev t u items := by
  rw [compareTuples, okOrNone_of_noPanic ht, okOrNone_of_noPanic hu]
  change (if compareValues _ _ ≠ .eq then _ else _) = _
  rw [compareValues_eq_cmp (toOption_ne_some_float hf)]
  change _ = if directed item.descending _ ≠ .eq then Except.ok (directed item.descending _) else _
  cases item.descending <;> cases SortKey.cmp _ _ <;> rfl

/-- **The comparison of ORDER BY is the one by its items as keys.** -/
theorem compareTuples_eq_lexCmp (ht : KeysReturn ev items t) (hu : KeysReturn ev items u)
    (hf : NoFloatKeys ev items t) :
    compareTuples ev t u items = .ok (lexCmp (itemKeys ev items) t u) := by
  induction items with
  | nil => rfl
  | cons item items ih =>
    rw [KeysReturn, List.forall_mem_cons] at ht hu
    rw [NoFloatKeys, List.forall_mem_cons] at hf
    rw [compareTuples_cons ht.1 hu.1 hf.1, ih ht.2 hu.2 hf.2, itemKeys_cons, lexCmp]
    cases (itemKey ev item).cmp t u <;> rfl

/-- A tuple is compared with itself by every key, so its keys return. -/
theorem keysReturn_of_compare_self (hf : NoFloatKeys ev items t)
    (h : compareTuples ev t t items = .ok .eq) : KeysReturn ev items t := by
  induction items with
  | nil => simp [KeysReturn]
  | cons item items ih =>
    have hitem : NoPanic (ev item.expr t) := by
      rw [compareTuples] at h
      obtain ⟨v, hv, -⟩ := bind_eq_ok h
      exact (okOrNone_eq_ok hv).1
    rw [NoFloatKeys, List.forall_mem_cons] at hf
    have hself : (itemKey ev item).cmp t t = .eq := by
      have := lexCmp_self [itemKey ev item] t
      rwa [lexCmp, lexCmp, Ordering.then_eq] at this
    rw [compareTuples_cons hitem hitem hf.1, hself, if_neg (by simp)] at h
    rw [KeysReturn, List.forall_mem_cons]
    exact ⟨hitem, ih hf.2 h⟩

/-! ### The sort of the source -/

/-- The sort of the source is the insertion sort of the library. -/
theorem sortTuples_eq_sortE (ev : Eval) (items : List OrderByItem) (ts : List Tuple) :
    sortTuples ev items ts = sortE (fun t u => compareTuples ev t u items) ts := by
  have hinsert : ∀ (t : Tuple) (us : List Tuple),
      insertTuple ev items t us = insertE (fun t u => compareTuples ev t u items) t us := by
    intro t us
    induction us with
    | nil => rfl
    | cons u us ih => rw [insertTuple, insertE, ih]
  induction ts with
  | nil => rfl
  | cons t ts ih =>
    rw [sortTuples, sortE, ih]
    simp only [hinsert]

/-- Elements in the order in which OrderBy puts their rows. -/
def sortByRow {α : Type} (ev : Eval) (items : List OrderByItem) (row : α → Tuple) (as : List α) :
    Except Fault (List α) :=
  sortE (fun a b => compareTuples ev (row a) (row b) items) as

theorem sortTuples_map {α : Type} (row : α → Tuple) (as : List α) :
    sortTuples ev items (as.map row) = (sortByRow ev items row as).map (List.map row) := by
  rw [sortTuples_eq_sortE, sortE_map]
  rfl

/-! ### What `sort_by` requires -/

/-- The comparison is reflexive, antisymmetric in its result and transitive on some tuples. -/
structure SortByRequires (ev : Eval) (items : List OrderByItem) (s : Set Tuple) : Prop where
  refl : ∀ t ∈ s, compareTuples ev t t items = .ok .eq
  swap : ∀ t ∈ s, ∀ u ∈ s, compareTuples ev u t items =
    (compareTuples ev t u items).map Ordering.swap
  trans : ∀ t ∈ s, ∀ u ∈ s, ∀ v ∈ s, ∀ o, compareTuples ev t u items = .ok o →
    compareTuples ev u v items = .ok o → compareTuples ev t v items = .ok o

theorem sortByRequires_iff_preorderOn {s : Set Tuple} (hret : ∀ t ∈ s, KeysReturn ev items t)
    (hf : ∀ t ∈ s, NoFloatKeys ev items t) :
    SortByRequires ev items s ↔ PreorderOn (lexCmp (itemKeys ev items)) s := by
  have hcmp : ∀ t ∈ s, ∀ u ∈ s, compareTuples ev t u items =
      .ok (lexCmp (itemKeys ev items) t u) :=
    fun t ht u hu => compareTuples_eq_lexCmp (hret t ht) (hret u hu) (hf t ht)
  constructor
  · intro h
    refine ⟨fun t _ => lexCmp_self _ t, fun t _ u _ => lexCmp_swap _ t u, ?_⟩
    intro t ht u hu v hv o htu huv
    have := h.trans t ht u hu v hv o (by rw [hcmp t ht u hu, htu]) (by rw [hcmp u hu v hv, huv])
    rw [hcmp t ht v hv] at this
    exact Except.ok.inj this
  · intro h
    refine ⟨?_, ?_, ?_⟩
    · intro t ht
      rw [hcmp t ht t ht, lexCmp_self]
    · intro t ht u hu
      rw [hcmp t ht u hu, hcmp u hu t ht, lexCmp_swap _ t u]
      rfl
    · intro t ht u hu v hv o htu huv
      rw [hcmp t ht u hu] at htu
      rw [hcmp u hu v hv] at huv
      rw [hcmp t ht v hv, h.trans t ht u hu v hv o (Except.ok.inj htu) (Except.ok.inj huv)]

/-- **Three tuples are compared as `sort_by` requires exactly if none of their keys panics and
they are not undecided**: where the first key that tells two of them apart cannot be compared
with the third, the later keys put the third one between the two. -/
theorem compareTuples_preorder_iff {a b c : Tuple}
    (hf : ∀ t ∈ ({a, b, c} : Set Tuple), NoFloatKeys ev items t) :
    SortByRequires ev items {a, b, c} ↔
      (∀ t ∈ ({a, b, c} : Set Tuple), KeysReturn ev items t) ∧
        ∀ x ∈ ({a, b, c} : Set Tuple), ∀ y ∈ ({a, b, c} : Set Tuple),
          ∀ z ∈ ({a, b, c} : Set Tuple), ¬ Undecided (itemKeys ev items) x y z := by
  constructor
  · intro h
    have hret : ∀ t ∈ ({a, b, c} : Set Tuple), KeysReturn ev items t :=
      fun t ht => keysReturn_of_compare_self (hf t ht) (h.refl t ht)
    exact ⟨hret, preorderOn_lexCmp_iff.1 ((sortByRequires_iff_preorderOn hret hf).1 h)⟩
  · intro h
    exact (sortByRequires_iff_preorderOn h.1 hf).2 (preorderOn_lexCmp_iff.2 h.2)

/-- `ORDER BY n.age`. -/
def byAge : List OrderByItem := [⟨.property "n" "age", false⟩]

/-- The tuple of a node with a value for its age. -/
def aged (v : Value) : Tuple := (∅ : Tuple).insert "n.age" v

theorem eval_aged (v : Value) :
    Executor.eval .newNoRead (.property "n" "age") (aged v) = .ok v := by
  have hlookup : (aged v).lookup (propKey "n" "age") = some v := AList.lookup_insert _
  rw [Executor.eval, evalExpr, evalExprWith, hlookup]

theorem noFloatKeys_aged {v : Value} (hv : ∀ f, v ≠ .float f) :
    NoFloatKeys (Executor.eval .newNoRead) byAge (aged v) := by
  intro item hitem f hf
  obtain rfl := List.mem_singleton.1 hitem
  rw [eval_aged] at hf
  exact hv f (Except.ok.inj hf)

theorem compareTuples_aged (v w : Value) :
    compareTuples (Executor.eval .newNoRead) (aged v) (aged w) byAge =
      .ok (compareValues (some v) (some w)) := by
  rw [byAge, compareTuples, eval_aged, eval_aged, compareTuples]
  change (if compareValues (some v) (some w) ≠ .eq then _ else _) = _
  cases compareValues (some v) (some w) <;> rfl

/-- Three ages are compared as `sort_by` requires. -/
theorem compareTuples_three_ages :
    SortByRequires (Executor.eval .newNoRead) byAge
      {aged (.int 30), aged (.int 20), aged (.int 25)} := by
  have hage : ∀ t ∈ ({aged (.int 30), aged (.int 20), aged (.int 25)} : Set Tuple),
      ∃ i, t = aged (.int i) := by
    intro t ht
    rcases ht with rfl | rfl | rfl <;> exact ⟨_, rfl⟩
  refine (compareTuples_preorder_iff ?_).2 ⟨?_, ?_⟩
  · intro t ht
    obtain ⟨i, rfl⟩ := hage t ht
    exact noFloatKeys_aged nofun
  · intro t ht item hitem msg hpanic
    obtain ⟨i, rfl⟩ := hage t ht
    obtain rfl := List.mem_singleton.1 hitem
    rw [eval_aged] at hpanic
    cases hpanic
  · intro x hx y _ z hz h
    obtain ⟨before, key, after, heq, -, -, hnot, -⟩ := h
    obtain ⟨i, rfl⟩ := hage x hx
    obtain ⟨j, rfl⟩ := hage z hz
    -- the one key compares any two integers
    have hkey : key ∈ itemKeys (Executor.eval .newNoRead) byAge := by
      rw [heq]
      exact List.mem_append_right before List.mem_cons_self
    obtain rfl := List.mem_singleton.1 hkey
    apply hnot
    show (sortKey (Executor.eval .newNoRead (.property "n" "age")
      (aged (.int i))).toOption).Comparable
        (sortKey (Executor.eval .newNoRead (.property "n" "age") (aged (.int j))).toOption)
    rw [eval_aged, eval_aged]
    trivial

/-- An age that is missing is equal to 20 and to 30, which differ. -/
theorem compareTuples_missing_age :
    ¬ SortByRequires (Executor.eval .newNoRead) byAge {aged (.int 20), ∅, aged (.int 30)} := by
  intro h
  have heq := h.trans (aged (.int 20)) (by simp) ∅ (by simp) (aged (.int 30)) (by simp) .eq rfl rfl
  rw [compareTuples_aged] at heq
  exact absurd (Except.ok.inj heq) (by decide)

end KuzuEventBus
