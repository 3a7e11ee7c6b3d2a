import Mathlib.Data.List.AList
import Mathlib.Data.List.Forall2
import Mathlib.Data.Multiset.ZeroCons

/-!
# Hash maps

A hash map is an association list without duplicate keys: Mathlib's `AList` at a
constant family.  The order of the entries stands for the iteration order, which
a hash map leaves unspecified; what a map *means* is its lookup function, and
`SameMap` compares maps by it.

## Main definitions

* `HashMap`, `AList.values` — maps, and their values in iteration order.
* `AList.insertAll` — insert a list of bindings, the last one winning.
* `AList.pushTo`, `AList.pushAll` — append to the list stored at a key
  (`entry().or_default().push()`), or at each of several keys.
* `AList.SameMap` — equality of lookups.
* `AList.Related` — lookups related by a relation on the values.

## Main results

* `lookup_insertAll`, `lookup_insertAll_toPairs`, `count_listAt_pushAll` — what the bulk
  operations store.
* `Related.values_rel`, `rel_filterMap_of_perm` — related maps have related values, as
  multisets, and so has every collection computed from them in any order.
-/

/-- A hash map with keys `κ` and values `ν`. -/
abbrev HashMap (κ ν : Type*) := AList fun _ : κ => ν

namespace AList

variable {κ ν ω : Type*}

/-- The values, in iteration order. -/
def values (m : HashMap κ ν) : List ν := m.entries.map Sigma.snd

theorem mem_values {m : HashMap κ ν} {x : ν} : x ∈ m.values ↔ ∃ k, ⟨k, x⟩ ∈ m.entries := by
  simp only [values, List.mem_map]
  constructor
  · rintro ⟨⟨k, y⟩, h, rfl⟩; exact ⟨k, h⟩
  · rintro ⟨k, h⟩; exact ⟨⟨k, x⟩, h, rfl⟩

variable [DecidableEq κ]

theorem mem_entries_iff {m : HashMap κ ν} {k : κ} {x : ν} :
    ⟨k, x⟩ ∈ m.entries ↔ m.lookup k = some x := by
  rw [← Option.mem_def, AList.mem_lookup_iff]

theorem mem_values_iff {m : HashMap κ ν} {x : ν} : x ∈ m.values ↔ ∃ k, m.lookup k = some x := by
  simp only [mem_values, mem_entries_iff]

theorem lookup_insert_eq (m : HashMap κ ν) (k k' : κ) (x : ν) :
    (m.insert k x).lookup k' = if k' = k then some x else m.lookup k' := by
  split
  · next h => rw [h, AList.lookup_insert]
  · next h => exact AList.lookup_insert_ne h

/-! ### Inserting many bindings -/

/-- Insert the bindings of a list in order; a later binding overwrites an earlier one. -/
def insertAll (m : HashMap κ ν) (kvs : List (κ × ν)) : HashMap κ ν :=
  kvs.foldl (fun m kv => m.insert kv.1 kv.2) m

@[simp] theorem insertAll_nil (m : HashMap κ ν) : m.insertAll [] = m := rfl

@[simp] theorem insertAll_cons (m : HashMap κ ν) (kv : κ × ν) (kvs : List (κ × ν)) :
    m.insertAll (kv :: kvs) = (m.insert kv.1 kv.2).insertAll kvs := rfl

/-- A key none of the bindings touches keeps its value. -/
theorem lookup_insertAll_of_notMem {k : κ} : ∀ {kvs : List (κ × ν)} (m : HashMap κ ν),
    (∀ kv ∈ kvs, kv.1 ≠ k) → (m.insertAll kvs).lookup k = m.lookup k := by
  intro kvs
  induction kvs with
  | nil => intro m _; rfl
  | cons kv kvs ih =>
    intro m h
    rw [insertAll_cons, ih _ fun kv' hkv' => h kv' (List.mem_cons_of_mem _ hkv'),
      AList.lookup_insert_ne (h kv List.mem_cons_self).symm]

/-- A key bound once among bindings with distinct keys gets that value. -/
theorem lookup_insertAll_of_mem {k : κ} {x : ν} : ∀ {kvs : List (κ × ν)} (m : HashMap κ ν),
    (kvs.map Prod.fst).Nodup → (k, x) ∈ kvs → (m.insertAll kvs).lookup k = some x := by
  intro kvs
  induction kvs with
  | nil => intro m _ h; simp at h
  | cons kv kvs ih =>
    intro m hnd h
    rw [List.map_cons, List.nodup_cons] at hnd
    rw [insertAll_cons]
    rcases List.mem_cons.mp h with rfl | h
    · rw [lookup_insertAll_of_notMem, AList.lookup_insert]
      intro kv' hkv' heq
      have hmem : kv'.1 ∈ kvs.map Prod.fst := List.mem_map_of_mem hkv'
      rw [heq] at hmem
      exact hnd.1 hmem
    · exact ih _ hnd.2 h

/-- Bindings inserted over a map win over it. -/
theorem lookup_insertAll (kvs : List (κ × ν)) (k : κ) : ∀ m : HashMap κ ν,
    (m.insertAll kvs).lookup k = (((∅ : HashMap κ ν).insertAll kvs).lookup k).or (m.lookup k) := by
  induction kvs with
  | nil => intro m; simp
  | cons kv kvs ih =>
    intro m
    rw [insertAll_cons, insertAll_cons, ih (m.insert kv.1 kv.2), ih ((∅ : HashMap κ ν).insert _ _),
      lookup_insert_eq, lookup_insert_eq, Option.or_assoc]
    split <;> simp

/-- A value found after inserting bindings is one of theirs, or was there before. -/
theorem lookup_insertAll_eq_some {kvs : List (κ × ν)} {k : κ} {x : ν} : ∀ {m : HashMap κ ν},
    (m.insertAll kvs).lookup k = some x → (k, x) ∈ kvs ∨ m.lookup k = some x := by
  induction kvs with
  | nil => intro m h; exact .inr h
  | cons kv kvs ih =>
    intro m h
    rw [insertAll_cons] at h
    rcases ih h with h | h
    · exact .inl (List.mem_cons_of_mem _ h)
    · rw [lookup_insert_eq] at h
      split at h
      · next heq =>
        cases h
        exact .inl (by rw [heq]; exact List.mem_cons_self)
      · exact .inr h

/-- A key is absent after inserting bindings when it was, and none of them binds it. -/
theorem lookup_insertAll_eq_none {kvs : List (κ × ν)} {k : κ} : ∀ {m : HashMap κ ν},
    (m.insertAll kvs).lookup k = none ↔ m.lookup k = none ∧ ∀ kv ∈ kvs, kv.1 ≠ k := by
  induction kvs with
  | nil => simp
  | cons kv kvs ih =>
    intro m
    rw [insertAll_cons, ih, lookup_insert_eq, List.forall_mem_cons]
    by_cases h : k = kv.1
    · simp [h]
    · simp [h, Ne.symm h]

omit [DecidableEq κ] in
/-- Translating the values of bindings and leaving some out repeats no key. -/
theorem nodup_filterMap_keys {kvs : List (κ × ν)} (f : ν → Option ω)
    (h : (kvs.map Prod.fst).Nodup) :
    ((kvs.filterMap fun kv => (f kv.2).map fun x => (kv.1, x)).map Prod.fst).Nodup := by
  refine h.sublist ?_
  clear h
  induction kvs with
  | nil => exact .slnil
  | cons kv kvs ih =>
    cases hf : f kv.2 with
    | none =>
      rw [List.filterMap_cons_none (by rw [hf]; rfl)]
      exact ih.cons _
    | some x =>
      rw [List.filterMap_cons_some (by rw [hf]; rfl)]
      exact ih.cons_cons _

/-- The bindings of a map, as pairs. -/
def toPairs (m : HashMap κ ν) : List (κ × ν) := m.entries.map fun e => (e.1, e.2)

omit [DecidableEq κ] in
theorem toPairs_keys (m : HashMap κ ν) : m.toPairs.map Prod.fst = m.keys := by
  simp [toPairs, AList.keys, List.keys, Function.comp_def]

omit [DecidableEq κ] in
theorem nodup_toPairs_keys (m : HashMap κ ν) : (m.toPairs.map Prod.fst).Nodup := by
  rw [toPairs_keys]; exact m.keys_nodup

theorem mem_toPairs {m : HashMap κ ν} {k : κ} {x : ν} :
    (k, x) ∈ m.toPairs ↔ m.lookup k = some x := by
  rw [← mem_entries_iff, toPairs, List.mem_map]
  constructor
  · rintro ⟨⟨k', x'⟩, h, heq⟩
    simp only [Prod.mk.injEq] at heq
    obtain ⟨rfl, rfl⟩ := heq
    exact h
  · intro h; exact ⟨⟨k, x⟩, h, rfl⟩

/-- Copying the bindings of `m'` over `m`: the bindings of `m'` win. -/
theorem lookup_insertAll_toPairs (m m' : HashMap κ ν) (k : κ) :
    (m.insertAll m'.toPairs).lookup k = (m'.lookup k).or (m.lookup k) := by
  cases h : m'.lookup k with
  | none =>
    rw [Option.none_or]
    apply lookup_insertAll_of_notMem
    rintro ⟨k', x⟩ hkv rfl
    rw [mem_toPairs, h] at hkv
    simp at hkv
  | some x =>
    rw [Option.some_or]
    exact lookup_insertAll_of_mem m m'.nodup_toPairs_keys (mem_toPairs.mpr h)

/-- Copying the bindings of `m'` over `m` under other keys, those that have one. -/
theorem lookup_insertAll_filterMap {κ' : Type*} [DecidableEq κ'] {f : κ → Option κ'}
    (hf : ∀ k₁ k₂ k', f k₁ = some k' → f k₂ = some k' → k₁ = k₂) (m : HashMap κ' ν)
    (m' : HashMap κ ν) {k : κ} {k' : κ'} (hk : f k = some k') :
    (m.insertAll (m'.toPairs.filterMap fun kv => (f kv.1).map fun l => (l, kv.2))).lookup k' =
      (m'.lookup k).or (m.lookup k') := by
  cases h : m'.lookup k with
  | none =>
    rw [Option.none_or]
    apply lookup_insertAll_of_notMem
    rintro kv hkv rfl
    obtain ⟨⟨k₁, x⟩, hmem, hmap⟩ := List.mem_filterMap.mp hkv
    obtain ⟨l, hl, rfl⟩ := Option.map_eq_some_iff.mp hmap
    rw [hf k₁ k l hl hk, mem_toPairs, h] at hmem
    cases hmem
  | some x =>
    rw [Option.some_or]
    refine lookup_insertAll_of_mem m ?_ ?_
    · rw [List.map_filterMap]
      have hkeys : (m'.toPairs.filterMap fun kv => ((f kv.1).map fun l => (l, kv.2)).map Prod.fst) =
          (m'.toPairs.map Prod.fst).filterMap f := by
        rw [List.filterMap_map]
        refine List.filterMap_congr fun kv _ => ?_
        simp [Function.comp_def]
      rw [hkeys]
      exact m'.nodup_toPairs_keys.filterMap fun k₁ k₂ l h₁ h₂ => hf k₁ k₂ l h₁ h₂
    · exact List.mem_filterMap.mpr ⟨(k, x), mem_toPairs.mpr h, by rw [hk]; rfl⟩

/-! ### Lists stored under a key -/

/-- Append `x` to the list stored at `k`, creating it when the key is absent. -/
def pushTo (m : HashMap κ (List ν)) (k : κ) (x : ν) : HashMap κ (List ν) :=
  m.insert k ((m.lookup k).getD [] ++ [x])

/-- The list stored at a key, empty when the key is absent. -/
def listAt (m : HashMap κ (List ν)) (k : κ) : List ν := (m.lookup k).getD []

theorem lookup_pushTo (m : HashMap κ (List ν)) (k k' : κ) (x : ν) :
    (m.pushTo k x).lookup k' = if k' = k then some (m.listAt k ++ [x]) else m.lookup k' := by
  rw [pushTo, lookup_insert_eq]; rfl

@[simp] theorem listAt_empty (k : κ) : (∅ : HashMap κ (List ν)).listAt k = [] := rfl

theorem listAt_insert (m : HashMap κ (List ν)) (k k' : κ) (x : List ν) :
    listAt (m.insert k x) k' = if k' = k then x else m.listAt k' := by
  rw [listAt, lookup_insert_eq]
  split <;> rfl

theorem listAt_pushTo (m : HashMap κ (List ν)) (k k' : κ) (x : ν) :
    (m.pushTo k x).listAt k' = if k' = k then m.listAt k ++ [x] else m.listAt k' := by
  rw [listAt, lookup_pushTo]
  split <;> rfl

/-- Append `x` to the list stored at each key of a list, once for each occurrence. -/
def pushAll (m : HashMap κ (List ν)) (ks : List κ) (x : ν) : HashMap κ (List ν) :=
  ks.foldl (fun m k => m.pushTo k x) m

@[simp] theorem pushAll_nil (m : HashMap κ (List ν)) (x : ν) : m.pushAll [] x = m := rfl

@[simp] theorem pushAll_cons (m : HashMap κ (List ν)) (k : κ) (ks : List κ) (x : ν) :
    m.pushAll (k :: ks) x = (m.pushTo k x).pushAll ks x := rfl

theorem count_listAt_pushTo [DecidableEq ν] (m : HashMap κ (List ν)) (k k' : κ) (x y : ν) :
    ((m.pushTo k x).listAt k').count y =
      (m.listAt k').count y + if k' = k ∧ y = x then 1 else 0 := by
  rw [listAt_pushTo]
  by_cases hk : k' = k
  · subst hk
    by_cases hy : y = x
    · simp [hy]
    · simp [hy, Ne.symm hy]
  · simp [hk]

/-- What appending under many keys adds to the lists. -/
theorem count_listAt_pushAll [DecidableEq ν] (ks : List κ) (k' : κ) (x y : ν) :
    ∀ m : HashMap κ (List ν), ((m.pushAll ks x).listAt k').count y =
      (m.listAt k').count y + if y = x then ks.count k' else 0 := by
  induction ks with
  | nil => intro m; simp
  | cons k ks ih =>
    intro m
    rw [pushAll_cons, ih, count_listAt_pushTo, List.count_cons]
    by_cases hy : y = x
    · by_cases hk : k' = k
      · subst hk; simp [hy]; omega
      · simp [hy, hk, Ne.symm hk]
    · simp [hy]

theorem listAt_pushAll (ks : List κ) (k : κ) (x : ν) : ∀ m : HashMap κ (List ν),
    (m.pushAll ks x).listAt k = m.listAt k ++ List.replicate (ks.count k) x := by
  induction ks with
  | nil => intro m; rw [pushAll_nil, List.count_nil, List.replicate_zero, List.append_nil]
  | cons k' ks ih =>
    intro m
    rw [pushAll_cons, ih, listAt_pushTo, List.count_cons]
    by_cases hk : k = k'
    · rw [if_pos hk, ← hk, beq_self_eq_true, if_pos rfl, List.append_assoc, List.singleton_append,
        List.replicate_succ]
    · rw [if_neg hk, beq_false_of_ne (Ne.symm hk), if_neg Bool.false_ne_true, Nat.add_zero]

/-- No key holds the empty list. -/
def NoEmptyList (m : HashMap κ (List ν)) : Prop := ∀ k, m.lookup k ≠ some []

theorem noEmptyList_empty : NoEmptyList (∅ : HashMap κ (List ν)) := by
  intro k; simp

theorem NoEmptyList.pushTo {m : HashMap κ (List ν)} (h : m.NoEmptyList) (k : κ) (x : ν) :
    (m.pushTo k x).NoEmptyList := by
  intro k'
  rw [lookup_pushTo]
  split
  · simp
  · exact h k'

theorem NoEmptyList.pushAll {ks : List κ} {x : ν} : ∀ {m : HashMap κ (List ν)},
    m.NoEmptyList → (m.pushAll ks x).NoEmptyList := by
  induction ks with
  | nil => intro m h; exact h
  | cons k ks ih => intro m h; exact ih (h.pushTo k x)

/-! ### Equality of maps -/

/-- Two maps with the same lookups: equal as maps, whatever their iteration orders. -/
def SameMap (m m' : HashMap κ ν) : Prop := ∀ k, m.lookup k = m'.lookup k

theorem SameMap.refl (m : HashMap κ ν) : SameMap m m := fun _ => rfl

theorem SameMap.symm {m m' : HashMap κ ν} (h : SameMap m m') : SameMap m' m := fun k => (h k).symm

theorem SameMap.trans {m m' m'' : HashMap κ ν} (h : SameMap m m') (h' : SameMap m' m'') :
    SameMap m m'' := fun k => (h k).trans (h' k)

theorem SameMap.toPairs_perm {m m' : HashMap κ ν} (h : SameMap m m') :
    m.toPairs.Perm m'.toPairs := by
  rw [List.perm_ext_iff_of_nodup m.nodup_toPairs_keys.of_map m'.nodup_toPairs_keys.of_map]
  intro kv
  rw [mem_toPairs, mem_toPairs, h]

theorem SameMap.insert {m m' : HashMap κ ν} (h : SameMap m m') (k : κ) (x : ν) :
    SameMap (m.insert k x) (m'.insert k x) := by
  intro k'
  rw [lookup_insert_eq, lookup_insert_eq, h k']

/-- Bindings with distinct keys are inserted in any order. -/
theorem SameMap.insertAll {m m' : HashMap κ ν} (h : SameMap m m') {kvs kvs' : List (κ × ν)}
    (hperm : kvs.Perm kvs') (hnodup : (kvs.map Prod.fst).Nodup) :
    SameMap (m.insertAll kvs) (m'.insertAll kvs') := by
  intro k
  by_cases hk : ∃ x, (k, x) ∈ kvs
  · obtain ⟨x, hx⟩ := hk
    rw [lookup_insertAll_of_mem m hnodup hx,
      lookup_insertAll_of_mem m' ((hperm.map Prod.fst).nodup hnodup) (hperm.mem_iff.mp hx)]
  · have hne : ∀ kv ∈ kvs, kv.1 ≠ k := by
      rintro ⟨k', x⟩ hkv rfl
      exact hk ⟨x, hkv⟩
    rw [lookup_insertAll_of_notMem m hne,
      lookup_insertAll_of_notMem m' fun kv hkv => hne kv (hperm.mem_iff.mpr hkv), h k]

/-- A map all of whose lookups fail has no entries. -/
theorem eq_empty_of_lookup {m : HashMap κ ν} (h : ∀ k, m.lookup k = none) : m = ∅ := by
  apply AList.ext
  rw [AList.empty_entries, List.eq_nil_iff_forall_not_mem]
  rintro ⟨k, x⟩ hmem
  rw [mem_entries_iff, h k] at hmem
  simp at hmem

/-! ### Related maps -/

/-- The two maps have the same keys, and related values under each. -/
def Related (R : ν → ω → Prop) (m : HashMap κ ν) (m' : HashMap κ ω) : Prop :=
  ∀ k, Option.Rel R (m.lookup k) (m'.lookup k)

theorem Related.of_sameMap {R : ν → ν → Prop} (hrefl : ∀ x, R x x) {m m' : HashMap κ ν}
    (h : SameMap m m') : Related R m m' := by
  intro k
  rw [h k]
  cases m'.lookup k with
  | none => exact .none
  | some x => exact .some (hrefl x)

/-- Overwriting a value by a related one. -/
theorem related_insert {R : ν → ν → Prop} (hrefl : ∀ x, R x x) {m : HashMap κ ν} {k : κ} {x y : ν}
    (hx : m.lookup k = some x) (hxy : R x y) : Related R m (m.insert k y) := by
  intro k'
  rw [lookup_insert_eq]
  split
  · next heq => rw [heq, hx]; exact .some hxy
  · cases m.lookup k' with
    | none => exact .none
    | some z => exact .some (hrefl z)

/-- Related values under the same key. -/
theorem Related.insert {R : ν → ω → Prop} {m : HashMap κ ν} {m' : HashMap κ ω}
    (h : Related R m m') (k : κ) {x : ν} {y : ω} (hxy : R x y) :
    Related R (m.insert k x) (m'.insert k y) := by
  intro k'
  rw [lookup_insert_eq, lookup_insert_eq]
  split
  · exact .some hxy
  · exact h k'

theorem Related.lookup_left {R : ν → ω → Prop} {m : HashMap κ ν} {m' : HashMap κ ω}
    (h : Related R m m') {k : κ} {x : ν} (hx : m.lookup k = some x) :
    ∃ y, m'.lookup k = some y ∧ R x y := by
  have hrel := h k
  rw [hx] at hrel
  cases hm' : m'.lookup k with
  | none => rw [hm'] at hrel; cases hrel
  | some y =>
    rw [hm'] at hrel
    cases hrel with
    | some hxy => exact ⟨y, rfl, hxy⟩

theorem Related.lookup_eq_none {R : ν → ω → Prop} {m : HashMap κ ν} {m' : HashMap κ ω}
    (h : Related R m m') {k : κ} (hk : m.lookup k = none) : m'.lookup k = none := by
  have hrel := h k
  rw [hk] at hrel
  cases hm' : m'.lookup k with
  | none => rfl
  | some y => rw [hm'] at hrel; cases hrel

theorem Related.symm {R : ν → ω → Prop} {m : HashMap κ ν} {m' : HashMap κ ω}
    (h : Related R m m') : Related (fun y x => R x y) m' m := by
  intro k
  cases hk : m.lookup k with
  | none => rw [h.lookup_eq_none hk]; exact .none
  | some x =>
    obtain ⟨y, hy, hxy⟩ := h.lookup_left hk
    rw [hy]
    exact .some hxy

theorem Related.lookup_right {R : ν → ω → Prop} {m : HashMap κ ν} {m' : HashMap κ ω}
    (h : Related R m m') {k : κ} {y : ω} (hy : m'.lookup k = some y) :
    ∃ x, m.lookup k = some x ∧ R x y := h.symm.lookup_left hy

theorem Related.trans {υ : Type*} {R : ν → ω → Prop} {R' : ω → υ → Prop} {S : ν → υ → Prop}
    {m : HashMap κ ν} {m' : HashMap κ ω} {m'' : HashMap κ υ} (h : Related R m m')
    (h' : Related R' m' m'') (himp : ∀ x y z, R x y → R' y z → S x z) : Related S m m'' := by
  intro k
  cases hk : m.lookup k with
  | none => rw [h'.lookup_eq_none (h.lookup_eq_none hk)]; exact .none
  | some x =>
    obtain ⟨y, hy, hxy⟩ := h.lookup_left hk
    obtain ⟨z, hz, hyz⟩ := h'.lookup_left hy
    rw [hz]
    exact .some (himp x y z hxy hyz)

theorem Related.mem_iff {R : ν → ω → Prop} {m : HashMap κ ν} {m' : HashMap κ ω}
    (h : Related R m m') {k : κ} : k ∈ m ↔ k ∈ m' := by
  rw [← AList.lookup_isSome, ← AList.lookup_isSome]
  cases hm : m.lookup k with
  | none => rw [h.lookup_eq_none hm]; simp
  | some x =>
    obtain ⟨y, hy, -⟩ := h.lookup_left hm
    rw [hy]; rfl

theorem Related.keys_perm {R : ν → ω → Prop} {m : HashMap κ ν} {m' : HashMap κ ω}
    (h : Related R m m') : m.keys.Perm m'.keys := by
  rw [List.perm_ext_iff_of_nodup m.keys_nodup m'.keys_nodup]
  intro k
  rw [AList.mem_keys.symm, AList.mem_keys.symm, h.mem_iff]

/-- The values are the lookups of the keys. -/
theorem values_eq_filterMap (m : HashMap κ ν) : m.values = m.keys.filterMap m.lookup := by
  have hlookup : ∀ e ∈ m.entries, m.lookup e.1 = some e.2 := by
    intro e he
    exact mem_entries_iff.mp he
  rw [values, AList.keys, List.keys, List.filterMap_map, ← List.filterMap_eq_map]
  apply List.filterMap_congr
  intro e he
  exact (hlookup e he).symm

omit [DecidableEq κ] in
/-- Collections computed by related functions from the same keys, in any two orders, are
related as multisets. -/
theorem rel_filterMap_of_perm {R : ν → ω → Prop} {f : κ → Option ν} {g : κ → Option ω}
    (hfg : ∀ k, Option.Rel R (f k) (g k)) {ks ks' : List κ} (h : ks.Perm ks') :
    Multiset.Rel R (ks.filterMap f) (ks'.filterMap g) := by
  rw [show (ks'.filterMap g : Multiset ω) = ks.filterMap g from
    Multiset.coe_eq_coe.mpr (h.symm.filterMap g)]
  clear h
  induction ks with
  | nil => exact .zero
  | cons k ks ih =>
    have hk := hfg k
    cases hf : f k with
    | none =>
      cases hg : g k with
      | none => rwa [List.filterMap_cons_none hf, List.filterMap_cons_none hg]
      | some y => rw [hf, hg] at hk; cases hk
    | some x =>
      cases hg : g k with
      | none => rw [hf, hg] at hk; cases hk
      | some y =>
        rw [hf, hg] at hk
        rw [List.filterMap_cons_some hf, List.filterMap_cons_some hg]
        cases hk with
        | some hxy => exact .cons hxy ih

/-- Related maps have related values, whatever their iteration orders. -/
theorem Related.values_rel {R : ν → ω → Prop} {m : HashMap κ ν} {m' : HashMap κ ω}
    (h : Related R m m') : Multiset.Rel R m.values m'.values := by
  rw [values_eq_filterMap, values_eq_filterMap]
  exact rel_filterMap_of_perm h h.keys_perm

/-- Values that know their key have distinct keys. -/
theorem nodup_values_key {m : HashMap κ ν} {key : ν → κ}
    (hkey : ∀ k x, m.lookup k = some x → key x = k) : (m.values.map key).Nodup := by
  have hkeys : m.values.map key = m.keys := by
    rw [values, AList.keys, List.keys, List.map_map]
    apply List.map_congr_left
    intro e he
    exact hkey e.1 e.2 (mem_entries_iff.mp he)
  rw [hkeys]
  exact m.keys_nodup

/-- Inserting what `f` makes of the values of a map, each under its key, into the empty map
gives the image of the map. -/
theorem related_insertAll_values {m : HashMap κ ν} {key : ν → κ} {f : ν → ω}
    (hkey : ∀ k x, m.lookup k = some x → key x = k) :
    m.Related (fun x y => y = f x)
      ((∅ : HashMap κ ω).insertAll (m.values.map fun x => (key x, f x))) := by
  intro k
  cases hk : m.lookup k with
  | none =>
    rw [lookup_insertAll_of_notMem]
    · exact .none
    · intro kv hkv heq
      obtain ⟨x, hx, rfl⟩ := List.mem_map.mp hkv
      obtain ⟨k', hk'⟩ := mem_values_iff.mp hx
      have : k' = k := (hkey k' x hk').symm.trans heq
      rw [this, hk] at hk'
      simp at hk'
  | some x =>
    rw [lookup_insertAll_of_mem (x := f x)]
    · exact .some rfl
    · rw [List.map_map]
      exact nodup_values_key hkey
    · exact List.mem_map.mpr ⟨x, mem_values_iff.mpr ⟨k, hk⟩, by rw [hkey k x hk]⟩

theorem Related.mono {R R' : ν → ω → Prop} {m : HashMap κ ν} {m' : HashMap κ ω}
    (h : Related R m m') (himp : ∀ k x y, m.lookup k = some x → R x y → R' x y) :
    Related R' m m' := by
  intro k
  cases hk : m.lookup k with
  | none => rw [h.lookup_eq_none hk]; exact .none
  | some x =>
    obtain ⟨y, hy, hxy⟩ := h.lookup_left hk
    rw [hy]
    exact .some (himp k x y hk hxy)

end AList
