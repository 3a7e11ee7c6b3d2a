import KuzuEventBus.Lib.HashMap
import Mathlib.Algebra.BigOperators.Group.List.Lemmas
import Mathlib.Algebra.GroupWithZero.Nat

/-!
# Grouping a list by a key

A loop that appends each element of a list to the list stored at its key makes a
partition of the list: the elements of one key, in their order, form one group.

## Main definitions

* `IsPartition` — some lists are the parts of a list, by a key.
* `groupOn` — the loop.
* `foldOn` — the loop that keeps a value of the elements, and not the elements.

## Main results

* `listAt_groupOn` — the group of a key.
* `isPartition_groupOn` — **the groups are a partition by the key**.
* `IsPartition.sum_length` — the sizes of the parts add up.
* `lookup_foldOn` — the value of a key is the one of its elements, in their order.
* `sum_map_filter` — what the elements of each key add up to adds up.
-/

namespace Grouping

variable {α κ : Type*}

/-- The lists hold the elements of `as`, each of them as often as it is there; the elements of
one list have one key and those of two lists have different keys. -/
structure IsPartition (key : α → κ) (as : List α) (groups : List (List α)) : Prop where
  flatten : groups.flatten.Perm as
  nonempty : ∀ g ∈ groups, g ≠ []
  same : ∀ g ∈ groups, ∀ a ∈ g, ∀ b ∈ g, key a = key b
  apart : groups.Pairwise fun g h => ∀ a ∈ g, ∀ b ∈ h, key a ≠ key b

/-- **The sizes of the parts add up to the size of the list.** -/
theorem IsPartition.sum_length {key : α → κ} {as : List α} {groups : List (List α)}
    (h : IsPartition key as groups) : (groups.map List.length).sum = as.length := by
  rw [← List.length_flatten, h.flatten.length_eq]

/-- Parts by a key are parts by another one that distinguishes the same elements. -/
theorem IsPartition.congr {κ' : Type*} {key : α → κ} {key' : α → κ'} {as : List α}
    {groups : List (List α)} (h : IsPartition key as groups)
    (hkey : ∀ a ∈ as, ∀ b ∈ as, key a = key b ↔ key' a = key' b) :
    IsPartition key' as groups := by
  have hmem : ∀ g ∈ groups, ∀ a ∈ g, a ∈ as :=
    fun g hg a ha => h.flatten.mem_iff.1 (List.mem_flatten.2 ⟨g, hg, ha⟩)
  refine ⟨h.flatten, h.nonempty, ?_, ?_⟩
  · intro g hg a ha b hb
    exact (hkey a (hmem g hg a ha) b (hmem g hg b hb)).1 (h.same g hg a ha b hb)
  · refine h.apart.imp_of_mem ?_
    intro g g' hg hg' hne a ha b hb heq
    exact hne a ha b hb ((hkey a (hmem g hg a ha) b (hmem g' hg' b hb)).2 heq)

variable [DecidableEq κ] {key : α → κ}

/-- Append each element to the list stored at its key. -/
def groupOn (key : α → κ) (as : List α) : HashMap κ (List α) :=
  as.foldl (fun groups a => groups.pushTo (key a) a) ∅

/-- A key holds what it held before and its elements of the list, in their order. -/
theorem listAt_foldl_pushTo (as : List α) (k : κ) : ∀ m : HashMap κ (List α),
    (as.foldl (fun groups a => groups.pushTo (key a) a) m).listAt k =
      m.listAt k ++ as.filter fun a => key a = k := by
  induction as with
  | nil => simp
  | cons a as ih =>
    intro m
    rw [List.foldl_cons, ih, AList.listAt_pushTo, List.filter_cons]
    by_cases h : k = key a
    · simp [h]
    · simp [h, Ne.symm h]

/-- The group of a key is the part of the list that has it. -/
theorem listAt_groupOn (as : List α) (k : κ) :
    (groupOn key as).listAt k = as.filter fun a => key a = k := by
  rw [groupOn, listAt_foldl_pushTo, AList.listAt_empty, List.nil_append]

theorem noEmptyList_groupOn (as : List α) : (groupOn key as).NoEmptyList := by
  have h : ∀ m : HashMap κ (List α), m.NoEmptyList →
      (as.foldl (fun groups a => groups.pushTo (key a) a) m).NoEmptyList := by
    induction as with
    | nil => exact fun m hm => hm
    | cons a as ih => exact fun m hm => ih _ (hm.pushTo (key a) a)
  exact h ∅ AList.noEmptyList_empty

/-- Appending an element to a list of a map appends it to all of them together. -/
theorem flatten_values_pushTo (m : HashMap κ (List α)) (k : κ) (a : α) :
    (m.pushTo k a).values.flatten.Perm (m.values.flatten ++ [a]) := by
  have hentries : (m.pushTo k a).values =
      (m.listAt k ++ [a]) :: (List.kerase k m.entries).map Sigma.snd := rfl
  by_cases hk : k ∈ m.entries.keys
  · -- the list of the key leaves its place for the front
    obtain ⟨l, l₁, l₂, -, hsplit, herase⟩ := List.exists_of_kerase hk
    have hl : m.listAt k = l := by
      have hmem : (⟨k, l⟩ : Sigma fun _ : κ => List α) ∈ m.entries := by
        rw [hsplit]
        exact List.mem_append_right _ List.mem_cons_self
      rw [AList.listAt, AList.mem_entries_iff.1 hmem]
      rfl
    have hvalues : m.values = l₁.map Sigma.snd ++ l :: l₂.map Sigma.snd := by
      rw [AList.values, hsplit, List.map_append, List.map_cons]
    rw [hentries, herase, hl, hvalues, List.map_append]
    simp only [List.flatten_cons, List.flatten_append]
    generalize (l₁.map Sigma.snd).flatten = x
    generalize (l₂.map Sigma.snd).flatten = y
    calc l ++ [a] ++ (x ++ y)
      _ = (l ++ [a]) ++ (x ++ y) := rfl
      _ |>.Perm (x ++ y ++ (l ++ [a])) := List.perm_append_comm
      _ |>.Perm (x ++ (l ++ y) ++ [a]) := by
        rw [List.append_assoc, List.append_assoc, ← List.append_assoc y]
        exact (List.perm_append_comm.append_right [a]).append_left x
  · have hnone : m.listAt k = [] := by
      have : m.lookup k = none := AList.lookup_eq_none.2 hk
      rw [AList.listAt, this]
      rfl
    rw [hentries, hnone, List.kerase_of_notMem_keys hk]
    exact (List.perm_append_comm : ([a] ++ m.values.flatten).Perm _)

theorem flatten_values_foldl (as : List α) : ∀ m : HashMap κ (List α),
    (as.foldl (fun groups a => groups.pushTo (key a) a) m).values.flatten.Perm
      (m.values.flatten ++ as) := by
  induction as with
  | nil =>
    intro m
    rw [List.append_nil]
    rfl
  | cons a as ih =>
    intro m
    rw [List.foldl_cons]
    refine (ih _).trans ?_
    rw [← List.singleton_append, ← List.append_assoc]
    exact (flatten_values_pushTo m (key a) a).append_right as

/-- The elements of a group have its key. -/
theorem key_of_mem_entries {as : List α} {e : Sigma fun _ : κ => List α}
    (he : e ∈ (groupOn key as).entries) {a : α} (ha : a ∈ e.2) : key a = e.1 := by
  have hlist : (groupOn key as).listAt e.1 = e.2 := by
    rw [AList.listAt, AList.mem_entries_iff.1 he]
    rfl
  rw [← hlist, listAt_groupOn, List.mem_filter] at ha
  exact of_decide_eq_true ha.2

/-- **The groups are a partition by the key.** -/
theorem isPartition_groupOn (key : α → κ) (as : List α) :
    IsPartition key as (groupOn key as).values := by
  refine ⟨?_, ?_, ?_, ?_⟩
  · exact flatten_values_foldl as ∅
  · intro g hg hnil
    obtain ⟨k, hk⟩ := AList.mem_values_iff.1 hg
    rw [hnil] at hk
    exact noEmptyList_groupOn as k hk
  · intro g hg a ha b hb
    obtain ⟨e, he, rfl⟩ := List.mem_map.1 hg
    rw [key_of_mem_entries he ha, key_of_mem_entries he hb]
  · rw [AList.values, List.pairwise_map]
    have hkeys : (groupOn key as).entries.Pairwise fun e e' => e.1 ≠ e'.1 :=
      List.pairwise_map.1 (groupOn key as).nodupKeys
    refine hkeys.imp_of_mem ?_
    intro e e' he he' hne a ha b hb heq
    exact hne ((key_of_mem_entries he ha).symm.trans (heq.trans (key_of_mem_entries he' hb)))

/-! ### Values of the elements of a key -/

section

variable {β : Type*} {start : κ → β} {add : β → α → β}

/-- Add each element to the value stored at its key, which starts as the key says. -/
def foldOn (key : α → κ) (start : κ → β) (add : β → α → β) (as : List α) (m : HashMap κ β) :
    HashMap κ β :=
  as.foldl (fun m a => m.insert (key a) (add ((m.lookup (key a)).getD (start (key a))) a)) m

/-- **The value of a key is the one of its elements, in their order.** -/
theorem lookup_foldOn (as : List α) (k : κ) (m : HashMap κ β) :
    (foldOn key start add as m).lookup k =
      if (as.filter fun a => key a = k) = [] then m.lookup k
      else some ((as.filter fun a => key a = k).foldl add ((m.lookup k).getD (start k))) := by
  induction as generalizing m with
  | nil => rfl
  | cons a as ih =>
    refine (ih _).trans ?_
    rw [AList.lookup_insert_eq]
    by_cases h : key a = k
    · subst h
      rw [List.filter_cons_of_pos (by simp), if_pos rfl, if_neg (List.cons_ne_nil _ _),
        List.foldl_cons, Option.getD_some]
      split
      · next hnil => rw [hnil, List.foldl_nil]
      · rfl
    · rw [List.filter_cons_of_neg (by simpa using h), if_neg (Ne.symm h)]

end

/-- **What the elements of each key add up to adds up to what all of them do.** -/
theorem sum_map_filter {ks : List κ} (hnodup : ks.Nodup) {as : List α}
    (hmem : ∀ a ∈ as, key a ∈ ks) (g : α → ℕ) :
    (ks.map fun k => ((as.filter fun a => key a = k).map g).sum).sum = (as.map g).sum := by
  induction as with
  | nil => simp
  | cons a as ih =>
    rw [List.forall_mem_cons] at hmem
    have hcons (k : κ) : (((a :: as).filter fun a => key a = k).map g).sum =
        (if key a = k then g a else 0) + ((as.filter fun a => key a = k).map g).sum := by
      by_cases h : key a = k
      · simp [h]
      · simp [h]
    have hone : (ks.map fun k => if key a = k then g a else 0).sum = g a := by
      rw [List.sum_map_eq_nsmul_single (key a) _ fun k hk _ => if_neg (Ne.symm hk), if_pos rfl,
        List.count_eq_one_of_mem hnodup hmem.1, one_nsmul]
    rw [List.map_congr_left fun k _ => hcons k, List.sum_map_add, hone, ih hmem.2, List.map_cons,
      List.sum_cons]

end Grouping
