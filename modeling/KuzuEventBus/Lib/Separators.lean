import Mathlib.Data.List.Infix

/-!
# Splitting at a separator

A list is split in two at the first occurrence of a separator.  What is in front of
a separator is found again exactly when the separator does not occur earlier, and it
may occur earlier in part: with its end in the separator that was written.

## Main definitions

* `splitFirst` — the lists in front of and after the first occurrence.

## Main results

* `splitFirst_eq_none_iff` — there is nothing to split exactly when the separator does not occur.
* `splitFirst_append_iff` — **a list is found again in front of a separator exactly when
  the separator does not occur in it and all but the last of the separator after it.**
-/

namespace Separators

variable {α : Type*} [DecidableEq α] {sep : List α}

/-- The lists in front of and after the first occurrence of `sep`. -/
def splitFirst (sep : List α) : List α → Option (List α × List α)
  | [] => if sep = [] then some ([], []) else none
  | c :: cs =>
    if sep <+: c :: cs then some ([], (c :: cs).drop sep.length)
    else (splitFirst sep cs).map fun r => (c :: r.1, r.2)

theorem splitFirst_of_sep {cs : List α} (h : sep <+: cs) :
    splitFirst sep cs = some ([], cs.drop sep.length) := by
  cases cs with
  | nil =>
    rw [List.prefix_nil] at h
    subst h
    rfl
  | cons c cs => rw [splitFirst, if_pos h]

/-- What a list is split into makes up the list. -/
theorem eq_of_splitFirst {cs a b : List α} (h : splitFirst sep cs = some (a, b)) :
    cs = a ++ sep ++ b := by
  induction cs generalizing a with
  | nil =>
    unfold splitFirst at h
    split at h
    · next hsep => cases h; rw [hsep]; rfl
    · cases h
  | cons c cs ih =>
    by_cases hpre : sep <+: c :: cs
    · rw [splitFirst_of_sep hpre] at h
      cases h
      rw [List.nil_append]
      exact (List.prefix_iff_eq_append.mp hpre).symm
    · rw [splitFirst, if_neg hpre, Option.map_eq_some_iff] at h
      obtain ⟨⟨a', b'⟩, hsplit, heq⟩ := h
      cases heq
      rw [ih hsplit]
      rfl

/-- **There is nothing to split exactly when the separator does not occur.** -/
theorem splitFirst_eq_none_iff (hne : sep ≠ []) (cs : List α) :
    splitFirst sep cs = none ↔ ¬ sep <:+: cs := by
  induction cs with
  | nil => simp [splitFirst, hne]
  | cons c cs ih =>
    rw [List.infix_cons_iff]
    by_cases hpre : sep <+: c :: cs
    · simp [splitFirst_of_sep hpre, hpre]
    · simp [splitFirst, hpre, ih]

/-- **A list is found again in front of a separator exactly when the separator does not occur in
it and all but the last of the separator after it.** -/
theorem splitFirst_append_iff (hne : sep ≠ []) (a b : List α) :
    splitFirst sep (a ++ sep ++ b) = some (a, b) ↔ ¬ sep <:+: a ++ sep.dropLast := by
  have hlen : sep.dropLast.length + 1 = sep.length := by
    rw [List.length_dropLast]
    have := List.length_pos_iff.mpr hne
    omega
  induction a with
  | nil =>
    have hpre : sep <+: sep ++ b := List.prefix_append sep b
    refine iff_of_true ?_ fun hinfix => ?_
    · rw [List.nil_append, splitFirst_of_sep hpre, List.drop_left]
    · have hle := hinfix.length_le
      rw [List.nil_append] at hle
      omega
  | cons c a ih =>
    -- what the separator is looked for in goes on as the whole list does
    have hfront : c :: (a ++ sep.dropLast) <+: c :: (a ++ sep ++ b) := by
      rw [List.cons_prefix_cons, List.append_assoc]
      refine ⟨rfl, List.prefix_append_right_inj a |>.mpr ?_⟩
      exact (List.dropLast_prefix sep).trans (List.prefix_append sep b)
    rw [List.cons_append, List.cons_append, List.cons_append, List.infix_cons_iff, not_or]
    by_cases hpre : sep <+: c :: (a ++ sep ++ b)
    · have hearly : sep <+: c :: (a ++ sep.dropLast) := by
        refine List.prefix_of_prefix_length_le hpre hfront ?_
        rw [List.length_cons, List.length_append]
        omega
      rw [splitFirst_of_sep hpre]
      simp [hearly]
    · have hlate : ¬ sep <+: c :: (a ++ sep.dropLast) := fun h => hpre (h.trans hfront)
      rw [splitFirst, if_neg hpre, and_iff_right hlate]
      refine Iff.trans ?_ ih
      simp

/-- Two lists that are found again in front of the separator are told apart by it. -/
theorem append_sep_inj (hne : sep ≠ []) {a a' b b' : List α}
    (ha : ¬ sep <:+: a ++ sep.dropLast) (ha' : ¬ sep <:+: a' ++ sep.dropLast)
    (h : a ++ sep ++ b = a' ++ sep ++ b') : a = a' ∧ b = b' := by
  have hsplit := (splitFirst_append_iff hne a b).mpr ha
  rw [h, (splitFirst_append_iff hne a' b').mpr ha'] at hsplit
  obtain ⟨haa, hbb⟩ := Prod.mk.inj (Option.some.inj hsplit)
  exact ⟨haa.symm, hbb.symm⟩

omit [DecidableEq α] in
/-- The last elements of two lists, one of which ends with the other. -/
theorem concat_suffix_concat_iff {l l' : List α} {x y : α} :
    l ++ [x] <:+ l' ++ [y] ↔ x = y ∧ l <:+ l' := by
  rw [← List.reverse_prefix, List.reverse_append, List.reverse_append, List.reverse_singleton,
    List.reverse_singleton, List.singleton_append, List.singleton_append, List.cons_prefix_cons,
    List.reverse_prefix]

end Separators
