import Mathlib.Data.List.Nodup
import Mathlib.Data.List.Perm.Subperm
import Mathlib.Data.List.Pairwise
import Mathlib.Order.Nat

/-!
# Walks and breadth-first search

Walks along a relation, counted by their hops, and a breadth-first search to a
bounded depth with a queue and a list of what it has seen.  The invariant says on
which level the search is; it is kept by each neighbour that is looked at.

## Main definitions

* `Walk`, `Shortest` — walks of a number of hops; the length of a shortest one.
* `Search`, `Search.visit` — the state of the search, and one neighbour.
* `Search.Level` — the invariant.
* `Search.Ordered` — what was seen later is no nearer.

## Main results

* `Shortest.lt_length` — a shortest walk has fewer hops than there are points.
* `Search.Level.pop`, `Search.Level.visitAll` — what a round of the search preserves.
* `Search.Level.mem_seen_iff` — **a search with an empty queue has seen every point within its
  bound, at its distance**.
* `Search.ordered_visitAll` — points are seen in the order of their distances.
-/

namespace Walks

variable {α : Type}

/-- A walk of `k` hops. -/
inductive Walk (R : α → α → Prop) : ℕ → α → α → Prop
  /-- No hop. -/
  | nil (a : α) : Walk R 0 a a
  /-- One more hop. -/
  | snoc {k : ℕ} {a b c : α} (h : Walk R k a b) (hop : R b c) : Walk R (k + 1) a c

/-- There is a walk of `k` hops, and none of fewer. -/
def Shortest (R : α → α → Prop) (k : ℕ) (a b : α) : Prop :=
  Walk R k a b ∧ ∀ j < k, ¬ Walk R j a b

/-- Where there is a walk, there is a shortest one. -/
theorem Walk.exists_shortest {R : α → α → Prop} {k : ℕ} {a b : α} (h : Walk R k a b) :
    ∃ j ≤ k, Shortest R j a b := by
  induction k using Nat.strong_induction_on with
  | _ k ih =>
    by_cases hless : ∃ j < k, Walk R j a b
    · obtain ⟨j, hj, hw⟩ := hless
      obtain ⟨i, hi, hs⟩ := ih j hj hw
      exact ⟨i, by omega, hs⟩
    · refine ⟨k, le_rfl, h, fun j hj hw => hless ⟨j, hj, hw⟩⟩

/-- The beginnings of a shortest walk are shortest. -/
theorem Shortest.exists_prefix {R : α → α → Prop} {k : ℕ} {a b : α} (h : Shortest R k a b) :
    ∀ j ≤ k, ∃ c, Shortest R j a c := by
  induction k generalizing b with
  | zero =>
    intro j hj
    rw [Nat.le_zero.mp hj]
    exact ⟨b, h⟩
  | succ k ih =>
    intro j hj
    rcases Nat.lt_or_eq_of_le hj with hlt | rfl
    · obtain ⟨hwalk, hnone⟩ := h
      cases hwalk with
      | @snoc _ _ c _ hw hop =>
        -- a shorter walk to the last point but one would give a shorter walk
        refine ih (b := c) ⟨hw, fun i hi hw' => ?_⟩ j (Nat.lt_succ_iff.mp hlt)
        exact hnone (i + 1) (Nat.succ_lt_succ hi) (hw'.snoc hop)
    · exact ⟨b, h⟩

theorem Shortest.length_unique {R : α → α → Prop} {j k : ℕ} {a b : α} (hj : Shortest R j a b)
    (hk : Shortest R k a b) : j = k := by
  rcases Nat.lt_trichotomy j k with h | h | h
  · exact absurd hj.1 (hk.2 j h)
  · exact h
  · exact absurd hk.1 (hj.2 k h)

/-- The distance of another point is not zero. -/
theorem Shortest.pos {R : α → α → Prop} {k : ℕ} {a b : α} (h : Shortest R k a b) (hne : b ≠ a) :
    1 ≤ k := by
  cases k with
  | zero =>
    obtain ⟨hwalk, -⟩ := h
    cases hwalk
    exact absurd rfl hne
  | succ k => exact Nat.le_add_left 1 k

/-- **A shortest walk passes no point twice**, so it has fewer hops than there are points. -/
theorem Shortest.lt_length {R : α → α → Prop} {k : ℕ} {a b : α} (h : Shortest R k a b)
    {points : List α} (ha : a ∈ points) (hR : ∀ x y, R x y → y ∈ points) :
    k < points.length := by
  classical
  have hpoint : ∀ j, ∃ c, j ≤ k → Shortest R j a c := by
    intro j
    by_cases hj : j ≤ k
    · obtain ⟨c, hc⟩ := h.exists_prefix j hj
      exact ⟨c, fun _ => hc⟩
    · exact ⟨a, fun hj' => absurd hj' hj⟩
  choose c hc using hpoint
  have hmem : ∀ j ≤ k, c j ∈ points := by
    intro j hj
    have hwalk := (hc j hj).1
    cases j with
    | zero => cases hwalk; exact ha
    | succ j =>
      cases hwalk with
      | snoc _ hop => exact hR _ _ hop
  have hnodup : ((List.range (k + 1)).map c).Nodup := by
    refine List.nodup_range.map_on fun i hi j hj heq => ?_
    have hi' := hc i (Nat.lt_succ_iff.mp (List.mem_range.mp hi))
    have hj' := hc j (Nat.lt_succ_iff.mp (List.mem_range.mp hj))
    rw [heq] at hi'
    exact hi'.length_unique hj'
  have hsub : (List.range (k + 1)).map c ⊆ points := by
    intro x hx
    obtain ⟨j, hj, rfl⟩ := List.mem_map.mp hx
    exact hmem j (Nat.lt_succ_iff.mp (List.mem_range.mp hj))
  have hlen := (hnodup.subperm hsub).length_le
  rw [List.length_map, List.length_range] at hlen
  exact hlen

/-! ### The search -/

/-- The state of a breadth-first search: the queue, and what has been seen, the last one first;
each with its depth. -/
structure Search (α : Type) where
  queue : List (α × ℕ)
  seen : List (α × ℕ)

namespace Search

/-- Nothing but the start has been seen. -/
def start (a : α) : Search α := ⟨[(a, 0)], [(a, 0)]⟩

section
variable [DecidableEq α]

/-- Look at a neighbour of a point at depth `depth`: what has not been seen goes into the queue,
unless it is at the bound already. -/
def visit (bound depth : ℕ) (s : Search α) (b : α) : Search α :=
  if b ∈ s.seen.map Prod.fst then s
  else
    ⟨if depth + 1 < bound then s.queue ++ [(b, depth + 1)] else s.queue, (b, depth + 1) :: s.seen⟩

end

/-- The search is on level `d`: what is in the queue is at depth `d` or one more.  All that was
taken from the queue has had its neighbours seen, one hop further at most, except those that
are `owed`. -/
structure Level (next : α → List α) (bound : ℕ) (a : α) (d : ℕ) (owed : α × ℕ → α → Prop)
    (s : Search α) : Prop where
  start_mem : (a, 0) ∈ s.seen
  walk : ∀ e ∈ s.seen, Walk (fun x y => y ∈ next x) e.2 a e.1
  nodup : (s.seen.map Prod.fst).Nodup
  le_bound : ∀ e ∈ s.seen, e.2 ≤ bound
  high : ∀ e ∈ s.seen, e.2 ≤ d + 1
  mem_seen : ∀ e ∈ s.queue, e ∈ s.seen
  low : ∀ e ∈ s.queue, d ≤ e.2
  sorted : s.queue.Pairwise fun e e' => e.2 ≤ e'.2
  closed : ∀ e ∈ s.seen, e.2 < bound → e ∈ s.queue ∨
    ∀ b ∈ next e.1, owed e b ∨ ∃ k ≤ e.2 + 1, (b, k) ∈ s.seen

variable {next : α → List α} {bound : ℕ} {a : α} {d : ℕ} {owed : α × ℕ → α → Prop} {s : Search α}

theorem level_start (next : α → List α) (bound : ℕ) (a : α) :
    Level next bound a 0 (fun _ _ => False) (start a) where
  start_mem := List.mem_singleton_self _
  walk := by
    intro e he
    rw [List.mem_singleton.mp he]
    exact .nil a
  nodup := List.nodup_singleton a
  le_bound := by
    intro e he
    rw [List.mem_singleton.mp he]
    exact Nat.zero_le _
  high := by
    intro e he
    rw [List.mem_singleton.mp he]
    exact Nat.zero_le _
  mem_seen := fun e he => he
  low := fun e _ => Nat.zero_le _
  sorted := List.pairwise_singleton _ _
  closed := fun e he _ => .inl he

/-- Taking the first entry from the queue: its neighbours are owed, unless it is at the bound. -/
theorem Level.pop {x : α × ℕ} {queue : List (α × ℕ)}
    (h : Level next bound a d (fun _ _ => False) s) (hq : s.queue = x :: queue) :
    Level next bound a x.2 (fun e b => e = x ∧ x.2 < bound ∧ b ∈ next x.1) ⟨queue, s.seen⟩ := by
  have hmem : x ∈ s.queue := by simp [hq]
  have hsorted := h.sorted
  rw [hq, List.pairwise_cons] at hsorted
  refine { h with high := ?_, mem_seen := ?_, low := hsorted.1, sorted := hsorted.2, closed := ?_ }
  · intro e he
    have hd := h.low x hmem
    exact (h.high e he).trans (by omega)
  · intro e he
    exact h.mem_seen e (by simp [hq, show e ∈ queue from he])
  · intro e he hlt
    rcases h.closed e he hlt with hin | hnext
    · rw [hq, List.mem_cons] at hin
      rcases hin with rfl | hin
      · exact .inr fun b hb => .inl ⟨rfl, hlt, hb⟩
      · exact .inl hin
    · exact .inr fun b hb => .inr ((hnext b hb).resolve_left id)

variable [DecidableEq α]

/-- One neighbour is owed no more once it has been looked at. -/
theorem Level.visit {x : α} {b : α} {bs : List α}
    (h : Level next bound a d (fun e b' => e = (x, d) ∧ b' ∈ b :: bs) s) (hx : (x, d) ∈ s.seen)
    (hd : d < bound) (hb : b ∈ next x) :
    Level next bound a d (fun e b' => e = (x, d) ∧ b' ∈ bs) (s.visit bound d b) := by
  unfold Search.visit
  split
  · next hseen =>
    obtain ⟨⟨b, k⟩, hk, rfl⟩ := List.mem_map.mp hseen
    refine { h with closed := fun e he hlt => (h.closed e he hlt).imp_right ?_ }
    intro hnext b' hb'
    rcases hnext b' hb' with ⟨rfl, hmem⟩ | hold
    · rcases List.mem_cons.mp hmem with rfl | hmem
      · exact .inr ⟨k, h.high _ hk, hk⟩
      · exact .inl ⟨rfl, hmem⟩
    · exact .inr hold
  · next hnew =>
    -- the queue grows at its end, by an entry of the next level
    have hqueue : ∀ e ∈ (if d + 1 < bound then s.queue ++ [(b, d + 1)] else s.queue),
        e ∈ s.queue ∨ e = (b, d + 1) := by
      intro e he
      split at he
      · simpa using he
      · exact .inl he
    have hkeep : ∀ e ∈ s.queue,
        e ∈ (if d + 1 < bound then s.queue ++ [(b, d + 1)] else s.queue) := by
      intro e he
      split
      · exact List.mem_append_left _ he
      · exact he
    constructor
    case start_mem => exact List.mem_cons_of_mem _ h.start_mem
    case walk =>
      intro e he
      rcases List.mem_cons.mp he with rfl | he
      · exact (h.walk _ hx).snoc hb
      · exact h.walk e he
    case nodup => exact List.nodup_cons.mpr ⟨hnew, h.nodup⟩
    case le_bound =>
      intro e he
      rcases List.mem_cons.mp he with rfl | he
      · exact hd
      · exact h.le_bound e he
    case high =>
      intro e he
      rcases List.mem_cons.mp he with rfl | he
      · exact le_rfl
      · exact h.high e he
    case mem_seen =>
      intro e he
      rcases hqueue e he with he | rfl
      · exact List.mem_cons_of_mem _ (h.mem_seen e he)
      · exact List.mem_cons_self
    case low =>
      intro e he
      rcases hqueue e he with he | rfl
      · exact h.low e he
      · exact Nat.le_succ d
    case sorted =>
      show List.Pairwise _ (if d + 1 < bound then s.queue ++ [(b, d + 1)] else s.queue)
      split
      · rw [List.pairwise_append]
        refine ⟨h.sorted, List.pairwise_singleton _ _, fun e he e' he' => ?_⟩
        rw [List.mem_singleton.mp he']
        exact h.high e (h.mem_seen e he)
      · exact h.sorted
    case closed =>
      intro e he hlt
      rcases List.mem_cons.mp he with rfl | he
      · left
        have hlt' : d + 1 < bound := hlt
        simp [hlt']
      · refine (h.closed e he hlt).imp (hkeep e) fun hnext b' hb' => ?_
        rcases hnext b' hb' with ⟨rfl, hmem⟩ | ⟨k, hk, hold⟩
        · rcases List.mem_cons.mp hmem with rfl | hmem
          · exact .inr ⟨d + 1, le_rfl, List.mem_cons_self⟩
          · exact .inl ⟨rfl, hmem⟩
        · exact .inr ⟨k, hk, List.mem_cons_of_mem _ hold⟩

theorem mem_seen_visit {e : α × ℕ} (h : e ∈ s.seen) (bound depth : ℕ) (b : α) :
    e ∈ (s.visit bound depth b).seen := by
  unfold Search.visit
  split
  · exact h
  · exact List.mem_cons_of_mem _ h

/-- **Once all neighbours have been looked at, none is owed.** -/
theorem Level.visitAll {x : α} {bs : List α} (hd : d < bound) (hbs : ∀ b ∈ bs, b ∈ next x) :
    ∀ {s : Search α}, Level next bound a d (fun e b => e = (x, d) ∧ b ∈ bs) s → (x, d) ∈ s.seen →
      Level next bound a d (fun _ _ => False) (bs.foldl (Search.visit bound d) s) := by
  induction bs with
  | nil =>
    intro s h _
    refine { h with closed := fun e he hlt => (h.closed e he hlt).imp_right ?_ }
    intro hnext b hb
    exact .inr ((hnext b hb).resolve_left fun howed => by simp at howed)
  | cons b bs ih =>
    intro s h hx
    rw [List.foldl_cons]
    refine ih (fun b' hb' => hbs b' (List.mem_cons_of_mem _ hb')) ?_ (mem_seen_visit hx _ _ _)
    exact h.visit hx hd (hbs b List.mem_cons_self)

omit [DecidableEq α] in
/-- What was seen later is no nearer; what was seen last comes first. -/
def Ordered (s : Search α) : Prop := s.seen.Pairwise fun e e' => e'.2 ≤ e.2

omit [DecidableEq α] in
theorem ordered_start (a : α) : (start a).Ordered := List.pairwise_singleton _ _

/-- **What is seen from a point is on the next level**, and nothing has been seen beyond it. -/
theorem ordered_visitAll (bs : List α) : ∀ {s : Search α}, (∀ e ∈ s.seen, e.2 ≤ d + 1) →
    s.Ordered → (bs.foldl (Search.visit bound d) s).Ordered := by
  induction bs with
  | nil => exact fun _ ho => ho
  | cons b bs ih =>
    intro s hhigh ho
    rw [List.foldl_cons]
    by_cases hseen : b ∈ s.seen.map Prod.fst
    · rw [Search.visit, if_pos hseen]
      exact ih hhigh ho
    · rw [Search.visit, if_neg hseen]
      exact ih (List.forall_mem_cons.mpr ⟨le_rfl, hhigh⟩) (List.pairwise_cons.mpr ⟨hhigh, ho⟩)

omit [DecidableEq α] in
/-- Along a walk within the bound, every point has been seen no later. -/
theorem Level.seen_of_walk (h : Level next bound a d (fun _ _ => False) s) (hq : s.queue = [])
    {k : ℕ} {b : α} (hw : Walk (fun x y => y ∈ next x) k a b) (hk : k ≤ bound) :
    ∃ j ≤ k, (b, j) ∈ s.seen := by
  generalize ha : a = a' at hw
  induction hw with
  | nil a' =>
    subst ha
    exact ⟨0, le_rfl, h.start_mem⟩
  | @snoc k a' b c _ hop ih =>
    obtain ⟨j, hj, hseen⟩ := ih (by omega) ha
    have hclosed := h.closed (b, j) hseen (by show j < bound; omega)
    rw [hq] at hclosed
    rcases hclosed.resolve_left (by simp) c hop with hfalse | ⟨i, hi, hmem⟩
    · exact hfalse.elim
    · exact ⟨i, hi.trans (by show j + 1 ≤ k + 1; omega), hmem⟩

omit [DecidableEq α] in
theorem Level.depth_unique (h : Level next bound a d owed s) {b : α} {j k : ℕ}
    (hj : (b, j) ∈ s.seen) (hk : (b, k) ∈ s.seen) : j = k := by
  have heq := List.inj_on_of_nodup_map h.nodup hj hk rfl
  cases heq
  rfl

omit [DecidableEq α] in
/-- **A search with an empty queue has seen exactly the points within the bound, each at the
length of its shortest walks.** -/
theorem Level.mem_seen_iff (h : Level next bound a d (fun _ _ => False) s) (hq : s.queue = [])
    {b : α} {k : ℕ} :
    (b, k) ∈ s.seen ↔ k ≤ bound ∧ Shortest (fun x y => y ∈ next x) k a b := by
  constructor
  · intro hmem
    refine ⟨h.le_bound _ hmem, h.walk _ hmem, fun j hj hw => ?_⟩
    have hk := h.le_bound _ hmem
    obtain ⟨i, hi, hseen⟩ := h.seen_of_walk hq hw (by show j ≤ bound; omega)
    have heq := h.depth_unique hseen hmem
    omega
  · rintro ⟨hk, hw, hshort⟩
    obtain ⟨j, hj, hseen⟩ := h.seen_of_walk hq hw hk
    have hle : ¬ j < k := fun hlt => hshort j hlt (h.walk _ hseen)
    obtain rfl : j = k := by omega
    exact hseen

end Search

end Walks
