import Mathlib.Data.List.Basic
import Mathlib.Data.List.Pairwise
import Mathlib.Data.List.Sort
import Mathlib.Tactic.TypeStar

/-!
# Streams with a consumer group

A Redis stream is a list of entries whose ids grow.  It may be trimmed to a length when an entry is
added.  A consumer group has a cursor, the id it has delivered last, and the ids it has delivered
that are not acknowledged yet; a read takes the first entry after the cursor, and nothing moves the
cursor back.  A read without a group gives its own cursor, and takes some entries after it.

## Main definitions

* `Entry`, `Group`, `Stream` — entries, consumer groups, and streams with one group.
* `xadd`, `xaddAbout`, `xgroupCreate`, `xreadgroup`, `xack`, `xdel`, `xread` — the commands.

## Main results

* `le_length_filter_of_notMem_drop` — what a trim drops has that many entries after it.
* `mem_xadd_or` — **an entry is trimmed only when as many newer ones are there.**
* `xreadgroup_eq_some` — what a read returns, and what it leaves.
* `mem_xread_or` — what a read without a group returns comes before what it leaves.
* `append_sublist` — **reads one after the other return entries in order, none of them twice.**
-/

namespace RedisStream

variable {α : Type*}

/-- An entry of a stream. -/
structure Entry (α : Type*) where
  id : ℕ
  payload : α

/-- A consumer group: its cursor, and what it has delivered that is not acknowledged. -/
structure Group where
  lastDelivered : ℕ
  pending : List ℕ

/-- A stream with one consumer group, if it is created. -/
structure Stream (α : Type*) where
  entries : List (Entry α)
  lastId : ℕ
  group : Option Group

/-- No entries, and no group. -/
def Stream.empty : Stream α := ⟨[], 0, none⟩

/-- The entry `XADD` adds. -/
def Stream.next (s : Stream α) (payload : α) : Entry α := ⟨s.lastId + 1, payload⟩

/-- `XADD` with an exact `MAXLEN`: the oldest entries are trimmed, whoever is still to read them. -/
def Stream.xadd (s : Stream α) (maxlen : ℕ) (payload : α) : Stream α where
  entries := (s.entries ++ [s.next payload]).drop (s.entries.length + 1 - maxlen)
  lastId := s.lastId + 1
  group := s.group

/-- `XADD` with an approximate `MAXLEN`: of the entries that are too many, some of the oldest are
trimmed. -/
def Stream.xaddAbout (s : Stream α) (maxlen trimmed : ℕ) (payload : α) : Stream α where
  entries := (s.entries ++ [s.next payload]).drop (min trimmed (s.entries.length + 1 - maxlen))
  lastId := s.lastId + 1
  group := s.group

/-- `XREAD` of at most `count` entries after an id. -/
def Stream.xread (s : Stream α) (count after : ℕ) : List (Entry α) :=
  (s.entries.filter fun e => after < e.id).take count

/-- `XGROUP CREATE` at id `0`, which leaves a group that is there. -/
def Stream.xgroupCreate (s : Stream α) : Stream α :=
  match s.group with
  | some _ => s
  | none => { s with group := some ⟨0, []⟩ }

/-- `XREADGROUP` of one new entry: the first after the cursor. -/
def Stream.xreadgroup (s : Stream α) : Option (Entry α × Stream α) :=
  match s.group with
  | none => none
  | some g =>
    (s.entries.find? fun e => g.lastDelivered < e.id).map fun e =>
      (e, { s with group := some ⟨e.id, g.pending ++ [e.id]⟩ })

/-- `XACK`. -/
def Stream.xack (s : Stream α) (id : ℕ) : Stream α where
  entries := s.entries
  lastId := s.lastId
  group := s.group.map fun g => { g with pending := g.pending.filter fun id' => id' ≠ id }

/-- `XDEL`. -/
def Stream.xdel (s : Stream α) (id : ℕ) : Stream α :=
  { s with entries := s.entries.filter fun e => e.id ≠ id }

variable {s s' : Stream α} {e : Entry α}

/-- What is dropped from a list whose ids grow has the rest of the list after it. -/
theorem le_length_filter_of_notMem_drop {l : List (Entry α)} {n : ℕ}
    (hsorted : l.Pairwise fun a b => a.id < b.id) (he : e ∈ l)
    (hdropped : e ∉ l.drop (l.length - n)) : n ≤ (l.filter fun e' => e.id < e'.id).length := by
  have hsplit := List.take_append_drop (l.length - n) l
  have htaken : e ∈ l.take (l.length - n) := by
    rw [← hsplit] at he
    exact (List.mem_append.1 he).resolve_right hdropped
  have hlt : l.length - n ≠ 0 := by
    intro hzero
    rw [hzero, List.take_zero] at htaken
    cases htaken
  -- every entry that is kept comes after the dropped one
  have hafter : ∀ e' ∈ l.drop (l.length - n), e.id < e'.id := by
    rw [← hsplit, List.pairwise_append] at hsorted
    exact fun e' he' => hsorted.2.2 e htaken e' he'
  have hsub : (l.drop (l.length - n)).Sublist (l.filter fun e' => e.id < e'.id) := by
    rw [← List.filter_eq_self.2 fun e' he' => decide_eq_true (hafter e' he')]
    exact (List.drop_sublist _ l).filter _
  have hlength := hsub.length_le
  rw [List.length_drop] at hlength
  omega

theorem xadd_sublist (s : Stream α) (maxlen : ℕ) (payload : α) :
    (s.xadd maxlen payload).entries.Sublist (s.entries ++ [s.next payload]) :=
  List.drop_sublist ..

/-- **What a trim takes away** has as many entries after it as the stream may hold. -/
theorem mem_xadd_or {maxlen : ℕ} {payload : α}
    (hsorted : (s.entries ++ [s.next payload]).Pairwise fun a b => a.id < b.id)
    (he : e ∈ s.entries ++ [s.next payload]) :
    e ∈ (s.xadd maxlen payload).entries ∨
      maxlen ≤ ((s.entries ++ [s.next payload]).filter fun e' => e.id < e'.id).length := by
  by_cases hkept : e ∈ (s.xadd maxlen payload).entries
  · exact Or.inl hkept
  · refine Or.inr (le_length_filter_of_notMem_drop hsorted he ?_)
    rw [List.length_append]
    exact hkept

/-- **What a read returns**: an entry after the cursor, and the cursor moves there; every older
entry was before the cursor already. -/
theorem xreadgroup_eq_some (hsorted : s.entries.Pairwise fun a b => a.id < b.id)
    (h : s.xreadgroup = some (e, s')) :
    ∃ g, s.group = some g ∧ g.lastDelivered < e.id ∧ e ∈ s.entries ∧
      (∀ e' ∈ s.entries, e'.id < e.id → e'.id ≤ g.lastDelivered) ∧
      s' = { s with group := some ⟨e.id, g.pending ++ [e.id]⟩ } := by
  unfold Stream.xreadgroup at h
  cases hgroup : s.group with
  | none =>
    rw [hgroup] at h
    cases h
  | some g =>
    rw [hgroup] at h
    obtain ⟨e₁, hfind, heq⟩ := Option.map_eq_some_iff.1 h
    cases heq
    obtain ⟨hafter, l₁, l₂, hsplit, hbefore⟩ := List.find?_eq_some_iff_append.1 hfind
    refine ⟨g, rfl, of_decide_eq_true hafter, List.mem_of_find?_eq_some hfind, ?_, rfl⟩
    intro e' he' hlt
    rw [hsplit] at he' hsorted
    obtain ⟨-, hrest, -⟩ := List.pairwise_append.1 hsorted
    rcases List.mem_append.1 he' with hfirst | hlast
    · simpa using hbefore e' hfirst
    · rcases List.mem_cons.1 hlast with rfl | htail
      · exact absurd hlt (Nat.lt_irrefl _)
      · exact absurd hlt (Nat.lt_asymm (List.rel_of_pairwise_cons hrest htail))

/-! ### Reads without a group -/

/-- What is left of the stream, and the new entry, which is not trimmed. -/
theorem entries_xaddAbout (s : Stream α) {maxlen : ℕ} (hmaxlen : 0 < maxlen) (trimmed : ℕ)
    (payload : α) : ∃ n, (s.xaddAbout maxlen trimmed payload).entries =
      s.entries.drop n ++ [s.next payload] := by
  refine ⟨min trimmed (s.entries.length + 1 - maxlen), ?_⟩
  rw [Stream.xaddAbout, List.drop_append_of_le_length]
  omega

theorem mem_xread {count after : ℕ} (h : e ∈ s.xread count after) :
    e ∈ s.entries ∧ after < e.id := by
  obtain ⟨hmem, hafter⟩ := List.mem_filter.1 (List.mem_of_mem_take h)
  exact ⟨hmem, of_decide_eq_true hafter⟩

/-- An entry after the cursor is read, or comes after all that is read. -/
theorem mem_xread_or {count after : ℕ} (hsorted : s.entries.Pairwise fun a b => a.id < b.id)
    (he : e ∈ s.entries) (hafter : after < e.id) :
    e ∈ s.xread count after ∨ ∀ e' ∈ s.xread count after, e'.id < e.id := by
  have hmem : e ∈ s.entries.filter fun e => after < e.id :=
    List.mem_filter.2 ⟨he, decide_eq_true hafter⟩
  have hfilter := hsorted.filter fun e => after < e.id
  rw [← List.take_append_drop count (s.entries.filter fun e => after < e.id)] at hmem hfilter
  rcases List.mem_append.1 hmem with hread | hleft
  · exact Or.inl hread
  · exact Or.inr fun e' he' => (List.pairwise_append.1 hfilter).2.2 e' he' e hleft

/-- A read finds nothing when there is nothing after the cursor. -/
theorem xread_eq_nil {count after : ℕ} (hcount : 0 < count) :
    s.xread count after = [] ↔ ∀ e ∈ s.entries, e.id ≤ after := by
  rw [Stream.xread, List.take_eq_nil_iff, List.filter_eq_nil_iff]
  simp [hcount.ne']

/-- The last entry has the greatest id. -/
theorem id_le_getLast {l : List (Entry α)} (hsorted : l.Pairwise fun a b => a.id < b.id)
    (hne : l ≠ []) (he : e ∈ l) : e.id ≤ (l.getLast hne).id := by
  rw [← List.dropLast_append_getLast hne] at hsorted he
  rcases List.mem_append.1 he with hbefore | hlast
  · exact ((List.pairwise_append.1 hsorted).2.2 e hbefore _ List.mem_cons_self).le
  · rw [List.mem_singleton.1 hlast]

/-- **Reads one after the other** return entries in order, and none of them twice. -/
theorem append_sublist {l l₁ l₂ : List (Entry α)} {after : ℕ}
    (hsorted : l.Pairwise fun a b => a.id < b.id) (h₁ : l₁.Sublist l) (h₂ : l₂.Sublist l)
    (hbefore : ∀ e ∈ l₁, e.id ≤ after) (hafter : ∀ e ∈ l₂, after < e.id) :
    (l₁ ++ l₂).Sublist l := by
  have happend : (l₁ ++ l₂).Pairwise fun a b => a.id < b.id :=
    List.pairwise_append.2 ⟨hsorted.sublist h₁, hsorted.sublist h₂,
      fun a ha b hb => (hbefore a ha).trans_lt (hafter b hb)⟩
  have hnodup : (l₁ ++ l₂).Nodup := happend.imp fun hlt heq => (heq ▸ hlt).false
  refine List.sublist_of_subperm_of_pairwise ?_ happend hsorted
  exact List.subperm_of_subset hnodup (List.append_subset.2 ⟨h₁.subset, h₂.subset⟩)

end RedisStream
