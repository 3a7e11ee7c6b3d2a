import KuzuEventBus.Lib.Runs
import KuzuEventBus.Service.QueryWorker
import Mathlib.Data.Finset.Card
import Mathlib.Data.Finset.Insert
import Mathlib.Logic.Function.Basic

/-!
# Favorites

`src/infrastructure/database/query_catalog_repository.py`: a tenant may have ten favorites in a
database.  `add_favorite` looks for the query, counts the rows and inserts one, each with a
statement of its own, in a transaction under `READ COMMITTED`: a statement reads what is committed
when it starts.

The primary key is what PostgreSQL makes of it: an insertion waits for a transaction that has
inserted or deleted a row of its key, and raises when such a row is committed.  Texts and times of
the rows are left out.

## Main definitions

* `FavoriteKey`, `Phase`, `State`, `Action`, `step` — the transactions, one statement at a time.
* `AtMostTen`, `Accepted` — what is asked for.
* `Undisturbed` — what a step has to meet.

## Main results

* `atMostTen_commit_iff` — when a commit keeps to ten.
* `always_atMostTen_iff` — **there are never more than ten, and no favorite is refused, exactly when
  what the statements before have read still holds where it is used.**
-/

namespace KuzuEventBus.Service.Favorites

/-! ### The transactions -/

/-- The primary key of `query_favorites`. -/
structure FavoriteKey where
  tenantId : Uuid
  databaseId : Uuid
  queryHash : String
  deriving DecidableEq

/-- Where a client is. -/
inductive Phase where
  /-- Between calls. -/
  | idle
  /-- `add_favorite`, which has not found the query. -/
  | checked (key : FavoriteKey)
  /-- It has counted fewer than ten rows. -/
  | counted (key : FavoriteKey)
  /-- It has inserted the row. -/
  | inserted (key : FavoriteKey)
  /-- `remove_favorite` has executed its statement, which has found a row or not. -/
  | deleted (key : FavoriteKey) (found : Bool)
  deriving DecidableEq

/-- The query a client is about to add. -/
def Phase.adds : Phase → Option FavoriteKey
  | checked key | counted key | inserted key => some key
  | idle | deleted _ _ => none

/-- The committed rows, the keys of the rows that are inserted or deleted and not committed, the
clients, and whether the query a client adds has become a favorite since its first statement. -/
structure State (C : Type) where
  committed : Finset FavoriteKey
  inserting : Finset FavoriteKey
  deleting : Finset FavoriteKey
  phase : C → Phase
  became : C → Bool

/-- The statements and the commits. -/
inductive Action (C : Type) where
  /-- `add_favorite`, its first statement. -/
  | check (c : C) (key : FavoriteKey)
  /-- The second. -/
  | count (c : C)
  /-- The third. -/
  | insert (c : C)
  /-- `remove_favorite`, its statement. -/
  | delete (c : C) (key : FavoriteKey)
  /-- The commit of either. -/
  | commit (c : C)
  /-- An exception ends the call of a client, and its transaction is rolled back. -/
  | fail (c : C)

/-- The favorites of a tenant in a database. -/
def favoritesOf (rows : Finset FavoriteKey) (tenantId databaseId : Uuid) : Finset FavoriteKey :=
  rows.filter fun key => key.tenantId = tenantId ∧ key.databaseId = databaseId

/-- `COUNT(*)` for the query that is added. -/
def State.countFor {C : Type} (s : State C) (key : FavoriteKey) : ℕ :=
  (favoritesOf s.committed key.tenantId key.databaseId).card

/-- There are no favorites. -/
def init (C : Type) : State C := ⟨∅, ∅, ∅, fun _ => .idle, fun _ => false⟩

section

variable {C : Type} [DecidableEq C]

/-- A client goes on to a phase. -/
def State.goes (s : State C) (c : C) (p : Phase) : State C :=
  { s with phase := Function.update s.phase c p }

/-- The transaction of a client is rolled back. -/
def State.rollback (s : State C) (c : C) : State C :=
  match s.phase c with
  | .inserted key => { s.goes c .idle with inserting := s.inserting.erase key }
  | .deleted key true => { s.goes c .idle with deleting := s.deleting.erase key }
  | _ => s.goes c .idle

/-- The row a client has inserted is committed. -/
def State.commitInsert (s : State C) (c : C) (key : FavoriteKey) : State C :=
  { s.goes c .idle with
    committed := Insert.insert key s.committed
    inserting := s.inserting.erase key
    became := fun c' => s.became c' || decide ((s.phase c').adds = some key) }

/-- The deletion of a row is committed. -/
def State.commitDelete (s : State C) (c : C) (key : FavoriteKey) : State C :=
  { s.goes c .idle with
    committed := s.committed.erase key
    deleting := s.deleting.erase key }

/-- One step; a statement that waits is not enabled. -/
def step (s : State C) : Action C → Option (State C)
  | .check c key =>
    match s.phase c with
    | .idle =>
      if key ∈ s.committed then some s
      else some { s.goes c (.checked key) with became := Function.update s.became c false }
    | _ => none
  | .count c =>
    match s.phase c with
    | .checked key =>
      if 10 ≤ s.countFor key then some (s.goes c .idle) else some (s.goes c (.counted key))
    | _ => none
  | .insert c =>
    match s.phase c with
    | .counted key =>
      if key ∈ s.inserting ∨ key ∈ s.deleting then none
      else if key ∈ s.committed then some (s.goes c .idle)
      else some { s.goes c (.inserted key) with inserting := Insert.insert key s.inserting }
    | _ => none
  | .delete c key =>
    match s.phase c with
    | .idle =>
      if key ∈ s.deleting then none
      else if key ∈ s.committed then
        some { s.goes c (.deleted key true) with deleting := Insert.insert key s.deleting }
      else some (s.goes c (.deleted key false))
    | _ => none
  | .commit c =>
    match s.phase c with
    | .inserted key => some (s.commitInsert c key)
    | .deleted key true => some (s.commitDelete c key)
    | .deleted _ false => some (s.goes c .idle)
    | _ => none
  | .fail c => some (s.rollback c)

/-! ### What is asked for -/

/-- `BusinessRuleViolation`, or a violation of the primary key: the step lets the call of a client
raise, for a query. -/
def Action.refuses (s : State C) : Action C → Option (C × FavoriteKey)
  | .count c =>
    match s.phase c with
    | .checked key => if 10 ≤ s.countFor key then some (c, key) else none
    | _ => none
  | .insert c =>
    match s.phase c with
    | .counted key => if key ∈ s.committed then some (c, key) else none
    | _ => none
  | _ => none

/-- **No database has more than ten committed favorites.** -/
def AtMostTen (s : State C) : Prop :=
  ∀ tenantId databaseId, (favoritesOf s.committed tenantId databaseId).card ≤ 10

/-- **A query that is refused is no favorite, and has not become one since its first statement.** -/
def Accepted (s : State C) (a : Action C) (_ : State C) : Prop :=
  ∀ c key, a.refuses s = some (c, key) → key ∉ s.committed ∧ s.became c = false

/-- There are still fewer than ten rows when an insertion is committed, the row is still missing
when it is inserted, and when ten rows are counted the query has not become a favorite. -/
def Undisturbed (s : State C) (a : Action C) (_ : State C) : Prop :=
  match a with
  | .count c => ∀ key, s.phase c = .checked key → 10 ≤ s.countFor key →
      key ∉ s.committed ∧ s.became c = false
  | .insert c => ∀ key, s.phase c = .counted key → key ∉ s.committed
  | .commit c => ∀ key, s.phase c = .inserted key → s.countFor key < 10
  | .check _ _ | .delete _ _ | .fail _ => True

/-! ### What the steps keep -/

/-- A row that is inserted and not committed is not committed by another, and is inserted once. -/
structure Inv (s : State C) : Prop where
  atMostTen : AtMostTen s
  inserted : ∀ c key, s.phase c = .inserted key → key ∈ s.inserting ∧ key ∉ s.committed
  unique : ∀ c c' key, s.phase c = .inserted key → s.phase c' = .inserted key → c = c'

section Steps

variable {s s' : State C} {c : C} {key : FavoriteKey}

omit [DecidableEq C] in
theorem favoritesOf_mono {rows rows' : Finset FavoriteKey} (h : rows' ⊆ rows)
    (tenantId databaseId : Uuid) :
    favoritesOf rows' tenantId databaseId ⊆ favoritesOf rows tenantId databaseId :=
  Finset.filter_subset_filter _ h

omit [DecidableEq C] in
/-- Fewer rows keep to ten. -/
theorem AtMostTen.mono (h : AtMostTen s) (hsub : s'.committed ⊆ s.committed) : AtMostTen s' :=
  fun tenantId databaseId =>
    (Finset.card_le_card (favoritesOf_mono hsub tenantId databaseId)).trans (h tenantId databaseId)

/-- **A commit keeps to ten exactly when there are fewer before it.** -/
theorem atMostTen_commit_iff (h : AtMostTen s) (hnew : key ∉ s.committed) :
    AtMostTen (s.commitInsert c key) ↔ s.countFor key < 10 := by
  have hcommitted : (s.commitInsert c key).committed = Insert.insert key s.committed := rfl
  unfold AtMostTen
  rw [hcommitted]
  have hown : favoritesOf (Insert.insert key s.committed) key.tenantId key.databaseId =
      Insert.insert key (favoritesOf s.committed key.tenantId key.databaseId) := by
    simp [favoritesOf, Finset.filter_insert]
  have hcard : (favoritesOf (Insert.insert key s.committed) key.tenantId key.databaseId).card =
      s.countFor key + 1 := by
    have hnot : key ∉ favoritesOf s.committed key.tenantId key.databaseId :=
      fun hmem => hnew (Finset.mem_filter.mp hmem).1
    rw [hown, Finset.card_insert_of_notMem hnot]
    rfl
  constructor
  · intro hten
    have hle := hten key.tenantId key.databaseId
    omega
  · intro hlt tenantId databaseId
    by_cases hkey : key.tenantId = tenantId ∧ key.databaseId = databaseId
    · obtain ⟨rfl, rfl⟩ := hkey
      omega
    · have hother : favoritesOf (Insert.insert key s.committed) tenantId databaseId =
          favoritesOf s.committed tenantId databaseId := by
        simp [favoritesOf, Finset.filter_insert, hkey]
      rw [hother]
      exact h tenantId databaseId

/-- A client that goes on to a phase without a row that is not committed keeps the rows of the
others. -/
theorem Inv.goes (h : Inv s) {p : Phase} (hp : ∀ key, p ≠ .inserted key)
    {committed inserting deleting : Finset FavoriteKey} {became : C → Bool}
    (hcommitted : committed ⊆ s.committed)
    (hinserting : ∀ c' key, c' ≠ c → s.phase c' = .inserted key → key ∈ inserting) :
    Inv ⟨committed, inserting, deleting, Function.update s.phase c p, became⟩ := by
  have hothers : ∀ c' key, Function.update s.phase c p c' = .inserted key →
      c' ≠ c ∧ s.phase c' = .inserted key := by
    intro c' key hphase
    obtain rfl | hne := eq_or_ne c' c
    · rw [Function.update_self] at hphase
      exact absurd hphase (hp key)
    · rw [Function.update_of_ne hne] at hphase
      exact ⟨hne, hphase⟩
  refine ⟨h.atMostTen.mono hcommitted, fun c' key hphase => ?_, fun c₁ c₂ key h₁ h₂ => ?_⟩
  · obtain ⟨hne, hphase⟩ := hothers c' key hphase
    exact ⟨hinserting c' key hne hphase, fun hmem => (h.inserted c' key hphase).2 (hcommitted hmem)⟩
  · exact h.unique c₁ c₂ key (hothers c₁ key h₁).2 (hothers c₂ key h₂).2

omit [DecidableEq C] in
/-- The rows the others have inserted stay when a client's own is committed or rolled back. -/
theorem Inv.mem_erase (h : Inv s) (hphase : s.phase c = .inserted key) (c' : C) (key' : FavoriteKey)
    (hne : c' ≠ c) (hphase' : s.phase c' = .inserted key') : key' ∈ s.inserting.erase key := by
  refine Finset.mem_erase.mpr ⟨fun heq => hne ?_, (h.inserted c' key' hphase').1⟩
  rw [heq] at hphase'
  exact h.unique c' c key hphase' hphase

/-- A row is inserted that no other client has inserted. -/
theorem Inv.insert (h : Inv s) (hnew : key ∉ s.inserting) (hmissing : key ∉ s.committed) :
    Inv { s.goes c (.inserted key) with inserting := Insert.insert key s.inserting } := by
  refine ⟨h.atMostTen, fun c' key' hphase => ?_, fun c₁ c₂ key' h₁ h₂ => ?_⟩
  · dsimp only [State.goes] at hphase ⊢
    obtain rfl | hne := eq_or_ne c' c
    · rw [Function.update_self] at hphase
      cases hphase
      exact ⟨Finset.mem_insert_self _ _, hmissing⟩
    · rw [Function.update_of_ne hne] at hphase
      obtain ⟨hmem, hnot⟩ := h.inserted c' key' hphase
      exact ⟨Finset.mem_insert_of_mem hmem, hnot⟩
  · -- the others have other keys
    have hkey : ∀ c', c' ≠ c → Function.update s.phase c (.inserted key) c' = .inserted key' →
        s.phase c' = .inserted key' ∧ key' ≠ key := by
      intro c' hne hphase
      rw [Function.update_of_ne hne] at hphase
      exact ⟨hphase, fun heq => hnew (heq ▸ (h.inserted c' key' hphase).1)⟩
    dsimp only [State.goes] at h₁ h₂
    obtain rfl | hne₁ := eq_or_ne c₁ c
    · obtain rfl | hne₂ := eq_or_ne c₂ c₁
      · rfl
      · rw [Function.update_self] at h₁
        cases h₁
        exact absurd rfl (hkey c₂ hne₂ h₂).2
    · obtain rfl | hne₂ := eq_or_ne c₂ c
      · rw [Function.update_self] at h₂
        cases h₂
        exact absurd rfl (hkey c₁ hne₁ h₁).2
      · exact h.unique c₁ c₂ key' (hkey c₁ hne₁ h₁).1 (hkey c₂ hne₂ h₂).1

theorem Inv.commitInsert (h : Inv s) (hphase : s.phase c = .inserted key)
    (hlt : s.countFor key < 10) : Inv (s.commitInsert c key) := by
  have hothers : ∀ c' key', (s.commitInsert c key).phase c' = .inserted key' →
      c' ≠ c ∧ s.phase c' = .inserted key' := by
    intro c' key' hphase'
    dsimp only [State.commitInsert, State.goes] at hphase'
    obtain rfl | hne := eq_or_ne c' c
    · rw [Function.update_self] at hphase'
      cases hphase'
    · rw [Function.update_of_ne hne] at hphase'
      exact ⟨hne, hphase'⟩
  have hten := (atMostTen_commit_iff (c := c) h.atMostTen (h.inserted c key hphase).2).mpr hlt
  refine ⟨hten, fun c' key' hphase' => ?_, fun c₁ c₂ key' h₁ h₂ => ?_⟩
  · obtain ⟨hne, hphase'⟩ := hothers c' key' hphase'
    have hmem := h.mem_erase hphase c' key' hne hphase'
    refine ⟨hmem, fun hcommitted => ?_⟩
    rcases Finset.mem_insert.mp hcommitted with heq | hold
    · exact (Finset.mem_erase.mp hmem).1 heq
    · exact (h.inserted c' key' hphase').2 hold
  · exact h.unique c₁ c₂ key' (hothers c₁ key' h₁).2 (hothers c₂ key' h₂).2

theorem Inv.rollback (h : Inv s) (c : C) : Inv (s.rollback c) := by
  have hidle : ∀ key, Phase.idle ≠ .inserted key := fun _ => nofun
  have hold : ∀ c' key, c' ≠ c → s.phase c' = .inserted key → key ∈ s.inserting :=
    fun c' key _ hphase => (h.inserted c' key hphase).1
  unfold State.rollback
  split
  · next key hphase => exact h.goes hidle subset_rfl (h.mem_erase hphase)
  · exact h.goes hidle subset_rfl hold
  · exact h.goes hidle subset_rfl hold

/-- **An undisturbed step keeps all of this.** -/
theorem inv_step {a : Action C} (h : Inv s) (hstep : step s a = some s')
    (hok : Undisturbed s a s') : Inv s' := by
  have hold (c : C) : ∀ c' key, c' ≠ c → s.phase c' = .inserted key → key ∈ s.inserting :=
    fun c' key _ hphase => (h.inserted c' key hphase).1
  cases a with
  | check c key =>
    dsimp only [step] at hstep
    split at hstep
    · split at hstep
      · cases hstep
        exact h
      · cases hstep
        exact h.goes (fun _ h => by cases h) subset_rfl (hold c)
    · cases hstep
  | count c =>
    dsimp only [step] at hstep
    split at hstep
    · split at hstep
      · cases hstep
        exact h.goes (fun _ h => by cases h) subset_rfl (hold c)
      · cases hstep
        exact h.goes (fun _ h => by cases h) subset_rfl (hold c)
    · cases hstep
  | insert c =>
    dsimp only [step] at hstep
    split at hstep
    · next key hphase =>
      split at hstep
      · cases hstep
      -- a key that another transaction is writing makes the insert wait
      · next hfree =>
        split at hstep
        · cases hstep
          exact h.goes (fun _ h => by cases h) subset_rfl (hold c)
        · next hmissing =>
          cases hstep
          exact h.insert (not_or.mp hfree).1 hmissing
    · cases hstep
  | delete c key =>
    dsimp only [step] at hstep
    split at hstep
    · split at hstep
      · cases hstep
      · split at hstep
        · cases hstep
          exact h.goes (fun _ h => by cases h) subset_rfl (hold c)
        · cases hstep
          exact h.goes (fun _ h => by cases h) subset_rfl (hold c)
    · cases hstep
  | commit c =>
    dsimp only [step] at hstep
    split at hstep
    · next key hphase =>
      cases hstep
      exact h.commitInsert hphase (hok key hphase)
    · cases hstep
      exact h.goes (fun _ h => by cases h) (Finset.erase_subset _ _) (hold c)
    · cases hstep
      exact h.goes (fun _ h => by cases h) subset_rfl (hold c)
    · cases hstep
  | fail c =>
    cases hstep
    exact h.rollback c

/-- Counting refuses a query when there are ten rows. -/
theorem accepted_count_iff (hstep : step s (.count c) = some s') :
    Accepted s (.count c) s' ↔ Undisturbed s (.count c) s' := by
  dsimp only [step] at hstep
  split at hstep
  · next key hphase =>
    simp only [Accepted, Action.refuses, Undisturbed, hphase, Option.ite_none_right_eq_some,
      Option.some.injEq, Prod.mk.injEq, Phase.checked.injEq, forall_eq']
    constructor
    · intro h hten
      exact h c key ⟨hten, rfl, rfl⟩
    · rintro h c' key' ⟨hten, rfl, rfl⟩
      exact h hten
  · cases hstep

/-- Inserting refuses a query when its row is committed, and then it is a favorite. -/
theorem accepted_insert_iff (hstep : step s (.insert c) = some s') :
    Accepted s (.insert c) s' ↔ Undisturbed s (.insert c) s' := by
  dsimp only [step] at hstep
  split at hstep
  · next key hphase =>
    simp only [Accepted, Action.refuses, Undisturbed, hphase, Option.ite_none_right_eq_some,
      Option.some.injEq, Prod.mk.injEq, Phase.counted.injEq, forall_eq']
    constructor
    · intro h hmem
      exact (h c key ⟨hmem, rfl, rfl⟩).1 hmem
    · rintro h c' key' ⟨hmem, rfl, rfl⟩
      exact absurd hmem h
  · cases hstep

/-- A statement commits nothing. -/
theorem committed_of_step {a : Action C} (hstep : step s a = some s') (ha : ∀ c, a ≠ .commit c) :
    s'.committed = s.committed := by
  cases a with
  | commit c => exact absurd rfl (ha c)
  | fail c =>
    cases hstep
    unfold State.rollback
    split <;> rfl
  | check c key | count c | insert c | delete c key =>
    dsimp only [step] at hstep
    repeat' split at hstep
    all_goals first | (cases hstep; rfl) | cases hstep

/-- **A step is undisturbed exactly when it keeps to ten and refuses no favorite.** -/
theorem undisturbed_iff {a : Action C} (h : Inv s) (hstep : step s a = some s') :
    Undisturbed s a s' ↔ AtMostTen s' ∧ Accepted s a s' := by
  have hkeeps (ha : ∀ c, a ≠ .commit c) : AtMostTen s' :=
    h.atMostTen.mono (committed_of_step hstep ha).le
  cases a with
  | check c key | delete c key | fail c =>
    exact iff_of_true trivial ⟨hkeeps fun _ => nofun, fun _ _ => nofun⟩
  | count c => rw [accepted_count_iff hstep, and_iff_right (hkeeps fun _ => nofun)]
  | insert c => rw [accepted_insert_iff hstep, and_iff_right (hkeeps fun _ => nofun)]
  | commit c =>
    have haccepted : Accepted s (.commit c) s' := fun _ _ => nofun
    rw [and_iff_left haccepted]
    refine ⟨fun hok => (inv_step h hstep hok).atMostTen, fun hten key hphase => ?_⟩
    dsimp only [step] at hstep
    rw [hphase] at hstep
    cases hstep
    exact (atMostTen_commit_iff h.atMostTen (h.inserted c key hphase).2).mp hten

end Steps

omit [DecidableEq C] in
theorem inv_init : Inv (init C) := by
  refine ⟨fun tenantId databaseId => ?_, fun _ _ => nofun, fun _ _ _ => nofun⟩
  simp [init, favoritesOf]

/-- **There are never more than ten favorites, and none is refused, exactly when what the statements
before have read still holds where it is used.** -/
theorem always_atMostTen_iff (actions : List (Action C)) :
    (Runs.Always step AtMostTen (init C) actions ∧ Runs.EachStep step Accepted (init C) actions) ↔
      Runs.EachStep step Undisturbed (init C) actions :=
  Runs.always_and_eachStep_iff (fun s (h : Inv s) => h.atMostTen)
    (fun _ _ _ h hstep => undisturbed_iff h hstep)
    (fun _ _ _ h hstep hok => inv_step h hstep hok) inv_init actions

/-- A query of database 1 of tenant 7. -/
def someQuery (n : ℕ) : FavoriteKey := ⟨7, 1, toString n⟩

/-- `add_favorite`, with no other call in between. -/
def addFavorite (c : Bool) (key : FavoriteKey) : List (Action Bool) :=
  [.check c key, .count c, .insert c, .commit c]

/-- Nine favorites, and two clients that add one each at the same time. -/
def eleven : List (Action Bool) :=
  ((List.range 9).flatMap fun n => addFavorite true (someQuery n)) ++
    [.check true (someQuery 9), .check false (someQuery 10), .count true, .count false,
      .insert true, .insert false, .commit true, .commit false]

/-- **Two clients that count nine favorites each make them eleven, and of two that add one query one
is refused.** -/
theorem not_atMostTen_eleven :
    ¬ Runs.Always step AtMostTen (init Bool) eleven ∧
      ¬ Runs.EachStep step Accepted (init Bool)
        ([.check true (someQuery 0), .check false (someQuery 0), .count true, .count false,
          .insert true, .commit true] ++ [.insert false]) := by
  constructor
  · intro h
    obtain ⟨s, hrun, hcount⟩ : ∃ s, Runs.run step (init Bool) eleven = some s ∧
        (favoritesOf s.committed 7 1).card = 11 := ⟨_, rfl, by decide +kernel⟩
    have hten := h eleven List.prefix_rfl s hrun 7 1
    omega
  · refine Runs.not_eachStep_concat (by decide +kernel) (by decide +kernel) fun h => ?_
    exact absurd (h false (someQuery 0) (by decide +kernel)).1 (by decide +kernel)

end

end KuzuEventBus.Service.Favorites
