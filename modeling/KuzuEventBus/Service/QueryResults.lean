import KuzuEventBus.Service.Cancellation

/-!
# The results of a query

`src/application/usecases/get_query_results.py` beside the worker, which sets `COMPLETED` first and
puts the rows into the cache afterwards, and beside cancels, which delete them.

## Main definitions

* `Cache` — the keys of `RedisCacheService`, with their expiry.
* `getJobResults` — what the route makes of a result.
* `Action`, `step` — the worker and the cancels of `Cancellation`, with the cache, a clock and
  readers.
* `Demanded`, `ReturnsRows` — when a reader is to get the rows, and that it does.

## Main results

* `lookup_of_inv` — the rows are in the cache from a write that succeeds until a cancel deletes
  them.
* `eachStep_returnsRows_iff` — **readers get the rows throughout a run exactly when they read the
  cache after a write that has succeeded, which no cancel has deleted since.**
-/

namespace KuzuEventBus.Service.QueryResults

open Transactions

/-! ### The cache -/

/-- The keys of the cache: their values, and when they expire. -/
abbrev Cache := HashMap String (Json × Option Instant)

/-- `set`: the expiry is in seconds. -/
def Cache.set (cache : Cache) (key : String) (value : Json) (now : Instant)
    (expireSeconds : Option ℕ) : Cache :=
  cache.insert key (value, expireSeconds.map fun seconds => now + seconds * 1000000)

/-- `get`. -/
def Cache.get (cache : Cache) (key : String) (now : Instant) : Option Json :=
  match cache.lookup key with
  | none => none
  | some (value, none) => some value
  | some (value, some expires) => if now < expires then some value else none

/-- `delete`. -/
def Cache.delete (cache : Cache) (key : String) : Cache := cache.erase key

/-- The key of the results of a transaction. -/
def resultsKey (id : Uuid) : String := "tx_results:" ++ id.str

/-- The key a cancel deletes first. -/
def statusKey (id : Uuid) : String := "tx_status:" ++ id.str

/-- The value the worker stores. -/
def resultsOf (rows : List Json) : Json := .object [("results", .array rows)]

/-- The route: `results or {"results": []}`. -/
def getJobResults : Option Json → Json
  | some results => if truthy results then results else resultsOf []
  | none => resultsOf []

/-! ### The parties -/

/-- Where a call of `GetQueryResults` is. -/
inductive ReaderPhase where
  | idle
  /-- The transaction is of the tenant, and was completed. -/
  | found
  | returned (results : Option Json)
  | raised

/-- The worker and the cancels, the cache and the clock, and the readers; beside them whether the
worker has tried to store the rows, when it has set `COMPLETED`, when it has stored the rows, and
whether a cancel has deleted them since. -/
structure State (C R : Type) where
  parties : Cancellation.State C
  cache : Cache
  now : Instant
  cacheTried : Bool
  completedAt : Option Instant
  cachedAt : Option Instant
  deleted : Bool
  reader : R → ReaderPhase

/-- The steps. -/
inductive Action (C R : Type) where
  | party (a : Cancellation.Action C)
  | cacheSet (stores : Bool)
  | tick (microseconds : ℕ)
  | find (reader : R) (tenantId : Uuid)
  | get (reader : R)

/-- The worker has the message of a transaction that `SubmitAsyncQuery` has saved. -/
def init (C R : Type) (store : Store) (args : SaveArgs) (created : String) (now : Instant) :
    State C R :=
  ⟨Cancellation.init C store args created, ∅, now, false, none, none, false, fun _ => .idle⟩

variable {C R : Type} [DecidableEq C] [DecidableEq R]

/-- What is left of the round after `COMPLETED` comes after the cache. -/
def State.waits (s : State C R) : Cancellation.Action C → Bool
  | .finish | .raise _ => s.parties.worker = .recorded && !s.cacheTried
  | _ => false

/-- What a step of the worker or a cancel does to the cache and to the times. -/
def State.after (id : Uuid) (s : State C R) (a : Cancellation.Action C)
    (parties : Cancellation.State C) : State C R :=
  match a with
  | .write _ _ _ =>
    { s with
      parties := parties
      completedAt := if s.parties.worker = .checked .completed then some s.now else s.completedAt }
  | .cancelClearStatus _ =>
    { s with parties := parties, cache := s.cache.delete (statusKey id) }
  | .cancelClearResults _ =>
    { s with parties := parties, cache := s.cache.delete (resultsKey id), deleted := true }
  | _ => { s with parties := parties }

/-- `GetQueryResults` up to its tests. -/
def findResults (store : Store) (id tenantId : Uuid) : ReaderPhase :=
  match findById store id with
  | none => .returned none
  | some tx =>
    if tx.lookup "tenant_id" ≠ some tenantId.str then .raised
    else if tx.lookup "status" ≠ some "completed" then .raised
    else .found

/-- What a step does; `rows` are those the engine produces. -/
def step (id : Uuid) (rows : List Json) (s : State C R) : Action C R → Option (State C R)
  | .party a =>
    if s.waits a then none else (Cancellation.step id s.parties a).map (s.after id a)
  | .cacheSet stores =>
    if s.parties.worker = .recorded ∧ s.cacheTried = false then
      some (if stores then
        { s with
          cache := s.cache.set (resultsKey id) (resultsOf rows) s.now (some 3600)
          cacheTried := true
          cachedAt := some s.now
          deleted := false }
      else { s with cacheTried := true })
    else none
  | .tick microseconds => some { s with now := s.now + microseconds }
  | .find reader tenantId =>
    match s.reader reader with
    | .idle =>
      some { s with
        reader := Function.update s.reader reader (findResults s.parties.store id tenantId) }
    | _ => none
  | .get reader =>
    match s.reader reader with
    | .found =>
      some { s with
        reader := Function.update s.reader reader (.returned (s.cache.get (resultsKey id) s.now)) }
    | _ => none

/-! ### What is asked for -/

/-- The status is `COMPLETED`, and was set less than an hour ago. -/
def Demanded (id : Uuid) (s : State C R) : Prop :=
  s.parties.store.status id = some "completed" ∧
    ∃ t, s.completedAt = some t ∧ s.now < t + 3600 * 1000000

/-- A reader that reads the cache then returns the rows the engine has produced. -/
def ReturnsRows (id : Uuid) (rows : List Json) (s : State C R) (a : Action C R) (s' : State C R) :
    Prop :=
  ∀ reader, a = .get reader → Demanded id s →
    s'.reader reader = .returned (some (resultsOf rows))

/-- A reader reads the cache after a write that has succeeded, which no cancel has deleted since. -/
def Careful (id : Uuid) (s : State C R) (a : Action C R) : Prop :=
  ∀ reader, a = .get reader → Demanded id s → s.cachedAt.isSome = true ∧ s.deleted = false

/-! ### The invariant -/

/-- The worker has set `COMPLETED`, and sets it no more. -/
def isPast : Cancellation.WorkerPhase → Bool
  | .recorded | .done => true
  | .handling status | .checked status | .written status => status = .failed || status = .timeout
  | .dequeued | .loaded | .running | .executed => false

/-- What the cache holds, by the last write that has succeeded, and the order of the times. -/
structure Inv (id : Uuid) (rows : List Json) (s : State C R) : Prop where
  entry : s.cache.lookup (resultsKey id) =
    if s.deleted then none
    else s.cachedAt.map fun t => (resultsOf rows, some (t + 3600 * 1000000))
  past : s.cacheTried = true → isPast s.parties.worker = true
  tried : s.cachedAt.isSome = true → s.cacheTried = true
  completed : ∀ t, s.completedAt = some t → t ≤ s.now
  cached : ∀ t u, s.completedAt = some t → s.cachedAt = some u → t ≤ u

section Steps

variable {id : Uuid} {rows : List Json} {s s' : State C R}

theorem statusKey_ne_resultsKey (id : Uuid) : resultsKey id ≠ statusKey id := by
  intro heq
  have hchars := congrArg String.toList heq
  unfold resultsKey statusKey at hchars
  rw [String.toList_append, String.toList_append] at hchars
  -- the fourth letters differ
  have hfourth := congrArg (fun l => l[3]?) hchars
  simp at hfourth

theorem get_set (cache : Cache) (key : String) (value : Json) (now : Instant) (seconds : ℕ) :
    (cache.set key value now (some seconds)).lookup key =
      some (value, some (now + seconds * 1000000)) := AList.lookup_insert ..

theorem lookup_delete (cache : Cache) (key key' : String) :
    (cache.delete key).lookup key' = if key' = key then none else cache.lookup key' := by
  unfold Cache.delete
  split
  · next heq => rw [heq, AList.lookup_erase]
  · next hne => rw [AList.lookup_erase_ne hne]

/-- What the worker does after `COMPLETED`. -/
theorem isPast_of_goes {p p' : Cancellation.WorkerPhase} (hgoes : p.Goes p') (h : isPast p = true) :
    isPast p' = true := by
  cases hgoes with
  | stays => exact h
  | load | execute => cases h
  | @check p p' status hsets hp' =>
    have hfails : isPast (.checked status) = true := by
      cases p <;> cases hsets <;> exact h
    rcases hp' with rfl | rfl
    · exact hfails
    · cases status <;> first | rfl | cases hfails
  | write status => exact h
  | index status => cases status <;> first | rfl | cases h
  | @raise p status hstatus =>
    have hhandler : isPast (.handling status) = true := by
      rcases hstatus with rfl | rfl <;> rfl
    cases p with
    | checked status' | written status' => cases status' <;> first | rfl | exact hhandler
    | handling status' | done => rfl
    | dequeued | loaded | running | executed | recorded => exact hhandler
  | finish => rfl

omit [DecidableEq C] [DecidableEq R] in
/-- A step of the worker or a cancel keeps the invariant. -/
theorem inv_after (h : Inv id rows s) {a : Cancellation.Action C} {parties : Cancellation.State C}
    (hgoes : s.parties.worker.Goes parties.worker) : Inv id rows (s.after id a parties) := by
  have hpast : s.cacheTried = true → isPast parties.worker = true :=
    fun htried => isPast_of_goes hgoes (h.past htried)
  cases a with
  | write resultCount errorMessage updated =>
    refine ⟨h.entry, hpast, h.tried, fun t ht => ?_, fun t u ht hu => ?_⟩
    · dsimp only [State.after] at ht ⊢
      split at ht
      · cases ht
        exact le_rfl
      · exact h.completed t ht
    · dsimp only [State.after] at ht hu
      split at ht
      · next hphase =>
        -- the rows were not stored before `COMPLETED`
        have hcached := h.past (h.tried (by rw [hu]; rfl))
        rw [hphase] at hcached
        cases hcached
      · exact h.cached t u ht hu
  | cancelClearStatus c =>
    refine ⟨?_, hpast, h.tried, h.completed, h.cached⟩
    exact (lookup_delete ..).trans ((if_neg (statusKey_ne_resultsKey id)).trans h.entry)
  | cancelClearResults c =>
    refine ⟨?_, hpast, h.tried, h.completed, h.cached⟩
    exact (lookup_delete ..).trans (if_pos rfl)
  | load | check | index | execute | raise | finish | cancelFind | cancelLock | lockExpires
  | cancelCheck | cancelWrite | cancelIndex | cancelEmit | cancelRelease | cancelRaise =>
    exact ⟨h.entry, hpast, h.tried, h.completed, h.cached⟩

/-- Every step keeps the invariant. -/
theorem inv_step (h : Inv id rows s) {a : Action C R} (hstep : step id rows s a = some s') :
    Inv id rows s' := by
  cases a with
  | party a =>
    dsimp only [step] at hstep
    split at hstep
    · cases hstep
    · obtain ⟨parties, hparties, rfl⟩ := Option.map_eq_some_iff.1 hstep
      exact inv_after h (Cancellation.goes_of_step hparties)
  | cacheSet stores =>
    dsimp only [step] at hstep
    split at hstep
    · next hphase =>
      have hpast : isPast s.parties.worker = true := by
        rw [hphase.1]
        rfl
      cases stores with
      | false =>
        cases hstep
        exact ⟨h.entry, fun _ => hpast, fun _ => rfl, h.completed, h.cached⟩
      | true =>
        cases hstep
        refine ⟨get_set .., fun _ => hpast, fun _ => rfl, h.completed, fun t u ht hu => ?_⟩
        cases hu
        exact h.completed t ht
    · cases hstep
  | tick microseconds =>
    cases hstep
    exact ⟨h.entry, h.past, h.tried, fun t ht => (h.completed t ht).trans (Nat.le_add_right ..),
      h.cached⟩
  | find reader tenantId | get reader =>
    dsimp only [step] at hstep
    split at hstep
    · cases hstep
      exact ⟨h.entry, h.past, h.tried, h.completed, h.cached⟩
    · cases hstep

omit [DecidableEq C] [DecidableEq R] in
/-- **What the cache answers** within an hour of `COMPLETED`. -/
theorem get_of_inv (h : Inv id rows s) (hdemanded : Demanded id s) :
    s.cache.get (resultsKey id) s.now = some (resultsOf rows) ↔
      s.cachedAt.isSome = true ∧ s.deleted = false := by
  obtain ⟨-, t, ht, hnow⟩ := hdemanded
  unfold Cache.get
  rw [h.entry]
  cases hdeleted : s.deleted with
  | true => simp
  | false =>
    cases hcached : s.cachedAt with
    | none => simp
    | some u =>
      have hle := h.cached t u ht hcached
      have hlt : s.now < u + 3600 * 1000000 := hnow.trans_le (Nat.add_le_add_right hle _)
      simp [hlt]

/-- A step is careful exactly when a reader gets the rows. -/
theorem careful_iff (h : Inv id rows s) {a : Action C R} (hstep : step id rows s a = some s') :
    Careful id s a ↔ ReturnsRows id rows s a s' := by
  unfold Careful ReturnsRows
  refine forall_congr' fun reader => forall_congr' fun ha => forall_congr' fun hdemanded => ?_
  subst ha
  dsimp only [step] at hstep
  split at hstep
  · cases hstep
    dsimp only
    rw [Function.update_self, ReaderPhase.returned.injEq]
    exact (get_of_inv h hdemanded).symm
  · cases hstep

end Steps

/-! ### Runs -/

omit [DecidableEq C] [DecidableEq R] in
theorem inv_init (rows : List Json) (store : Store) (args : SaveArgs) (created : String)
    (now : Instant) : Inv args.transactionId rows (init C R store args created now) :=
  ⟨rfl, nofun, nofun, nofun, nofun⟩

/-- **Readers get the rows throughout a run exactly when they read the cache after a write that has
succeeded, which no cancel has deleted since.** -/
theorem eachStep_returnsRows_iff (rows : List Json) (store : Store) (args : SaveArgs)
    (created : String) (now : Instant) (actions : List (Action C R)) :
    Runs.EachStep (step args.transactionId rows) (ReturnsRows args.transactionId rows)
        (init C R store args created now) actions ↔
      Runs.EachStep (step args.transactionId rows) (fun s a _ => Careful args.transactionId s a)
        (init C R store args created now) actions := by
  refine Runs.eachStep_iff (fun s a s' h hstep => ?_) (fun s a s' h hstep => ?_)
    (inv_init rows store args created now) actions
  · exact careful_iff h hstep
  · exact inv_step h hstep

/-- The round up to `COMPLETED`, and a reader that finds it. -/
def completedAndFound : List (Action Unit Unit) :=
  [.party .load, .party .check, .party (.write 0 none "t1"), .party .index, .party .execute,
    .party .check, .party (.write 1 none "t2"), .party .index, .find () 0]

/-- **A reader between the status and the cache gets nothing.** -/
theorem not_eachStep_returnsRows :
    ¬ Runs.EachStep (step 7 [.null]) (ReturnsRows 7 [.null]) (init Unit Unit .empty waiting "t0" 0)
        (completedAndFound ++ [.get ()]) := by
  intro h
  obtain ⟨s, s', hrun, hstep, hstatus, hcompleted, hnow, hget⟩ : ∃ s s',
      Runs.run (step 7 [.null]) (init Unit Unit .empty waiting "t0" 0) completedAndFound = some s ∧
        step 7 [.null] s (.get ()) = some s' ∧ s.parties.store.status 7 = some "completed" ∧
        s.completedAt = some 0 ∧ s.now = 0 ∧ s'.reader () = .returned none :=
    ⟨_, _, rfl, rfl, by decide +kernel, rfl, rfl, rfl⟩
  have hrows := h _ _ List.prefix_rfl s s' hrun hstep () rfl
    ⟨hstatus, 0, hcompleted, by rw [hnow]; decide⟩
  rw [hget] at hrows
  cases hrows

end KuzuEventBus.Service.QueryResults
