import KuzuEventBus.Service.Transactions

/-!
# The status of a query

`src/application/usecases/get_query_status.py` beside the writers of one transaction.  A reader
looks for the transaction in a cache before it asks the repository, and stores there what it has
found; of the writers only `CancelQuery` deletes the entry, after its write.

The calls on the repository and on the cache are one step each.  The calls of a worker and of a
cancel are among the steps, in any order.

## Main definitions

* `Copy`, `Phase`, `State`, `Action`, `step` — the readers, the writers and the cache.
* `Fresh` — an answer is a status the transaction has had during the call.
* `Overtaken`, `HitsCurrent` — a copy that a write has overtaken, and what a step has to meet.

## Main results

* `not_overtaken_iff` — which copies a write has not overtaken.
* `fresh_iff` — **answers are fresh exactly when no hit is on a copy that was overtaken before the
  call began.**
-/

namespace KuzuEventBus.Service.QueryStatus

open Transactions

/-! ### Readers and writers -/

/-- A transaction as it was read from the repository, after how many writes of its status. -/
structure Copy where
  tx : Hash
  readAt : ℕ

/-- Where a call of `GetQueryStatus` is; it has begun after so many writes. -/
inductive Phase where
  | idle
  /-- The permission is to be checked. -/
  | started (tenantId : Uuid) (begun : ℕ)
  | permitted (tenantId : Uuid) (begun : ℕ)
  /-- The cache has no entry for the tenant. -/
  | missed (tenantId : Uuid) (begun : ℕ)
  /-- The repository has the transaction, and it is the tenant's. -/
  | found (copy : Copy) (begun : ℕ)

/-- When the call has begun. -/
def Phase.begun : Phase → Option ℕ
  | idle => none
  | started _ begun | permitted _ begun | missed _ begun | found _ begun => some begun

/-- The repository, the entry `tx_status:{transaction_id}` of the cache, the readers, and the
statuses that were written, the first one first. -/
structure State (C : Type) where
  store : Store
  cache : Option Copy
  phase : C → Phase
  written : List String

/-- The steps of the readers and the writers. -/
inductive Action (C : Type) where
  /-- A call begins. -/
  | start (c : C) (tenantId : Uuid)
  /-- `check_permission`, with its answer. -/
  | permit (c : C) (allowed : Bool)
  /-- `self._cache.get` -/
  | get (c : C)
  /-- `find_by_id` -/
  | find (c : C)
  /-- `self._cache.set`, and the return of what was found. -/
  | set (c : C)
  /-- An exception ends a call. -/
  | fail (c : C)
  /-- `save_transaction` -/
  | save (args : SaveArgs) (created : String)
  /-- `update_status` -/
  | update (status : TransactionStatus) (resultCount : ℤ) (errorMessage : Option String)
      (updated : String)
  /-- `CancelQuery` deletes the entry of the cache. -/
  | clear
  /-- The entry expires. -/
  | expire

/-- Before any call. -/
def init (C : Type) : State C := ⟨.empty, none, fun _ => .idle, []⟩

/-- `save_transaction`, when no other call comes between its commands. -/
def saveTransaction (s : Store) (args : SaveArgs) (created : String) : Store :=
  let s := (s.hset args.transactionId (saveMapping args created)).saddTenant args.tenantId
    args.transactionId
  if args.status = .running then s.saddRunning args.transactionId else s

/-- The transaction is of the tenant. -/
def isOf (tx : Hash) (tenantId : Uuid) : Bool := tx.lookup "tenant_id" = some tenantId.str

/-- The entry of the cache, if it is the tenant's. -/
def State.hit {C : Type} (s : State C) (tenantId : Uuid) : Option Copy :=
  s.cache.filter fun copy => isOf copy.tx tenantId

section

variable {C : Type} [DecidableEq C]

/-- A reader goes on to a phase. -/
def State.goes (s : State C) (c : C) (p : Phase) : State C :=
  { s with phase := Function.update s.phase c p }

/-- One step, for the transaction of an id. -/
def step (id : Uuid) (s : State C) : Action C → Option (State C)
  | .start c tenantId =>
    match s.phase c with
    | .idle => some (s.goes c (.started tenantId s.written.length))
    | _ => none
  | .permit c allowed =>
    match s.phase c with
    | .started tenantId begun =>
      some (s.goes c (if allowed then .permitted tenantId begun else .idle))
    | _ => none
  | .get c =>
    match s.phase c with
    | .permitted tenantId begun =>
      match s.hit tenantId with
      | some _ => some (s.goes c .idle)
      | none => some (s.goes c (.missed tenantId begun))
    | _ => none
  | .find c =>
    match s.phase c with
    | .missed tenantId begun =>
      match findById s.store id with
      | none => some (s.goes c .idle)
      | some tx =>
        if isOf tx tenantId then some (s.goes c (.found ⟨tx, s.written.length⟩ begun))
        else some (s.goes c .idle)
    | _ => none
  | .set c =>
    match s.phase c with
    | .found copy _ => some { s.goes c .idle with cache := some copy }
    | _ => none
  | .fail c => some (s.goes c .idle)
  | .save args created =>
    if args.transactionId = id then
      some { s with
        store := saveTransaction s.store args created
        written := s.written ++ [args.status.value] }
    else none
  | .update status resultCount errorMessage updated =>
    match updateStatus s.store id status resultCount errorMessage updated with
    | (true, store) => some { s with store, written := s.written ++ [status.value] }
    | (false, _) => some s
  | .clear => some { s with cache := none }
  | .expire => some { s with cache := none }

/-! ### What is asked for -/

/-- What a step returns to the caller: a transaction, and when the call has begun. -/
def Action.answer (s : State C) : Action C → Option (Hash × ℕ)
  | .get c =>
    match s.phase c with
    | .permitted tenantId begun => (s.hit tenantId).map fun copy => (copy.tx, begun)
    | _ => none
  | .set c =>
    match s.phase c with
    | .found copy begun => some (copy.tx, begun)
    | _ => none
  | _ => none

/-- The statuses the transaction has had since there were so many writes: the last of those, and
the ones after it. -/
def State.statusesSince (s : State C) (begun : ℕ) : List String := s.written.drop (begun - 1)

/-- **The status that is returned is one the transaction has had since the call began.** -/
def Fresh (s : State C) (a : Action C) (_ : State C) : Prop :=
  ∀ tx begun, a.answer s = some (tx, begun) →
    ∃ status ∈ s.statusesSince begun, tx.lookup "status" = some status

/-- A write that came after the copy was read and before a call began has set another status, and no
write since has set the one of the copy again. -/
def Overtaken (s : State C) (copy : Copy) (begun : ℕ) : Prop :=
  ∃ n, copy.readAt ≤ n ∧ n < begun ∧
    ∀ status ∈ s.written.drop n, copy.tx.lookup "status" ≠ some status

/-- The entry of the cache that is hit has not been overtaken before the call began. -/
def HitsCurrent (s : State C) (a : Action C) (_ : State C) : Prop :=
  match a with
  | .get c => ∀ tenantId begun copy, s.phase c = .permitted tenantId begun →
      s.hit tenantId = some copy → ¬ Overtaken s copy begun
  | _ => True

/-! ### What the steps keep -/

/-- A copy has the status that was the last one when it was read. -/
def Recorded (written : List String) (copy : Copy) : Prop :=
  ∃ n status, copy.readAt = n + 1 ∧ written[n]? = some status ∧
    copy.tx.lookup "status" = some status

/-- The stored status is the last that was written, and so is that of a copy when it is read. -/
structure Inv (id : Uuid) (s : State C) : Prop where
  stored : ∀ tx, findById s.store id = some tx →
    ∃ status, s.written.getLast? = some status ∧ tx.lookup "status" = some status
  cache : ∀ copy, s.cache = some copy → Recorded s.written copy
  found : ∀ c copy begun, s.phase c = .found copy begun →
    Recorded s.written copy ∧ begun ≤ copy.readAt
  begun : ∀ c begun, (s.phase c).begun = some begun → begun ≤ s.written.length

section Steps

variable {id : Uuid} {s s' : State C} {written : List String} {copy : Copy} {begun : ℕ}

theorem Recorded.concat (h : Recorded written copy) (status : String) :
    Recorded (written ++ [status]) copy := by
  obtain ⟨n, old, hread, hold, htx⟩ := h
  refine ⟨n, old, hread, ?_, htx⟩
  rw [List.getElem?_append_left (List.getElem?_eq_some_iff.mp hold).1]
  exact hold

omit [DecidableEq C] in
/-- **A copy has not been overtaken exactly when the transaction has had its status since.** -/
theorem not_overtaken_iff (h : Recorded s.written copy) : ¬ Overtaken s copy begun ↔
    ∃ status ∈ s.statusesSince begun, copy.tx.lookup "status" = some status := by
  obtain ⟨n, status, hread, hstatus, htx⟩ := h
  have hmem (m : ℕ) (hle : m ≤ n) : status ∈ s.written.drop m := by
    rw [List.mem_iff_getElem?]
    refine ⟨n - m, ?_⟩
    rw [List.getElem?_drop, show m + (n - m) = n by omega]
    exact hstatus
  unfold Overtaken State.statusesSince
  constructor
  · intro hnot
    by_contra hgone
    have hmissing : status ∉ s.written.drop (begun - 1) := fun hin => hgone ⟨status, hin, htx⟩
    -- the copy was read before the call, and the last write before the call has overtaken it
    have hearly : ¬ begun - 1 ≤ n := fun hle => hmissing (hmem _ hle)
    refine hnot ⟨begun - 1, by omega, by omega, fun status' hin heq => hmissing ?_⟩
    rw [htx] at heq
    cases heq
    exact hin
  · rintro ⟨status', hin, heq⟩ ⟨m, -, hlt, hother⟩
    exact hother status' (List.drop_subset_drop_left _ (by omega) hin) heq

omit [DecidableEq C] in
/-- Reading finds the last status that was written. -/
theorem Inv.recorded (h : Inv id s) {tx : Hash} (hfind : findById s.store id = some tx) :
    Recorded s.written ⟨tx, s.written.length⟩ := by
  obtain ⟨status, hlast, htx⟩ := h.stored tx hfind
  have hpos : s.written ≠ [] := by
    intro hnil
    rw [hnil] at hlast
    cases hlast
  have hlength := List.length_pos_iff.mpr hpos
  refine ⟨s.written.length - 1, status, by dsimp only; omega, ?_, htx⟩
  rw [← List.getLast?_eq_getElem?]
  exact hlast

omit [DecidableEq C] in
/-- The status of the hash is the one of the store. -/
theorem lookup_of_status {store : Store} {status : String} (h : store.status id = some status)
    (tx : Hash) (hfind : findById store id = some tx) : tx.lookup "status" = some status := by
  unfold Store.status at h
  unfold findById at hfind
  rw [hfind] at h
  exact h

/-- A reader goes on to a phase with what it has read. -/
theorem Inv.goes (h : Inv id s) {c : C} {p : Phase} {cache : Option Copy}
    (hcache : ∀ copy, cache = some copy → Recorded s.written copy)
    (hfound : ∀ copy begun, p = .found copy begun →
      Recorded s.written copy ∧ begun ≤ copy.readAt)
    (hbegun : ∀ begun, p.begun = some begun → begun ≤ s.written.length) :
    Inv id { s.goes c p with cache } := by
  refine ⟨h.stored, hcache, fun c' copy begun hphase => ?_, fun c' begun hphase => ?_⟩
  · dsimp only [State.goes] at hphase ⊢
    obtain rfl | hne := eq_or_ne c' c
    · rw [Function.update_self] at hphase
      exact hfound copy begun hphase
    · rw [Function.update_of_ne hne] at hphase
      exact h.found c' copy begun hphase
  · dsimp only [State.goes] at hphase ⊢
    obtain rfl | hne := eq_or_ne c' c
    · rw [Function.update_self] at hphase
      exact hbegun begun hphase
    · rw [Function.update_of_ne hne] at hphase
      exact h.begun c' begun hphase

omit [DecidableEq C] in
/-- A write of the status. -/
theorem Inv.write (h : Inv id s) {store : Store} {status : String}
    (hstatus : store.status id = some status) :
    Inv id { s with store, written := s.written ++ [status] } := by
  refine ⟨fun tx hfind => ⟨status, List.getLast?_concat, lookup_of_status hstatus tx hfind⟩,
    fun copy hcopy => (h.cache copy hcopy).concat status, fun c copy begun hphase => ?_,
    fun c begun hphase => ?_⟩
  · obtain ⟨hrecorded, hle⟩ := h.found c copy begun hphase
    exact ⟨hrecorded.concat status, hle⟩
  · have hle := h.begun c begun hphase
    rw [List.length_append]
    omega

theorem status_saveTransaction (store : Store) (args : SaveArgs) (created : String) :
    (saveTransaction store args created).status args.transactionId = some args.status.value := by
  have hsave : (store.hset args.transactionId (saveMapping args created)).status
      args.transactionId = some args.status.value := by
    rw [status_hset_saveMapping, if_pos rfl]
  unfold saveTransaction
  dsimp only
  split
  · exact hsave
  · exact hsave

/-- **Every step keeps all of this.** -/
theorem inv_step {a : Action C} (h : Inv id s) (hstep : step id s a = some s') : Inv id s' := by
  have hkeep : ∀ copy, s.cache = some copy → Recorded s.written copy := h.cache
  cases a with
  | start c tenantId =>
    dsimp only [step] at hstep
    split at hstep
    · cases hstep
      exact h.goes hkeep (fun _ _ h => by cases h) fun _ h => by cases h; exact le_rfl
    · cases hstep
  | permit c allowed =>
    dsimp only [step] at hstep
    split at hstep
    · next tenantId begun hphase =>
      have hle := h.begun c begun (by rw [hphase]; rfl)
      cases hstep
      cases allowed
      · exact h.goes hkeep (fun _ _ h => by cases h) fun _ h => by cases h
      · exact h.goes hkeep (fun _ _ h => by cases h) fun _ h => by cases h; exact hle
    · cases hstep
  | get c =>
    dsimp only [step] at hstep
    split at hstep
    · next tenantId begun hphase =>
      have hle := h.begun c begun (by rw [hphase]; rfl)
      split at hstep
      · cases hstep
        exact h.goes hkeep (fun _ _ h => by cases h) fun _ h => by cases h
      · cases hstep
        exact h.goes hkeep (fun _ _ h => by cases h) fun _ h => by cases h; exact hle
    · cases hstep
  | find c =>
    dsimp only [step] at hstep
    split at hstep
    · next tenantId begun hphase =>
      have hle := h.begun c begun (by rw [hphase]; rfl)
      split at hstep
      · cases hstep
        exact h.goes hkeep (fun _ _ h => by cases h) fun _ h => by cases h
      · next tx hfind =>
        split at hstep
        · cases hstep
          refine h.goes hkeep (fun copy begun' heq => ?_) fun _ h => by cases h; exact hle
          cases heq
          -- what is found has been written, and not before the request began
          exact ⟨h.recorded hfind, hle⟩
        · cases hstep
          exact h.goes hkeep (fun _ _ h => by cases h) fun _ h => by cases h
    · cases hstep
  | set c =>
    dsimp only [step] at hstep
    split at hstep
    · next copy begun hphase =>
      cases hstep
      refine h.goes (fun copy' heq => ?_) (fun _ _ h => by cases h) fun _ h => by cases h
      cases heq
      -- the copy may have been overtaken since it was found; it has been written all the same
      exact (h.found c copy begun hphase).1
    · cases hstep
  | fail c =>
    cases hstep
    exact h.goes hkeep (fun _ _ h => by cases h) fun _ h => by cases h
  | save args created =>
    dsimp only [step] at hstep
    split at hstep
    · next hid =>
      cases hstep
      subst hid
      exact h.write (status_saveTransaction s.store args created)
    · cases hstep
  | update status resultCount errorMessage updated =>
    dsimp only [step] at hstep
    split at hstep
    · next store hupdate =>
      cases hstep
      have hhas : s.store.has id = true := by
        by_contra hnot
        unfold updateStatus at hupdate
        rw [if_neg hnot] at hupdate
        cases hupdate
      have hstatus := status_updateStatus hhas status resultCount errorMessage updated
      rw [hupdate] at hstatus
      exact h.write hstatus
    · cases hstep
      exact h
  | clear | expire =>
    cases hstep
    exact ⟨h.stored, fun _ hnone => (by cases hnone), h.found, h.begun⟩

/-- A hit is fresh exactly when its copy was not overtaken, and what is read is always fresh. -/
theorem fresh_step_iff {a : Action C} (h : Inv id s) (hstep : step id s a = some s') :
    HitsCurrent s a s' ↔ Fresh s a s' := by
  cases a with
  | start c tenantId | permit c allowed | find c | fail c | save args created
  | update status resultCount errorMessage updated | clear | expire =>
    exact iff_of_true trivial fun _ _ hanswer => by cases hanswer
  | get c =>
    dsimp only [step] at hstep
    split at hstep
    · next tenantId begun hphase =>
      simp only [HitsCurrent, Fresh, Action.answer, hphase, Option.map_eq_some_iff,
        Phase.permitted.injEq, Prod.mk.injEq]
      constructor
      · rintro hcurrent tx begun' ⟨copy, hhit, rfl, rfl⟩
        have hrecorded := h.cache copy (Option.filter_eq_some_iff.mp hhit).1
        exact (not_overtaken_iff hrecorded).mp (hcurrent tenantId begun copy ⟨rfl, rfl⟩ hhit)
      · rintro hfresh tenantId' begun' copy ⟨rfl, rfl⟩ hhit
        have hrecorded := h.cache copy (Option.filter_eq_some_iff.mp hhit).1
        exact (not_overtaken_iff hrecorded).mpr (hfresh copy.tx begun ⟨copy, hhit, rfl, rfl⟩)
    · cases hstep
  | set c =>
    dsimp only [step] at hstep
    split at hstep
    · next copy begun hphase =>
      refine iff_of_true trivial fun tx begun' hanswer => ?_
      dsimp only [Action.answer] at hanswer
      rw [hphase] at hanswer
      cases hanswer
      obtain ⟨hrecorded, hle⟩ := h.found c copy begun hphase
      refine (not_overtaken_iff hrecorded).mp ?_
      rintro ⟨n, hread, hlt, -⟩
      omega
    · cases hstep

end Steps

omit [DecidableEq C] in
theorem inv_init (id : Uuid) : Inv id (init C) :=
  ⟨fun _ hfind => (by cases hfind), fun _ hnone => (by cases hnone),
    fun _ _ _ hphase => (by cases hphase), fun _ _ hphase => (by cases hphase)⟩

/-- **Answers are fresh exactly when no hit is on a copy that was overtaken before the call began.**
-/
theorem fresh_iff (id : Uuid) (actions : List (Action C)) :
    Runs.EachStep (step id) Fresh (init C) actions ↔
      Runs.EachStep (step id) HitsCurrent (init C) actions :=
  Runs.eachStep_iff (fun s _ _ (h : Inv id s) hstep => fresh_step_iff h hstep)
    (fun _ _ _ h hstep => inv_step h hstep) (inv_init id) actions

end

/-- A call of a reader before the cache is asked. -/
def asks (c : Bool) : List (Action Bool) := [.start c 0, .permit c true]

/-- A reader finds the transaction pending, the worker executes the query, and another reader hits
the cache. -/
def staleHit : List (Action Bool) :=
  [.save waiting "t0"] ++ asks true ++ [.get true, .find true, .set true] ++
    [.update .running 0 none "t1", .update .completed 3 none "t2"] ++ asks false

/-- **A query that is completed is still pending for a reader.** -/
theorem not_fresh_staleHit :
    ¬ Runs.EachStep (step 7) Fresh (init Bool) (staleHit ++ [.get false]) := by
  intro hfresh
  obtain ⟨s, s', tx, begun, hrun, hstep, hanswer, hsince, htx⟩ : ∃ s s' tx begun,
      Runs.run (step 7) (init Bool) staleHit = some s ∧ step 7 s (.get false) = some s' ∧
        Action.answer s (.get false) = some (tx, begun) ∧ s.statusesSince begun = ["completed"] ∧
          tx.lookup "status" = some "pending" :=
    ⟨_, _, _, _, rfl, rfl, rfl, rfl, by decide +kernel⟩
  obtain ⟨status, hmem, hstatus⟩ := hfresh staleHit _ List.prefix_rfl s s' hrun hstep tx begun
    hanswer
  rw [hsince, List.mem_singleton] at hmem
  rw [htx, hmem] at hstatus
  exact absurd hstatus (by decide)

end KuzuEventBus.Service.QueryStatus
