import KuzuEventBus.Lib.HashMap
import KuzuEventBus.Lib.Runs
import KuzuEventBus.Service.QueryWorker

/-!
# The transaction repository

`src/infrastructure/transactions/redis_transaction_repository.py`: a transaction is a Redis hash,
and the ids of the running ones are a Redis set.  The hash and the set are written by commands of
their own, and calls interleave between them.

## Main definitions

* `TransactionStatus`, `Hash`, `Store` — statuses, hashes, and the keys of the repository.
* `saveMapping`, `statusMapping` — the fields the two writers set.
* `updateStatus`, `findById`, `findRunningTransactions` — the calls, when nothing comes between.
* `Phase`, `Action`, `step` — concurrent calls, one command at a time.
* `InStep` — the index can still come to agree with the statuses.

## Main results

* `status_hset` — what a write of the hash leaves as the status.
* `always_inStep_iff` — the index can come to agree throughout a run exactly when its steps are
  `Careful`.
* `always_indexAgrees` — **when the steps of a run are careful, the index agrees with the statuses
  whenever no call is in progress.**
-/

namespace KuzuEventBus.Service

/-- The statuses of a transaction. -/
inductive TransactionStatus where
  | pending
  | running
  | completed
  | failed
  | timeout
  deriving DecidableEq

/-- The value of the enumeration, which is what is stored. -/
def TransactionStatus.value : TransactionStatus → String
  | .pending => "pending"
  | .running => "running"
  | .completed => "completed"
  | .failed => "failed"
  | .timeout => "timeout"

theorem TransactionStatus.value_eq_running_iff (status : TransactionStatus) :
    status.value = "running" ↔ status = .running := by
  cases status <;> decide

theorem TransactionStatus.value_injective : Function.Injective TransactionStatus.value := by
  intro status status'
  cases status <;> cases status' <;> decide

/-- The statuses that are meant to be final. -/
def TransactionStatus.isTerminal : TransactionStatus → Bool
  | .completed | .failed | .timeout => true
  | .pending | .running => false

/-- The text of a `UUID`. -/
def Uuid.str (u : Uuid) : String := toString u

namespace Transactions

/-! ### The keys -/

/-- A Redis hash. -/
abbrev Hash := HashMap String String

/-- The keys of the repository: the hashes, by the ids in their names, the ids of a tenant, and the
running ids. -/
structure Store where
  hashes : HashMap Uuid Hash
  tenantIds : HashMap Uuid (List Uuid)
  running : List Uuid

/-- No keys. -/
def Store.empty : Store := ⟨∅, ∅, []⟩

/-- `HSET`. -/
def Store.hset (s : Store) (id : Uuid) (mapping : List (String × String)) : Store :=
  { s with hashes := s.hashes.insert id (((s.hashes.lookup id).getD ∅).insertAll mapping) }

/-- `EXISTS`. -/
def Store.has (s : Store) (id : Uuid) : Bool := (s.hashes.lookup id).isSome

/-- `SADD` to the ids of a tenant. -/
def Store.saddTenant (s : Store) (tenantId id : Uuid) : Store :=
  { s with tenantIds := s.tenantIds.insert tenantId ((s.tenantIds.listAt tenantId).insert id) }

/-- `SADD` to the running ids. -/
def Store.saddRunning (s : Store) (id : Uuid) : Store := { s with running := s.running.insert id }

/-- `SREM` from the running ids. -/
def Store.sremRunning (s : Store) (id : Uuid) : Store :=
  { s with running := s.running.filter fun id' => id' ≠ id }

/-! ### The calls -/

/-- The arguments of `save_transaction`; `parameters` is what `json.dumps` makes of them. -/
structure SaveArgs where
  transactionId : Uuid
  tenantId : Uuid
  databaseId : Uuid
  query : String
  parameters : String
  status : TransactionStatus
  timeoutSeconds : ℤ

/-- The fields `save_transaction` sets. -/
def saveMapping (args : SaveArgs) (created : String) : List (String × String) :=
  [("transaction_id", args.transactionId.str), ("tenant_id", args.tenantId.str),
    ("database_id", args.databaseId.str), ("query", args.query), ("parameters", args.parameters),
    ("status", args.status.value), ("timeout_seconds", toString args.timeoutSeconds),
    ("created_at", created), ("updated_at", created), ("result_count", "0"), ("error_message", "")]

/-- The timing field of a status. -/
def timingMapping (status : TransactionStatus) (updated : String) : List (String × String) :=
  match status with
  | .running => [("started_at", updated)]
  | .completed | .failed | .timeout => [("completed_at", updated)]
  | .pending => []

/-- The fields `update_status` sets. -/
def statusMapping (status : TransactionStatus) (resultCount : ℤ) (errorMessage : Option String)
    (updated : String) : List (String × String) :=
  [("status", status.value), ("updated_at", updated), ("result_count", toString resultCount),
    ("error_message", errorMessage.getD "")] ++ timingMapping status updated

/-- The last command of `update_status`. -/
def Store.indexStatus (s : Store) (id : Uuid) (status : TransactionStatus) : Store :=
  if status = .running then s.saddRunning id else s.sremRunning id

/-- `update_status`, when no other call comes between its commands. -/
def updateStatus (s : Store) (id : Uuid) (status : TransactionStatus) (resultCount : ℤ)
    (errorMessage : Option String) (updated : String) : Bool × Store :=
  if s.has id then
    (true, (s.hset id (statusMapping status resultCount errorMessage updated)).indexStatus id
      status)
  else (false, s)

/-- `find_by_id`. -/
def findById (s : Store) (id : Uuid) : Option Hash := s.hashes.lookup id

/-- `find_running_transactions`: the hashes of the running ids that are there. -/
def findRunningTransactions (s : Store) : List Hash := s.running.filterMap s.hashes.lookup

/-- The stored status. -/
def Store.status (s : Store) (id : Uuid) : Option String :=
  (s.hashes.lookup id).bind (·.lookup "status")

/-- The stored error message. -/
def Store.errorMessage (s : Store) (id : Uuid) : Option String :=
  (s.hashes.lookup id).bind (·.lookup "error_message")

/-! ### What the commands leave -/

section Commands

variable {s : Store} {id id' tenantId : Uuid} {status : TransactionStatus}
  {mapping : List (String × String)}

theorem nodup_statusMapping (status : TransactionStatus) (resultCount : ℤ)
    (errorMessage : Option String) (updated : String) :
    ((statusMapping status resultCount errorMessage updated).map Prod.fst).Nodup := by
  cases status <;> exact of_decide_eq_true rfl

/-- **The status after a write of the hash** that sets it. -/
theorem status_hset (hnodup : (mapping.map Prod.fst).Nodup) {value : String}
    (hmem : ("status", value) ∈ mapping) :
    (s.hset id mapping).status id' = if id' = id then some value else s.status id' := by
  unfold Store.status Store.hset
  dsimp only
  rw [AList.lookup_insert_eq]
  split
  · exact AList.lookup_insertAll_of_mem _ hnodup hmem
  · rfl

theorem status_hset_statusMapping (resultCount : ℤ) (errorMessage : Option String)
    (updated : String) :
    (s.hset id (statusMapping status resultCount errorMessage updated)).status id' =
      if id' = id then some status.value else s.status id' :=
  status_hset (nodup_statusMapping status resultCount errorMessage updated) List.mem_cons_self

theorem status_hset_saveMapping (args : SaveArgs) (created : String) :
    (s.hset id (saveMapping args created)).status id' =
      if id' = id then some args.status.value else s.status id' := by
  refine status_hset (of_decide_eq_true rfl) ?_
  simp [saveMapping]

@[simp] theorem status_saddTenant :
    (s.saddTenant tenantId id).status id' = s.status id' := rfl

@[simp] theorem status_indexStatus : (s.indexStatus id status).status id' = s.status id' := by
  unfold Store.indexStatus
  split <;> rfl

@[simp] theorem hashes_indexStatus : (s.indexStatus id status).hashes = s.hashes := by
  unfold Store.indexStatus
  split <;> rfl

theorem has_hset : (s.hset id mapping).has id' = if id' = id then true else s.has id' := by
  unfold Store.has Store.hset
  dsimp only
  rw [AList.lookup_insert_eq]
  split <;> rfl

@[simp] theorem has_indexStatus : (s.indexStatus id status).has id' = s.has id' := by
  unfold Store.indexStatus
  split <;> rfl

/-- **The status after `update_status`.** -/
theorem status_updateStatus (hhas : s.has id = true) (status : TransactionStatus)
    (resultCount : ℤ) (errorMessage : Option String) (updated : String) :
    (updateStatus s id status resultCount errorMessage updated).2.status id =
      some status.value := by
  unfold updateStatus
  rw [if_pos hhas, status_indexStatus, status_hset_statusMapping, if_pos rfl]

theorem errorMessage_updateStatus (hhas : s.has id = true) (status : TransactionStatus)
    (resultCount : ℤ) (errorMessage : Option String) (updated : String) :
    (updateStatus s id status resultCount errorMessage updated).2.errorMessage id =
      some (errorMessage.getD "") := by
  have hlookup : ((updateStatus s id status resultCount errorMessage updated).2.hashes.lookup id) =
      some (((s.hashes.lookup id).getD ∅).insertAll
        (statusMapping status resultCount errorMessage updated)) := by
    unfold updateStatus
    rw [if_pos hhas]
    show ((s.hset id _).indexStatus id status).hashes.lookup id = _
    rw [hashes_indexStatus]
    exact AList.lookup_insert ..
  unfold Store.errorMessage
  rw [hlookup]
  exact AList.lookup_insertAll_of_mem _ (nodup_statusMapping ..) (by simp [statusMapping])

theorem has_updateStatus (hhas : s.has id = true) (status : TransactionStatus)
    (resultCount : ℤ) (errorMessage : Option String) (updated : String) :
    (updateStatus s id status resultCount errorMessage updated).2.has id = true := by
  unfold updateStatus
  rw [if_pos hhas, has_indexStatus, has_hset, if_pos rfl]

@[simp] theorem running_hset : (s.hset id mapping).running = s.running := rfl

theorem mem_running_indexStatus :
    id' ∈ (s.indexStatus id status).running ↔
      if id' = id then status = .running else id' ∈ s.running := by
  unfold Store.indexStatus
  split
  · next hrunning =>
    subst hrunning
    by_cases heq : id' = id
    · simp [Store.saddRunning, heq]
    · simp [Store.saddRunning, heq]
  · next hrunning =>
    by_cases heq : id' = id
    · simp [Store.sremRunning, heq, hrunning]
    · simp [Store.sremRunning, heq]

end Commands

/-! ### Concurrent calls -/

/-- Where a process is in a call. -/
inductive Phase where
  /-- Between calls. -/
  | idle
  /-- `save_transaction` has written the hash. -/
  | saved (id tenantId : Uuid) (status : TransactionStatus)
  /-- The id is one of the tenant, and is to be one of the running ids. -/
  | listed (id : Uuid)
  /-- `update_status` has seen that the hash exists. -/
  | checked (id : Uuid) (status : TransactionStatus) (resultCount : ℤ)
      (errorMessage : Option String)
  /-- `update_status` has written the hash. -/
  | updated (id : Uuid) (status : TransactionStatus)
  deriving DecidableEq

/-- What a process is still to do to the running ids: for which id, and whether it adds it. -/
def Phase.indexes : Phase → Option (Uuid × Bool)
  | .saved id _ status => if status = .running then some (id, true) else none
  | .listed id => some (id, true)
  | .updated id status => some (id, decide (status = .running))
  | .idle => none
  | .checked _ _ _ _ => none

/-- The keys, and where the processes are. -/
structure State (W : Type) where
  store : Store
  phase : W → Phase

/-- The commands; the texts of the clock are arguments. -/
inductive Action (W : Type) where
  | save (w : W) (args : SaveArgs) (created : String)
  | saddTenant (w : W)
  | saddRunning (w : W)
  | check (w : W) (id : Uuid) (status : TransactionStatus) (resultCount : ℤ)
      (errorMessage : Option String)
  | hset (w : W) (updated : String)
  | index (w : W)

/-- Before any call. -/
def init (W : Type) : State W := ⟨.empty, fun _ => .idle⟩

variable {W : Type} [DecidableEq W]

/-- The command of a process, after which it is in a phase. -/
def State.goes (s : State W) (w : W) (store : Store) (p : Phase) : State W :=
  ⟨store, Function.update s.phase w p⟩

/-- What a command does; it is not enabled when the process is elsewhere. -/
def step (s : State W) : Action W → Option (State W)
  | .save w args created =>
    match s.phase w with
    | .idle =>
      some (s.goes w (s.store.hset args.transactionId (saveMapping args created))
        (.saved args.transactionId args.tenantId args.status))
    | _ => none
  | .saddTenant w =>
    match s.phase w with
    | .saved id tenantId status =>
      some (s.goes w (s.store.saddTenant tenantId id)
        (if status = .running then .listed id else .idle))
    | _ => none
  | .saddRunning w =>
    match s.phase w with
    | .listed id => some (s.goes w (s.store.saddRunning id) .idle)
    | _ => none
  | .check w id status resultCount errorMessage =>
    match s.phase w with
    | .idle =>
      some (s.goes w s.store
        (if s.store.has id then .checked id status resultCount errorMessage else .idle))
    | _ => none
  | .hset w updated =>
    match s.phase w with
    | .checked id status resultCount errorMessage =>
      some (s.goes w (s.store.hset id (statusMapping status resultCount errorMessage updated))
        (.updated id status))
    | _ => none
  | .index w =>
    match s.phase w with
    | .updated id status => some (s.goes w (s.store.indexStatus id status) .idle)
    | _ => none

/-- The stored status is `RUNNING`. -/
def State.isRunning (s : State W) (id : Uuid) : Bool := s.store.status id = some "running"

/-- The process is still to add the id to the running ids, or to remove it. -/
def State.Indexes (s : State W) (w : W) (id : Uuid) (b : Bool) : Prop :=
  (s.phase w).indexes = some (id, b)

/-- **The index agrees with the statuses**: when no call is in progress, the running ids are those
whose stored status is `RUNNING`, and `find_running_transactions` returns just their hashes. -/
def IndexAgrees (s : State W) : Prop :=
  (∀ w, s.phase w = .idle) →
    (∀ id, id ∈ s.store.running ↔ s.store.status id = some "running") ∧
      ∀ row, row ∈ findRunningTransactions s.store ↔
        ∃ id, findById s.store id = some row ∧ row.lookup "status" = some "running"

/-- The index can still come to agree on an id without another write: a call that is still to index
it agrees with the stored status, or no call is and the index agrees. -/
def InStepAt (s : State W) (id : Uuid) : Prop :=
  (∃ w, s.Indexes w id (s.isRunning id)) ∨
    (∀ w b, ¬ s.Indexes w id b) ∧ (id ∈ s.store.running ↔ s.isRunning id = true)

/-- The index can still come to agree. -/
def InStep (s : State W) : Prop := ∀ id, InStepAt s id

/-- A call does not have the last word on an id against the stored status: another call that agrees
with it is still to index the id, or this one agrees and no other is.  A status other than `RUNNING`
that is saved is indexed by no command. -/
def Careful (s : State W) : Action W → Prop
  | .save _ args _ =>
    args.status = .running ∨ (∃ w, s.Indexes w args.transactionId false) ∨
      (∀ w b, ¬ s.Indexes w args.transactionId b) ∧ args.transactionId ∉ s.store.running
  | .saddRunning w | .index w =>
    ∀ id b, s.Indexes w id b → (∃ w', w' ≠ w ∧ s.Indexes w' id (s.isRunning id)) ∨
      b = s.isRunning id ∧ ∀ w' b', w' ≠ w → ¬ s.Indexes w' id b'
  | _ => True

/-! ### What a command changes -/

section Steps

variable {s s' : State W} {w : W} {store : Store} {p : Phase} {id : Uuid} {b : Bool}

theorem indexes_goes (s : State W) (w w' : W) (store : Store) (p : Phase) (id : Uuid) (b : Bool) :
    (s.goes w store p).Indexes w' id b ↔
      if w' = w then p.indexes = some (id, b) else s.Indexes w' id b := by
  unfold State.Indexes State.goes
  dsimp only
  by_cases hw : w' = w
  · rw [hw, Function.update_self, if_pos rfl]
  · rw [Function.update_of_ne hw, if_neg hw]

/-- A command on another id changes nothing. -/
theorem inStepAt_goes_iff (hp : ∀ b, p.indexes = some (id, b) ↔ s.Indexes w id b)
    (hrunning : id ∈ store.running ↔ id ∈ s.store.running)
    (hstatus : store.status id = s.store.status id) :
    InStepAt (s.goes w store p) id ↔ InStepAt s id := by
  have hindexes : ∀ w' b, (s.goes w store p).Indexes w' id b ↔ s.Indexes w' id b := by
    intro w' b
    rw [indexes_goes]
    split
    · next hw => rw [hp, hw]
    · rfl
  have hcurrent : (s.goes w store p).isRunning id = s.isRunning id := by
    unfold State.isRunning State.goes
    rw [hstatus]
  unfold InStepAt
  simp only [hindexes, hcurrent]
  rw [show (s.goes w store p).store.running = store.running from rfl, hrunning]

/-- A call that has just written the hash agrees with it. -/
theorem inStepAt_goes_of_writes
    (hp : p.indexes = some (id, decide (store.status id = some "running"))) :
    InStepAt (s.goes w store p) id := by
  refine Or.inl ⟨w, ?_⟩
  rw [indexes_goes, if_pos rfl]
  exact hp

/-- What has to hold of the other calls when one is done with an id. -/
theorem inStepAt_goes_idle (hp : p.indexes = none) :
    InStepAt (s.goes w store p) id ↔
      (∃ w', w' ≠ w ∧ s.Indexes w' id (decide (store.status id = some "running"))) ∨
        (∀ w' b, w' ≠ w → ¬ s.Indexes w' id b) ∧
          (id ∈ store.running ↔ store.status id = some "running") := by
  have hindexes : ∀ w' b, (s.goes w store p).Indexes w' id b ↔ w' ≠ w ∧ s.Indexes w' id b := by
    intro w' b
    rw [indexes_goes]
    split
    · next hw => simp [hp, hw]
    · next hw => simp [hw]
  unfold InStepAt
  simp only [hindexes, not_and]
  exact or_congr_right (and_congr_right fun _ => iff_congr Iff.rfl decide_eq_true_iff)

omit [DecidableEq W] in
/-- A process that is idle, or whose call has not written the hash, is not to index anything. -/
theorem not_indexes (hphase : (s.phase w).indexes = none) (id : Uuid) (b : Bool) :
    ¬ s.Indexes w id b := by
  intro h
  cases hphase.symm.trans h

omit [DecidableEq W] in
/-- The other processes are those that have something to index, when this one has not. -/
theorem others_iff (hphase : (s.phase w).indexes = none) (id : Uuid) (b : Bool) (w' : W) :
    w' ≠ w ∧ s.Indexes w' id b ↔ s.Indexes w' id b := by
  refine and_iff_right_of_imp fun hindexes hw => ?_
  rw [hw] at hindexes
  exact not_indexes hphase id b hindexes

/-- A write of the hash by a call that is still to index it keeps the index in step. -/
theorem inStep_writes (h : InStep s) (hphase : (s.phase w).indexes = none) (id₀ : Uuid)
    (hp : p.indexes = some (id₀, decide (store.status id₀ = some "running")))
    (hrunning : store.running = s.store.running)
    (hstatus : ∀ id, id ≠ id₀ → store.status id = s.store.status id) :
    InStep (s.goes w store p) := by
  intro id
  by_cases hid : id = id₀
  · subst hid
    exact inStepAt_goes_of_writes hp
  · refine (inStepAt_goes_iff (fun b => ?_) (by rw [hrunning]) (hstatus id hid)).2 (h id)
    refine iff_of_false (fun hindexes => ?_) (not_indexes hphase id b)
    rw [hp] at hindexes
    cases hindexes
    exact hid rfl

/-- The end of a call that has indexed an id. -/
theorem inStep_indexed_iff (h : InStep s) {id₀ : Uuid} (hindexes : s.Indexes w id₀ b)
    (hp : p.indexes = none) (hrunning : ∀ id, id ∈ store.running ↔
      if id = id₀ then b = true else id ∈ s.store.running)
    (hstatus : ∀ id, store.status id = s.store.status id) :
    (∀ id b, s.Indexes w id b → (∃ w', w' ≠ w ∧ s.Indexes w' id (s.isRunning id)) ∨
      b = s.isRunning id ∧ ∀ w' b', w' ≠ w → ¬ s.Indexes w' id b') ↔
      InStep (s.goes w store p) := by
  have hat : InStepAt (s.goes w store p) id₀ ↔
      (∃ w', w' ≠ w ∧ s.Indexes w' id₀ (s.isRunning id₀)) ∨
        b = s.isRunning id₀ ∧ ∀ w' b', w' ≠ w → ¬ s.Indexes w' id₀ b' := by
    rw [inStepAt_goes_idle hp, hrunning, if_pos rfl, hstatus, and_comm (a := ∀ _ _, _)]
    refine or_congr_right (and_congr_left fun _ => ?_)
    unfold State.isRunning
    cases b <;> simp
  constructor
  · intro hcareful id
    by_cases hid : id = id₀
    · subst hid
      exact hat.2 (hcareful id b hindexes)
    · refine (inStepAt_goes_iff (fun b' => ?_) ?_ (hstatus id)).2 (h id)
      · refine iff_of_false (fun hsome => ?_) fun hother => ?_
        · cases hp.symm.trans hsome
        · cases hindexes.symm.trans hother
          exact hid rfl
      · rw [hrunning, if_neg hid]
  · intro hstep id b' hindexes'
    cases hindexes.symm.trans hindexes'
    exact hat.1 (hstep id₀)

/-- A write of the hash that no command indexes. -/
theorem inStep_silent_iff (h : InStep s) (hphase : (s.phase w).indexes = none) {id₀ : Uuid}
    (hp : p.indexes = none) (hrunning : store.running = s.store.running)
    (hstatus₀ : store.status id₀ ≠ some "running")
    (hstatus : ∀ id, id ≠ id₀ → store.status id = s.store.status id) :
    (∃ w', s.Indexes w' id₀ false) ∨ (∀ w' b, ¬ s.Indexes w' id₀ b) ∧ id₀ ∉ s.store.running ↔
      InStep (s.goes w store p) := by
  have hothers : (∀ w' b, w' ≠ w → ¬ s.Indexes w' id₀ b) ↔ ∀ w' b, ¬ s.Indexes w' id₀ b := by
    refine forall₂_congr fun w' b => ?_
    rw [← not_and, others_iff hphase]
  have hat : InStepAt (s.goes w store p) id₀ ↔ (∃ w', s.Indexes w' id₀ false) ∨
      (∀ w' b, ¬ s.Indexes w' id₀ b) ∧ id₀ ∉ s.store.running := by
    rw [inStepAt_goes_idle hp, decide_eq_false hstatus₀, iff_false_right hstatus₀, hrunning,
      hothers]
    refine or_congr_left (exists_congr fun w' => ?_)
    exact others_iff hphase id₀ false w'
  rw [← hat]
  constructor
  · intro hid₀ id
    by_cases hid : id = id₀
    · rw [hid]
      exact hid₀
    · refine (inStepAt_goes_iff (fun b => ?_) (by rw [hrunning]) (hstatus id hid)).2 (h id)
      refine iff_of_false (fun hsome => ?_) (not_indexes hphase id b)
      cases hp.symm.trans hsome
  · exact fun hstep => hstep id₀

/-- A command that leaves the statuses and the running ids. -/
theorem inStep_goes (h : InStep s) (hp : p.indexes = (s.phase w).indexes)
    (hrunning : store.running = s.store.running)
    (hstatus : ∀ id, store.status id = s.store.status id) : InStep (s.goes w store p) := by
  intro id
  refine (inStepAt_goes_iff (fun b => ?_) (by rw [hrunning]) (hstatus id)).2 (h id)
  rw [hp]
  rfl

/-- **A step keeps the index in step exactly when it is careful.** -/
theorem careful_iff_inStep {a : Action W} (h : InStep s) (hstep : step s a = some s') :
    Careful s a ↔ InStep s' := by
  cases a with
  | save w args created =>
    dsimp only [step] at hstep
    split at hstep
    · next hphase =>
      cases hstep
      have hidle : (s.phase w).indexes = none := by rw [hphase]; rfl
      have hstatus : ∀ id, (s.store.hset args.transactionId (saveMapping args created)).status id =
          if id = args.transactionId then some args.status.value else s.store.status id :=
        fun id => status_hset_saveMapping args created
      have hothers : ∀ id, id ≠ args.transactionId →
          (s.store.hset args.transactionId (saveMapping args created)).status id =
            s.store.status id := fun id hid => by rw [hstatus, if_neg hid]
      -- no later write takes a transaction that is not running out of the index
      by_cases hrunning : args.status = .running
      · refine iff_of_true (Or.inl hrunning)
          (inStep_writes h hidle args.transactionId ?_ rfl hothers)
        rw [hstatus, if_pos rfl, hrunning]
        rfl
      · refine (or_iff_right hrunning).trans
          (inStep_silent_iff h hidle (if_neg hrunning) rfl ?_ hothers)
        rw [hstatus, if_pos rfl, Ne, Option.some_inj, args.status.value_eq_running_iff]
        exact hrunning
    · cases hstep
  | saddTenant w =>
    dsimp only [step] at hstep
    split at hstep
    · next id tenantId status hphase =>
      cases hstep
      refine iff_of_true trivial (inStep_goes h ?_ rfl fun id' => rfl)
      rw [hphase]
      show _ = if status = .running then some (id, true) else none
      split <;> rfl
    · cases hstep
  | saddRunning w =>
    dsimp only [step] at hstep
    split at hstep
    · next id hphase =>
      cases hstep
      have hindexes : s.Indexes w id true := by
        unfold State.Indexes
        rw [hphase]
        rfl
      refine inStep_indexed_iff h hindexes rfl (fun id' => ?_) fun id' => rfl
      have hmem : id' ∈ (s.store.indexStatus id .running).running ↔ _ := mem_running_indexStatus
      rw [show s.store.indexStatus id .running = s.store.saddRunning id from if_pos rfl] at hmem
      rw [hmem]
      simp
    · cases hstep
  -- the check and the index of the tenant leave the index of what is running as it is
  | check w id status resultCount errorMessage =>
    dsimp only [step] at hstep
    split at hstep
    · next hphase =>
      cases hstep
      refine iff_of_true trivial (inStep_goes h ?_ rfl fun id' => rfl)
      rw [hphase]
      split <;> rfl
    · cases hstep
  | hset w updated =>
    dsimp only [step] at hstep
    split at hstep
    · next id status resultCount errorMessage hphase =>
      cases hstep
      have hidle : (s.phase w).indexes = none := by rw [hphase]; rfl
      have hstatus : ∀ id', (s.store.hset id
          (statusMapping status resultCount errorMessage updated)).status id' =
            if id' = id then some status.value else s.store.status id' :=
        fun id' => status_hset_statusMapping resultCount errorMessage updated
      refine iff_of_true trivial (inStep_writes h hidle id ?_ rfl fun id' hid => ?_)
      · have hvalue : decide (status = .running) = decide (some status.value = some "running") := by
          rw [decide_eq_decide, Option.some_inj, status.value_eq_running_iff]
        rw [hstatus, if_pos rfl, ← hvalue]
        rfl
      · rw [hstatus, if_neg hid]
    · cases hstep
  | index w =>
    dsimp only [step] at hstep
    split at hstep
    · next id status hphase =>
      cases hstep
      have hindexes : s.Indexes w id (decide (status = .running)) := by
        unfold State.Indexes
        rw [hphase]
        rfl
      refine inStep_indexed_iff h hindexes rfl (fun id' => ?_) fun id' => status_indexStatus
      rw [mem_running_indexStatus, decide_eq_true_iff]
    · cases hstep

end Steps

/-! ### Runs -/

omit [DecidableEq W] in
theorem inStep_init : InStep (init W) := by
  intro id
  refine Or.inr ⟨fun w b hindexes => ?_, ?_⟩
  · cases hindexes
  · simp [init, Store.empty, State.isRunning, Store.status]

/-- **The index can come to agree throughout a run exactly when its steps are careful.** -/
theorem always_inStep_iff (actions : List (Action W)) :
    Runs.Always step InStep (init W) actions ↔
      Runs.EachStep step (fun s a _ => Careful s a) (init W) actions :=
  Runs.always_iff (fun _ h => h) (fun _ _ _ h hstep => careful_iff_inStep h hstep)
    (fun _ _ _ h hstep hcareful => (careful_iff_inStep h hstep).1 hcareful) inStep_init actions

omit [DecidableEq W] in
/-- With no call in progress, an index that can come to agree does. -/
theorem indexAgrees_of_inStep {s : State W} (h : InStep s) : IndexAgrees s := by
  intro hidle
  have hmem : ∀ id, id ∈ s.store.running ↔ s.store.status id = some "running" := by
    intro id
    rcases h id with ⟨w, hindexes⟩ | ⟨-, hagrees⟩
    · unfold State.Indexes at hindexes
      rw [hidle] at hindexes
      cases hindexes
    · exact hagrees.trans decide_eq_true_iff
  refine ⟨hmem, fun row => ?_⟩
  unfold findRunningTransactions
  rw [List.mem_filterMap]
  refine exists_congr fun id => ?_
  rw [hmem]
  unfold Store.status findById
  constructor
  · rintro ⟨hstatus, hrow⟩
    rw [hrow] at hstatus
    exact ⟨hrow, hstatus⟩
  · rintro ⟨hrow, hstatus⟩
    rw [hrow]
    exact ⟨hstatus, rfl⟩

/-- **When the steps of a run are careful, the index agrees with the statuses whenever no call is in
progress.** -/
theorem always_indexAgrees (actions : List (Action W))
    (h : Runs.EachStep step (fun s a _ => Careful s a) (init W) actions) :
    Runs.Always step IndexAgrees (init W) actions := by
  intro actions' hactions s hrun
  exact indexAgrees_of_inStep ((always_inStep_iff actions).2 h actions' hactions s hrun)

/-- A transaction that waits. -/
def waiting : SaveArgs := ⟨7, 0, 1, "RETURN 1", "{}", .pending, 30⟩

/-- One process saves a transaction and sets it running. -/
theorem always_indexAgrees_one :
    Runs.Always step IndexAgrees (init Unit)
      [.save () waiting "t0", .saddTenant (), .check () 7 .running 0 none, .hset () "t1",
        .index ()] := by
  refine always_indexAgrees _ ?_
  refine Runs.eachStep_cons.2 fun s₁ h₁ => ⟨Or.inr (Or.inr ⟨?_, ?_⟩), ?_⟩
  · intro w b hindexes
    cases hindexes
  · exact List.not_mem_nil
  cases h₁
  refine Runs.eachStep_cons.2 fun s₂ h₂ => ⟨trivial, ?_⟩
  cases h₂
  refine Runs.eachStep_cons.2 fun s₃ h₃ => ⟨trivial, ?_⟩
  cases h₃
  refine Runs.eachStep_cons.2 fun s₄ h₄ => ⟨trivial, ?_⟩
  cases h₄
  refine Runs.eachStep_cons.2 fun s₅ h₅ => ⟨?_, Runs.eachStep_nil⟩
  intro id b hindexes
  cases hindexes
  exact Or.inr ⟨by decide, fun w' b' hne => absurd rfl hne⟩

/-- **Two updates of one id that overlap**: a completed transaction stays among the running ones. -/
theorem not_always_indexAgrees :
    ¬ Runs.Always step IndexAgrees (init Bool)
      [.save false waiting "t0", .saddTenant false, .check false 7 .running 0 none,
        .check true 7 .completed 1 none, .hset false "t1", .hset true "t2", .index true,
        .index false] := by
  intro h
  obtain ⟨s, hrun, hidle, hrunning, hstatus⟩ : ∃ s, Runs.run step (init Bool)
      [.save false waiting "t0", .saddTenant false, .check false 7 .running 0 none,
        .check true 7 .completed 1 none, .hset false "t1", .hset true "t2", .index true,
        .index false] = some s ∧ (∀ w, s.phase w = .idle) ∧ 7 ∈ s.store.running ∧
        s.store.status 7 = some "completed" :=
    ⟨_, rfl, by decide, by decide, by decide +kernel⟩
  have hagrees := ((h _ List.prefix_rfl s hrun hidle).1 7).1 hrunning
  rw [hstatus] at hagrees
  exact absurd hagrees (by decide)

end Transactions

end KuzuEventBus.Service
