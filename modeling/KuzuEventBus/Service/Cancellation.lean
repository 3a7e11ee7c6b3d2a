import KuzuEventBus.Service.Transactions

/-!
# Cancellation

`src/application/usecases/cancel_query.py` beside a round of the worker on the same transaction.  A
cancel tests the status, takes a lock of its own and writes `FAILED`; the worker takes no lock, and
neither looks at the status again when it writes it.

## Main definitions

* `WorkerPhase`, `CancelPhase`, `Action`, `step` — the round and the cancels, one command at a time.
* `Final`, `NeverExecuted` — terminal statuses stay, and what was cancelled in time does not run.
* `Careful` — whose status a write does not come after.
* `Next` — the steps that can be taken, one by one.

## Main results

* `next_of_step` — a step that is taken is one of these.
* `inv_step` — while the writes are careful, who has written tells the status.
* `careful_iff_final` — a write is careful exactly when it leaves a terminal status.
* `final_and_neverExecuted_iff` — **terminal statuses are final, and what was cancelled while it was
  pending is never executed, exactly when every write of the status is careful.**
-/

namespace KuzuEventBus.Service.Cancellation

open Transactions

/-! ### The two protocols -/

/-- Where the worker is in `run_once`. -/
inductive WorkerPhase where
  /-- It has the message. -/
  | dequeued
  /-- It has loaded the transaction. -/
  | loaded
  /-- `update_status` has seen that the hash exists. -/
  | checked (status : TransactionStatus)
  /-- `update_status` has written the hash. -/
  | written (status : TransactionStatus)
  /-- The status is set, and the files of the database are there. -/
  | running
  /-- The engine was called. -/
  | executed
  /-- The status is set again; the cache, the event and the acknowledgement are left. -/
  | recorded
  /-- A handler is to set the status. -/
  | handling (status : TransactionStatus)
  | done
  deriving DecidableEq

/-- Where a call of `CancelQuery` is. -/
inductive CancelPhase where
  | idle
  /-- The transaction is of the tenant, and was pending or running. -/
  | found
  | locked
  | checked
  | written
  /-- `update_status` has returned. -/
  | updated
  | statusCleared
  | resultsCleared
  /-- In the `finally`, with the value to be returned, or an exception. -/
  | releasing (value : Option Bool)
  | returned (value : Bool)
  | raised
  deriving DecidableEq

/-- The status the worker sets next. -/
def WorkerPhase.sets : WorkerPhase → Option TransactionStatus
  | .loaded => some .running
  | .executed => some .completed
  | .handling status => some status
  | _ => none

/-- Where `run_once` goes on after it has set a status. -/
def WorkerPhase.afterSet : TransactionStatus → WorkerPhase
  | .running => .running
  | .completed => .recorded
  | .pending | .failed | .timeout => .done

/-- Where an exception takes the worker: to a handler, or out of one. -/
def WorkerPhase.afterRaise (status : TransactionStatus) : WorkerPhase → WorkerPhase
  | .checked .failed | .checked .timeout | .written .failed | .written .timeout => .done
  | .handling _ | .done => .done
  | _ => .handling status

/-- Where an exception takes a cancel. -/
def CancelPhase.afterRaise : CancelPhase → CancelPhase
  | .locked | .checked | .written | .updated | .statusCleared | .resultsCleared => .releasing none
  | .returned value => .returned value
  | _ => .raised

/-- The keys, where the worker and the cancels are, who holds the lock, and what has happened: which
status the worker has written last, whether a cancel has written its own, whether one has returned
`True` before the worker wrote anything, and whether the engine was called. -/
structure State (C : Type) where
  store : Store
  worker : WorkerPhase
  cancel : C → CancelPhase
  lock : Option C
  workerWrote : Option TransactionStatus
  cancelWrote : Bool
  cancelledPending : Bool
  executed : Bool

/-- The steps; the texts of the clock, the number of rows and the message of an error are arguments.
-/
inductive Action (C : Type) where
  | load
  | check
  | write (resultCount : ℤ) (errorMessage : Option String) (updated : String)
  | index
  | execute
  | raise (isTimeout : Bool)
  | finish
  | cancelFind (c : C) (tenantId : Uuid)
  | cancelLock (c : C)
  | lockExpires
  | cancelCheck (c : C)
  | cancelWrite (c : C) (updated : String)
  | cancelIndex (c : C)
  | cancelClearStatus (c : C)
  | cancelClearResults (c : C)
  | cancelEmit (c : C)
  | cancelRelease (c : C)
  | cancelRaise (c : C)

/-- The worker has the message of a transaction that `SubmitAsyncQuery` has saved. -/
def init (C : Type) (store : Store) (args : SaveArgs) (created : String) : State C where
  store := (store.hset args.transactionId
    (saveMapping { args with status := .pending } created)).saddTenant args.tenantId
      args.transactionId
  worker := .dequeued
  cancel := fun _ => .idle
  lock := none
  workerWrote := none
  cancelWrote := false
  cancelledPending := false
  executed := false

variable {C : Type} [DecidableEq C]

/-- A cancel is in a phase. -/
def State.cancelGoes (s : State C) (c : C) (p : CancelPhase) : State C :=
  { s with cancel := Function.update s.cancel c p }

@[simp] theorem cancelGoes_self (s : State C) (c : C) (p : CancelPhase) :
    (s.cancelGoes c p).cancel c = p := Function.update_self ..

theorem cancelGoes_of_ne (s : State C) {c c' : C} (p : CancelPhase) (hc : c' ≠ c) :
    (s.cancelGoes c p).cancel c' = s.cancel c' := Function.update_of_ne hc ..

/-- `find_by_id` and the tests of a cancel: whether it goes on. -/
def cancels (store : Store) (id tenantId : Uuid) : Bool :=
  match findById store id with
  | none => false
  | some tx =>
    tx.lookup "tenant_id" = some tenantId.str &&
      (tx.lookup "status" = some "pending" || tx.lookup "status" = some "running")

/-- What a step does; it is not enabled when its party is elsewhere. -/
def step (id : Uuid) (s : State C) : Action C → Option (State C)
  | .load =>
    match s.worker with
    | .dequeued => some { s with worker := if s.store.has id then .loaded else .done }
    | _ => none
  | .check =>
    s.worker.sets.map fun status =>
      { s with worker := if s.store.has id then .checked status else .afterSet status }
  | .write resultCount errorMessage updated =>
    match s.worker with
    | .checked status =>
      some { s with
        store := s.store.hset id (statusMapping status resultCount errorMessage updated)
        worker := .written status
        workerWrote := some status }
    | _ => none
  | .index =>
    match s.worker with
    | .written status =>
      some { s with store := s.store.indexStatus id status, worker := .afterSet status }
    | _ => none
  | .execute =>
    match s.worker with
    | .running => some { s with worker := .executed, executed := true }
    | _ => none
  | .raise isTimeout =>
    some { s with worker := s.worker.afterRaise (if isTimeout then .timeout else .failed) }
  | .finish =>
    match s.worker with
    | .recorded => some { s with worker := .done }
    | _ => none
  | .cancelFind c tenantId =>
    match s.cancel c with
    | .idle =>
      some (s.cancelGoes c (if cancels s.store id tenantId then .found else .returned false))
    | _ => none
  | .cancelLock c =>
    match s.cancel c with
    | .found =>
      match s.lock with
      | none => some { s.cancelGoes c .locked with lock := some c }
      | some _ => some (s.cancelGoes c .raised)
    | _ => none
  | .lockExpires => some { s with lock := none }
  | .cancelCheck c =>
    match s.cancel c with
    | .locked => some (s.cancelGoes c (if s.store.has id then .checked else .updated))
    | _ => none
  | .cancelWrite c updated =>
    match s.cancel c with
    | .checked =>
      some { s.cancelGoes c .written with
        store := s.store.hset id (statusMapping .failed 0 (some "Cancelled by user") updated)
        cancelWrote := true }
    | _ => none
  | .cancelIndex c =>
    match s.cancel c with
    | .written => some { s.cancelGoes c .updated with store := s.store.indexStatus id .failed }
    | _ => none
  | .cancelClearStatus c =>
    match s.cancel c with
    | .updated => some (s.cancelGoes c .statusCleared)
    | _ => none
  | .cancelClearResults c =>
    match s.cancel c with
    | .statusCleared => some (s.cancelGoes c .resultsCleared)
    | _ => none
  | .cancelEmit c =>
    match s.cancel c with
    | .resultsCleared => some (s.cancelGoes c (.releasing (some true)))
    | _ => none
  | .cancelRelease c =>
    match s.cancel c with
    | .releasing value =>
      let s' := { s with lock := if s.lock = some c then none else s.lock }
      match value with
      | none => some (s'.cancelGoes c .raised)
      | some value =>
        some { s'.cancelGoes c (.returned value) with
          cancelledPending := s.cancelledPending || (value && s.workerWrote.isNone) }
    | _ => none
  | .cancelRaise c => some (s.cancelGoes c (s.cancel c).afterRaise)

/-! ### What is asked for -/

/-- A terminal status does not change. -/
def Final (id : Uuid) (s s' : State C) : Prop :=
  (∃ status : TransactionStatus, status.isTerminal = true ∧ s.store.status id = some status.value) →
    s'.store.status id = s.store.status id

/-- What was cancelled while it was pending is not executed. -/
def NeverExecuted (s : State C) : Prop := s.cancelledPending = true → s.executed = false

/-- The worker writes no other status than `FAILED` after a cancel, and no status of a failure after
`COMPLETED`; a cancel writes nothing after the worker's `COMPLETED` or `TIMEOUT`. -/
def Careful (s : State C) : Action C → Prop
  | .write _ _ _ =>
    ∀ status, s.worker = .checked status →
      (status ≠ .failed → s.cancelWrote = false) ∧
        (status = .failed ∨ status = .timeout → s.workerWrote ≠ some .completed)
  | .cancelWrite _ _ => s.workerWrote ≠ some .completed ∧ s.workerWrote ≠ some .timeout
  | _ => True

/-! ### The invariant -/

/-- The cancel has written the status. -/
def CancelPhase.hasWritten : CancelPhase → Bool
  | .written | .updated | .statusCleared | .resultsCleared | .releasing (some true) => true
  | _ => false

/-- Which status the worker has written last, as far as where it is tells. -/
def WorkerPhase.Wrote : WorkerPhase → Option TransactionStatus → Prop
  | .dequeued, wrote | .loaded, wrote => wrote = none
  | .checked .running, wrote => wrote = none
  | .written .running, wrote | .running, wrote | .executed, wrote => wrote = some .running
  | .checked .completed, wrote => wrote = some .running
  | .written .completed, wrote | .recorded, wrote => wrote = some .completed
  | .handling status, wrote | .checked status, wrote =>
    (status = .failed ∨ status = .timeout) ∧ wrote ≠ some .failed ∧ wrote ≠ some .timeout
  | .written status, wrote => (status = .failed ∨ status = .timeout) ∧ wrote = some status
  | .done, _ => True

/-- Who has written tells the status, where the worker is tells what it has written, and no cancel
wrote over a status that was meant to be final. -/
structure Inv (id : Uuid) (s : State C) : Prop where
  status : s.store.status id = some
    (if s.cancelWrote then TransactionStatus.failed else s.workerWrote.getD .pending).value
  wrote : s.worker.Wrote s.workerWrote
  cancelOver : s.cancelWrote = true →
    s.workerWrote ≠ some .completed ∧ s.workerWrote ≠ some .timeout
  hasWritten : ∀ c, (s.cancel c).hasWritten = true → s.cancelWrote = true
  executed : s.executed = true → s.workerWrote ≠ none
  pending : s.cancelledPending = true →
    s.cancelWrote = true ∧ s.executed = false ∧ s.workerWrote ≠ some .running

section Steps

variable {id : Uuid} {s s' : State C} {c : C} {a : Action C}

/-- A step that can be taken, with what it asks of the state and what it makes of it.  The steps of
a cancel that write nothing and leave the lock are one. -/
inductive Next (id : Uuid) (s : State C) : Action C → State C → Prop
  | load (hphase : s.worker = .dequeued) :
    Next id s .load { s with worker := if s.store.has id then .loaded else .done }
  | check {status : TransactionStatus} (hsets : s.worker.sets = some status) :
    Next id s .check
      { s with worker := if s.store.has id then .checked status else .afterSet status }
  | write {status : TransactionStatus} {resultCount : ℤ} {errorMessage : Option String}
    {updated : String} (hphase : s.worker = .checked status) :
    Next id s (.write resultCount errorMessage updated)
      { s with
        store := s.store.hset id (statusMapping status resultCount errorMessage updated)
        worker := .written status
        workerWrote := some status }
  | index {status : TransactionStatus} (hphase : s.worker = .written status) :
    Next id s .index { s with store := s.store.indexStatus id status, worker := .afterSet status }
  | execute (hphase : s.worker = .running) :
    Next id s .execute { s with worker := .executed, executed := true }
  | raise {isTimeout : Bool} :
    Next id s (.raise isTimeout)
      { s with worker := s.worker.afterRaise (if isTimeout then .timeout else .failed) }
  | finish (hphase : s.worker = .recorded) : Next id s .finish { s with worker := .done }
  | cancelGoes {a : Action C} {c : C} {p : CancelPhase} (ha : Careful s a)
    (hp : s.store.has id = true → p.hasWritten = true → (s.cancel c).hasWritten = true) :
    Next id s a (s.cancelGoes c p)
  | cancelLocks {c : C} : Next id s (.cancelLock c) { s.cancelGoes c .locked with lock := some c }
  | lockExpires : Next id s .lockExpires { s with lock := none }
  | cancelWrite {c : C} {updated : String} (hphase : s.cancel c = .checked) :
    Next id s (.cancelWrite c updated)
      { s.cancelGoes c .written with
        store := s.store.hset id (statusMapping .failed 0 (some "Cancelled by user") updated)
        cancelWrote := true }
  | cancelIndex {c : C} (hphase : s.cancel c = .written) :
    Next id s (.cancelIndex c)
      { s.cancelGoes c .updated with store := s.store.indexStatus id .failed }
  | cancelRaises {c : C} (hphase : s.cancel c = .releasing none) :
    Next id s (.cancelRelease c)
      (State.cancelGoes { s with lock := if s.lock = some c then none else s.lock } c .raised)
  | cancelReturns {c : C} {value : Bool} (hphase : s.cancel c = .releasing (some value)) :
    Next id s (.cancelRelease c)
      { s.cancelGoes c (.returned value) with
        lock := if s.lock = some c then none else s.lock
        cancelledPending := s.cancelledPending || (value && s.workerWrote.isNone) }

/-- **A step that is taken is one of these.** -/
theorem next_of_step (hstep : step id s a = some s') : Next id s a s' := by
  unfold step at hstep
  cases a with
  | load | write | index | execute | finish =>
    dsimp only at hstep
    split at hstep
    · next hphase =>
      cases hstep
      constructor
      exact hphase
    · cases hstep
  | check =>
    obtain ⟨status, hsets, rfl⟩ := Option.map_eq_some_iff.1 hstep
    exact .check hsets
  | raise isTimeout =>
    cases hstep
    exact .raise
  | lockExpires =>
    cases hstep
    exact .lockExpires
  | cancelFind c tenantId =>
    dsimp only at hstep
    split at hstep
    · cases hstep
      refine .cancelGoes trivial fun _ hwritten => ?_
      split at hwritten <;> cases hwritten
    · cases hstep
  | cancelLock c =>
    dsimp only at hstep
    split at hstep
    · split at hstep
      · cases hstep
        exact .cancelLocks
      · cases hstep
        exact .cancelGoes trivial nofun
    · cases hstep
  | cancelCheck c =>
    dsimp only at hstep
    split at hstep
    · cases hstep
      refine .cancelGoes trivial fun hhas hwritten => ?_
      rw [hhas] at hwritten
      cases hwritten
    · cases hstep
  | cancelWrite c updated =>
    dsimp only at hstep
    split at hstep
    · next hphase =>
      cases hstep
      exact .cancelWrite hphase
    · cases hstep
  | cancelIndex c =>
    dsimp only at hstep
    split at hstep
    · next hphase =>
      cases hstep
      exact .cancelIndex hphase
    · cases hstep
  | cancelClearStatus c | cancelClearResults c | cancelEmit c =>
    dsimp only at hstep
    split at hstep
    · next hphase =>
      cases hstep
      refine .cancelGoes trivial fun _ _ => ?_
      rw [hphase]
      rfl
    · cases hstep
  | cancelRelease c =>
    dsimp only at hstep
    split at hstep
    · next value hphase =>
      cases value with
      | none =>
        cases hstep
        exact .cancelRaises hphase
      | some value =>
        cases hstep
        exact .cancelReturns hphase
    · cases hstep
  | cancelRaise c =>
    cases hstep
    refine .cancelGoes trivial fun _ hwritten => ?_
    cases hphase : s.cancel c <;> rw [hphase] at hwritten <;> cases hwritten

omit [DecidableEq C] in
/-- The hash is there. -/
theorem has_of_inv (h : Inv id s) : s.store.has id = true := by
  have hstatus := h.status
  unfold Store.status at hstatus
  unfold Store.has
  cases hrow : s.store.hashes.lookup id with
  | none =>
    rw [hrow] at hstatus
    cases hstatus
  | some row => rfl

omit [DecidableEq C] in
/-- The worker goes on, and writes nothing. -/
theorem inv_workerGoes (h : Inv id s) {p : WorkerPhase} (hp : p.Wrote s.workerWrote) :
    Inv id { s with worker := p } :=
  ⟨h.status, hp, h.cancelOver, h.hasWritten, h.executed, h.pending⟩

/-- A cancel goes on, and writes nothing. -/
theorem inv_cancelGoes (h : Inv id s) {p : CancelPhase}
    (hp : p.hasWritten = true → s.cancelWrote = true) : Inv id (s.cancelGoes c p) := by
  refine ⟨h.status, h.wrote, h.cancelOver, fun c' hwritten => ?_, h.executed, h.pending⟩
  by_cases hc : c' = c
  · subst hc
    rw [cancelGoes_self] at hwritten
    exact hp hwritten
  · rw [cancelGoes_of_ne s p hc] at hwritten
    exact h.hasWritten c' hwritten

omit [DecidableEq C] in
theorem inv_lock (h : Inv id s) (lock : Option C) : Inv id { s with lock := lock } :=
  ⟨h.status, h.wrote, h.cancelOver, h.hasWritten, h.executed, h.pending⟩

omit [DecidableEq C] in
theorem inv_indexStatus (h : Inv id s) (status : TransactionStatus) :
    Inv id { s with store := s.store.indexStatus id status } :=
  ⟨status_indexStatus.trans h.status, h.wrote, h.cancelOver, h.hasWritten, h.executed, h.pending⟩

/-- An exception leaves the worker where what it has written is known. -/
theorem wrote_afterRaise {p : WorkerPhase} {wrote : Option TransactionStatus} (h : p.Wrote wrote)
    (isTimeout : Bool) :
    (p.afterRaise (if isTimeout then .timeout else .failed)).Wrote wrote := by
  have hhandler : ∀ p', p' = WorkerPhase.handling (if isTimeout then .timeout else .failed) →
      wrote ≠ some .failed → wrote ≠ some .timeout → p'.Wrote wrote := by
    rintro p' rfl hfailed htimeout
    refine ⟨?_, hfailed, htimeout⟩
    cases isTimeout
    · exact Or.inl rfl
    · exact Or.inr rfl
  cases p with
  | dequeued | loaded | running | executed | recorded =>
    refine hhandler _ rfl ?_ ?_ <;> rw [show wrote = _ from h] <;> decide
  | checked status | written status =>
    cases status with
    | failed | timeout => exact trivial
    | running | completed =>
      refine hhandler _ rfl ?_ ?_ <;> rw [show wrote = _ from h] <;> decide
    | pending => exact absurd h.1 (by decide)
  | handling status | done => exact trivial

omit [DecidableEq C] in
/-- A careful write of the worker keeps the invariant. -/
theorem inv_write (h : Inv id s) {status : TransactionStatus} {resultCount : ℤ}
    {errorMessage : Option String} {updated : String} (hchecked : s.worker = .checked status)
    (hcareful : Careful s (.write resultCount errorMessage updated)) :
    Inv id { s with
      store := s.store.hset id (statusMapping status resultCount errorMessage updated)
      worker := .written status
      workerWrote := some status } := by
  obtain ⟨hcancel, hcompleted⟩ := hcareful status hchecked
  have hwrote := h.wrote
  rw [hchecked] at hwrote
  -- after a cancel the worker writes `FAILED` alone
  have hfailed : s.cancelWrote = true → status = .failed := by
    intro hcancelWrote
    by_contra hne
    rw [hcancel hne] at hcancelWrote
    cases hcancelWrote
  refine ⟨?_, ?_, fun hcancelWrote => ?_, h.hasWritten, fun _ => by simp, fun hpending => ?_⟩
  · rw [status_hset_statusMapping, if_pos rfl]
    cases hcancelWrote : s.cancelWrote with
    | false => rfl
    | true => rw [hfailed hcancelWrote]; rfl
  · cases status with
    | running | completed => rfl
    | failed | timeout => exact ⟨hwrote.1, rfl⟩
    | pending => exact absurd hwrote.1 (by decide)
  · rw [hfailed hcancelWrote]
    simp
  · obtain ⟨hcancelWrote, hexecuted, -⟩ := h.pending hpending
    rw [hfailed hcancelWrote]
    exact ⟨hcancelWrote, hexecuted, by simp⟩

/-- A careful write of a cancel keeps the invariant. -/
theorem inv_cancelWrite (h : Inv id s) {updated : String}
    (hcareful : Careful s (.cancelWrite c updated)) :
    Inv id { s.cancelGoes c .written with
      store := s.store.hset id (statusMapping .failed 0 (some "Cancelled by user") updated)
      cancelWrote := true } := by
  refine ⟨?_, h.wrote, fun _ => hcareful, fun _ _ => rfl, h.executed, fun hpending => ?_⟩
  · rw [status_hset_statusMapping, if_pos rfl]
    rfl
  · exact ⟨rfl, (h.pending hpending).2⟩

/-- A cancel that returns `True` has written the status; when the worker has written nothing, the
engine was not called. -/
theorem inv_returned (h : Inv id s) {value : Bool} (hphase : s.cancel c = .releasing (some value)) :
    Inv id { s.cancelGoes c (.returned value) with
      cancelledPending := s.cancelledPending || (value && s.workerWrote.isNone) } := by
  have hgoes := inv_cancelGoes (c := c) (p := .returned value) h (fun hwritten => by cases hwritten)
  refine ⟨h.status, h.wrote, h.cancelOver, hgoes.hasWritten, h.executed, fun hpending => ?_⟩
  rcases Bool.or_eq_true_iff.1 hpending with hbefore | hnow
  · exact h.pending hbefore
  · obtain ⟨hvalue, hnone⟩ := Bool.and_eq_true_iff.1 hnow
    rw [Option.isNone_iff_eq_none] at hnone
    refine ⟨h.hasWritten c ?_, ?_, ?_⟩
    · rw [hphase, hvalue]
      rfl
    · by_contra hexecuted
      exact h.executed (Bool.eq_true_of_not_eq_false hexecuted) hnone
    · show s.workerWrote ≠ _
      rw [hnone]
      decide

/-- **A careful step keeps the invariant.** -/
theorem inv_step (h : Inv id s) (hstep : step id s a = some s') (hcareful : Careful s a) :
    Inv id s' := by
  have hwrote := h.wrote
  cases next_of_step hstep with
  | load hphase =>
    rw [hphase] at hwrote
    rw [has_of_inv h]
    exact inv_workerGoes h hwrote
  | @check status hsets =>
    rw [has_of_inv h]
    refine inv_workerGoes h ?_
    cases hphase : s.worker with
    | loaded | executed =>
      rw [hphase] at hsets hwrote
      cases hsets
      exact hwrote
    | handling =>
      rw [hphase] at hsets hwrote
      cases hsets
      rcases hwrote with ⟨rfl | rfl, hwrote⟩
      · exact ⟨Or.inl rfl, hwrote⟩
      · exact ⟨Or.inr rfl, hwrote⟩
    | dequeued | checked | written | running | recorded | done =>
      rw [hphase] at hsets
      cases hsets
  | write hphase => exact inv_write h hphase hcareful
  | @index status hphase =>
    refine inv_workerGoes (inv_indexStatus h status) ?_
    rw [hphase] at hwrote
    cases status with
    | running | completed => exact hwrote
    | pending | failed | timeout => exact trivial
  | execute hphase =>
    rw [hphase] at hwrote
    have hsome : s.workerWrote = some .running := hwrote
    refine ⟨h.status, hwrote, h.cancelOver, h.hasWritten, fun _ => ?_, fun hpending => ?_⟩
    · show s.workerWrote ≠ none
      simp [hsome]
    · exact absurd hsome (h.pending hpending).2.2
  | @raise isTimeout => exact inv_workerGoes h (wrote_afterRaise hwrote isTimeout)
  | finish => exact inv_workerGoes h trivial
  | @cancelGoes _ c p _ hp =>
    exact inv_cancelGoes h fun hwritten => h.hasWritten c (hp (has_of_inv h) hwritten)
  | @cancelLocks c => exact inv_lock (inv_cancelGoes h fun hwritten => by cases hwritten) (some c)
  | lockExpires => exact inv_lock h none
  | cancelWrite => exact inv_cancelWrite h hcareful
  | @cancelIndex c hphase =>
    refine inv_indexStatus (inv_cancelGoes h fun _ => h.hasWritten c ?_) .failed
    rw [hphase]
    rfl
  | cancelRaises => exact inv_cancelGoes (inv_lock h _) nofun
  | cancelReturns hphase => exact inv_lock (inv_returned h hphase) _

/-- What a step does to the status: the two writes set it, and nothing else changes it. -/
theorem status_step (hstep : step id s a = some s') :
    (∃ resultCount errorMessage updated status, a = .write resultCount errorMessage updated ∧
        s.worker = .checked status ∧ s'.store.status id = some status.value) ∨
      (∃ c updated, a = .cancelWrite c updated ∧
        s'.store.status id = some TransactionStatus.failed.value) ∨
      Careful s a ∧ s'.store.status id = s.store.status id := by
  cases next_of_step hstep with
  | @write status resultCount errorMessage updated hphase =>
    refine Or.inl ⟨resultCount, errorMessage, updated, status, rfl, hphase, ?_⟩
    rw [status_hset_statusMapping, if_pos rfl]
  | @cancelWrite c updated =>
    refine Or.inr (Or.inl ⟨c, updated, rfl, ?_⟩)
    rw [status_hset_statusMapping, if_pos rfl]
  | index => exact Or.inr (Or.inr ⟨trivial, status_indexStatus⟩)
  | cancelIndex => exact Or.inr (Or.inr ⟨trivial, status_indexStatus⟩)
  | cancelGoes hcareful => exact Or.inr (Or.inr ⟨hcareful, rfl⟩)
  | _ => exact Or.inr (Or.inr ⟨trivial, rfl⟩)

omit [DecidableEq C] in
/-- The status after a write of `status` is the one before, if that was to be final. -/
theorem final_iff (h : Inv id s) {status : TransactionStatus}
    (hstatus : s'.store.status id = some status.value) :
    Final id s s' ↔
      (s.cancelWrote = true → status = .failed) ∧
        (s.cancelWrote = false → (s.workerWrote.getD .pending).isTerminal = true →
          status = s.workerWrote.getD .pending) := by
  unfold Final
  rw [hstatus, h.status]
  simp only [Option.some_inj, TransactionStatus.value_injective.eq_iff]
  cases s.cancelWrote with
  | true => simp [TransactionStatus.isTerminal]
  | false => simp

/-- **A step is careful exactly when it leaves a terminal status.** -/
theorem careful_iff_final (h : Inv id s) (hstep : step id s a = some s') :
    Careful s a ↔ Final id s s' := by
  have hwrote := h.wrote
  rcases status_step hstep with ⟨resultCount, errorMessage, updated, status, rfl, hphase, hstatus⟩ |
    ⟨c, updated, rfl, hstatus⟩ | ⟨hcareful, hstatus⟩
  · rw [final_iff h hstatus]
    rw [hphase] at hwrote
    have hcareful : Careful s (.write resultCount errorMessage updated) ↔
        (status ≠ .failed → s.cancelWrote = false) ∧
          (status = .failed ∨ status = .timeout → s.workerWrote ≠ some .completed) := by
      refine ⟨fun hall => hall status hphase, fun hall status' hphase' => ?_⟩
      rw [hphase] at hphase'
      cases hphase'
      exact hall
    rw [hcareful]
    cases status with
    | running | completed =>
      -- the worker has written nothing terminal before
      rw [show s.workerWrote = _ from hwrote]
      cases s.cancelWrote <;> simp [TransactionStatus.isTerminal]
    | pending => exact absurd hwrote.1 (by decide)
    | failed | timeout =>
      obtain ⟨-, hfailed, htimeout⟩ := hwrote
      have hover := h.cancelOver
      revert hfailed htimeout hover
      rcases s.workerWrote with _ | _ | _ | _ | _ | _ <;>
        cases s.cancelWrote <;> simp [TransactionStatus.isTerminal]
  · rw [final_iff h hstatus]
    show s.workerWrote ≠ some .completed ∧ s.workerWrote ≠ some .timeout ↔ _
    have hover := h.cancelOver
    revert hover
    rcases s.workerWrote with _ | _ | _ | _ | _ | _ <;>
      cases s.cancelWrote <;> simp [TransactionStatus.isTerminal]
  · exact iff_of_true hcareful fun _ => hstatus

/-- Where a step can take the worker. -/
inductive WorkerPhase.Goes : WorkerPhase → WorkerPhase → Prop
  | stays (p) : Goes p p
  | load {p} (hp : p = .loaded ∨ p = .done) : Goes .dequeued p
  | check {p p' status} (hsets : p.sets = some status)
      (hp' : p' = .checked status ∨ p' = .afterSet status) : Goes p p'
  | write (status) : Goes (.checked status) (.written status)
  | index (status) : Goes (.written status) (.afterSet status)
  | execute : Goes .running .executed
  | raise (p) {status}
      (hstatus : status = .failed ∨ status = .timeout) : Goes p (p.afterRaise status)
  | finish : Goes .recorded .done

theorem goes_of_step (hstep : step id s a = some s') : s.worker.Goes s'.worker := by
  cases next_of_step hstep with
  | load hphase =>
    rw [hphase]
    refine .load ?_
    cases s.store.has id
    · exact Or.inr rfl
    · exact Or.inl rfl
  | check hsets =>
    refine .check hsets ?_
    cases s.store.has id
    · exact Or.inr rfl
    · exact Or.inl rfl
  | write hphase =>
    rw [hphase]
    exact .write _
  | index hphase =>
    rw [hphase]
    exact .index _
  | execute hphase =>
    rw [hphase]
    exact .execute
  | @raise isTimeout =>
    refine .raise s.worker ?_
    cases isTimeout
    · exact Or.inl rfl
    · exact Or.inr rfl
  | finish hphase =>
    rw [hphase]
    exact .finish
  | _ => exact .stays _

end Steps

/-! ### Runs -/

omit [DecidableEq C] in
theorem inv_init (store : Store) (args : SaveArgs) (created : String) :
    Inv args.transactionId (init C store args created) := by
  refine ⟨?_, rfl, nofun, nofun, nofun, nofun⟩
  show ((store.hset _ _).saddTenant _ _).status _ = _
  rw [status_saddTenant, status_hset_saveMapping, if_pos rfl]
  rfl

/-- **Terminal statuses are final, and what was cancelled while it was pending is never executed,
exactly when every write of the status is careful.** -/
theorem final_and_neverExecuted_iff (store : Store) (args : SaveArgs) (created : String)
    (actions : List (Action C)) :
    (Runs.Always (step args.transactionId) NeverExecuted (init C store args created) actions ∧
      Runs.EachStep (step args.transactionId) (fun s _ s' => Final args.transactionId s s')
        (init C store args created) actions) ↔
      Runs.EachStep (step args.transactionId) (fun s a _ => Careful s a)
        (init C store args created) actions := by
  have hnever : ∀ s : State C, Inv args.transactionId s → NeverExecuted s :=
    fun s h hpending => (h.pending hpending).2.1
  refine Runs.always_and_eachStep_iff hnever (fun s a s' h hstep => ?_)
    (fun s a s' h hstep hcareful => inv_step h hstep hcareful)
    (inv_init store args created) actions
  rw [careful_iff_final h hstep]
  refine ⟨fun hfinal => ⟨?_, hfinal⟩, And.right⟩
  exact hnever s' (inv_step h hstep ((careful_iff_final h hstep).2 hfinal))

/-- A cancel from its start to its return, while the worker waits. -/
def cancelCall : List (Action Unit) :=
  [.cancelFind () 0, .cancelLock (), .cancelCheck (), .cancelWrite () "t1", .cancelIndex (),
    .cancelClearStatus (), .cancelClearResults (), .cancelEmit (), .cancelRelease ()]

/-- **A cancel that returns before the worker starts does not stop it**: the status goes from
`FAILED` to `RUNNING`, and the query is executed. -/
theorem not_final_and_neverExecuted :
    ¬ Runs.Always (step 7) NeverExecuted (init Unit .empty waiting "t0")
        (cancelCall ++ [.load, .check, .write 0 none "t2", .index, .execute]) ∧
      ¬ Runs.EachStep (step 7) (fun s _ s' => Final 7 s s') (init Unit .empty waiting "t0")
        (cancelCall ++ [.load, .check, .write 0 none "t2", .index, .execute]) := by
  constructor
  · intro h
    obtain ⟨s, hrun, hpending, hexecuted⟩ : ∃ s, Runs.run (step 7) (init Unit .empty waiting "t0")
        (cancelCall ++ [.load, .check, .write 0 none "t2", .index, .execute]) = some s ∧
          s.cancelledPending = true ∧ s.executed = true :=
      ⟨_, rfl, by decide +kernel, by decide +kernel⟩
    have hnever := h _ List.prefix_rfl s hrun hpending
    rw [hexecuted] at hnever
    cases hnever
  · intro h
    obtain ⟨s₁, s₂, hrun, hstep, hbefore, hafter⟩ : ∃ s₁ s₂,
        Runs.run (step 7) (init Unit .empty waiting "t0") (cancelCall ++ [.load, .check]) =
          some s₁ ∧
          step 7 s₁ (.write 0 none "t2") = some s₂ ∧ s₁.store.status 7 = some "failed" ∧
          s₂.store.status 7 = some "running" :=
      ⟨_, _, rfl, rfl, by decide +kernel, by decide +kernel⟩
    have hfinal := h _ _ ⟨[.index, .execute], rfl⟩ s₁ s₂ hrun hstep ⟨.failed, rfl, hbefore⟩
    rw [hbefore, hafter] at hfinal
    exact absurd hfinal (by decide)

end KuzuEventBus.Service.Cancellation
