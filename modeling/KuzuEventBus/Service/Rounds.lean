import KuzuEventBus.Lib.Effects
import KuzuEventBus.Service.Transactions

/-!
# Whole rounds of the worker

`run_once` with its handlers: the status of the transaction, the rows in the cache, the event and
the acknowledgement, beside the database and the log.  Every awaited call may raise, and a handler
runs with what the body has bound so far.

## Main definitions

* `PyExc`, `Answer`, `Env` — exceptions, how a call answers, and how all of them do in a round.
* `Keys`, `Round`, `RoundM` — what a round changes, and its steps, which may raise.
* `body`, `handler`, `runOnce` — the `try`, its handlers, and the round.

## Main results

* `wp_updateStatus_world`, `wp_handler_world` — what the calls and the handlers leave.
* `runOnce_world` — **a whole round changes the database and the log as the round that looks at them
  alone does.**
-/

namespace KuzuEventBus.Service.Rounds

open Transactions EffectM

variable {σ : Type}

/-! ### Exceptions and answers -/

/-- An exception: whether it is an `asyncio.TimeoutError`, and its text. -/
structure PyExc where
  isTimeout : Bool
  message : PyError

/-- An exception that is no `asyncio.TimeoutError`. -/
def PyExc.other (message : PyError) : PyExc := ⟨false, message⟩

/-- How a call of several commands answers; one that raises may have done the first of them. -/
inductive Answer where
  | returns
  | raises (begun : Bool) (e : PyExc)

/-- The calls a round makes for a transaction and its message. -/
inductive Request where
  | updateStatus (status : TransactionStatus)
  | acknowledge
  deriving DecidableEq

/-- The fields of an event of the stream of a tenant. -/
structure Event where
  tenantId : Uuid
  eventType : String
  data : List (String × String)

/-- How Python reads texts, what the engine does, and how the services answer during a round.  The
calls whose exceptions are swallowed answer with whether they succeed. -/
structure Env (σ : Type) where
  uuid : String → Except PyError Uuid
  int : String → Except PyError ℤ
  loads : String → Except PyError Json
  engine : Engine σ
  elapsed : String → σ → Instant
  updated : TransactionStatus → String
  executionTimeMs : String
  dequeueTransaction : Except PyExc (Option Message)
  findById : Except PyExc Unit
  setRunning : Answer
  ensureLocalDb : Except PyExc Unit
  append : AppendAnswers
  setCompleted : Answer
  cacheSet : Bool
  emitEvent : Bool
  acknowledge : Answer
  handlerUpdate : Answer
  handlerAcknowledge : Answer

/-- The keys of Redis a round changes, the database and the log. -/
structure Keys (σ : Type) where
  store : Store
  world : World σ
  results : HashMap Uuid (List Json)

/-- The keys, what the round has sent, which of its calls raised, and the local variables a handler
uses. -/
structure Round (σ : Type) extends Keys σ where
  events : List Event
  acked : List String
  raised : List Request
  message : Option Message
  databaseId : Option Uuid

/-- The start of a round. -/
def Round.start (keys : Keys σ) : Round σ := ⟨keys, [], [], [], none, none⟩

/-- The steps of a round. -/
abbrev RoundM (σ : Type) := EffectM PyExc (Round σ)

/-! ### The calls -/

/-- A call for the transaction; `begun` is what its first command does. -/
def call (answer : Answer) (request : Request) (begun done : Round σ → Round σ) : RoundM σ Unit :=
  match answer with
  | .returns => modify done
  | .raises wasBegun e => do
    modify fun r => { (if wasBegun then begun r else r) with raised := request :: r.raised }
    throw e

/-- `update_status`. -/
def updateStatus (env : Env σ) (answer : Answer) (id : Uuid) (status : TransactionStatus)
    (resultCount : ℤ) (errorMessage : Option String) : RoundM σ Unit :=
  call answer (.updateStatus status)
    (fun r => { r with
      store := if r.store.has id then
          r.store.hset id (statusMapping status resultCount errorMessage (env.updated status))
        else r.store })
    (fun r => { r with
      store := (Transactions.updateStatus r.store id status resultCount errorMessage
        (env.updated status)).2 })

/-- `acknowledge_transaction`: the deletion from the stream comes after the acknowledgement. -/
def acknowledge (answer : Answer) (messageId : String) : RoundM σ Unit :=
  let acked := fun r : Round σ => { r with acked := messageId :: r.acked }
  call answer .acknowledge acked acked

/-- `_emit_event`, which swallows what the stream raises. -/
def emitEvent (env : Env σ) (event : Event) : RoundM σ Unit :=
  modify fun r => { r with events := if env.emitEvent then event :: r.events else r.events }

/-- `tx[field]`. -/
def field (tx : Hash) (name : String) : Except PyExc String :=
  match tx.lookup name with
  | some value => .ok value
  | none => .error (.other ("'" ++ name ++ "'"))

/-- The parameters and the timeout, as `run_once` passes them on. -/
def arguments (env : Env σ) (tx : Hash) : Except PyError (Option Json × ℤ) := do
  let parameters ← loadParameters env.loads (tx.lookup "parameters")
  let timeoutSeconds ← env.int ((tx.lookup "timeout_seconds").getD "30")
  pure (parameters, timeoutSeconds)

/-! ### The round -/

/-- From the execution to the acknowledgement. -/
def execute (env : Env σ) (msg : Message) (databaseId : Uuid) (query : String)
    (parameters : Option Json) (timeoutSeconds : ℤ) : RoundM σ Unit := do
  let db := (← get).world.db
  let (result, db) := executeQuery env.engine query parameters timeoutSeconds db
  let rows := result.results
  modify fun r => { r with world := ⟨db,
    if isMutating query then
      appendWalEntry env.append r.world.store msg.tenantId databaseId query parameters rows
    else r.world.store⟩ }
  updateStatus env env.setCompleted msg.transactionId .completed rows.length none
  modify fun r => { r with
    results := if env.cacheSet then r.results.insert msg.transactionId rows else r.results }
  emitEvent env ⟨msg.tenantId, "completed", [("transaction_id", msg.transactionId.str),
    ("database_id", databaseId.str), ("rows_count", toString rows.length),
    ("execution_time_ms", env.executionTimeMs)]⟩
  acknowledge env.acknowledge msg.messageId

/-- What a transaction's fields give: its database and its query. -/
def readDatabaseId (env : Env σ) (tx : Hash) : Except PyExc Uuid :=
  (field tx "database_id").bind fun text => (env.uuid text).mapError .other

/-- The body for a transaction that is there. -/
def process (env : Env σ) (msg : Message) (tx : Hash) : RoundM σ Unit := do
  let databaseId ← ofExcept (readDatabaseId env tx)
  modify fun r => { r with databaseId := some databaseId }
  let query ← ofExcept (field tx "query")
  updateStatus env env.setRunning msg.transactionId .running 0 none
  ofExcept env.ensureLocalDb
  let (parameters, timeoutSeconds) ← ofExcept ((arguments env tx).mapError .other)
  execute env msg databaseId query parameters timeoutSeconds

/-- The body of the `try`. -/
def body (env : Env σ) : RoundM σ Unit := do
  match ← ofExcept env.dequeueTransaction with
  | none => pure ()
  | some msg =>
    modify fun r => { r with message := some msg }
    ofExcept env.findById
    match findById (← get).store msg.transactionId with
    | none => acknowledge env.acknowledge msg.messageId
    | some tx => process env msg tx

/-- What Python raises for a local variable that is not bound. -/
def unbound (name : String) : PyExc :=
  .other ("local variable '" ++ name ++ "' referenced before assignment")

/-- The handlers: they use the variables the body has bound. -/
def handler (env : Env σ) (e : PyExc) : RoundM σ Unit := do
  match (← get).message with
  | none => throw (unbound "tx_id")
  | some msg =>
    updateStatus env env.handlerUpdate msg.transactionId
      (if e.isTimeout then .timeout else .failed) 0 (some e.message)
    match (← get).databaseId with
    | none => throw (unbound "database_id")
    | some databaseId =>
      emitEvent env ⟨msg.tenantId, if e.isTimeout then "timeout" else "failed",
        [("transaction_id", msg.transactionId.str), ("database_id", databaseId.str),
          ("error", e.message)]⟩
      acknowledge env.handlerAcknowledge msg.messageId

/-- `run_once`: what it returns or raises, and what it leaves. -/
def runOnce (env : Env σ) (keys : Keys σ) : Except PyExc Unit × Round σ :=
  (tryCatch (body env) (handler env)).run (.start keys)

/-! ### How the calls end -/

section Calls

variable {env : Env σ} {Q : Unit → Round σ → Prop} {E : PyExc → Round σ → Prop} {r : Round σ}
  {id : Uuid} {status : TransactionStatus} {resultCount : ℤ} {errorMessage : Option String}

@[simp] theorem wp_call_returns (request : Request) (begun done : Round σ → Round σ) :
    wp (call .returns request begun done) Q E r = Q () (done r) := rfl

@[simp] theorem wp_call_raises (wasBegun : Bool) (e : PyExc) (request : Request)
    (begun done : Round σ → Round σ) :
    wp (call (.raises wasBegun e) request begun done) Q E r =
      E e { (if wasBegun then begun r else r) with raised := request :: r.raised } := rfl

@[simp] theorem wp_emitEvent (event : Event) :
    wp (emitEvent env event) Q E r =
      Q () { r with events := if env.emitEvent then event :: r.events else r.events } := rfl

end Calls

theorem runOnce_of_wp {env : Env σ} {keys : Keys σ} {P : Round σ → Prop}
    (h : wp (tryCatch (body env) (handler env)) (fun _ r => P r) (fun _ r => P r) (.start keys)) :
    P (runOnce env keys).2 := by
  unfold wp at h
  unfold runOnce
  rcases hrun : (tryCatch (body env) (handler env)).run (.start keys) with ⟨e | ⟨⟩, r⟩
  · rw [hrun] at h
    exact h
  · rw [hrun] at h
    exact h

/-! ### The database and the log -/

/-- How a call answers, to the round that looks at the database and the log alone. -/
def Answer.toExcept : Answer → Except PyError Unit
  | .returns => .ok ()
  | .raises _ e => .error e.message

/-- The transaction a hash spells. -/
def readTransaction (env : Env σ) (tx : Hash) : Except PyExc Transaction := do
  let databaseId ← readDatabaseId env tx
  let query ← field tx "query"
  pure ⟨databaseId, query, tx.lookup "parameters",
    (env.int ((tx.lookup "timeout_seconds").getD "30")).toOption⟩

/-- What the load answers. -/
def loadTransaction (env : Env σ) (keys : Keys σ) : Except PyExc (Option Transaction) := do
  match ← env.dequeueTransaction with
  | none => pure none
  | some msg =>
    env.findById
    match findById keys.store msg.transactionId with
    | none => pure none
    | some tx => (readTransaction env tx).map some

/-- The answers, as far as the database and the log depend on them. -/
def Env.answers (env : Env σ) (keys : Keys σ) : RoundAnswers where
  dequeueTransaction := env.dequeueTransaction.mapError (·.message)
  findById := (loadTransaction env keys).mapError (·.message)
  setRunning := env.setRunning.toExcept
  ensureLocalDb := env.ensureLocalDb.mapError (·.message)
  loads := env.loads
  append := env.append

/-- What a job does to the database and the log. -/
def runJob (env : Env σ) (job : Job) (w : World σ) : World σ :=
  let (result, db) := executeQuery env.engine job.query job.parameters job.timeoutSeconds w.db
  ⟨db, if isMutating job.query then appendWalEntry env.append w.store job.tenantId job.databaseId
    job.query job.parameters result.results else w.store⟩

theorem service_runOnce_eq (env : Env σ) (keys : Keys σ) (w : World σ) :
    Service.runOnce env.engine (env.answers keys) w =
      match prepareJob (env.answers keys) with
      | .error _ => w
      | .ok none => w
      | .ok (some job) => runJob env job w := by
  unfold Service.runOnce runJob
  rcases prepareJob (env.answers keys) with message | _ | job
  · rfl
  · rfl
  · dsimp only
    split <;> rfl

section WorldOf

variable {env : Env σ} {keys : Keys σ} {msg : Message} {tx : Hash} {r : Round σ} {e : PyExc}
  {w : World σ}

/-- A call for the transaction leaves the database and the log. -/
theorem wp_updateStatus_world {Q : Unit → Round σ → Prop} {E : PyExc → Round σ → Prop}
    {answer : Answer} {id : Uuid} {status : TransactionStatus} {resultCount : ℤ}
    {errorMessage : Option String}
    (hreturns : answer = .returns → ∀ r' : Round σ, r'.world = r.world → r'.message = r.message →
      Q () r')
    (hraises : answer ≠ .returns → ∀ e (r' : Round σ), r'.world = r.world → E e r') :
    wp (updateStatus env answer id status resultCount errorMessage) Q E r := by
  unfold updateStatus
  cases answer with
  | returns => exact hreturns rfl _ rfl rfl
  | raises begun e =>
    rw [wp_call_raises]
    cases begun <;> exact hraises nofun e _ rfl

theorem wp_acknowledge_world {Q : Unit → Round σ → Prop} {E : PyExc → Round σ → Prop}
    {answer : Answer} {messageId : String} (hreturns : ∀ r' : Round σ, r'.world = r.world → Q () r')
    (hraises : ∀ e (r' : Round σ), r'.world = r.world → E e r') :
    wp (acknowledge answer messageId) Q E r := by
  unfold acknowledge
  cases answer with
  | returns => exact hreturns _ rfl
  | raises begun e =>
    rw [wp_call_raises]
    cases begun <;> exact hraises e _ rfl

/-- A handler leaves the database and the log. -/
theorem wp_handler_world (hworld : r.world = w) :
    wp (handler env e) (fun _ r => r.world = w) (fun _ r => r.world = w) r := by
  unfold handler
  simp only [wp_bind, wp_get]
  cases r.message with
  | none => exact hworld
  | some msg =>
    simp only [wp_bind, wp_get]
    refine wp_updateStatus_world (fun _ r' hr' _ => ?_) (fun _ e' r' hr' => hr'.trans hworld)
    cases r'.databaseId with
    | none => exact hr'.trans hworld
    | some databaseId =>
      simp only [wp_bind, wp_emitEvent]
      exact wp_acknowledge_world (fun r'' hr'' => hr''.trans (hr'.trans hworld))
        (fun e' r'' hr'' => hr''.trans (hr'.trans hworld))

/-- The execution and what follows change the database and the log as the job does. -/
theorem wp_execute_world (databaseId : Uuid) (query : String) (parameters : Option Json)
    (timeoutSeconds : ℤ)
    (hw : runJob env ⟨msg.tenantId, databaseId, query, parameters, timeoutSeconds⟩ r.world = w) :
    wp (execute env msg databaseId query parameters timeoutSeconds) (fun _ r => r.world = w)
      (fun e r => wp (handler env e) (fun _ r => r.world = w) (fun _ r => r.world = w) r) r := by
  unfold execute
  simp only [wp_bind, wp_get, wp_modify, wp_emitEvent]
  refine wp_updateStatus_world (fun _ r' hr' _ => ?_)
    (fun _ e r' hr' => wp_handler_world (hr'.trans hw))
  exact wp_acknowledge_world (fun r'' hr'' => hr''.trans (hr'.trans hw))
    (fun e r'' hr'' => wp_handler_world (hr''.trans (hr'.trans hw)))

/-- The job of a loaded transaction. -/
def readJob (env : Env σ) (msg : Message) (tx : Transaction) : Except PyError Job := do
  env.setRunning.toExcept
  env.ensureLocalDb.mapError (·.message)
  let parameters ← loadParameters env.loads tx.parameters
  match tx.timeoutSeconds with
  | none => throw "invalid literal for int() with base 10"
  | some timeoutSeconds => pure ⟨msg.tenantId, tx.databaseId, tx.query, parameters, timeoutSeconds⟩

theorem prepareJob_answers (hdequeue : env.dequeueTransaction = .ok (some msg)) :
    prepareJob (env.answers keys) = match loadTransaction env keys with
      | .error e => .error e.message
      | .ok none => .ok none
      | .ok (some tx) => (readJob env msg tx).map some := by
  unfold prepareJob Env.answers readJob
  rw [hdequeue]
  rcases loadTransaction env keys with e | _ | tx
  · rfl
  · rfl
  · -- the steps of `prepareJob` after the load are those of `readJob`
    show (env.setRunning.toExcept >>= fun _ => env.ensureLocalDb.mapError _ >>= _ : Except _ _) = _
    rcases env.setRunning.toExcept with message | u
    · rfl
    rcases env.ensureLocalDb with e | u
    · rfl
    show (loadParameters env.loads tx.parameters >>= _ : Except _ _) =
      (loadParameters env.loads tx.parameters >>= _ : Except _ _).map _
    rcases loadParameters env.loads tx.parameters with message | parameters
    · rfl
    · show (match tx.timeoutSeconds with | none => _ | some timeoutSeconds => _ : Except _ _) =
        (match tx.timeoutSeconds with | none => _ | some timeoutSeconds => _ : Except _ _).map _
      rcases tx.timeoutSeconds with _ | timeoutSeconds
      · rfl
      · rfl

/-- The body for a transaction changes them as its job does, if there is one. -/
theorem wp_process_world {w₀ : World σ} (hworld : r.world = w₀)
    (hread : ∀ e, readTransaction env tx = .error e → w₀ = w)
    (hraises : ∀ tx' message, readTransaction env tx = .ok tx' →
      readJob env msg tx' = .error message → w₀ = w)
    (hruns : ∀ tx' job, readTransaction env tx = .ok tx' → readJob env msg tx' = .ok job →
      runJob env job w₀ = w) :
    wp (process env msg tx) (fun _ r => r.world = w)
      (fun e r => wp (handler env e) (fun _ r => r.world = w) (fun _ r => r.world = w) r) r := by
  unfold readTransaction at hread hraises hruns
  unfold readJob at hraises hruns
  unfold process
  simp only [wp_bind, wp_modify]
  -- an answer that raises ends in the handler, which leaves the world as it is
  cases hid : readDatabaseId env tx with
  | error e =>
    rw [hid] at hread
    exact wp_handler_world (hworld.trans (hread e rfl))
  | ok databaseId =>
    rw [hid] at hread hraises hruns
    cases hquery : field tx "query" with
    | error e =>
      rw [hquery] at hread
      exact wp_handler_world (hworld.trans (hread e rfl))
    | ok query =>
      rw [hquery] at hraises hruns
      refine wp_updateStatus_world (fun hreturns r' hr' _ => ?_) (fun hraised e r' hr' => ?_)
      · rw [hreturns] at hraises hruns
        cases hlocal : env.ensureLocalDb with
        | error e =>
          rw [hlocal] at hraises
          exact wp_handler_world (hr'.trans (hworld.trans (hraises _ e.message rfl rfl)))
        | ok u =>
          rw [hlocal] at hraises hruns
          unfold arguments
          cases hparameters : loadParameters env.loads (tx.lookup "parameters") with
          | error message =>
            refine wp_handler_world (hr'.trans (hworld.trans (hraises _ message rfl ?_)))
            simp [hparameters, Answer.toExcept, Except.mapError, bind, Except.bind]
          | ok parameters =>
            cases hint : env.int ((tx.lookup "timeout_seconds").getD "30") with
            | error message =>
              refine wp_handler_world (hr'.trans (hworld.trans
                (hraises _ "invalid literal for int() with base 10" rfl ?_)))
              simp [hparameters, hint, Answer.toExcept, Except.mapError, Except.toOption, bind,
                Except.bind, throw, throwThe, MonadExceptOf.throw]
            | ok timeoutSeconds =>
              refine wp_execute_world databaseId query parameters timeoutSeconds ?_
              rw [hr'.trans hworld]
              refine hruns _ _ rfl ?_
              simp [hparameters, hint, Answer.toExcept, Except.mapError, Except.toOption, bind,
                Except.bind, pure, Except.pure]
      · cases hset : env.setRunning with
        | returns => exact absurd hset hraised
        | raises begun e' =>
          rw [hset] at hraises
          exact wp_handler_world (hr'.trans (hworld.trans (hraises _ e'.message rfl rfl)))

/-- **A whole round changes the database and the log as the round that looks at them alone does.**
-/
theorem runOnce_world (env : Env σ) (keys : Keys σ) :
    (runOnce env keys).2.world = Service.runOnce env.engine (env.answers keys) keys.world := by
  have hraises : ∀ message, prepareJob (env.answers keys) = .error message →
      keys.world = Service.runOnce env.engine (env.answers keys) keys.world := by
    intro message hjob
    rw [service_runOnce_eq, hjob]
  have hnone : prepareJob (env.answers keys) = .ok none →
      keys.world = Service.runOnce env.engine (env.answers keys) keys.world := by
    intro hjob
    rw [service_runOnce_eq, hjob]
  have hruns : ∀ job, prepareJob (env.answers keys) = .ok (some job) →
      runJob env job keys.world = Service.runOnce env.engine (env.answers keys) keys.world := by
    intro job hjob
    rw [service_runOnce_eq, hjob]
  revert hraises hnone hruns
  generalize Service.runOnce env.engine (env.answers keys) keys.world = w
  intro hraises hnone hruns
  refine runOnce_of_wp (P := fun r => r.world = w) ?_
  unfold body
  simp only [wp_tryCatch, wp_bind]
  cases hdequeue : env.dequeueTransaction with
  | error e =>
    rw [wp_ofExcept_error]
    refine wp_handler_world (hraises e.message ?_)
    unfold prepareJob Env.answers
    rw [hdequeue]
    rfl
  | ok msg =>
    rw [wp_ofExcept_ok]
    cases msg with
    | none =>
      refine hnone ?_
      unfold prepareJob Env.answers
      rw [hdequeue]
      rfl
    | some msg =>
      rw [prepareJob_answers hdequeue] at hraises hnone hruns
      unfold loadTransaction at hraises hnone hruns
      rw [hdequeue] at hraises hnone hruns
      simp only [wp_bind, wp_modify]
      cases hfind : env.findById with
      | error e =>
        rw [hfind] at hraises
        exact wp_handler_world (hraises e.message rfl)
      | ok u =>
        rw [hfind] at hraises hnone hruns
        simp only [wp_ofExcept_ok, wp_get, Round.start]
        cases htx : findById keys.store msg.transactionId with
        | none =>
          have hw := hnone (by simp [htx, bind, Except.bind, pure, Except.pure])
          exact wp_acknowledge_world (fun r' hr' => hr'.trans hw)
            (fun e r' hr' => wp_handler_world (hr'.trans hw))
        | some tx =>
          simp only [htx, bind, Except.bind] at hraises hnone hruns
          refine wp_process_world rfl (fun e he => ?_) (fun tx' message htx' hjob => ?_)
            (fun tx' job htx' hjob => ?_)
          · exact hraises e.message (by rw [he]; rfl)
          · exact hraises message (by rw [htx']; dsimp [Except.map]; rw [hjob])
          · exact hruns job (by rw [htx']; dsimp [Except.map]; rw [hjob])

end WorldOf

end KuzuEventBus.Service.Rounds
