import KuzuEventBus.Service.Rounds

/-!
# How rounds end

When a round returns with its message settled, and what the status it leaves tells.  The handlers
use variables that need not be bound, and await calls that may raise outside any `try`; and the
adapter of the engine turns an error into a result, and does not look at the timeout.

## Main definitions

* `Survives`, `Answered` — the round returns and settles its message, and which calls that takes.
* `attempt` — the call of the engine that a transaction leads to.
* `Tells`, `Leaves` — the status tells how it ended, and what a round leaves.

## Main results

* `survives_iff` — **a round survives exactly when its calls answer**, but for those a handler makes
  up for.
* `runOnce_serving` — what a round leaves when Redis answers.
* `tells_iff` — **the status tells how the execution ended exactly when the engine returns rows in
  time, or something other than a timeout is raised before it is called.**
-/

namespace KuzuEventBus.Service.Rounds

open Transactions EffectM

variable {σ : Type}

/-! ### Surviving a round -/

/-- The message is acknowledged, and its transaction, if it is there, is in a terminal status,
unless a call that would do so has raised. -/
def Settled (keys : Keys σ) (msg : Message) (r : Round σ) : Prop :=
  (msg.messageId ∈ r.acked ∨ .acknowledge ∈ r.raised) ∧
    (keys.store.has msg.transactionId = true → ∃ status : TransactionStatus,
      status.isTerminal = true ∧
        (r.store.status msg.transactionId = some status.value ∨ .updateStatus status ∈ r.raised))

/-- The round returns, and settles the message it has taken. -/
def Survives (env : Env σ) (keys : Keys σ) : Prop :=
  ∃ r, runOnce env keys = (.ok (), r) ∧
    ∀ msg, env.dequeueTransaction = .ok (some msg) → Settled keys msg r

/-- Every step of the body after the database id answers. -/
def BodyAnswers (env : Env σ) (tx : Hash) : Prop :=
  (∃ query, field tx "query" = .ok query) ∧ env.setRunning = .returns ∧
    env.ensureLocalDb = .ok () ∧ (∃ args, arguments env tx = .ok args) ∧
      env.setCompleted = .returns ∧ env.acknowledge = .returns

/-- The handler's calls answer. -/
def HandlerAnswers (env : Env σ) : Prop :=
  env.handlerUpdate = .returns ∧ env.handlerAcknowledge = .returns

/-- The dequeue answers and, for a message, the load does; then, when there is no transaction, the
acknowledgement does, and otherwise its database id is one, and the rest of the body answers, or the
handler does. -/
def Answered (env : Env σ) (keys : Keys σ) : Prop :=
  match env.dequeueTransaction with
  | .error _ => False
  | .ok none => True
  | .ok (some msg) =>
    env.findById = .ok () ∧
      match findById keys.store msg.transactionId with
      | none => env.acknowledge = .returns
      | some tx =>
        (∃ databaseId, readDatabaseId env tx = .ok databaseId) ∧
          (BodyAnswers env tx ∨ HandlerAnswers env)

section Survival

variable {env : Env σ} {keys : Keys σ} {msg : Message} {tx : Hash} {r : Round σ} {e : PyExc}
  {databaseId : Uuid}

theorem survives_iff_wp :
    Survives env keys ↔ wp (tryCatch (body env) (handler env))
      (fun _ r => ∀ msg, env.dequeueTransaction = .ok (some msg) → Settled keys msg r)
      (fun _ _ => False) (.start keys) := by
  unfold Survives runOnce wp
  rcases (tryCatch (body env) (handler env)).run (.start keys) with ⟨e | ⟨⟩, r⟩
  · simp
  · simp

/-- The variables of the handlers are bound, and the transaction is there. -/
structure Bound (msg : Message) (databaseId : Uuid) (r : Round σ) : Prop where
  message : r.message = some msg
  databaseId : r.databaseId = some databaseId
  has : r.store.has msg.transactionId = true

/-- **A handler with its variables bound settles the message exactly when its calls answer.** -/
theorem wp_handler_iff (h : Bound msg databaseId r) :
    wp (handler env e) (fun _ r => Settled keys msg r) (fun _ _ => False) r ↔
      HandlerAnswers env := by
  unfold handler HandlerAnswers updateStatus acknowledge
  simp only [wp_bind, wp_get, h.message]
  cases hupdate : env.handlerUpdate with
  | raises begun e' => simp
  | returns =>
    simp only [wp_call_returns, h.databaseId, wp_bind, wp_emitEvent, true_and]
    cases hack : env.handlerAcknowledge with
    | raises begun e' => simp
    | returns =>
      simp only [wp_call_returns, iff_true]
      refine ⟨Or.inl List.mem_cons_self, fun _ => ⟨if e.isTimeout then .timeout else .failed, ?_,
        Or.inl (status_updateStatus h.has _ 0 (some e.message) _)⟩⟩
      split <;> rfl

/-- Without its variables a handler does not return. -/
theorem not_wp_handler (h : r.message = none ∨ r.databaseId = none)
    {Q : Unit → Round σ → Prop} : ¬ wp (handler env e) Q (fun _ _ => False) r := by
  unfold handler updateStatus
  simp only [wp_bind, wp_get]
  cases hmsg : r.message with
  | none => simp
  | some msg =>
    have hdb : r.databaseId = none := by simpa [hmsg] using h
    cases hupdate : env.handlerUpdate with
    | raises begun e' => simp
    | returns => simp [hdb]

/-- What a call of `update_status` leaves bound, when it raises as well as when it returns. -/
theorem wp_updateStatus_iff (databaseId : Uuid) (h : Bound msg databaseId r)
    {Q : Unit → Round σ → Prop}
    {E : PyExc → Round σ → Prop} {answer : Answer} {status : TransactionStatus} {resultCount : ℤ}
    {errorMessage : Option String} {A : Prop}
    (hreturns : answer = .returns → ∀ r', Bound msg databaseId r' → 
      r'.store.status msg.transactionId = some status.value → (Q () r' ↔ A))
    (hraises : answer ≠ .returns → ∀ e r', Bound msg databaseId r' → (E e r' ↔ A)) :
    wp (updateStatus env answer msg.transactionId status resultCount errorMessage) Q E r ↔ A := by
  unfold updateStatus
  cases answer with
  | returns =>
    rw [wp_call_returns]
    refine hreturns rfl _ ⟨h.message, h.databaseId, ?_⟩ ?_
    · exact has_updateStatus h.has ..
    · exact status_updateStatus h.has ..
  | raises begun e =>
    rw [wp_call_raises]
    refine hraises nofun e _ ?_
    cases begun with
    | false => exact ⟨h.message, h.databaseId, h.has⟩
    | true =>
      refine ⟨h.message, h.databaseId, ?_⟩
      simp only [if_true, h.has]
      rw [has_hset, if_pos rfl]

/-- **From the execution on**: the message is settled exactly when the two calls that are left
answer, or the handler does. -/
theorem wp_execute_iff (h : Bound msg databaseId r) (query : String) (parameters : Option Json)
    (timeoutSeconds : ℤ) :
    wp (execute env msg databaseId query parameters timeoutSeconds)
        (fun _ r => Settled keys msg r)
        (fun e r => wp (handler env e) (fun _ r => Settled keys msg r) (fun _ _ => False) r) r ↔
      (env.setCompleted = .returns ∧ env.acknowledge = .returns) ∨ HandlerAnswers env := by
  unfold execute
  simp only [wp_bind, wp_get, wp_modify, wp_emitEvent]
  refine wp_updateStatus_iff databaseId ?_ (fun hreturns r' hr' hstatus => ?_)
    (fun hraises e r' hr' => ?_)
  · exact ⟨h.message, h.databaseId, h.has⟩
  · unfold acknowledge
    cases hack : env.acknowledge with
    | returns =>
      simp only [wp_call_returns, hreturns, and_self, true_or, iff_true]
      exact ⟨Or.inl List.mem_cons_self, fun _ => ⟨.completed, rfl, Or.inl hstatus⟩⟩
    | raises begun e =>
      have hfails : ¬ (env.setCompleted = .returns ∧ Answer.raises begun e = .returns) := by simp
      rw [wp_call_raises, or_iff_right hfails]
      cases begun <;> exact wp_handler_iff ⟨hr'.message, hr'.databaseId, hr'.has⟩
  · exact (wp_handler_iff hr').trans (by simp [hraises])

/-- **From the database id on**: the message is settled exactly when the rest of the body answers,
or the handler does. -/
theorem wp_process_iff (hmsg : r.message = some msg) (hhas : r.store.has msg.transactionId = true)
    (hid : readDatabaseId env tx = .ok databaseId) :
    wp (process env msg tx) (fun _ r => Settled keys msg r)
        (fun e r => wp (handler env e) (fun _ r => Settled keys msg r) (fun _ _ => False) r) r ↔
      BodyAnswers env tx ∨ HandlerAnswers env := by
  unfold process BodyAnswers
  simp only [wp_bind, hid, wp_ofExcept_ok, wp_modify]
  cases hquery : field tx "query" with
  | error e =>
    rw [wp_ofExcept_error]
    exact Iff.trans (wp_handler_iff ⟨hmsg, rfl, hhas⟩) (by simp)
  | ok query =>
    rw [wp_ofExcept_ok]
    refine wp_updateStatus_iff databaseId ?_ (fun hreturns r' hr' _ => ?_)
      (fun hraises e r' hr' => ?_)
    · exact ⟨hmsg, rfl, hhas⟩
    · cases hlocal : env.ensureLocalDb with
      | error e => exact (wp_handler_iff hr').trans (by simp)
      | ok u =>
        cases hargs : arguments env tx with
        | error message => exact (wp_handler_iff hr').trans (by simp)
        | ok args => exact (wp_execute_iff hr' query args.1 args.2).trans (by simp [hreturns])
    · exact (wp_handler_iff hr').trans (by simp [hraises])

/-- **A round survives exactly when its calls answer**, but for those the handler makes up for. -/
theorem survives_iff (env : Env σ) (keys : Keys σ) : Survives env keys ↔ Answered env keys := by
  rw [survives_iff_wp]
  unfold Answered body
  simp only [wp_tryCatch, wp_bind]
  cases hdequeue : env.dequeueTransaction with
  | error e =>
    rw [wp_ofExcept_error]
    exact iff_of_false (not_wp_handler (Or.inl rfl)) id
  | ok msg =>
    cases msg with
    | none => simp
    | some msg =>
      simp only [wp_ofExcept_ok, wp_bind, wp_modify]
      have hone : ∀ r, (∀ msg', (Except.ok (some msg) : Except PyExc _) = .ok (some msg') →
          Settled keys msg' r) ↔ Settled keys msg r := by
        simp
      simp only [hone]
      cases hfind : env.findById with
      | error e => exact iff_of_false (not_wp_handler (Or.inr rfl)) (by simp)
      | ok u =>
        simp only [wp_ofExcept_ok, wp_get, true_and, Round.start]
        cases htx : findById keys.store msg.transactionId with
        | none =>
          unfold acknowledge
          cases hack : env.acknowledge with
          | raises begun e =>
            refine iff_of_false (not_wp_handler (Or.inr ?_)) (by simp)
            cases begun <;> rfl
          | returns =>
            refine iff_of_true ⟨Or.inl List.mem_cons_self, fun hhas => ?_⟩ rfl
            unfold Store.has at hhas
            unfold findById at htx
            rw [htx] at hhas
            cases hhas
        | some tx =>
          have hhas : keys.store.has msg.transactionId = true := by
            unfold Store.has
            unfold findById at htx
            rw [htx]
            rfl
          cases hid : readDatabaseId env tx with
          | error e =>
            unfold process
            simp only [wp_bind, hid, wp_ofExcept_error]
            exact iff_of_false (not_wp_handler (Or.inr rfl)) (by simp)
          | ok databaseId => exact (wp_process_iff rfl hhas hid).trans (by simp [hid])

end Survival

/-- A round of `testEngine` in which every call answers. -/
def testEnv (msg : Message) : Env (List ℕ) where
  uuid := fun text => if text = "1" then .ok 1 else .error "badly formed hexadecimal UUID string"
  int := fun text =>
    if text = "30" then .ok 30 else .error "invalid literal for int() with base 10"
  loads := fun _ => .ok .null
  engine := testEngine
  elapsed := fun _ _ => 5000
  updated := fun _ => "t"
  executionTimeMs := "5.0"
  dequeueTransaction := .ok (some msg)
  findById := .ok ()
  setRunning := .returns
  ensureLocalDb := .ok ()
  append := ⟨0, .ok (some "token"), .truthful, false, false⟩
  setCompleted := .returns
  cacheSet := true
  emitEvent := true
  acknowledge := .returns
  handlerUpdate := .returns
  handlerAcknowledge := .returns

/-- A store with the hash of a transaction. -/
def testKeys (mapping : List (String × String)) : Keys (List ℕ) :=
  ⟨Store.empty.hset 7 mapping, ⟨[], ⟨[]⟩⟩, ∅⟩

theorem not_survives_of_raises {env : Env σ} {keys : Keys σ}
    (h : (runOnce env keys).1.toBool = false) : ¬ Survives env keys := by
  rintro ⟨r, hrun, -⟩
  rw [hrun] at h
  cases h

/-- **A dequeue that raises ends the loop**, since the handler names a variable that is not bound;
and so does a transaction without a database id, whose message stays pending. -/
theorem not_survives :
    ¬ Survives { testEnv ⟨"0-1", 7, 0⟩ with
        dequeueTransaction := .error (.other "Connection refused") } (testKeys []) ∧
      ¬ Survives (testEnv ⟨"0-1", 7, 0⟩) (testKeys [("query", "CREATE (n)")]) :=
  ⟨not_survives_of_raises (by decide +kernel), not_survives_of_raises (by decide +kernel)⟩

/-! ### What the status tells -/

/-- The environment of a round whose message is dequeued while Redis answers. -/
def Env.serving (env : Env σ) (msg : Message) : Env σ :=
  { env with
    dequeueTransaction := .ok (some msg)
    findById := .ok ()
    setRunning := .returns
    setCompleted := .returns
    acknowledge := .returns
    handlerUpdate := .returns
    handlerAcknowledge := .returns }

/-- A call of the engine: how it ends, how long it takes, and the timeout it was to have. -/
structure Attempt where
  outcome : Except String (List Json)
  elapsed : Instant
  timeoutSeconds : ℤ

/-- The engine ends within the timeout. -/
def Attempt.InTime (a : Attempt) : Prop := (a.elapsed : ℤ) ≤ a.timeoutSeconds * 1000000

/-- The call of the engine a transaction leads to, or what is raised before. -/
def attempt (env : Env σ) (tx : Hash) (db : σ) : Except PyExc Attempt := do
  let _ ← readDatabaseId env tx
  let query ← field tx "query"
  env.ensureLocalDb
  let (_, timeoutSeconds) ← (arguments env tx).mapError .other
  pure ⟨(env.engine query db).map Prod.fst, env.elapsed query db, timeoutSeconds⟩

/-- The engine executes the statement without error within the timeout. -/
def Executed (result : Except PyExc Attempt) : Prop :=
  ∃ a rows, result = .ok a ∧ a.outcome = .ok rows ∧ a.InTime

/-- The engine exceeds the timeout. -/
def TimedOut (result : Except PyExc Attempt) : Prop := ∃ a, result = .ok a ∧ ¬ a.InTime

/-- The engine is not called, or fails within the timeout. -/
def Failed (result : Except PyExc Attempt) (message : String) : Prop :=
  (∃ e, result = .error e ∧ e.message = message) ∨
    ∃ a, result = .ok a ∧ a.outcome = .error message ∧ a.InTime

/-- **The status tells how the execution ended**, with the message of a failure, and a `completed`
event is emitted only for an execution. -/
def Tells (result : Except PyExc Attempt) (id : Uuid) (r : Round σ) : Prop :=
  (r.store.status id = some "completed" ↔ Executed result) ∧
    (r.store.status id = some "timeout" ↔ TimedOut result) ∧
    (∀ message, Failed result message →
      r.store.status id = some "failed" ∧ r.store.errorMessage id = some message) ∧
    ((∃ event ∈ r.events, event.eventType = "completed") → Executed result)

/-- What a round leaves when Redis answers: the adapter hides how an execution ends. -/
def Leaves (result : Except PyExc Attempt) (id : Uuid) (r : Round σ) : Prop :=
  match result with
  | .error e =>
    r.store.status id = some (if e.isTimeout then .timeout else .failed : TransactionStatus).value ∧
      r.store.errorMessage id = some e.message ∧
      ¬ ∃ event ∈ r.events, event.eventType = "completed"
  | .ok _ => r.store.status id = some "completed"

/-- The calls of Redis answer. -/
structure Serves (env : Env σ) : Prop where
  setRunning : env.setRunning = .returns
  setCompleted : env.setCompleted = .returns
  acknowledge : env.acknowledge = .returns
  handlerUpdate : env.handlerUpdate = .returns
  handlerAcknowledge : env.handlerAcknowledge = .returns

section Outcome

variable {env : Env σ} {keys : Keys σ} {msg : Message} {tx : Hash} {r : Round σ} {e : PyExc}

/-- A handler whose calls answer records the exception, whether or not its variables are bound. -/
theorem wp_handler_leaves (h : Serves env) (hmsg : r.message = some msg)
    (hhas : r.store.has msg.transactionId = true) (hevents : r.events = []) :
    wp (handler env e) (fun _ r => Leaves (.error e) msg.transactionId r)
      (fun _ r => Leaves (.error e) msg.transactionId r) r := by
  unfold handler updateStatus acknowledge
  simp only [wp_bind, wp_get, hmsg, h.handlerUpdate, wp_call_returns]
  have hstatus := status_updateStatus hhas (if e.isTimeout then .timeout else .failed) 0
    (some e.message) (env.updated (if e.isTimeout then .timeout else .failed))
  have hmessage := errorMessage_updateStatus hhas (if e.isTimeout then .timeout else .failed) 0
    (some e.message) (env.updated (if e.isTimeout then .timeout else .failed))
  cases hdb : r.databaseId with
  | none =>
    refine ⟨hstatus, hmessage, ?_⟩
    simp [hevents]
  | some databaseId =>
    simp only [wp_bind, wp_emitEvent, h.handlerAcknowledge, wp_call_returns]
    refine ⟨hstatus, hmessage, ?_⟩
    rw [hevents]
    cases env.emitEvent <;> cases e.isTimeout <;> simp

/-- The execution and what follows, when the calls answer. -/
theorem wp_execute_leaves (h : Serves env) (hhas : r.store.has msg.transactionId = true)
    (databaseId : Uuid) (query : String) (parameters : Option Json) (timeoutSeconds : ℤ)
      (a : Attempt) (E : PyExc → Round σ → Prop) :
    wp (execute env msg databaseId query parameters timeoutSeconds)
      (fun _ r => Leaves (.ok a) msg.transactionId r) E r := by
  unfold execute updateStatus acknowledge
  simp only [wp_bind, wp_get, wp_modify, wp_emitEvent, h.setCompleted, h.acknowledge,
    wp_call_returns]
  exact status_updateStatus hhas ..

/-- The body leaves what the attempt tells, or raises where a handler does. -/
theorem wp_process_leaves (h : Serves env) (hmsg : r.message = some msg)
    (hhas : r.store.has msg.transactionId = true) (hevents : r.events = []) (db : σ) :
    wp (process env msg tx) (fun _ r => Leaves (attempt env tx db) msg.transactionId r)
      (fun e r => wp (handler env e) (fun _ r => Leaves (attempt env tx db) msg.transactionId r)
        (fun _ r => Leaves (attempt env tx db) msg.transactionId r) r) r := by
  unfold process attempt
  simp only [wp_bind, wp_modify]
  cases readDatabaseId env tx with
  | error e => exact wp_handler_leaves h hmsg hhas hevents
  | ok databaseId =>
    cases field tx "query" with
    | error e => exact wp_handler_leaves h hmsg hhas hevents
    | ok query =>
      unfold updateStatus
      simp only [wp_ofExcept_ok, h.setRunning, wp_call_returns]
      have hrunning := has_updateStatus hhas .running 0 none (env.updated .running)
      cases env.ensureLocalDb with
      | error e => exact wp_handler_leaves h hmsg hrunning hevents
      | ok u =>
        cases arguments env tx with
        | error message => exact wp_handler_leaves h hmsg hrunning hevents
        | ok args => exact wp_execute_leaves h hrunning databaseId query args.1 args.2 _ _

/-- **What a round leaves when Redis answers.** -/
theorem runOnce_serving (env : Env σ) (keys : Keys σ) (msg : Message) {tx : Hash}
    (htx : findById keys.store msg.transactionId = some tx) :
    Leaves (attempt env tx keys.world.db) msg.transactionId (runOnce (env.serving msg) keys).2 := by
  have hhas : keys.store.has msg.transactionId = true := by
    unfold Store.has
    unfold findById at htx
    rw [htx]
    rfl
  refine runOnce_of_wp ?_
  unfold body
  simp only [wp_tryCatch, wp_bind, Env.serving, wp_ofExcept_ok, wp_modify, wp_get, Round.start, htx]
  have hserves : Serves (env.serving msg) := ⟨rfl, rfl, rfl, rfl, rfl⟩
  exact wp_process_leaves hserves rfl hhas rfl keys.world.db

/-- **The status tells how the execution ended exactly when the engine returns rows in time, or
something other than a timeout is raised before it is called.** -/
theorem tells_iff (env : Env σ) (keys : Keys σ) (msg : Message) (tx : Hash)
    (htx : findById keys.store msg.transactionId = some tx) :
    Tells (attempt env tx keys.world.db) msg.transactionId (runOnce (env.serving msg) keys).2 ↔
      Executed (attempt env tx keys.world.db) ∨
        ∃ e, attempt env tx keys.world.db = .error e ∧ e.isTimeout = false := by
  have hleaves := runOnce_serving env keys msg htx
  revert hleaves
  generalize (runOnce (env.serving msg) keys).2 = r
  generalize attempt env tx keys.world.db = result
  intro hleaves
  cases result with
  | error e =>
    obtain ⟨hstatus, hmessage, hevents⟩ := hleaves
    unfold Tells Executed TimedOut Failed
    rw [hstatus, hmessage]
    cases htimeout : e.isTimeout with
    | true => simp [TransactionStatus.value, htimeout]
    | false => simpa [TransactionStatus.value, htimeout] using hevents
  | ok a =>
    have hstatus : r.store.status msg.transactionId = some "completed" := hleaves
    constructor
    · intro htells
      exact Or.inl (htells.1.1 hstatus)
    · rintro (hexecuted | ⟨e, he, -⟩)
      · obtain ⟨a', rows, ha, hrows, hintime⟩ := id hexecuted
        cases ha
        refine ⟨iff_of_true hstatus hexecuted, iff_of_false ?_ ?_, ?_, fun _ => hexecuted⟩
        · simp [hstatus]
        · rintro ⟨a', ha, hlate⟩
          cases ha
          exact hlate hintime
        · rintro message (⟨e, he, -⟩ | ⟨a', ha, hfails, -⟩)
          · cases he
          · cases ha
            rw [hrows] at hfails
            cases hfails
      · cases he

end Outcome

/-- The fields of a transaction with a query. -/
def testMapping (query : String) : List (String × String) :=
  [("database_id", "1"), ("query", query), ("timeout_seconds", "30")]

theorem findById_testKeys (mapping : List (String × String)) :
    findById (testKeys mapping).store 7 = some ((∅ : Hash).insertAll mapping) := rfl

theorem attempt_testEnv (query : String) (nodes : List ℕ) :
    attempt (testEnv ⟨"0-1", 7, 0⟩) ((∅ : Hash).insertAll (testMapping query)) nodes =
      .ok ⟨(testEngine query nodes).map Prod.fst, 5000, 30⟩ := rfl

/-- A query that is executed in time. -/
theorem tells_iff_create :
    Tells (attempt (testEnv ⟨"0-1", 7, 0⟩) ((∅ : Hash).insertAll (testMapping "CREATE (n)")) []) 7
      (runOnce ((testEnv ⟨"0-1", 7, 0⟩).serving ⟨"0-1", 7, 0⟩)
        (testKeys (testMapping "CREATE (n)"))).2 := by
  refine (tells_iff (testEnv ⟨"0-1", 7, 0⟩) (testKeys (testMapping "CREATE (n)")) ⟨"0-1", 7, 0⟩ _
    (findById_testKeys _)).2 (Or.inl ⟨_, [], attempt_testEnv _ _, ?_, ?_⟩)
  · decide
  · show (5000 : ℤ) ≤ 30 * 1000000
    omega

/-- **A query that the engine rejects is reported as completed.** -/
theorem not_tells_rejected :
    ¬ Tells (attempt (testEnv ⟨"0-1", 7, 0⟩) ((∅ : Hash).insertAll (testMapping "CREATE (")) []) 7
      (runOnce ((testEnv ⟨"0-1", 7, 0⟩).serving ⟨"0-1", 7, 0⟩)
        (testKeys (testMapping "CREATE ("))).2 := by
  rintro ⟨hcompleted, -⟩
  obtain ⟨a, rows, ha, hrows, -⟩ := hcompleted.1 (by decide +kernel)
  rw [attempt_testEnv] at ha
  cases ha
  cases hrows

end KuzuEventBus.Service.Rounds
