import KuzuEventBus.Lib.Noninterference
import KuzuEventBus.Service.BranchFailure
import KuzuEventBus.Service.PitrPlan
import Mathlib.Algebra.GroupWithZero.Nat
import Mathlib.Data.Fintype.EquivFin

/-!
# What a tenant can see of others

Four requests that name things by their ids: the information about a database, its timeline, a
branch from a snapshot, and the status of a job.  Each checks the owner of what it reads in its own
way, or does not.  A tenant is isolated when its answers are the same in all states that differ in
the data of others only, and no snapshot of another gets into a database of its own.

The ids that are drawn, the times and what the services answer are arguments.  What an exception
leaves of a branch is another module's.

## Main definitions

* `State`, `State.Ok` — the tables, the objects and the cache, and what holds of them.
* `getDatabaseInfo`, `listDatabasePitr`, `createBranch`, `getJobStatus` — the four requests.
* `State.SameFor`, `Isolated` — states that differ in the data of others, and the two-run property.
* `Unexposed` — a request names something of the tenant, or is refused before it reads.

## Main results

* `isolated_iff` — **a tenant is isolated in a request exactly when it is unexposed.**
-/

namespace KuzuEventBus.Service.Isolation

open Noninterference Replays.PitrPlan
open BranchFailure (branchNameError toFullName isDatabaseName)
open Replays (Formats Line StoredObject)

/-! ### The state -/

/-- A row of `kuzu_databases`. -/
structure DatabaseRow where
  id : Uuid
  tenantId : Uuid
  name : String
  filesystemPath : String
  createdAt : Instant
  deriving DecidableEq

/-- The key `tenants/{tenant_id}/{database_id}/{filename}`. -/
structure ObjectKey where
  tenantId : Uuid
  databaseId : Uuid
  filename : String
  deriving DecidableEq

/-- The text of a key. -/
def ObjectKey.text (key : ObjectKey) : String :=
  "tenants/" ++ toString key.tenantId ++ "/" ++ toString key.databaseId ++ "/" ++ key.filename

/-- A row of `kuzu_db_snapshots`. -/
structure SnapshotRow where
  id : Uuid
  tenantId : Uuid
  databaseId : Uuid
  objectKey : ObjectKey
  checksum : String
  sizeBytes : ℕ
  createdAt : Instant
  deriving DecidableEq

/-- An object of the store. -/
structure Object where
  key : ObjectKey
  size : ℕ
  content : ByteArray

/-- What `GetKuzuDatabaseInfo` returns, and caches as `db_info:{database_id}`: a row, with the
schema and the statistics if there was a path to read them from. -/
structure Info where
  row : DatabaseRow
  enriched : Bool
  deriving DecidableEq

/-- The hash of a transaction. -/
structure TransactionRow where
  id : Uuid
  tenantId : Uuid
  databaseId : Uuid
  status : String
  query : String
  createdAt : String
  startedAt : Option String
  completedAt : Option String
  resultCount : ℕ
  errorMessage : String

/-- The repositories, the object store and the cache, the latest rows first; and what has been
restored into the directory of a database. -/
structure State where
  databases : List DatabaseRow
  snapshots : List SnapshotRow
  objects : List Object
  cache : List Info
  transactions : List TransactionRow
  files : HashMap Uuid ByteArray

/-- `KuzuDatabaseRepository.find_by_id`. -/
def State.findDatabase (s : State) (id : Uuid) : Option DatabaseRow :=
  s.databases.find? fun row => row.id = id

/-- `SnapshotRepository.find_by_id`: whose it is is not asked. -/
def State.findSnapshot (s : State) (id : Uuid) : Option SnapshotRow :=
  s.snapshots.find? fun row => row.id = id

/-- `list_by_database(database_id)`: the tenant is left out. -/
def State.listByDatabase (s : State) (databaseId : Uuid) : List SnapshotRow :=
  (s.snapshots.filter fun row => row.databaseId = databaseId).insertionSort fun row row' =>
    row'.createdAt ≤ row.createdAt

/-- `list_objects` with the prefix `tenants/{tenant_id}/{database_id}/wal/`. -/
def State.listWal (s : State) (tenantId databaseId : Uuid) : List Object :=
  s.objects.filter fun o => o.key.tenantId = tenantId && o.key.databaseId = databaseId &&
    "wal/".toList.isPrefixOf o.key.filename.toList

/-- `download_database`. -/
def State.download (s : State) (key : ObjectKey) : Option ByteArray :=
  (s.objects.find? fun o => o.key = key).map Object.content

/-- How Python reads and spells times and values, what the services answer, and what is drawn. -/
structure Env where
  formats : Formats DateTime
  isoformat : Instant → String
  str : Json → String
  lines : ByteArray → List Line
  now : DateTime
  mayRead : Bool
  mayRestore : Bool
  lock : Bool
  newDatabaseId : Uuid
  newSnapshotId : Uuid
  createdAt : Instant

/-! ### The information about a database -/

/-- `PermissionError`, with its text. -/
inductive InfoError where
  /-- `"Not authorized to read database"` -/
  | notAuthorized
  /-- `"Database does not belong to tenant"` -/
  | notOwner
  deriving DecidableEq

/-- `GetKuzuDatabaseInfoUseCase.execute`: the cache is asked before the owner is. -/
def getDatabaseInfo (env : Env) (tenantId databaseId : Uuid) (s : State) :
    Except InfoError (Option Info) × State :=
  if !env.mayRead then (.error .notAuthorized, s)
  else
    match s.cache.find? fun info => info.row.id = databaseId with
    | some cached => (.ok (some cached), s)
    | none =>
      match s.findDatabase databaseId with
      | none => (.ok none, s)
      | some row =>
        if row.tenantId ≠ tenantId then (.error .notOwner, s)
        else
          let info : Info := ⟨row, row.filesystemPath ≠ ""⟩
          (.ok (some info), { s with cache := info :: s.cache })

/-! ### The timeline -/

/-- `ListDatabasePITRRequest`, with times in UTC. -/
structure PitrRequest where
  databaseId : Uuid
  start : Option DateTime
  stop : Option DateTime
  target : Option DateTime
  hourly : Bool
  includeTypes : Bool
  includeQueries : Bool

/-- The start of the range: without one, the date a year ago, if there is such a date. -/
def PitrRequest.startTime (req : PitrRequest) (now : DateTime) : Option DateTime :=
  match req.start with
  | some start => some start
  | none => now.replaceYear (now.year - 1)

/-- The end of the range. -/
def PitrRequest.stopTime (req : PitrRequest) (now : DateTime) : DateTime := req.stop.getD now

/-- The exceptions of the timeline. -/
inductive PitrError where
  /-- `PermissionError("Not authorized to read database PITR timeline")` -/
  | notAuthorized
  /-- `ValueError`: the default start is no date. -/
  | noSuchDate
  /-- `TypeError`: a `created_at` without a time zone is compared with the start. -/
  | naiveTimestamp
  /-- `FileNotFoundError(f"No snapshot found before {...}")` -/
  | noSnapshot (target : DateTime)

/-- A snapshot of the timeline. -/
structure PitrSnapshot where
  id : Uuid
  objectKey : ObjectKey
  checksum : String
  sizeBytes : ℕ
  createdAt : DateTime

/-- The snapshots in the range; a `created_at` that cannot be read is passed over. -/
def listSnapshots (env : Env) (start stop : DateTime) :
    List SnapshotRow → Except PitrError (List PitrSnapshot)
  | [] => .ok []
  | row :: rows =>
    match env.formats.fromisoformat (env.isoformat row.createdAt) with
    | none => listSnapshots env start stop rows
    | some (.naive _) => .error .naiveTimestamp
    | some (.aware t) => do
      let rest ← listSnapshots env start stop rows
      pure (if start ≤ t ∧ t ≤ stop then
        ⟨row.id, row.objectKey, row.checksum, row.sizeBytes, t⟩ :: rest else rest)

/-- A window of the log. -/
structure Window where
  start : DateTime
  stop : DateTime
  files : ℕ
  bytes : ℕ
  types : List (String × ℕ)
  last : Option (String × Json × Json)

/-- The microseconds of an hour, or of a minute. -/
def windowLength (hourly : Bool) : ℕ := if hourly then 3600000000 else 60000000

/-- `window_start`. -/
def windowStart (hourly : Bool) (t : DateTime) : DateTime :=
  { t with time := t.time / windowLength hourly * windowLength hourly }

/-- The last second of a window. -/
def windowEnd (hourly : Bool) (start : DateTime) : DateTime :=
  { start with time := start.time + (windowLength hourly - 1000000) }

/-- `_query_type`. -/
def queryType (query : String) : String :=
  match mutators.find? fun word => word.toList.isPrefixOf (PyText.upper (PyText.strip query)) with
  | some word => String.ofList (PyText.strip word)
  | none => "READ"

/-- `str(value)`. -/
def textOf (str : Json → String) : Json → String
  | .string s => s
  | j => str j

/-- The field of the entry of a line. -/
def entryField (line : Line) (name : String) (default : Json) : Option Json :=
  match line with
  | .value (.object fields) => some (((Json.object fields).get name).getD default)
  | _ => none

/-- `classify_file`: the types of the queries of the lines that are entries. -/
def classifyFile (str : Json → String) (lines : List Line) : List String :=
  lines.filterMap fun line =>
    (entryField line "query" (.string "")).map fun query => queryType (textOf str query)

/-- `get_last_query_and_results`. -/
def lastQuery (str : Json → String) (lines : List Line) : Option (String × Json × Json) :=
  let isText : Line → Bool := fun line => match line with
    | .blank => false
    | _ => true
  match (lines.filter isText).getLast? with
  | none => none
  | some line =>
    match entryField line "query" (.string ""), entryField line "results" (.array []),
        entryField line "rows_returned" (.number (.posInt 0)) with
    | some query, some results, some rows => some (textOf str query, results, rows)
    | _, _, _ => none

/-- The lines of an object that has been listed. -/
def contentsOf (env : Env) (objs : List Object) (key : String) : List Line :=
  match objs.find? fun o => o.key.text = key with
  | some o => env.lines o.content
  | none => []

/-- A label with how often it is there. -/
def countTypes (labels : List String) : List (String × ℕ) :=
  labels.eraseDups.map fun label => (label, labels.count label)

/-- `wal_windows`. -/
def walWindows (env : Env) (req : PitrRequest) (objs : List Object)
    (walFiles : List (Replays.WalFile DateTime)) : List Window :=
  let startOf := fun w : Replays.WalFile DateTime => windowStart req.hourly w.timestamp
  ((walFiles.map startOf).dedup.insertionSort fun t t' => t ≤ t').map fun start =>
    let files := walFiles.filter fun w => startOf w = start
    { start := start
      stop := windowEnd req.hourly start
      files := files.length
      bytes := (files.map Replays.WalFile.size).sum
      types := if req.includeTypes then
          countTypes (files.flatMap fun w => classifyFile env.str (contentsOf env objs w.key))
        else []
      last := if req.includeQueries then
          (files.argmax Replays.WalFile.timestamp).bind fun w =>
            lastQuery env.str (contentsOf env objs w.key)
        else none }

/-- The plan to restore to the target. -/
structure PitrPlan where
  target : DateTime
  snapshot : PitrSnapshot
  walFiles : List (Replays.WalFile DateTime)

/-- What is planned, when there is a target. -/
def planTo (target : Option DateTime) (snapshots : List PitrSnapshot)
    (walFiles : List (Replays.WalFile DateTime)) : Except PitrError (Option PitrPlan) :=
  match target with
  | none => .ok none
  | some target =>
    match ((snapshots.filter fun p => p.createdAt ≤ target).insertionSort fun p p' =>
        p'.createdAt ≤ p.createdAt).head? with
    | none => .error (.noSnapshot target)
    | some snapshot => .ok (some ⟨target, snapshot, walFiles.filter fun w =>
        snapshot.createdAt ≤ w.timestamp ∧ w.timestamp ≤ target⟩)

/-- The timeline. -/
structure PitrResponse where
  databaseId : Uuid
  start : DateTime
  stop : DateTime
  snapshots : List PitrSnapshot
  walFiles : List (Replays.WalFile DateTime)
  walWindows : List Window
  plan : Option PitrPlan

/-- The rest of the timeline, once the snapshots are listed. -/
def pitrResponse (env : Env) (req : PitrRequest) (start stop : DateTime)
    (snapshots : List PitrSnapshot) (objs : List Object) : Except PitrError PitrResponse :=
  let walFiles := listWalFiles env.formats start stop
    (objs.map fun o => ⟨o.key.text, o.size⟩)
  (planTo req.target snapshots walFiles).map fun plan =>
    ⟨req.databaseId, start, stop, snapshots, walFiles, walWindows env req objs walFiles, plan⟩

/-- `ListDatabasePITRUseCase.execute`: the snapshots are those of the database, the objects those of
the tenant. -/
def listDatabasePitr (env : Env) (tenantId : Uuid) (req : PitrRequest) (s : State) :
    Except PitrError PitrResponse :=
  if !env.mayRead then .error .notAuthorized
  else
    match req.startTime env.now with
    | none => .error .noSuchDate
    | some start =>
      let stop := req.stopTime env.now
      match listSnapshots env start stop (s.listByDatabase req.databaseId) with
      | .error e => .error e
      | .ok snapshots =>
        pitrResponse env req start stop snapshots (s.listWal tenantId req.databaseId)

/-! ### A branch from a snapshot -/

/-- `CreateBranchRequest`, with the id of a snapshot. -/
structure BranchRequest where
  sourceDatabaseName : String
  branchName : String
  snapshotId : Uuid
  description : Option String

/-- The exceptions of the branch. -/
inductive BranchError where
  | invalidName (e : PyError)
  /-- `ValueError(f"Snapshot {snapshot_id} not found")` -/
  | snapshotNotFound (id : Uuid)
  | invalidDatabaseName
  /-- `ValueError(f"Database '{name}' already exists for tenant")` -/
  | databaseExists (name : String)
  /-- `PermissionError("Not authorized to restore database")` -/
  | notAuthorized
  /-- `FileNotFoundError("Database not found")` -/
  | databaseNotFound
  /-- `FileNotFoundError("Snapshot not found")` -/
  | notOfDatabase
  /-- `TimeoutError("Could not acquire restore lock")` -/
  | noLock
  /-- The object is not in the store. -/
  | noSuchKey
  deriving DecidableEq

/-- `CreateBranchResponse`. -/
structure BranchResponse where
  branchName : String
  fullName : String
  parentDatabaseName : String
  branchDatabaseId : Uuid
  snapshotId : Uuid
  createdAt : DateTime
  description : Option String
  originSnapshotId : Uuid
  deriving DecidableEq

/-- `find_by_name`. -/
def State.findByName (s : State) (tenantId : Uuid) (name : String) : Option DatabaseRow :=
  s.databases.find? fun row => row.tenantId = tenantId && row.name = name

/-- The row of a new database is saved. -/
def State.provisioned (s : State) (env : Env) (tenantId : Uuid) (name : String) : State :=
  let path := "/" ++ toString tenantId ++ "/" ++ toString env.newDatabaseId ++ "/data.kuzu"
  { s with databases := ⟨env.newDatabaseId, tenantId, name, path, env.createdAt⟩ :: s.databases }

/-- `ProvisionTenantResourcesUseCase.execute`; its first snapshot is left out. -/
def provision (env : Env) (tenantId : Uuid) (name : String) (s : State) :
    Except BranchError State :=
  if !isDatabaseName name then .error .invalidDatabaseName
  else
    match s.findByName tenantId name with
    | some _ => .error (.databaseExists name)
    | none => .ok (s.provisioned env tenantId name)

/-- The row of the snapshot is duplicated for the branch. -/
def duplicate (env : Env) (tenantId : Uuid) (source : SnapshotRow) (s : State) : State :=
  { s with snapshots :=
      { source with
        id := env.newSnapshotId
        tenantId := tenantId
        databaseId := env.newDatabaseId } :: s.snapshots }

/-- `RestoreDatabaseFromSnapshotUseCase.execute`. -/
def restoreDatabaseFromSnapshot (env : Env) (tenantId databaseId snapshotId : Uuid)
    (s : State) : Except BranchError State :=
  if !env.mayRestore then .error .notAuthorized
  else
    match (s.findDatabase databaseId).filter fun row => row.tenantId = tenantId with
    | none => .error .databaseNotFound
    | some _ =>
      match (s.findSnapshot snapshotId).filter fun row => row.databaseId = databaseId with
      | none => .error .notOfDatabase
      | some snapshot =>
        if !env.lock then .error .noLock
        else
          match s.download snapshot.objectKey with
          | none => .error .noSuchKey
          | some archive => .ok { s with files := s.files.insert databaseId archive }

/-- `CreateBranchUseCase.execute` with the id of a snapshot. -/
def createBranch (env : Env) (tenantId : Uuid) (req : BranchRequest) (s : State) :
    Except BranchError (BranchResponse × State) := do
  match branchNameError req.branchName with
  | some e => throw (.invalidName e)
  | none =>
    match s.findSnapshot req.snapshotId with
    | none => throw (.snapshotNotFound req.snapshotId)
    | some source =>
      let fullName := toFullName req.sourceDatabaseName req.branchName
      let s ← provision env tenantId fullName s
      let s := duplicate env tenantId source s
      let s ← restoreDatabaseFromSnapshot env tenantId env.newDatabaseId env.newSnapshotId s
      pure (⟨req.branchName, fullName, req.sourceDatabaseName, env.newDatabaseId,
        env.newSnapshotId, env.now, req.description, source.id⟩, s)

/-! ### The status of a job -/

/-- `QueryStatusResponse`. -/
structure JobStatus where
  transactionId : Uuid
  databaseId : Uuid
  status : String
  query : String
  submittedAt : String
  startedAt : Option String
  completedAt : Option String
  resultCount : ℕ
  errorMessage : Option String
  deriving DecidableEq

/-- `get_job_status`: nothing is asked about the tenant, and nothing found is the status 404. -/
def getJobStatus (transactionId : Uuid) (s : State) : Option JobStatus :=
  (s.transactions.find? fun tx => tx.id = transactionId).map fun tx =>
    ⟨tx.id, tx.databaseId, tx.status, tx.query, tx.createdAt, tx.startedAt, tx.completedAt,
      tx.resultCount, if tx.errorMessage = "" then none else some tx.errorMessage⟩

/-! ### The two-run property -/

/-- A request of a tenant. -/
inductive Request where
  | info (databaseId : Uuid)
  | pitr (req : PitrRequest)
  | branch (req : BranchRequest)
  | job (transactionId : Uuid)

/-- What the tenant gets. -/
inductive Answer where
  | info (result : Except InfoError (Option Info))
  | pitr (result : Except PitrError PitrResponse)
  | branch (result : Except BranchError BranchResponse)
  | job (result : Option JobStatus)

/-- The answer to a request. -/
def answer (env : Env) (tenantId : Uuid) : Request → State → Answer
  | .info databaseId, s => .info (getDatabaseInfo env tenantId databaseId s).1
  | .pitr req, s => .pitr (listDatabasePitr env tenantId req s)
  | .branch req, s => .branch ((createBranch env tenantId req s).map Prod.fst)
  | .job transactionId, s => .job (getJobStatus transactionId s)

/-- A snapshot of another tenant gets into the directory of a branch of the tenant. -/
def Copies (env : Env) (tenantId : Uuid) : Request → State → Prop
  | .branch req, s => ∃ response s' source, createBranch env tenantId req s = .ok (response, s') ∧
      s.findSnapshot req.snapshotId = some source ∧
      (source.tenantId ≠ tenantId ∨ source.objectKey.tenantId ≠ tenantId) ∧
      s'.files.lookup response.branchDatabaseId = s.download source.objectKey
  | _, _ => False

/-- The states differ in the data of other tenants only. -/
structure State.SameFor (tenantId : Uuid) (s s' : State) : Prop where
  databases : SameRows DatabaseRow.tenantId tenantId s.databases s'.databases
  snapshots : SameRows SnapshotRow.tenantId tenantId s.snapshots s'.snapshots
  objects : SameRows (fun o => o.key.tenantId) tenantId s.objects s'.objects
  cache : SameRows (fun info => info.row.tenantId) tenantId s.cache s'.cache
  transactions : SameRows TransactionRow.tenantId tenantId s.transactions s'.transactions

/-- The ids are keys, and all that is stored about a database is its owner's. -/
structure State.Ok (s : State) : Prop where
  databaseIds : (s.databases.map DatabaseRow.id).Nodup
  snapshotIds : (s.snapshots.map SnapshotRow.id).Nodup
  transactionIds : (s.transactions.map TransactionRow.id).Nodup
  owner : ∃ owner : Uuid → Uuid, (∀ row ∈ s.databases, row.tenantId = owner row.id) ∧
    (∀ row ∈ s.snapshots, row.tenantId = owner row.databaseId) ∧
    ∀ info ∈ s.cache, info.row.tenantId = owner info.row.id

/-- A state the tenant cannot tell from another. -/
def Related (tenantId : Uuid) (s s' : State) : Prop := s.SameFor tenantId s' ∧ s'.Ok

/-- **The tenant is isolated in a request**: its answer does not depend on the data of others, and
no snapshot of another is copied. -/
def Isolated (env : Env) (tenantId : Uuid) (r : Request) (s : State) : Prop :=
  Independent (Related tenantId) (answer env tenantId r) s ∧
    ∀ s', Related tenantId s s' → ¬ Copies env tenantId r s'

/-- The ids of the databases of which something of the tenant is stored. -/
def State.footprint (s : State) (tenantId : Uuid) : List Uuid :=
  (purge DatabaseRow.tenantId tenantId s.databases).map DatabaseRow.id ++
    ((purge SnapshotRow.tenantId tenantId s.snapshots).map SnapshotRow.databaseId ++
      (purge (fun info => info.row.tenantId) tenantId s.cache).map fun info => info.row.id)

/-- A snapshot made at that time would show in the timeline. -/
def Shows (env : Env) (req : PitrRequest) (start : DateTime) (created : Instant) : Prop :=
  match env.formats.fromisoformat (env.isoformat created) with
  | none => False
  | some (.naive _) => True
  | some (.aware t) => start ≤ t ∧ t ≤ req.stopTime env.now ∧
      ∀ target, req.target = some target → t ≤ target

/-- The branch gets as far as the object. -/
def Restores (env : Env) (tenantId : Uuid) (req : BranchRequest) (s : State) : Prop :=
  (isDatabaseName (toFullName req.sourceDatabaseName req.branchName) = true ∧
      s.findByName tenantId (toFullName req.sourceDatabaseName req.branchName) = none) ∧
    env.mayRestore = true ∧ env.lock = true

/-- The request names something of the tenant, or nothing is read for it. -/
def Unexposed (env : Env) (tenantId : Uuid) : Request → State → Prop
  | .info databaseId, s => env.mayRead = false ∨ databaseId ∈ s.footprint tenantId
  | .pitr req, s => env.mayRead = false ∨ req.databaseId ∈ s.footprint tenantId ∨
      ∀ start, req.startTime env.now = some start → ∀ created, ¬ Shows env req start created
  | .branch req, s => branchNameError req.branchName ≠ none ∨
      ∃ source ∈ s.snapshots, source.id = req.snapshotId ∧ source.tenantId = tenantId ∧
        (source.objectKey.tenantId = tenantId ∨ ¬ Restores env tenantId req s)
  | .job transactionId, s =>
      ∃ tx ∈ s.transactions, tx.id = transactionId ∧ tx.tenantId = tenantId

/-! ### What the tenant owns -/

section Owned

variable {s s' : State} {tenantId id : Uuid}

/-- All that is stored about a database is the tenant's. -/
structure State.OwnedBy (s : State) (tenantId id : Uuid) : Prop where
  databases : ∀ row ∈ s.databases, row.id = id → row.tenantId = tenantId
  snapshots : ∀ row ∈ s.snapshots, row.databaseId = id → row.tenantId = tenantId
  cache : ∀ info ∈ s.cache, info.row.id = id → info.row.tenantId = tenantId

theorem mem_footprint_iff : id ∈ s.footprint tenantId ↔
    (∃ row ∈ s.databases, row.tenantId = tenantId ∧ row.id = id) ∨
      (∃ row ∈ s.snapshots, row.tenantId = tenantId ∧ row.databaseId = id) ∨
      ∃ info ∈ s.cache, info.row.tenantId = tenantId ∧ info.row.id = id := by
  simp only [State.footprint, List.mem_append, List.mem_map, mem_purge, and_assoc]

/-- Where something is the tenant's, all is. -/
theorem ownedBy_of_mem_footprint (hok : s.Ok) (hid : id ∈ s.footprint tenantId) :
    s.OwnedBy tenantId id := by
  obtain ⟨owner, hdatabases, hsnapshots, hcache⟩ := hok.owner
  have howner : owner id = tenantId := by
    rcases mem_footprint_iff.mp hid with ⟨row, hrow, htenant, rfl⟩ | ⟨row, hrow, htenant, rfl⟩ |
      ⟨info, hinfo, htenant, rfl⟩
    · exact (hdatabases row hrow).symm.trans htenant
    · exact (hsnapshots row hrow).symm.trans htenant
    · exact (hcache info hinfo).symm.trans htenant
  constructor
  · intro row hrow hrowid
    rw [hdatabases row hrow, hrowid, howner]
  · intro row hrow hrowid
    rw [hsnapshots row hrow, hrowid, howner]
  · intro info hinfo hinfoid
    rw [hcache info hinfo, hinfoid, howner]

/-- The footprint is the same where the tenant sees no difference. -/
theorem footprint_eq (h : s.SameFor tenantId s') :
    s'.footprint tenantId = s.footprint tenantId := by
  have hdatabases := h.databases
  have hsnapshots := h.snapshots
  have hcache := h.cache
  unfold SameRows at hdatabases hsnapshots hcache
  unfold State.footprint purge
  rw [hdatabases, hsnapshots, hcache]

theorem ownedBy_of_related (hid : id ∈ s.footprint tenantId) (h : Related tenantId s s') :
    s'.OwnedBy tenantId id :=
  ownedBy_of_mem_footprint h.2 (footprint_eq h.1 ▸ hid)

theorem findDatabase_eq (h : s.SameFor tenantId s') (ho : s.OwnedBy tenantId id)
    (ho' : s'.OwnedBy tenantId id) : s'.findDatabase id = s.findDatabase id :=
  (find?_eq_of_sameRows h.databases (by simpa using ho.databases)
    (by simpa using ho'.databases)).symm

theorem listByDatabase_eq (h : s.SameFor tenantId s') (ho : s.OwnedBy tenantId id)
    (ho' : s'.OwnedBy tenantId id) : s'.listByDatabase id = s.listByDatabase id := by
  unfold State.listByDatabase
  rw [filter_eq_of_sameRows h.snapshots (by simpa using ho.snapshots)
    (by simpa using ho'.snapshots)]

theorem cached_eq (h : s.SameFor tenantId s') (ho : s.OwnedBy tenantId id)
    (ho' : s'.OwnedBy tenantId id) :
    (s'.cache.find? fun info => info.row.id = id) = s.cache.find? fun info => info.row.id = id :=
  (find?_eq_of_sameRows h.cache (by simpa using ho.cache) (by simpa using ho'.cache)).symm

/-- The objects of the log are listed under the tenant's prefix. -/
theorem listWal_eq (h : s.SameFor tenantId s') :
    s'.listWal tenantId id = s.listWal tenantId id := by
  symm
  refine filter_eq_of_sameRows h.objects ?_ ?_ <;>
  · intro o _ hselected
    simp only [Bool.and_eq_true, decide_eq_true_eq] at hselected
    exact hselected.1.1

theorem download_eq (h : s.SameFor tenantId s') {key : ObjectKey} (hkey : key.tenantId = tenantId) :
    s'.download key = s.download key := by
  have hown (l : List Object) :
      ∀ o ∈ l, decide (o.key = key) = true → o.key.tenantId = tenantId := by
    intro o _ ho
    rw [of_decide_eq_true ho, hkey]
  unfold State.download
  rw [find?_eq_of_sameRows h.objects (hown _) (hown _)]

theorem findByName_eq (h : s.SameFor tenantId s') (name : String) :
    s'.findByName tenantId name = s.findByName tenantId name := by
  symm
  refine find?_eq_of_sameRows h.databases ?_ ?_ <;>
  · intro row _ hselected
    simp only [Bool.and_eq_true, decide_eq_true_eq] at hselected
    exact hselected.1

end Owned

/-! ### Strangers -/

section Strangers

variable {s : State} {tenantId id : Uuid}

/-- The data of others left out. -/
def State.purged (s : State) (tenantId : Uuid) : State where
  databases := purge DatabaseRow.tenantId tenantId s.databases
  snapshots := purge SnapshotRow.tenantId tenantId s.snapshots
  objects := purge (fun o => o.key.tenantId) tenantId s.objects
  cache := purge (fun info => info.row.tenantId) tenantId s.cache
  transactions := purge TransactionRow.tenantId tenantId s.transactions
  files := ∅

theorem sameFor_purged (s : State) (tenantId : Uuid) : s.SameFor tenantId (s.purged tenantId) :=
  ⟨sameRows_purge, sameRows_purge, sameRows_purge, sameRows_purge, sameRows_purge⟩

theorem ok_purged (hok : s.Ok) (tenantId : Uuid) : (s.purged tenantId).Ok := by
  obtain ⟨owner, hdatabases, hsnapshots, hcache⟩ := hok.owner
  exact ⟨nodup_purge hok.databaseIds, nodup_purge hok.snapshotIds, nodup_purge hok.transactionIds,
    owner, fun row hrow => hdatabases row (mem_purge.mp hrow).1,
    fun row hrow => hsnapshots row (mem_purge.mp hrow).1,
    fun info hinfo => hcache info (mem_purge.mp hinfo).1⟩

theorem related_purged (hok : s.Ok) (tenantId : Uuid) : Related tenantId s (s.purged tenantId) :=
  ⟨sameFor_purged s tenantId, ok_purged hok tenantId⟩

/-- Another tenant. -/
def stranger (tenantId : Uuid) : Uuid := tenantId + 1

theorem stranger_ne (tenantId : Uuid) : stranger tenantId ≠ tenantId := Nat.succ_ne_self tenantId

/-- Nothing of the tenant is stored about the database. -/
theorem ne_of_notMem_footprint (hid : id ∉ s.footprint tenantId) :
    (∀ row ∈ (s.purged tenantId).databases, row.id ≠ id) ∧
      (∀ row ∈ (s.purged tenantId).snapshots, row.databaseId ≠ id) ∧
      ∀ info ∈ (s.purged tenantId).cache, info.row.id ≠ id := by
  rw [mem_footprint_iff, not_or, not_or] at hid
  obtain ⟨hdatabases, hsnapshots, hcache⟩ := hid
  refine ⟨fun row hrow heq => ?_, fun row hrow heq => ?_, fun info hinfo heq => ?_⟩
  · exact hdatabases ⟨row, (mem_purge.mp hrow).1, (mem_purge.mp hrow).2, heq⟩
  · exact hsnapshots ⟨row, (mem_purge.mp hrow).1, (mem_purge.mp hrow).2, heq⟩
  · exact hcache ⟨info, (mem_purge.mp hinfo).1, (mem_purge.mp hinfo).2, heq⟩

/-- A database of which nothing of the tenant is stored may be a stranger's. -/
theorem owner_purged (hok : s.Ok) (hid : id ∉ s.footprint tenantId) :
    ∃ owner : Uuid → Uuid, owner id = stranger tenantId ∧
      (∀ row ∈ (s.purged tenantId).databases, row.tenantId = owner row.id) ∧
      (∀ row ∈ (s.purged tenantId).snapshots, row.tenantId = owner row.databaseId) ∧
      ∀ info ∈ (s.purged tenantId).cache, info.row.tenantId = owner info.row.id := by
  obtain ⟨owner, hdatabases, hsnapshots, hcache⟩ := (ok_purged hok tenantId).owner
  obtain ⟨hdatabaseIds, hsnapshotIds, hcacheIds⟩ := ne_of_notMem_footprint hid
  exact ⟨Function.update owner id (stranger tenantId), Function.update_self ..,
    owned_update DatabaseRow.id hdatabaseIds hdatabases,
    owned_update SnapshotRow.databaseId hsnapshotIds hsnapshots,
    owned_update (fun info : Info => info.row.id) hcacheIds hcache⟩

/-- The stranger has a database. -/
def State.withDatabase (s : State) (tenantId id : Uuid) : State :=
  { s.purged tenantId with
    databases := ⟨id, stranger tenantId, "", "", 0⟩ :: (s.purged tenantId).databases }

theorem related_withDatabase (hok : s.Ok) (hid : id ∉ s.footprint tenantId) :
    Related tenantId s (s.withDatabase tenantId id) := by
  obtain ⟨owner, howner, hdatabases, hsnapshots, hcache⟩ := owner_purged hok hid
  have hpurged := ok_purged hok tenantId
  refine ⟨⟨sameRows_cons_purge (stranger_ne tenantId), sameRows_purge, sameRows_purge,
    sameRows_purge, sameRows_purge⟩, ?_, hpurged.snapshotIds, hpurged.transactionIds, owner, ?_,
    hsnapshots, hcache⟩
  · exact nodup_key_cons hpurged.databaseIds (ne_of_notMem_footprint hid).1
  · exact List.forall_mem_cons.mpr ⟨howner.symm, hdatabases⟩

/-- The stranger has a snapshot of a database. -/
def State.withSnapshot (s : State) (tenantId : Uuid) (row : SnapshotRow) : State :=
  { s.purged tenantId with
    snapshots := { row with tenantId := stranger tenantId } :: (s.purged tenantId).snapshots }

theorem related_withSnapshot (hok : s.Ok) {row : SnapshotRow}
    (hid : row.databaseId ∉ s.footprint tenantId)
    (hrow : ∀ row' ∈ (s.purged tenantId).snapshots, row'.id ≠ row.id) :
    Related tenantId s (s.withSnapshot tenantId row) := by
  obtain ⟨owner, howner, hdatabases, hsnapshots, hcache⟩ := owner_purged hok hid
  have hpurged := ok_purged hok tenantId
  refine ⟨⟨sameRows_purge, sameRows_cons_purge (stranger_ne tenantId), sameRows_purge,
    sameRows_purge, sameRows_purge⟩, hpurged.databaseIds, ?_, hpurged.transactionIds, owner,
    hdatabases, ?_, hcache⟩
  · exact nodup_key_cons hpurged.snapshotIds hrow
  · exact List.forall_mem_cons.mpr ⟨howner.symm, hsnapshots⟩

/-- The stranger has an object. -/
def State.withObject (s : State) (tenantId : Uuid) (key : ObjectKey) : State :=
  { s.purged tenantId with objects := ⟨key, 0, .empty⟩ :: (s.purged tenantId).objects }

theorem related_withObject (hok : s.Ok) {key : ObjectKey} (hkey : key.tenantId ≠ tenantId) :
    Related tenantId s (s.withObject tenantId key) := by
  have hpurged := ok_purged hok tenantId
  exact ⟨⟨sameRows_purge, sameRows_purge, sameRows_cons_purge hkey, sameRows_purge,
    sameRows_purge⟩, hpurged.databaseIds, hpurged.snapshotIds, hpurged.transactionIds,
    hpurged.owner⟩

/-- The stranger has submitted a query. -/
def State.withTransaction (s : State) (tenantId id : Uuid) : State :=
  { s.purged tenantId with
    transactions := ⟨id, stranger tenantId, 0, "pending", "", "", none, none, 0, ""⟩ ::
      (s.purged tenantId).transactions }

theorem related_withTransaction (hok : s.Ok)
    (hid : ∀ tx ∈ (s.purged tenantId).transactions, tx.id ≠ id) :
    Related tenantId s (s.withTransaction tenantId id) := by
  have hpurged := ok_purged hok tenantId
  exact ⟨⟨sameRows_purge, sameRows_purge, sameRows_purge, sameRows_purge,
    sameRows_cons_purge (stranger_ne tenantId)⟩, hpurged.databaseIds, hpurged.snapshotIds,
    nodup_key_cons hpurged.transactionIds hid, hpurged.owner⟩

end Strangers

/-! ### The four requests -/

section Requests

variable {env : Env} {s : State} {tenantId id : Uuid}

/-- What the tenant gets from a database of its own. -/
theorem getDatabaseInfo_eq {s' : State} (h : s.SameFor tenantId s') (ho : s.OwnedBy tenantId id)
    (ho' : s'.OwnedBy tenantId id) :
    (getDatabaseInfo env tenantId id s').1 = (getDatabaseInfo env tenantId id s).1 := by
  unfold getDatabaseInfo
  rw [cached_eq h ho ho', findDatabase_eq h ho ho']
  split
  · rfl
  · split
    · rfl
    · split
      · rfl
      · split <;> rfl

/-- Without data of others there is no such database; a stranger's database is refused. -/
theorem getDatabaseInfo_stranger (hread : env.mayRead = true) (hid : id ∉ s.footprint tenantId) :
    (getDatabaseInfo env tenantId id (s.purged tenantId)).1 = .ok none ∧
      (getDatabaseInfo env tenantId id (s.withDatabase tenantId id)).1 = .error .notOwner := by
  obtain ⟨hdatabases, -, hcache⟩ := ne_of_notMem_footprint hid
  have huncached : ((s.purged tenantId).cache.find? fun info => info.row.id = id) = none := by
    simpa using hcache
  have hmissing : (s.purged tenantId).findDatabase id = none := by
    simpa [State.findDatabase] using hdatabases
  have hfound : (s.withDatabase tenantId id).findDatabase id =
      some ⟨id, stranger tenantId, "", "", 0⟩ :=
    List.find?_cons_of_pos (by simp)
  unfold getDatabaseInfo
  constructor
  · simp [hread, huncached, hmissing]
  · have huncached' : ((s.withDatabase tenantId id).cache.find? fun info => info.row.id = id) =
        none := huncached
    simp [hread, huncached', hfound, stranger_ne]

theorem isolated_info_iff (hok : s.Ok) :
    Isolated env tenantId (.info id) s ↔ Unexposed env tenantId (.info id) s := by
  have hcopies : ∀ s', Related tenantId s s' → ¬ Copies env tenantId (.info id) s' :=
    fun _ _ h => h
  unfold Isolated Unexposed
  rw [and_iff_left hcopies]
  constructor
  · intro h
    by_contra hexposed
    rw [not_or, Bool.not_eq_false] at hexposed
    obtain ⟨hread, hid⟩ := hexposed
    obtain ⟨hpurged, hstranger⟩ := getDatabaseInfo_stranger hread hid
    refine not_independent_of_two (related_purged hok tenantId) (related_withDatabase hok hid) ?_ h
    simp only [answer, hpurged, hstranger]
    simp
  · rintro (hread | hid) s' hs'
    · simp [answer, getDatabaseInfo, hread]
    · have ho := ownedBy_of_mem_footprint hok hid
      simp only [answer, getDatabaseInfo_eq hs'.1 ho (ownedBy_of_related hid hs')]

/-- What the tenant gets from the timeline of a database of its own. -/
theorem listDatabasePitr_eq {req : PitrRequest} {s' : State} (h : s.SameFor tenantId s')
    (ho : s.OwnedBy tenantId req.databaseId) (ho' : s'.OwnedBy tenantId req.databaseId) :
    listDatabasePitr env tenantId req s' = listDatabasePitr env tenantId req s := by
  unfold listDatabasePitr
  rw [listByDatabase_eq h ho ho', listWal_eq h]

/-- Where no snapshot would show, those that are listed come after the target. -/
theorem listSnapshots_of_not_shows {req : PitrRequest} {start : DateTime}
    (hshows : ∀ created, ¬ Shows env req start created) (rows : List SnapshotRow) :
    ∃ snapshots, listSnapshots env start (req.stopTime env.now) rows = .ok snapshots ∧
      ∀ p ∈ snapshots, ∃ target, req.target = some target ∧ target < p.createdAt := by
  induction rows with
  | nil => exact ⟨[], rfl, fun _ h => nomatch h⟩
  | cons row rows ih =>
    obtain ⟨snapshots, hlist, hlate⟩ := ih
    have hrow := hshows row.createdAt
    unfold Shows at hrow
    unfold listSnapshots
    split
    · exact ⟨snapshots, hlist, hlate⟩
    · next heq => simp [heq] at hrow
    · next t heq =>
      simp only [heq] at hrow
      rw [hlist]
      by_cases hrange : start ≤ t ∧ t ≤ req.stopTime env.now
      · refine ⟨_, rfl, ?_⟩
        rw [if_pos hrange]
        refine List.forall_mem_cons.mpr ⟨?_, hlate⟩
        by_contra hearly
        refine hrow ⟨hrange.1, hrange.2, fun target htarget => ?_⟩
        exact not_lt.mp fun hlt => hearly ⟨target, htarget, hlt⟩
      · exact ⟨_, rfl, by rwa [if_neg hrange]⟩

/-- Where no snapshot would show, none is read. -/
theorem listDatabasePitr_of_not_shows {req : PitrRequest} {start : DateTime}
    (hread : env.mayRead = true) (hstart : req.startTime env.now = some start)
    (hshows : ∀ created, ¬ Shows env req start created) :
    listDatabasePitr env tenantId req s = pitrResponse env req start (req.stopTime env.now) []
      (s.listWal tenantId req.databaseId) := by
  obtain ⟨snapshots, hlist, hlate⟩ :=
    listSnapshots_of_not_shows hshows (s.listByDatabase req.databaseId)
  unfold listDatabasePitr
  simp only [hread, Bool.not_true, Bool.false_eq_true, if_false, hstart, hlist]
  unfold pitrResponse
  cases htarget : req.target with
  | none =>
    have hempty : snapshots = [] := by
      apply List.eq_nil_iff_forall_not_mem.mpr
      intro p hp
      obtain ⟨target, heq, -⟩ := hlate p hp
      simp [htarget] at heq
    rw [hempty]
  | some target =>
    have hafter : snapshots.filter (fun p => p.createdAt ≤ target) = [] := by
      apply List.filter_eq_nil_iff.mpr
      intro p hp
      obtain ⟨target', heq, hlt⟩ := hlate p hp
      rw [htarget, Option.some.injEq] at heq
      simpa [heq] using hlt
    simp only [planTo, hafter]
    rfl

/-- Without snapshots there is a list of none, or no plan. -/
theorem pitrResponse_nil (env : Env) (req : PitrRequest) (start stop : DateTime)
    (objs : List Object) :
    (∃ response, pitrResponse env req start stop [] objs = .ok response ∧
        response.snapshots = []) ∨
      ∃ target, pitrResponse env req start stop [] objs = .error (.noSnapshot target) := by
  unfold pitrResponse
  cases req.target with
  | none => exact .inl ⟨_, rfl, rfl⟩
  | some target => exact .inr ⟨target, rfl⟩

/-- A snapshot that is not after the target is listed. -/
theorem pitrResponse_singleton (env : Env) {req : PitrRequest} {p : PitrSnapshot}
    (htarget : ∀ target, req.target = some target → p.createdAt ≤ target) (start stop : DateTime)
    (objs : List Object) :
    ∃ response, pitrResponse env req start stop [p] objs = .ok response ∧
      response.snapshots = [p] := by
  unfold pitrResponse
  cases heq : req.target with
  | none => exact ⟨_, rfl, rfl⟩
  | some target =>
    have hfilter : [p].filter (fun p => p.createdAt ≤ target) = [p] :=
      List.filter_eq_self.mpr (by simpa using htarget target heq)
    simp only [planTo, hfilter]
    exact ⟨_, rfl, rfl⟩

/-- A snapshot of a stranger that shows makes a difference. -/
theorem listDatabasePitr_stranger {req : PitrRequest} {start : DateTime} {row : SnapshotRow}
    (hread : env.mayRead = true) (hstart : req.startTime env.now = some start)
    (hid : req.databaseId ∉ s.footprint tenantId) (hrow : row.databaseId = req.databaseId)
    (hshows : Shows env req start row.createdAt) :
    listDatabasePitr env tenantId req (s.purged tenantId) ≠
      listDatabasePitr env tenantId req (s.withSnapshot tenantId row) := by
  have hothers := (ne_of_notMem_footprint hid).2.1
  have hempty : (s.purged tenantId).listByDatabase req.databaseId = [] := by
    unfold State.listByDatabase
    rw [List.filter_eq_nil_iff.mpr (by simpa using hothers)]
    rfl
  have hsingle : (s.withSnapshot tenantId row).listByDatabase req.databaseId =
      [{ row with tenantId := stranger tenantId }] := by
    unfold State.listByDatabase State.withSnapshot
    rw [List.filter_cons_of_pos (by simpa using hrow),
      List.filter_eq_nil_iff.mpr (by simpa using hothers)]
    rfl
  have hpurged : listDatabasePitr env tenantId req (s.purged tenantId) =
      pitrResponse env req start (req.stopTime env.now) []
        ((s.purged tenantId).listWal tenantId req.databaseId) := by
    simp [listDatabasePitr, hread, hstart, hempty, listSnapshots]
  rw [hpurged]
  have hnil := pitrResponse_nil env req start (req.stopTime env.now)
    ((s.purged tenantId).listWal tenantId req.databaseId)
  unfold Shows at hshows
  split at hshows
  · exact hshows.elim
  · next heq =>
    have hnaive : listDatabasePitr env tenantId req (s.withSnapshot tenantId row) =
        .error .naiveTimestamp := by
      simp [listDatabasePitr, hread, hstart, hsingle, listSnapshots, heq]
    rw [hnaive]
    rcases hnil with ⟨response, hnil, -⟩ | ⟨target, hnil⟩ <;> simp [hnil]
  · next t heq =>
    obtain ⟨hstart', hstop, htarget⟩ := hshows
    have hlisted : listDatabasePitr env tenantId req (s.withSnapshot tenantId row) =
        pitrResponse env req start (req.stopTime env.now)
          [⟨row.id, row.objectKey, row.checksum, row.sizeBytes, t⟩]
          ((s.withSnapshot tenantId row).listWal tenantId req.databaseId) := by
      simp [listDatabasePitr, hread, hstart, hsingle, listSnapshots, heq, hstart', hstop]
    obtain ⟨response', hone, hsnapshots⟩ := @pitrResponse_singleton env req
      ⟨row.id, row.objectKey, row.checksum, row.sizeBytes, t⟩ htarget start (req.stopTime env.now)
      ((s.withSnapshot tenantId row).listWal tenantId req.databaseId)
    rw [hlisted, hone]
    rcases hnil with ⟨response, hnil, hnone⟩ | ⟨target, hnil⟩
    · rw [hnil]
      intro hsame
      cases hsame
      simp [hsnapshots] at hnone
    · simp [hnil]

theorem isolated_pitr_iff {req : PitrRequest} (hok : s.Ok) :
    Isolated env tenantId (.pitr req) s ↔ Unexposed env tenantId (.pitr req) s := by
  have hcopies : ∀ s', Related tenantId s s' → ¬ Copies env tenantId (.pitr req) s' :=
    fun _ _ h => h
  unfold Isolated Unexposed
  rw [and_iff_left hcopies]
  constructor
  · intro h
    by_contra hexposed
    simp only [not_or, Bool.not_eq_false, not_forall, not_not] at hexposed
    obtain ⟨hread, hid, start, hstart, created, hshows⟩ := hexposed
    obtain ⟨n, hn⟩ := Infinite.exists_notMem_finset
      ((s.purged tenantId).snapshots.map SnapshotRow.id).toFinset
    let row : SnapshotRow := ⟨n, 0, req.databaseId, ⟨0, 0, ""⟩, "", 0, created⟩
    have hnew : ∀ row' ∈ (s.purged tenantId).snapshots, row'.id ≠ row.id := fun row' hrow' heq =>
      hn (List.mem_toFinset.mpr (List.mem_map.mpr ⟨row', hrow', heq⟩))
    refine not_independent_of_two (related_purged hok tenantId)
      (related_withSnapshot hok hid hnew) ?_ h
    simp only [answer, ne_eq, Answer.pitr.injEq]
    exact listDatabasePitr_stranger hread hstart hid rfl hshows
  · rintro (hread | hid | hshows) s' hs'
    · simp [answer, listDatabasePitr, hread]
    · have ho := ownedBy_of_mem_footprint hok hid
      simp only [answer, listDatabasePitr_eq hs'.1 ho (ownedBy_of_related hid hs')]
    · cases hread : env.mayRead with
      | false => simp [answer, listDatabasePitr, hread]
      | true =>
        cases hstart : req.startTime env.now with
        | none => simp [answer, listDatabasePitr, hread, hstart]
        | some start =>
          simp only [answer, listDatabasePitr_of_not_shows hread hstart (hshows start hstart),
            listWal_eq hs'.1]

end Requests

/-! ### The branch of a request -/

section Branches

variable {env : Env} {s : State} {tenantId : Uuid} {req : BranchRequest}

/-- What is asked after the snapshot is found and before its object is downloaded. -/
def admits (env : Env) (tenantId : Uuid) (name : String) (s : State) : Except BranchError Unit :=
  if !isDatabaseName name then .error .invalidDatabaseName
  else if (s.findByName tenantId name).isSome then .error (.databaseExists name)
  else if !env.mayRestore then .error .notAuthorized
  else if !env.lock then .error .noLock
  else .ok ()

/-- The full name of the branch. -/
def BranchRequest.fullName (req : BranchRequest) : String :=
  toFullName req.sourceDatabaseName req.branchName

theorem admits_cases (name : String) :
    (admits env tenantId name s = .ok () ∧
        (isDatabaseName name = true ∧ s.findByName tenantId name = none) ∧
          env.mayRestore = true ∧ env.lock = true) ∨
      ∃ e, admits env tenantId name s = .error e ∧ (∀ id, e ≠ .snapshotNotFound id) ∧
        ¬ ((isDatabaseName name = true ∧ s.findByName tenantId name = none) ∧
          env.mayRestore = true ∧ env.lock = true) := by
  unfold admits
  cases hname : isDatabaseName name with
  | false => simp
  | true =>
    cases hexists : s.findByName tenantId name with
    | some row => simp
    | none =>
      cases hrestore : env.mayRestore with
      | false => simp
      | true => cases hlock : env.lock <;> simp

theorem admits_eq {s' : State} (h : s.SameFor tenantId s') (name : String) :
    admits env tenantId name s' = admits env tenantId name s := by
  unfold admits
  rw [findByName_eq h]

/-- The response to a request that goes through. -/
def responseOf (env : Env) (req : BranchRequest) (source : SnapshotRow) : BranchResponse :=
  ⟨req.branchName, req.fullName, req.sourceDatabaseName, env.newDatabaseId, env.newSnapshotId,
    env.now, req.description, source.id⟩

theorem createBranch_missing (hname : branchNameError req.branchName = none)
    (hsource : s.findSnapshot req.snapshotId = none) :
    createBranch env tenantId req s = .error (.snapshotNotFound req.snapshotId) := by
  unfold createBranch
  rw [hname, hsource]
  rfl

theorem findDatabase_duplicate (s : State) (source : SnapshotRow) (name : String) :
    ∃ row, (duplicate env tenantId source (s.provisioned env tenantId name)).findDatabase
      env.newDatabaseId = some row ∧ row.tenantId = tenantId :=
  ⟨_, List.find?_cons_of_pos (decide_eq_true rfl), rfl⟩

theorem findSnapshot_duplicate (s : State) (source : SnapshotRow) :
    ∃ row, (duplicate env tenantId source s).findSnapshot env.newSnapshotId = some row ∧
      row.databaseId = env.newDatabaseId ∧ row.objectKey = source.objectKey :=
  ⟨_, List.find?_cons_of_pos (decide_eq_true rfl), rfl, rfl⟩

/-- The new rows are what the restore finds. -/
theorem restore_duplicate (source : SnapshotRow) (name : String) :
    restoreDatabaseFromSnapshot env tenantId env.newDatabaseId env.newSnapshotId
        (duplicate env tenantId source (s.provisioned env tenantId name)) =
      if !env.mayRestore then .error .notAuthorized
      else if !env.lock then .error .noLock
      else match s.download source.objectKey with
        | none => .error .noSuchKey
        | some archive =>
          .ok { duplicate env tenantId source (s.provisioned env tenantId name) with
            files := s.files.insert env.newDatabaseId archive } := by
  obtain ⟨row, hrow, htenant⟩ := @findDatabase_duplicate env tenantId s source name
  obtain ⟨snapshot, hsnapshot, hdatabase, hkey⟩ :=
    @findSnapshot_duplicate env tenantId (s.provisioned env tenantId name) source
  unfold restoreDatabaseFromSnapshot
  rw [hrow, hsnapshot]
  simp only [Option.filter_some, htenant, hdatabase, decide_true, if_true, hkey]
  rfl

/-- A request whose snapshot is found is provisioned, duplicated and restored. -/
theorem createBranch_eq {source : SnapshotRow} (hname : branchNameError req.branchName = none)
    (hsource : s.findSnapshot req.snapshotId = some source) :
    createBranch env tenantId req s = (provision env tenantId req.fullName s).bind fun s₁ =>
      (restoreDatabaseFromSnapshot env tenantId env.newDatabaseId env.newSnapshotId
        (duplicate env tenantId source s₁)).bind fun s₂ => .ok (responseOf env req source, s₂) := by
  unfold createBranch
  rw [hname, hsource]
  rfl

/-- The state a request that goes through leaves. -/
def State.branched (s : State) (env : Env) (tenantId : Uuid) (name : String) (source : SnapshotRow)
    (archive : ByteArray) : State :=
  { duplicate env tenantId source (s.provisioned env tenantId name) with
    files := s.files.insert env.newDatabaseId archive }

/-- A request whose snapshot is found is admitted or not, and then its object is downloaded. -/
theorem createBranch_admits {source : SnapshotRow} (hname : branchNameError req.branchName = none)
    (hsource : s.findSnapshot req.snapshotId = some source) :
    createBranch env tenantId req s = (admits env tenantId req.fullName s).bind fun _ =>
      match s.download source.objectKey with
      | none => .error .noSuchKey
      | some archive =>
        .ok (responseOf env req source, s.branched env tenantId req.fullName source archive) := by
  rw [createBranch_eq hname hsource]
  unfold admits provision
  cases hdatabase : isDatabaseName req.fullName with
  | false => rfl
  | true =>
    cases hexists : s.findByName tenantId req.fullName with
    | some row => rfl
    | none =>
      simp only [Bool.not_true, Bool.false_eq_true, if_false, Option.isSome_none, Except.bind,
        restore_duplicate]
      cases hrestore : env.mayRestore with
      | false => rfl
      | true =>
        cases hlock : env.lock with
        | false => rfl
        | true => cases s.download source.objectKey <;> rfl

/-- **What comes of a request once its snapshot is found.** -/
theorem createBranch_found {source : SnapshotRow} (hname : branchNameError req.branchName = none)
    (hsource : s.findSnapshot req.snapshotId = some source) :
    (∀ e, admits env tenantId req.fullName s = .error e →
        createBranch env tenantId req s = .error e) ∧
      (admits env tenantId req.fullName s = .ok () → s.download source.objectKey = none →
        createBranch env tenantId req s = .error .noSuchKey) ∧
      ∀ archive, admits env tenantId req.fullName s = .ok () →
        s.download source.objectKey = some archive →
          ∃ s', createBranch env tenantId req s = .ok (responseOf env req source, s') ∧
            s'.files.lookup env.newDatabaseId = some archive := by
  rw [createBranch_admits hname hsource]
  refine ⟨fun e hadmits => ?_, fun hadmits hdownload => ?_, fun archive hadmits hdownload => ?_⟩
  · rw [hadmits]
    rfl
  · rw [hadmits, hdownload]
    rfl
  · rw [hadmits, hdownload]
    exact ⟨_, rfl, AList.lookup_insert _⟩

/-- A request with a snapshot of the tenant's own comes to the same in every related state, as long
as the object is the tenant's too or is not asked for. -/
theorem createBranch_own {s' : State} {source : SnapshotRow}
    (hname : branchNameError req.branchName = none)
    (hsource : s.findSnapshot req.snapshotId = some source)
    (hsource' : s'.findSnapshot req.snapshotId = some source) (h : s.SameFor tenantId s')
    (hkey : source.objectKey.tenantId = tenantId ∨ ¬ Restores env tenantId req s) :
    (createBranch env tenantId req s').map Prod.fst =
      (createBranch env tenantId req s).map Prod.fst := by
  obtain ⟨hrefused, hmissing, hdone⟩ := createBranch_found hname hsource
  obtain ⟨hrefused', hmissing', hdone'⟩ := createBranch_found hname hsource'
  rw [admits_eq h] at hrefused' hmissing' hdone'
  rcases admits_cases req.fullName with ⟨hadmits, hrestores⟩ | ⟨e, hadmits, -, -⟩
  · have hown : source.objectKey.tenantId = tenantId :=
      hkey.resolve_right fun hnot => hnot hrestores
    cases hdownload : s.download source.objectKey with
    | none =>
      rw [hmissing hadmits hdownload, hmissing' hadmits ((download_eq h hown).trans hdownload)]
    | some archive =>
      obtain ⟨s₁, hcreate, -⟩ := hdone archive hadmits hdownload
      obtain ⟨s₂, hcreate', -⟩ := hdone' archive hadmits ((download_eq h hown).trans hdownload)
      rw [hcreate, hcreate']
      rfl
  · rw [hrefused e hadmits, hrefused' e hadmits]

/-- Only a request that restores copies. -/
theorem restores_of_ok {source : SnapshotRow} {response : BranchResponse} {s' : State}
    (hname : branchNameError req.branchName = none)
    (hsource : s.findSnapshot req.snapshotId = some source)
    (hcreate : createBranch env tenantId req s = .ok (response, s')) :
    Restores env tenantId req s := by
  rcases admits_cases req.fullName with ⟨-, hrestores⟩ | ⟨e, hadmits, -, -⟩
  · exact hrestores
  · rw [(createBranch_found hname hsource).1 e hadmits] at hcreate
    cases hcreate

/-- A snapshot that is found is not reported as missing. -/
theorem createBranch_ne_notFound {source : SnapshotRow}
    (hname : branchNameError req.branchName = none)
    (hsource : s.findSnapshot req.snapshotId = some source) (id : Uuid) :
    (createBranch env tenantId req s).map Prod.fst ≠ .error (.snapshotNotFound id) := by
  obtain ⟨hrefused, hmissing, hdone⟩ := createBranch_found hname hsource
  rcases admits_cases req.fullName with ⟨hadmits, -⟩ | ⟨e, hadmits, hne, -⟩
  · cases hdownload : s.download source.objectKey with
    | none =>
      rw [hmissing hadmits hdownload]
      simp [Except.map]
    | some archive =>
      obtain ⟨s', hcreate, -⟩ := hdone archive hadmits hdownload
      rw [hcreate]
      simp [Except.map]
  · rw [hrefused e hadmits]
    simpa [Except.map] using hne id

/-- An object of a stranger makes a difference. -/
theorem createBranch_object {source : SnapshotRow} (hok : s.Ok)
    (hname : branchNameError req.branchName = none) (hsource : source ∈ s.snapshots)
    (hid : source.id = req.snapshotId) (hown : source.tenantId = tenantId)
    (hkey : source.objectKey.tenantId ≠ tenantId) (hrestores : Restores env tenantId req s) :
    (createBranch env tenantId req (s.purged tenantId)).map Prod.fst ≠
      (createBranch env tenantId req (s.withObject tenantId source.objectKey)).map Prod.fst := by
  have hpurged : source ∈ (s.purged tenantId).snapshots := mem_purge.mpr ⟨hsource, hown⟩
  have hfind : (s.purged tenantId).findSnapshot req.snapshotId = some source :=
    hid ▸ find?_key (ok_purged hok tenantId).snapshotIds hpurged
  have hfind' : (s.withObject tenantId source.objectKey).findSnapshot req.snapshotId =
      some source := hfind
  have hadmits : admits env tenantId req.fullName s = .ok () := by
    rcases admits_cases req.fullName with ⟨hadmits, -⟩ | ⟨e, -, -, hnot⟩
    · exact hadmits
    · exact absurd hrestores hnot
  have hgone : (s.purged tenantId).download source.objectKey = none := by
    have hnone : ∀ o ∈ (s.purged tenantId).objects, o.key ≠ source.objectKey := by
      intro o ho heq
      exact hkey (heq ▸ (mem_purge.mp ho).2)
    unfold State.download
    rw [List.find?_eq_none.mpr (by simpa using hnone)]
    rfl
  have hthere : (s.withObject tenantId source.objectKey).download source.objectKey =
      some .empty :=
    congrArg (Option.map Object.content) (List.find?_cons_of_pos (decide_eq_true rfl))
  rw [← admits_eq (sameFor_purged s tenantId)] at hadmits
  rw [(createBranch_found hname hfind).2.1 hadmits hgone]
  obtain ⟨s', hcreate, -⟩ := (createBranch_found hname hfind').2.2 .empty hadmits hthere
  rw [hcreate]
  simp [Except.map]

/-- A snapshot of a stranger makes a difference where the tenant has none under the id. -/
theorem createBranch_row {row : SnapshotRow} (hname : branchNameError req.branchName = none)
    (hrow : row.id = req.snapshotId)
    (hnew : ∀ row' ∈ (s.purged tenantId).snapshots, row'.id ≠ row.id) :
    (createBranch env tenantId req (s.purged tenantId)).map Prod.fst ≠
      (createBranch env tenantId req (s.withSnapshot tenantId row)).map Prod.fst := by
  have hmissing : (s.purged tenantId).findSnapshot req.snapshotId = none :=
    List.find?_eq_none.mpr (by simpa [hrow] using hnew)
  have hfound : (s.withSnapshot tenantId row).findSnapshot req.snapshotId =
      some { row with tenantId := stranger tenantId } :=
    List.find?_cons_of_pos (decide_eq_true hrow)
  rw [createBranch_missing hname hmissing]
  exact (createBranch_ne_notFound hname hfound _).symm

/-- A snapshot of the tenant's own brings nothing of another into the branch. -/
theorem not_copies_of_own {s' : State} {source : SnapshotRow}
    (hname : branchNameError req.branchName = none)
    (hsource' : s'.findSnapshot req.snapshotId = some source) (h : s.SameFor tenantId s')
    (htenant : source.tenantId = tenantId)
    (hkey : source.objectKey.tenantId = tenantId ∨ ¬ Restores env tenantId req s) :
    ¬ Copies env tenantId (.branch req) s' := by
  rintro ⟨response, s'', source', hcreate, hfind, hforeign, -⟩
  rw [hsource'] at hfind
  cases hfind
  have hrestores := restores_of_ok hname hsource' hcreate
  unfold Restores at hrestores
  rw [findByName_eq h] at hrestores
  rcases hkey with hkey | hkey
  · exact hforeign.elim (fun hne => hne htenant) fun hne => hne hkey
  · exact hkey hrestores

theorem isolated_branch_iff (hok : s.Ok) :
    Isolated env tenantId (.branch req) s ↔ Unexposed env tenantId (.branch req) s := by
  unfold Isolated Unexposed
  cases hname : branchNameError req.branchName with
  | some e =>
    have hcreate : ∀ s, createBranch env tenantId req s = .error (.invalidName e) := by
      intro s
      unfold createBranch
      rw [hname]
      rfl
    refine iff_of_true ⟨fun s' _ => ?_, fun s' _ hcopies => ?_⟩ (.inl (by simp [hname]))
    · simp only [answer, hcreate]
    · obtain ⟨response, s'', source, hdone, -⟩ := hcopies
      rw [hcreate] at hdone
      cases hdone
  | none =>
    show _ ↔ (branchNameError req.branchName ≠ none ∨ _)
    rw [or_iff_right (by simp [hname])]
    constructor
    · rintro ⟨h, -⟩
      by_contra hexposed
      by_cases hown : ∃ source ∈ s.snapshots, source.id = req.snapshotId ∧
          source.tenantId = tenantId
      · -- The row is the tenant's, and the object a stranger's.
        obtain ⟨source, hsource, hid, htenant⟩ := hown
        have hforeign : source.objectKey.tenantId ≠ tenantId ∧ Restores env tenantId req s := by
          by_contra hnot
          rw [not_and_or, not_not] at hnot
          exact hexposed ⟨source, hsource, hid, htenant, hnot⟩
        refine not_independent_of_two (related_purged hok tenantId)
          (related_withObject hok hforeign.1) ?_ h
        simp only [answer, ne_eq, Answer.branch.injEq]
        exact createBranch_object hok hname hsource hid htenant hforeign.1 hforeign.2
      · -- The row is missing, or a stranger's.
        obtain ⟨d, hd⟩ := Infinite.exists_notMem_finset (s.footprint tenantId).toFinset
        let row : SnapshotRow := ⟨req.snapshotId, 0, d, ⟨0, 0, ""⟩, "", 0, 0⟩
        have hnew : ∀ row' ∈ (s.purged tenantId).snapshots, row'.id ≠ row.id :=
          fun row' hrow' heq => hown ⟨row', (mem_purge.mp hrow').1, heq, (mem_purge.mp hrow').2⟩
        refine not_independent_of_two (related_purged hok tenantId)
          (related_withSnapshot hok (fun hmem => hd (List.mem_toFinset.mpr hmem)) hnew) ?_ h
        simp only [answer, ne_eq, Answer.branch.injEq]
        exact createBranch_row hname rfl hnew
    · rintro ⟨source, hsource, hid, htenant, hkey⟩
      have hfind {s' : State} (hs' : Related tenantId s s') :
          s'.findSnapshot req.snapshotId = some source :=
        hid ▸ find?_key hs'.2.snapshotIds ((mem_iff_of_sameRows hs'.1.snapshots htenant).mp hsource)
      have hself : s.findSnapshot req.snapshotId = some source :=
        hid ▸ find?_key hok.snapshotIds hsource
      refine ⟨fun s' hs' => ?_, fun s' hs' => ?_⟩
      · simp only [answer, createBranch_own hname hself (hfind hs') hs'.1 hkey]
      · exact not_copies_of_own hname (hfind hs') hs'.1 htenant hkey

end Branches

section Jobs

variable {env : Env} {s : State} {tenantId id : Uuid}

theorem isolated_job_iff (hok : s.Ok) :
    Isolated env tenantId (.job id) s ↔ Unexposed env tenantId (.job id) s := by
  have hcopies : ∀ s', Related tenantId s s' → ¬ Copies env tenantId (.job id) s' :=
    fun _ _ h => h
  unfold Isolated Unexposed
  rw [and_iff_left hcopies]
  constructor
  · intro h
    by_contra hexposed
    have hothers : ∀ tx ∈ (s.purged tenantId).transactions, tx.id ≠ id :=
      fun tx htx heq => hexposed ⟨tx, (mem_purge.mp htx).1, heq, (mem_purge.mp htx).2⟩
    refine not_independent_of_two (related_purged hok tenantId)
      (related_withTransaction hok hothers) ?_ h
    have hmissing : getJobStatus id (s.purged tenantId) = none := by
      unfold getJobStatus
      rw [List.find?_eq_none.mpr (by simpa using hothers)]
      rfl
    have hfound : (getJobStatus id (s.withTransaction tenantId id)).isSome := by
      have hfind : ((s.withTransaction tenantId id).transactions.find? fun tx => tx.id = id) =
          some _ := List.find?_cons_of_pos (decide_eq_true rfl)
      unfold getJobStatus
      rw [hfind]
      rfl
    simp only [answer, ne_eq, Answer.job.injEq, hmissing]
    intro hsame
    rw [← hsame] at hfound
    cases hfound
  · rintro ⟨tx, htx, rfl, htenant⟩ s' hs'
    have htx' : tx ∈ s'.transactions := (mem_iff_of_sameRows hs'.1.transactions htenant).mp htx
    simp only [answer, getJobStatus, find?_key hok.transactionIds htx,
      find?_key hs'.2.transactionIds htx']

end Jobs

/-! ### Isolation -/

section Main

variable {env : Env} {s : State} {tenantId : Uuid}

/-- **A tenant is isolated in a request exactly when the request names something of its own, or is
refused before anything is read.** -/
theorem isolated_iff (env : Env) (tenantId : Uuid) (r : Request) (s : State) (hok : s.Ok) :
    Isolated env tenantId r s ↔ Unexposed env tenantId r s := by
  cases r with
  | info id => exact isolated_info_iff hok
  | pitr req => exact isolated_pitr_iff hok
  | branch req => exact isolated_branch_iff hok
  | job id => exact isolated_job_iff hok

/-- The ids that are drawn name nothing yet. -/
structure Env.Fresh (env : Env) (s : State) : Prop where
  databases : ∀ row ∈ s.databases, row.id ≠ env.newDatabaseId
  snapshots : ∀ row ∈ s.snapshots, row.id ≠ env.newSnapshotId
  named : ∀ row ∈ s.snapshots, row.databaseId ≠ env.newDatabaseId
  cache : ∀ info ∈ s.cache, info.row.id ≠ env.newDatabaseId

end Main

/-! ### A snapshot of another tenant -/

/-- The calls answer, and the new ids are 3 and 6. -/
def testEnv : Env where
  formats := testFormats2024
  isoformat _ := "2024-01-01T00:00:00+00:00"
  str _ := ""
  lines _ := []
  now := test2024 3 1 (by decide)
  mayRead := true
  mayRestore := true
  lock := true
  newDatabaseId := 3
  newSnapshotId := 6
  createdAt := 0

/-- The archive of the other tenant. -/
def bankKey : ObjectKey := ⟨8, 2, "snapshots/archive/snapshot.tar.gz"⟩

/-- Tenant 7 has database 1; tenant 8 has database 2, with the snapshot 5. -/
def testState : State where
  databases := [⟨1, 7, "shop", "/7/1/data.kuzu", 0⟩, ⟨2, 8, "bank", "/8/2/data.kuzu", 0⟩]
  snapshots := [⟨5, 8, 2, bankKey, "sum", 3, 0⟩]
  objects := [⟨bankKey, 3, .empty⟩]
  cache := []
  transactions := []
  files := ∅

theorem ok_testState : testState.Ok where
  databaseIds := by decide
  snapshotIds := by decide
  transactionIds := by decide
  owner := ⟨fun id => id + 6, by decide, by decide, by decide⟩

/-- Tenant 7 asks for database 2. -/
theorem isolated_iff_testState : testState.Ok ∧
    (Isolated testEnv 7 (.info 2) testState ↔ Unexposed testEnv 7 (.info 2) testState) :=
  ⟨ok_testState, isolated_iff testEnv 7 (.info 2) testState ok_testState⟩

/-- Tenant 7 makes a branch from the snapshot of tenant 8. -/
theorem not_isolated : ¬ ∀ env tenantId r s, State.Ok s → Isolated env tenantId r s := by
  intro h
  let req : BranchRequest := ⟨"shop", "dev", 5, none⟩
  have hisolated := h testEnv 7 (.branch req) testState ok_testState
  have hself : Related 7 testState testState := ⟨⟨rfl, rfl, rfl, rfl, rfl⟩, ok_testState⟩
  obtain ⟨-, -, hdone⟩ := @createBranch_found testEnv testState 7 req _ (by decide +kernel) rfl
  obtain ⟨s', hcreate, hfiles⟩ := hdone .empty (by decide +kernel) rfl
  exact hisolated.2 testState hself ⟨_, s', _, hcreate, rfl, .inl (by decide), hfiles⟩

end KuzuEventBus.Service.Isolation
