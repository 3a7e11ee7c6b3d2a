import KuzuEventBus.Lib.Effects
import KuzuEventBus.Lib.HashMap
import KuzuEventBus.Service.QueryWorker
import Mathlib.Data.Finset.Insert
import Mathlib.Data.List.MinMax

/-!
# What a failed branch leaves behind

`CreateBranch` with the three use cases it calls, as far as they change the rows of the databases,
their directories and the rows of the snapshots.  Every awaited call may raise: how each of them
answers is an argument, and what was done before stays.

The contents of files and archives are left out, and so are the locks, the cache and the events,
except that the calls may raise where nothing catches it.

## Main definitions

* `World` — the rows, the directories and the snapshots.
* `createDatabaseSnapshot`, `provision`, `restoreDatabaseFromSnapshot`, `createBranch` — the use
  cases.
* `LeavesNothing` — a call that raises leaves the databases and the branch's snapshots as they were.
* `Reaches`, `Completes`, `TouchesSource` — how far the calls of a request go.

## Main results

* `leavesNothing_iff` — **nothing is left exactly when no call raises once a directory is created**.
* `no_retry` — after a failed copy the row is there, and no retry with the same name returns.
-/

namespace KuzuEventBus.Service.BranchFailure

open EffectM

/-! ### The world -/

/-- A row of `kuzu_databases`. -/
structure DatabaseRow where
  id : Uuid
  tenantId : Uuid
  name : String
  filesystemPath : String
  deriving DecidableEq

/-- A row of `kuzu_db_snapshots`. -/
structure SnapshotRow where
  id : Uuid
  tenantId : Uuid
  databaseId : Uuid
  objectKey : String
  checksum : String
  sizeBytes : ℕ
  createdAt : Instant
  deriving DecidableEq

/-- The rows, by their ids, and the directories `<base>/<tenant>/<database_id>`. -/
structure World where
  databases : HashMap Uuid DatabaseRow
  dirs : Finset (Uuid × Uuid)
  snapshots : HashMap Uuid SnapshotRow

/-- The steps of a use case. -/
abbrev UseCase := EffectM PyError World

/-- A call that returns, or raises. -/
def raises : Option PyError → UseCase Unit
  | none => pure ()
  | some e => throw e

/-- `find_by_name`. -/
def World.findByName (w : World) (tenantId : Uuid) (name : String) : Option DatabaseRow :=
  w.databases.values.find? fun row => row.tenantId = tenantId && row.name = name

/-- What `find_by_id` finds, if it is a database of the tenant. -/
def World.owned (w : World) (tenantId databaseId : Uuid) : Option DatabaseRow :=
  (w.databases.lookup databaseId).filter fun row => row.tenantId = tenantId

/-- A row is added. -/
def World.addDatabase (w : World) (row : DatabaseRow) : World :=
  { w with databases := w.databases.insert row.id row }

/-- A row is added. -/
def World.addSnapshot (w : World) (row : SnapshotRow) : World :=
  { w with snapshots := w.snapshots.insert row.id row }

/-- `mkdir(parents=True, exist_ok=True)`, for the directory of a database. -/
def World.addDir (w : World) (tenantId databaseId : Uuid) : World :=
  { w with dirs := insert (tenantId, databaseId) w.dirs }

/-! ### Snapshots -/

/-- How the calls of `CreateDatabaseSnapshot` answer: whether the permission is given, the lock,
whether there are files and whether they can be made, the uploaded archive, the time and the id of
the row. -/
structure SnapshotAnswers where
  checkPermission : Except PyError Bool
  findById : Option PyError
  acquireLock : Except PyError (Option String)
  filesExist : Bool
  mkdir : Option PyError
  initFiles : Option PyError
  archive : Except PyError (String × String × ℕ)
  createdAt : Instant
  save : Except PyError Uuid
  cacheDelete : Option PyError
  releaseLock : Option PyError

/-- The checks, and the lock. -/
def admitSnapshot (a : SnapshotAnswers) (tenantId databaseId : Uuid) : UseCase Unit := do
  match ← ofExcept a.checkPermission with
  | false => throw "Not authorized to snapshot database"
  | true =>
    raises a.findById
    match (← get).owned tenantId databaseId with
    | none => throw "Database not found"
    | some info =>
      if info.filesystemPath = "" then throw "Database file path unknown"
      else
        match ← ofExcept a.acquireLock with
        | none => throw "Could not acquire snapshot lock"
        | some _ => pure ()

/-- The files of a database are made, if there are none. -/
def firstTouch (a : SnapshotAnswers) (tenantId databaseId : Uuid) : UseCase Unit :=
  if a.filesExist then pure ()
  else if a.mkdir.isSome then throw "Failed to initialize Kuzu database for snapshot"
  else do
    modify fun w => w.addDir tenantId databaseId
    if a.initFiles.isSome then throw "Failed to initialize Kuzu database for snapshot"

/-- The archive is made and uploaded, and its row is saved. -/
def archiveLocked (a : SnapshotAnswers) (tenantId databaseId : Uuid) : UseCase SnapshotRow := do
  firstTouch a tenantId databaseId
  let (objectKey, checksum, sizeBytes) ← ofExcept a.archive
  let id ← ofExcept a.save
  let row : SnapshotRow :=
    ⟨id, tenantId, databaseId, objectKey, checksum, sizeBytes, a.createdAt⟩
  modify fun w => w.addSnapshot row
  raises a.cacheDelete
  pure row

/-- `CreateDatabaseSnapshotUseCase.execute`. -/
def createDatabaseSnapshot (a : SnapshotAnswers) (tenantId databaseId : Uuid) :
    UseCase SnapshotRow := do
  admitSnapshot a tenantId databaseId
  withFinally (archiveLocked a tenantId databaseId) (raises a.releaseLock)

/-- How the calls of `RestoreDatabaseFromSnapshot` answer; `extract` is the work with the archive
that was downloaded. -/
structure RestoreAnswers where
  checkPermission : Except PyError Bool
  findDatabase : Option PyError
  findSnapshot : Option PyError
  acquireLock : Except PyError (Option String)
  download : Option PyError
  extract : Option PyError
  cacheDelete : Option PyError
  releaseLock : Option PyError

/-- The checks, and the lock. -/
def admitRestore (a : RestoreAnswers) (tenantId databaseId snapshotId : Uuid) : UseCase Unit := do
  match ← ofExcept a.checkPermission with
  | false => throw "Not authorized to restore database"
  | true =>
    raises a.findDatabase
    match (← get).owned tenantId databaseId with
    | none => throw "Database not found"
    | some info =>
      if info.filesystemPath = "" then throw "Database file path unknown"
      else
        raises a.findSnapshot
        match ((← get).snapshots.lookup snapshotId).filter fun row =>
            row.databaseId = databaseId with
        | none => throw "Snapshot not found"
        | some _ =>
          match ← ofExcept a.acquireLock with
          | none => throw "Could not acquire restore lock"
          | some _ => pure ()

/-- The archive is downloaded and extracted. -/
def restoreLocked (a : RestoreAnswers) (tenantId databaseId : Uuid) : UseCase Unit := do
  raises a.download
  modify fun w => w.addDir tenantId databaseId
  raises a.extract
  raises a.cacheDelete

/-- `RestoreDatabaseFromSnapshotUseCase.execute`. -/
def restoreDatabaseFromSnapshot (a : RestoreAnswers) (tenantId databaseId snapshotId : Uuid) :
    UseCase Unit := do
  admitRestore a tenantId databaseId snapshotId
  withFinally (restoreLocked a tenantId databaseId) (raises a.releaseLock)

/-! ### Names -/

/-- The text a pattern with `$` looks at: one newline at the end is not looked at. -/
def withoutNewline (s : String) : List Char :=
  if s.toList.getLast? = some '\n' then s.toList.dropLast else s.toList

/-- `^[a-zA-Z0-9_-]+$`. -/
def isBranchWord (s : String) : Bool :=
  let cs := withoutNewline s
  cs.all (fun c => c.isAlphanum || c = '_' || c = '-') && !cs.isEmpty

/-- What `BranchName.__post_init__` raises. -/
def branchNameError (s : String) : Option PyError :=
  if s.length = 0 then some "Branch name cannot be empty"
  else if s.length < 2 then some "Branch name must be at least 2 characters"
  else if 50 < s.length then some "Branch name cannot exceed 50 characters"
  else if !isBranchWord s then
    some "Branch name can only contain alphanumeric, hyphens, and underscores"
  else if s.toList.head? = some '-' ∨ s.toList.head? = some '_' then
    some "Branch name cannot start with hyphen or underscore"
  else none

/-- `to_full_name`. -/
def toFullName (parentDatabase branchName : String) : String :=
  parentDatabase ++ "--branch--" ++ branchName

/-- `^[a-z0-9_-]{3,40}$`. -/
def isDatabaseName (s : String) : Bool :=
  let cs := withoutNewline s
  cs.all (fun c => c.isLower || c.isDigit || c = '_' || c = '-') && 3 ≤ cs.length &&
    cs.length ≤ 40

/-! ### Branches -/

/-- `from_snapshot`: `"latest"` or nothing, the text of a UUID, or another text, with the time it
says if it says one. -/
inductive FromSnapshot where
  | latest
  | snapshotId (id : Uuid)
  | timestamp (target : Option Instant)
  deriving DecidableEq

/-- `CreateBranchRequest`. -/
structure CreateBranchRequest where
  tenantId : Uuid
  sourceDatabaseId : Uuid
  sourceDatabaseName : String
  branchName : String
  fromSnapshot : FromSnapshot
  description : Option String

/-- `CreateBranchResponse`. -/
structure CreateBranchResponse where
  branchName : String
  fullName : String
  parentDatabaseName : String
  branchDatabaseId : Uuid
  snapshotId : Uuid
  createdAt : Instant
  description : Option String
  originSnapshotId : Uuid

/-- Which of the optional dependencies are there: the repository of the snapshots, and all six that
a timestamp needs. -/
structure Deps where
  snapshots : Bool
  pitr : Bool

/-- How the calls of a request answer; `newId` is what `uuid4` gives for the branch, and
`initialSnapshot` answers for the snapshot of the provisioning, if there is a use case for it. -/
structure BranchAnswers where
  snapshot : SnapshotAnswers
  findSnapshot : Option PyError
  listByDatabase : Option PyError
  findByName : Option PyError
  ensureBucket : Option PyError
  newId : Uuid
  mkdir : Option PyError
  createDatabase : Option PyError
  saveMetadata : Option PyError
  initialSnapshot : Option SnapshotAnswers
  saveSnapshot : Except PyError Uuid
  restore : RestoreAnswers
  findBranch : Option PyError
  cacheDelete : Option PyError
  now : Instant

/-- The snapshot of the source that is nearest to the target. -/
def World.nearest (w : World) (databaseId : Uuid) (target : Instant) : Option SnapshotRow :=
  (w.snapshots.values.filter fun row =>
    row.databaseId = databaseId && row.createdAt ≤ target).argmax SnapshotRow.createdAt

/-- Step 1: the snapshot the branch is made from. -/
def sourceSnapshot (deps : Deps) (a : BranchAnswers) (req : CreateBranchRequest) :
    UseCase SnapshotRow := do
  match req.fromSnapshot with
  | .latest => createDatabaseSnapshot a.snapshot req.tenantId req.sourceDatabaseId
  | .snapshotId id =>
    if !deps.snapshots then throw "Snapshot repository not configured"
    else
      raises a.findSnapshot
      match (← get).snapshots.lookup id with
      | none => throw ("Snapshot " ++ toString id ++ " not found")
      | some row => pure row
  | .timestamp target =>
    if !deps.pitr then throw "Timestamp-based branch creation requires PITR dependencies"
    else
      match target with
      | none =>
        throw ("Invalid from_snapshot format. " ++
          "Use 'latest', snapshot UUID, or ISO timestamp")
      | some target =>
        raises a.listByDatabase
        match (← get).nearest req.sourceDatabaseId target with
        | none => throw ("No snapshot found before " ++ toString target)
        | some row => pure row

/-- The row of a new database; `_db_path` is never empty. -/
def newRow (tenantId id : Uuid) (name : String) : DatabaseRow :=
  ⟨id, tenantId, name, "/" ++ toString tenantId ++ "/" ++ toString id ++ "/data.kuzu"⟩

/-- `ProvisionTenantResourcesUseCase.execute`, with the adapter that makes the directory and the
files. -/
def provision (a : BranchAnswers) (tenantId : Uuid) (name : String) : UseCase Uuid := do
  if !isDatabaseName name then throw "DatabaseName must be 3-40 chars, lowercase, [a-z0-9_-]"
  else
    raises a.findByName
    match (← get).findByName tenantId name with
    | some _ => throw ("Database '" ++ name ++ "' already exists for tenant")
    | none =>
      raises a.ensureBucket
      raises a.mkdir
      modify fun w => w.addDir tenantId a.newId
      raises a.createDatabase
      raises a.saveMetadata
      modify fun w => w.addDatabase (newRow tenantId a.newId name)
      match a.initialSnapshot with
      | none => pure a.newId
      | some initial =>
        tryCatch (do
          let _ ← createDatabaseSnapshot initial tenantId a.newId
          pure a.newId) fun _ => pure a.newId

/-- Step 3: the row of the snapshot is duplicated for the branch. -/
def duplicate (deps : Deps) (a : BranchAnswers) (tenantId branchId : Uuid) (source : SnapshotRow) :
    UseCase Uuid := do
  if !deps.snapshots then throw "Snapshot repository not available"
  else
    let id ← ofExcept a.saveSnapshot
    modify fun w => w.addSnapshot { source with id, tenantId, databaseId := branchId }
    pure id

/-- The replay to a timestamp, as far as it can raise. -/
def replaySetup (a : BranchAnswers) (tenantId branchId : Uuid) : UseCase Unit := do
  raises a.findBranch
  match (← get).owned tenantId branchId with
  | none => throw "Branch database not found after provision"
  | some info =>
    if info.filesystemPath = "" then throw "Branch database file path unknown"
    else raises a.cacheDelete

/-- Steps 3 and 4, and the replay when a timestamp was given. -/
def fill (deps : Deps) (a : BranchAnswers) (req : CreateBranchRequest) (source : SnapshotRow)
    (branchId : Uuid) : UseCase Uuid := do
  let snapshotId ← duplicate deps a req.tenantId branchId source
  restoreDatabaseFromSnapshot a.restore req.tenantId branchId snapshotId
  match req.fromSnapshot with
  | .timestamp _ => replaySetup a req.tenantId branchId
  | .latest | .snapshotId _ => pure ()
  pure snapshotId

/-- `CreateBranchUseCase.execute`. -/
def createBranch (deps : Deps) (a : BranchAnswers) (req : CreateBranchRequest) :
    UseCase CreateBranchResponse := do
  match branchNameError req.branchName with
  | some e => throw ("Invalid branch name: " ++ e)
  | none =>
    let source ← sourceSnapshot deps a req
    let fullName := toFullName req.sourceDatabaseName req.branchName
    let branchId ← provision a req.tenantId fullName
    let snapshotId ← fill deps a req source branchId
    pure ⟨req.branchName, fullName, req.sourceDatabaseName, branchId, snapshotId, a.now,
      req.description, source.id⟩

/-! ### What is asked for -/

/-- The databases of the tenant are the same, and so are the rows of the snapshots of a database. -/
structure World.SameFor (w w' : World) (tenantId branchId : Uuid) : Prop where
  rows : ∀ id row, row.tenantId = tenantId →
    (w'.databases.lookup id = some row ↔ w.databases.lookup id = some row)
  dirs : ∀ id, (tenantId, id) ∈ w'.dirs ↔ (tenantId, id) ∈ w.dirs
  snapshots : ∀ id row, row.databaseId = branchId →
    (w'.snapshots.lookup id = some row ↔ w.snapshots.lookup id = some row)

/-- **A call that raises leaves nothing behind.** -/
def LeavesNothing (deps : Deps) (a : BranchAnswers) (req : CreateBranchRequest) (w : World) :
    Prop :=
  wp (createBranch deps a req) (fun _ _ => True)
    (fun _ w' => w.SameFor w' req.tenantId a.newId) w

/-- The checks of a snapshot pass, and the lock is acquired. -/
def SnapshotAnswers.Enters (a : SnapshotAnswers) (w : World) (tenantId databaseId : Uuid) : Prop :=
  a.checkPermission = .ok true ∧ a.findById = none ∧
    (∃ info, w.owned tenantId databaseId = some info ∧ info.filesystemPath ≠ "") ∧
    ∃ token, a.acquireLock = .ok (some token)

/-- A snapshot makes the directory of its database. -/
def SnapshotAnswers.Touches (a : SnapshotAnswers) (w : World) (tenantId databaseId : Uuid) :
    Prop :=
  a.Enters w tenantId databaseId ∧ a.filesExist = false ∧ a.mkdir = none

/-- No call of a snapshot raises. -/
def SnapshotAnswers.Succeeds (a : SnapshotAnswers) (w : World) (tenantId databaseId : Uuid) :
    Prop :=
  a.Enters w tenantId databaseId ∧ (a.filesExist = false → a.mkdir = none ∧ a.initFiles = none) ∧
    (∃ archive, a.archive = .ok archive) ∧ (∃ id, a.save = .ok id) ∧ a.cacheDelete = none ∧
    a.releaseLock = none

/-- No call of a restore raises. -/
def RestoreAnswers.Succeeds (a : RestoreAnswers) : Prop :=
  a.checkPermission = .ok true ∧ a.findDatabase = none ∧ a.findSnapshot = none ∧
    (∃ token, a.acquireLock = .ok (some token)) ∧ a.download = none ∧ a.extract = none ∧
    a.cacheDelete = none ∧ a.releaseLock = none

/-- There is a snapshot to make the branch from. -/
def SourceFound (deps : Deps) (a : BranchAnswers) (req : CreateBranchRequest) (w : World) : Prop :=
  match req.fromSnapshot with
  | .latest => a.snapshot.Succeeds w req.tenantId req.sourceDatabaseId
  | .snapshotId id =>
    deps.snapshots = true ∧ a.findSnapshot = none ∧ (w.snapshots.lookup id).isSome
  | .timestamp target => deps.pitr = true ∧ a.listByDatabase = none ∧
      ∃ t, target = some t ∧ (w.nearest req.sourceDatabaseId t).isSome

/-- The name can be given to a new database of the tenant, and its directory is made. -/
def Provisions (a : BranchAnswers) (tenantId : Uuid) (name : String) (w : World) : Prop :=
  isDatabaseName name = true ∧ a.findByName = none ∧ w.findByName tenantId name = none ∧
    a.ensureBucket = none ∧ a.mkdir = none

/-- The request gets as far as the directory of the branch. -/
def Reaches (deps : Deps) (a : BranchAnswers) (req : CreateBranchRequest) (w : World) : Prop :=
  branchNameError req.branchName = none ∧ SourceFound deps a req w ∧
    Provisions a req.tenantId (toFullName req.sourceDatabaseName req.branchName) w

/-- No call after that raises. -/
def Completes (deps : Deps) (a : BranchAnswers) (req : CreateBranchRequest) : Prop :=
  (a.createDatabase = none ∧ a.saveMetadata = none) ∧ deps.snapshots = true ∧
    (∃ id, a.saveSnapshot = .ok id) ∧ a.restore.Succeeds ∧
    ∀ target, req.fromSnapshot = .timestamp target → a.findBranch = none ∧ a.cacheDelete = none

/-- The snapshot of the source makes its directory, which was not there. -/
def TouchesSource (a : BranchAnswers) (req : CreateBranchRequest) (w : World) : Prop :=
  branchNameError req.branchName = none ∧ req.fromSnapshot = .latest ∧
    a.snapshot.Touches w req.tenantId req.sourceDatabaseId ∧
    (req.tenantId, req.sourceDatabaseId) ∉ w.dirs

/-- The ids that `uuid4` gives are new. -/
structure BranchAnswers.Fresh (a : BranchAnswers) (req : CreateBranchRequest) (w : World) :
    Prop where
  source : req.sourceDatabaseId ≠ a.newId
  dir : (req.tenantId, a.newId) ∉ w.dirs
  snapshot : ∀ id, a.snapshot.save = .ok id → w.snapshots.lookup id = none

/-! ### How a snapshot ends -/

/-- The world after the first touch. -/
def World.touched (w : World) (a : SnapshotAnswers) (tenantId databaseId : Uuid) : World :=
  if a.filesExist = false ∧ a.mkdir = none then w.addDir tenantId databaseId else w

/-- No call raises while the lock is held. -/
def SnapshotAnswers.Archives (a : SnapshotAnswers) : Prop :=
  (a.filesExist = false → a.mkdir = none ∧ a.initFiles = none) ∧
    (∃ archive, a.archive = .ok archive) ∧ (∃ id, a.save = .ok id) ∧ a.cacheDelete = none

/-- What a snapshot may change: the directory of its database, and the rows of its snapshots. -/
structure World.AfterSnapshot (w w' : World) (a : SnapshotAnswers) (tenantId databaseId : Uuid) :
    Prop where
  databases : w'.databases = w.databases
  dirs : ∀ dir, dir ∈ w'.dirs ↔
    dir ∈ w.dirs ∨ a.Touches w tenantId databaseId ∧ dir = (tenantId, databaseId)
  snapshots : (∀ id, a.save = .ok id → w.snapshots.lookup id = none) →
    ∀ id row, row.databaseId ≠ databaseId →
      (w'.snapshots.lookup id = some row ↔ w.snapshots.lookup id = some row)

section Snapshots

variable {a : SnapshotAnswers} {w : World} {tenantId databaseId : Uuid}

@[simp] theorem wp_raises_none {Q : Unit → World → Prop} {E : PyError → World → Prop} :
    wp (raises none) Q E w = Q ⟨⟩ w := rfl

@[simp] theorem wp_raises_some {Q : Unit → World → Prop} {E : PyError → World → Prop}
    (e : PyError) : wp (raises (some e)) Q E w = E e w := rfl

/-- The checks change nothing. -/
theorem admitSnapshot_spec : wp (admitSnapshot a tenantId databaseId)
    (fun _ w' => w' = w ∧ a.Enters w tenantId databaseId)
    (fun _ w' => w' = w ∧ ¬ a.Enters w tenantId databaseId) w := by
  unfold admitSnapshot SnapshotAnswers.Enters
  rw [wp_bind]
  cases hpermission : a.checkPermission with
  | error e => simp
  | ok allowed =>
    cases allowed with
    | false => simp
    | true =>
      cases hfind : a.findById with
      | some e => simp
      | none =>
        cases howned : w.owned tenantId databaseId with
        | none => simp [howned]
        | some info =>
          by_cases hpath : info.filesystemPath = ""
          · simp [howned, hpath]
          · cases hlock : a.acquireLock with
            | error e => simp [howned, hpath]
            | ok token => cases token <;> simp [howned, hpath]

/-- The directory that the first touch makes. -/
theorem firstTouch_spec : wp (firstTouch a tenantId databaseId)
    (fun _ w' => w' = w.touched a tenantId databaseId ∧
      (a.filesExist = false → a.mkdir = none ∧ a.initFiles = none))
    (fun _ w' => w' = w.touched a tenantId databaseId ∧
      ¬ (a.filesExist = false → a.mkdir = none ∧ a.initFiles = none)) w := by
  unfold firstTouch World.touched
  cases hexist : a.filesExist with
  | true => simp
  | false =>
    cases hmkdir : a.mkdir with
    | some e => simp
    | none => cases hfiles : a.initFiles <;> simp

@[simp] theorem touched_databases : (w.touched a tenantId databaseId).databases = w.databases := by
  unfold World.touched
  split <;> rfl

@[simp] theorem touched_snapshots : (w.touched a tenantId databaseId).snapshots = w.snapshots := by
  unfold World.touched
  split <;> rfl

theorem mem_touched_dirs (henters : a.Enters w tenantId databaseId) (dir : Uuid × Uuid) :
    dir ∈ (w.touched a tenantId databaseId).dirs ↔
      dir ∈ w.dirs ∨ a.Touches w tenantId databaseId ∧ dir = (tenantId, databaseId) := by
  unfold World.touched SnapshotAnswers.Touches
  by_cases h : a.filesExist = false ∧ a.mkdir = none
  · rw [if_pos h]
    simp [World.addDir, henters, h.1, h.2, or_comm]
  · rw [if_neg h]
    exact ⟨.inl, fun hdir => hdir.resolve_right fun htouch => h htouch.1.2⟩

/-- A snapshot that is refused changes nothing. -/
theorem afterSnapshot_refl (hrefused : ¬ a.Enters w tenantId databaseId) :
    w.AfterSnapshot w a tenantId databaseId where
  databases := rfl
  dirs := fun _ => ⟨.inl, fun h => h.resolve_right fun htouch => hrefused htouch.1.1⟩
  snapshots := fun _ _ _ _ => Iff.rfl

/-- The first touch is all that is left when no row is saved. -/
theorem afterSnapshot_touched (henters : a.Enters w tenantId databaseId) :
    w.AfterSnapshot (w.touched a tenantId databaseId) a tenantId databaseId where
  databases := touched_databases
  dirs := mem_touched_dirs henters
  snapshots := fun _ id row _ => by rw [touched_snapshots]

/-- The row that is saved is one of the database. -/
theorem afterSnapshot_addSnapshot (henters : a.Enters w tenantId databaseId) {row : SnapshotRow}
    (hdatabase : row.databaseId = databaseId) (hid : a.save = .ok row.id) :
    w.AfterSnapshot ((w.touched a tenantId databaseId).addSnapshot row) a tenantId databaseId where
  databases := touched_databases
  dirs := mem_touched_dirs henters
  snapshots := by
    intro hnew id other hother
    have hlookup := hnew row.id hid
    show ((w.touched a tenantId databaseId).snapshots.insert row.id row).lookup id = some other ↔ _
    rw [touched_snapshots]
    by_cases h : id = row.id
    · subst h
      rw [AList.lookup_insert, hlookup]
      constructor
      · intro heq
        exact absurd (Option.some.inj heq ▸ hdatabase) hother
      · intro heq
        cases heq
    · rw [AList.lookup_insert_ne h]

/-- While the lock is held, the directory and the row of the snapshot are all that changes. -/
theorem archiveLocked_spec (henters : a.Enters w tenantId databaseId) :
    wp (archiveLocked a tenantId databaseId)
      (fun _ w' => w.AfterSnapshot w' a tenantId databaseId ∧ a.Archives)
      (fun _ w' => w.AfterSnapshot w' a tenantId databaseId ∧ ¬ a.Archives) w := by
  unfold archiveLocked SnapshotAnswers.Archives
  rw [wp_bind]
  have htouched := afterSnapshot_touched henters
  apply wp_mono firstTouch_spec
  · rintro _ w' ⟨hw', htouch⟩
    subst hw'
    cases harchive : a.archive with
    | error e => simpa using htouched
    | ok archive =>
      obtain ⟨objectKey, checksum, sizeBytes⟩ := archive
      cases hsave : a.save with
      | error e => simpa using htouched
      | ok id =>
        have hafter := @afterSnapshot_addSnapshot a w tenantId databaseId henters
          ⟨id, tenantId, databaseId, objectKey, checksum, sizeBytes, a.createdAt⟩ rfl hsave
        cases hcache : a.cacheDelete with
        | none => simpa using And.intro hafter htouch
        | some e => simpa using hafter
  · rintro e w' ⟨hw', htouch⟩
    subst hw'
    exact ⟨htouched, fun h => htouch h.1⟩

theorem succeeds_iff : a.Succeeds w tenantId databaseId ↔
    a.Enters w tenantId databaseId ∧ a.Archives ∧ a.releaseLock = none := by
  unfold SnapshotAnswers.Succeeds SnapshotAnswers.Archives
  simp only [and_assoc]

/-- **How a snapshot ends**, and what it may have changed. -/
theorem createDatabaseSnapshot_spec : wp (createDatabaseSnapshot a tenantId databaseId)
    (fun _ w' => w.AfterSnapshot w' a tenantId databaseId ∧ a.Succeeds w tenantId databaseId)
    (fun _ w' => w.AfterSnapshot w' a tenantId databaseId ∧
      ¬ a.Succeeds w tenantId databaseId) w := by
  unfold createDatabaseSnapshot
  rw [wp_bind]
  simp only [succeeds_iff]
  apply wp_mono admitSnapshot_spec
  · rintro _ w' ⟨hw', henters⟩
    rw [hw', wp_withFinally]
    apply wp_mono (archiveLocked_spec henters)
    · rintro row w' ⟨hafter, harchives⟩
      cases hrelease : a.releaseLock with
      | none => simpa using And.intro hafter ⟨henters, harchives⟩
      | some e => simpa using hafter
    · rintro e w' ⟨hafter, harchives⟩
      have hfails : ¬ (a.Enters w tenantId databaseId ∧ a.Archives ∧ a.releaseLock = none) :=
        fun h => harchives h.2.1
      cases hrelease : a.releaseLock with
      | none => exact ⟨hafter, hrelease ▸ hfails⟩
      | some e => simpa using hafter
  · rintro e w' ⟨hw', hrefused⟩
    rw [hw']
    exact ⟨afterSnapshot_refl hrefused, fun h => hrefused h.1⟩

end Snapshots

/-! ### How a restore ends -/

section Restores

variable {a : RestoreAnswers} {w : World} {tenantId databaseId snapshotId : Uuid}

/-- A database of the tenant, with a path. -/
def World.Owns (w : World) (tenantId databaseId : Uuid) : Prop :=
  ∃ info, w.owned tenantId databaseId = some info ∧ info.filesystemPath ≠ ""

/-- A snapshot of the database. -/
def World.Keeps (w : World) (databaseId snapshotId : Uuid) : Prop :=
  ∃ row, w.snapshots.lookup snapshotId = some row ∧ row.databaseId = databaseId

/-- Directories are made, and nothing else is changed. -/
structure World.Grows (w w' : World) : Prop where
  databases : w'.databases = w.databases
  dirs : w.dirs ⊆ w'.dirs

/-- What the restore asks before it takes the archive. -/
def RestoreAnswers.Enters (a : RestoreAnswers) : Prop :=
  a.checkPermission = .ok true ∧ a.findDatabase = none ∧ a.findSnapshot = none ∧
    ∃ token, a.acquireLock = .ok (some token)

/-- The checks change nothing, and they find the database and its snapshot. -/
theorem admitRestore_spec (howns : w.Owns tenantId databaseId)
    (hkeeps : w.Keeps databaseId snapshotId) :
    wp (admitRestore a tenantId databaseId snapshotId) (fun _ w' => w' = w ∧ a.Enters)
      (fun _ w' => w' = w ∧ ¬ a.Enters) w := by
  obtain ⟨info, hinfo, hpath⟩ := howns
  obtain ⟨row, hrow, hdatabase⟩ := hkeeps
  have hkept : (w.snapshots.lookup snapshotId).filter
      (fun row => decide (row.databaseId = databaseId)) = some row := by
    rw [hrow]
    exact if_pos (decide_eq_true hdatabase)
  unfold admitRestore RestoreAnswers.Enters
  cases hpermission : a.checkPermission with
  | error e => simp
  | ok allowed =>
    cases allowed with
    | false => simp
    | true =>
      cases hfind : a.findDatabase with
      | some e => simp
      | none =>
        cases hsnapshot : a.findSnapshot with
        | some e => simp [hinfo, hpath]
        | none =>
          cases hlock : a.acquireLock with
          | error e => simp [hinfo, hpath, hkept]
          | ok token => cases token <;> simp [hinfo, hpath, hkept]

/-- What is done under the lock. -/
theorem restoreLocked_spec : wp (restoreLocked a tenantId databaseId)
    (fun _ w' => w.Grows w' ∧ a.download = none ∧ a.extract = none ∧ a.cacheDelete = none)
    (fun _ w' => w.Grows w' ∧
      ¬ (a.download = none ∧ a.extract = none ∧ a.cacheDelete = none)) w := by
  have hsame : w.Grows w := ⟨rfl, fun _ h => h⟩
  have hmade : w.Grows (w.addDir tenantId databaseId) :=
    ⟨rfl, Finset.subset_insert _ _⟩
  unfold restoreLocked
  cases hdownload : a.download with
  | some e => simpa using hsame
  | none =>
    cases hextract : a.extract with
    | some e => simpa using hmade
    | none => cases hcache : a.cacheDelete <;> simpa using hmade

/-- **How a restore ends** when its database and its snapshot are there. -/
theorem restoreDatabaseFromSnapshot_spec (howns : w.Owns tenantId databaseId)
    (hkeeps : w.Keeps databaseId snapshotId) :
    wp (restoreDatabaseFromSnapshot a tenantId databaseId snapshotId)
      (fun _ w' => w.Grows w' ∧ a.Succeeds) (fun _ w' => w.Grows w' ∧ ¬ a.Succeeds) w := by
  have hsucceeds : a.Succeeds ↔ a.Enters ∧
      (a.download = none ∧ a.extract = none ∧ a.cacheDelete = none) ∧ a.releaseLock = none := by
    unfold RestoreAnswers.Succeeds RestoreAnswers.Enters
    simp only [and_assoc]
  unfold restoreDatabaseFromSnapshot
  rw [wp_bind]
  apply wp_mono (admitRestore_spec howns hkeeps)
  · rintro _ w' ⟨hw', henters⟩
    rw [hw', wp_withFinally]
    apply wp_mono restoreLocked_spec
    · rintro _ w' ⟨hgrows, hlocked⟩
      cases hrelease : a.releaseLock with
      | none => exact ⟨hgrows, hsucceeds.mpr ⟨henters, hlocked, hrelease⟩⟩
      | some e => exact ⟨hgrows, fun h =>
          Option.some_ne_none e (hrelease.symm.trans (hsucceeds.mp h).2.2)⟩
    · rintro e w' ⟨hgrows, hlocked⟩
      cases a.releaseLock with
      | none => exact ⟨hgrows, fun h => hlocked (hsucceeds.mp h).2.1⟩
      | some e => exact ⟨hgrows, fun h => hlocked (hsucceeds.mp h).2.1⟩
  · rintro e w' ⟨hw', hrefused⟩
    rw [hw']
    exact ⟨⟨rfl, fun _ h => h⟩, fun h => hrefused (hsucceeds.mp h).1⟩

end Restores

/-! ### How a branch ends -/

section Branches

variable {deps : Deps} {a : BranchAnswers} {req : CreateBranchRequest} {w : World}
variable {tenantId : Uuid} {name : String}

/-- What the choice of a snapshot may change. -/
structure World.AfterSource (w w' : World) (a : BranchAnswers) (req : CreateBranchRequest) :
    Prop where
  databases : w'.databases = w.databases
  dirs : ∀ dir, dir ∈ w'.dirs ↔ dir ∈ w.dirs ∨
    (req.fromSnapshot = .latest ∧ a.snapshot.Touches w req.tenantId req.sourceDatabaseId) ∧
      dir = (req.tenantId, req.sourceDatabaseId)
  snapshots : (∀ id, a.snapshot.save = .ok id → w.snapshots.lookup id = none) →
    ∀ id row, row.databaseId ≠ req.sourceDatabaseId →
      (w'.snapshots.lookup id = some row ↔ w.snapshots.lookup id = some row)

theorem afterSource_refl (hmode : req.fromSnapshot ≠ .latest) : w.AfterSource w a req where
  databases := rfl
  dirs := fun _ => ⟨.inl, fun h => h.resolve_right fun htouch => hmode htouch.1.1⟩
  snapshots := fun _ _ _ _ => Iff.rfl

theorem afterSource_of_latest {w' : World} (hmode : req.fromSnapshot = .latest)
    (h : w.AfterSnapshot w' a.snapshot req.tenantId req.sourceDatabaseId) :
    w.AfterSource w' a req where
  databases := h.databases
  dirs := fun dir => by rw [h.dirs dir, and_iff_right hmode]
  snapshots := h.snapshots

/-- The three modes: only the latest state changes the world. -/
theorem sourceSnapshot_spec : wp (sourceSnapshot deps a req)
    (fun _ w' => w.AfterSource w' a req ∧ SourceFound deps a req w)
    (fun _ w' => w.AfterSource w' a req ∧ ¬ SourceFound deps a req w) w := by
  unfold sourceSnapshot SourceFound
  cases hmode : req.fromSnapshot with
  | latest =>
    apply wp_mono createDatabaseSnapshot_spec
    · rintro _ w' ⟨hafter, hsucceeds⟩
      exact ⟨afterSource_of_latest hmode hafter, hsucceeds⟩
    · rintro e w' ⟨hafter, hfails⟩
      exact ⟨afterSource_of_latest hmode hafter, hfails⟩
  | snapshotId id =>
    have hsame : w.AfterSource w a req := afterSource_refl (by simp [hmode])
    cases hdeps : deps.snapshots with
    | false => simpa using hsame
    | true =>
      cases hfind : a.findSnapshot with
      | some e => simpa using hsame
      | none => cases hrow : w.snapshots.lookup id <;> simpa [hrow] using hsame
  | timestamp target =>
    have hsame : w.AfterSource w a req := afterSource_refl (by simp [hmode])
    cases hdeps : deps.pitr with
    | false => simpa using hsame
    | true =>
      cases target with
      | none => simpa using hsame
      | some target =>
        cases hlist : a.listByDatabase with
        | some e => simpa using hsame
        | none =>
          cases hrow : w.nearest req.sourceDatabaseId target <;> simpa [hrow] using hsame

/-- The calls after the directory of a new database is made. -/
def BranchAnswers.Registers (a : BranchAnswers) : Prop :=
  a.createDatabase = none ∧ a.saveMetadata = none

theorem owns_addDatabase (tenantId id : Uuid) (name : String) :
    (w.addDatabase (newRow tenantId id name)).Owns tenantId id := by
  refine ⟨newRow tenantId id name, ?_, by simp [newRow]⟩
  unfold World.owned World.addDatabase
  rw [show (newRow tenantId id name).id = id from rfl, AList.lookup_insert]
  exact if_pos (decide_eq_true rfl)

theorem findByName_addDatabase (tenantId id : Uuid) (name : String) :
    ((w.addDatabase (newRow tenantId id name)).findByName tenantId name).isSome := by
  unfold World.findByName
  rw [List.find?_isSome]
  exact ⟨_, AList.mem_values_iff.mpr ⟨id, AList.lookup_insert _⟩, by simp [newRow]⟩

theorem findByName_congr {w' : World} (h : w'.databases = w.databases) :
    w'.findByName tenantId name = w.findByName tenantId name := by
  unfold World.findByName
  rw [h]

theorem provisions_congr {w' : World} (h : w'.databases = w.databases) :
    Provisions a tenantId name w' ↔ Provisions a tenantId name w := by
  unfold Provisions
  rw [findByName_congr h]

theorem owns_congr {w' : World} {databaseId : Uuid} (h : w'.databases = w.databases)
    (howns : w.Owns tenantId databaseId) : w'.Owns tenantId databaseId := by
  unfold World.Owns World.owned
  rw [h]
  exact howns

/-- The first snapshot of a new database is not asked for its answer. -/
theorem initialSnapshot_spec (initial : SnapshotAnswers) :
    wp (tryCatch (do
        let _ ← createDatabaseSnapshot initial tenantId a.newId
        pure a.newId) fun _ => pure a.newId : UseCase Uuid)
      (fun id w' => id = a.newId ∧ w.Grows w') (fun _ _ => False) w := by
  have hgrows {w' : World} (h : w.AfterSnapshot w' initial tenantId a.newId) : w.Grows w' :=
    ⟨h.databases, fun dir hdir => (h.dirs dir).mpr (.inl hdir)⟩
  rw [wp_tryCatch, wp_bind]
  apply wp_mono createDatabaseSnapshot_spec
  · rintro _ w' ⟨hafter, _⟩
    exact ⟨rfl, hgrows hafter⟩
  · rintro _ w' ⟨hafter, _⟩
    exact ⟨rfl, hgrows hafter⟩

/-- **How the provisioning ends**: it has changed nothing, or the directory is there. -/
theorem provision_spec : wp (provision a tenantId name)
    (fun id w' => id = a.newId ∧ w'.Owns tenantId a.newId ∧ (tenantId, a.newId) ∈ w'.dirs ∧
      (w'.findByName tenantId name).isSome ∧ Provisions a tenantId name w ∧ a.Registers)
    (fun _ w' => (w' = w ∧ ¬ Provisions a tenantId name w) ∨
      ((tenantId, a.newId) ∈ w'.dirs ∧ Provisions a tenantId name w ∧ ¬ a.Registers)) w := by
  have hmade : (tenantId, a.newId) ∈ (w.addDir tenantId a.newId).dirs :=
    Finset.mem_insert_self _ _
  unfold provision Provisions BranchAnswers.Registers
  cases hname : isDatabaseName name with
  | false => simp
  | true =>
    cases hfind : a.findByName with
    | some e => simp
    | none =>
      cases hrow : w.findByName tenantId name with
      | some row => simp [hrow]
      | none =>
        cases hbucket : a.ensureBucket with
        | some e => simp [hrow]
        | none =>
          cases hmkdir : a.mkdir with
          | some e => simp [hrow]
          | none =>
            cases hcreate : a.createDatabase with
            | some e => simpa [hrow] using hmade
            | none =>
              cases hsave : a.saveMetadata with
              | some e => simpa [hrow] using hmade
              | none =>
                have howns := @owns_addDatabase (w.addDir tenantId a.newId) tenantId a.newId name
                have hnamed :=
                  @findByName_addDatabase (w.addDir tenantId a.newId) tenantId a.newId name
                cases a.initialSnapshot with
                | none => simpa [hrow] using ⟨howns, hmade, hnamed⟩
                | some initial =>
                  simp only [hrow, wp_bind, wp_get, wp_modify, wp_raises_none, Bool.not_true,
                    Bool.false_eq_true, if_false]
                  apply wp_mono (initialSnapshot_spec initial)
                  · rintro id w' ⟨hid, hgrows⟩
                    have hthere := hgrows.dirs hmade
                    rw [← findByName_congr hgrows.databases] at hnamed
                    simpa [hid, hthere, hnamed] using owns_congr hgrows.databases howns
                  · intro _ _ h
                    exact h.elim

/-- No call of the copy raises. -/
def Fills (deps : Deps) (a : BranchAnswers) (req : CreateBranchRequest) : Prop :=
  deps.snapshots = true ∧ (∃ id, a.saveSnapshot = .ok id) ∧ a.restore.Succeeds ∧
    ∀ target, req.fromSnapshot = .timestamp target → a.findBranch = none ∧ a.cacheDelete = none

/-- The replay finds the database it is for. -/
theorem replaySetup_spec {branchId : Uuid} (howns : w.Owns tenantId branchId) :
    wp (replaySetup a tenantId branchId)
      (fun _ w' => w' = w ∧ a.findBranch = none ∧ a.cacheDelete = none)
      (fun _ w' => w' = w ∧ ¬ (a.findBranch = none ∧ a.cacheDelete = none)) w := by
  obtain ⟨info, hinfo, hpath⟩ := howns
  unfold replaySetup
  cases hfind : a.findBranch with
  | some e => simp
  | none => cases hcache : a.cacheDelete <;> simp [hinfo, hpath]

/-- **How the copy ends**: the row and the directory of the branch stay. -/
theorem fill_spec {source : SnapshotRow} {branchId : Uuid} (howns : w.Owns req.tenantId branchId) :
    wp (fill deps a req source branchId) (fun _ _ => Fills deps a req)
      (fun _ w' => w.Grows w' ∧ ¬ Fills deps a req) w := by
  have hsame : w.Grows w := ⟨rfl, fun _ h => h⟩
  unfold fill duplicate Fills
  cases hdeps : deps.snapshots with
  | false => simpa using hsame
  | true =>
    cases hsave : a.saveSnapshot with
    | error e => simpa using hsame
    | ok id =>
      simp only [wp_bind, Bool.not_true, Bool.false_eq_true, if_false, wp_ofExcept_ok, wp_modify,
        wp_pure]
      have hcopied (row : SnapshotRow) : (w.addSnapshot row).Owns req.tenantId branchId :=
        owns_congr rfl howns
      have hkeeps : (w.addSnapshot
          { source with id, tenantId := req.tenantId, databaseId := branchId }).Keeps branchId id :=
        ⟨_, AList.lookup_insert _, rfl⟩
      apply wp_mono (restoreDatabaseFromSnapshot_spec (hcopied _) hkeeps)
      · rintro _ w' ⟨hgrows, hrestore⟩
        cases hmode : req.fromSnapshot with
        | latest => simpa using hrestore
        | snapshotId _ => simpa using hrestore
        | timestamp target =>
          show wp (replaySetup a req.tenantId branchId >>= fun _ => pure id) _ _ w'
          rw [wp_bind]
          apply wp_mono (replaySetup_spec (owns_congr hgrows.databases howns))
          · rintro _ _ ⟨_, hreplay⟩
            exact ⟨trivial, ⟨id, rfl⟩, hrestore, fun _ _ => hreplay⟩
          · rintro e w' ⟨hw', hfails⟩
            rw [hw']
            exact ⟨⟨hgrows.databases, hgrows.dirs⟩, fun h => hfails (h.2.2.2 target rfl)⟩
      · rintro e w' ⟨hgrows, hrefused⟩
        exact ⟨⟨hgrows.databases, hgrows.dirs⟩, fun h => hrefused h.2.2.1⟩

/-- With the directory of the branch there, the directories of the tenant are not the same. -/
theorem not_sameFor (hfresh : a.Fresh req w) {w' : World}
    (hdir : (req.tenantId, a.newId) ∈ w'.dirs) :
    ¬ w.SameFor w' req.tenantId a.newId :=
  fun h => hfresh.dir ((h.dirs a.newId).mp hdir)

/-- Before the branch has a directory, only the one of the source can be new. -/
theorem sameFor_iff (hfresh : a.Fresh req w) (hname : branchNameError req.branchName = none)
    {w' : World} (hafter : w.AfterSource w' a req) :
    w.SameFor w' req.tenantId a.newId ↔ ¬ TouchesSource a req w := by
  constructor
  · rintro hsame ⟨-, hmode, htouch, hnew⟩
    have hmade := (hafter.dirs (req.tenantId, req.sourceDatabaseId)).mpr
      (.inr ⟨⟨hmode, htouch⟩, rfl⟩)
    exact hnew ((hsame.dirs req.sourceDatabaseId).mp hmade)
  · intro hquiet
    refine ⟨fun id row _ => by rw [hafter.databases], fun id => ?_, ?_⟩
    · rw [hafter.dirs]
      constructor
      · rintro (hold | ⟨⟨hmode, htouch⟩, hdir⟩)
        · exact hold
        · by_contra hnew
          exact hquiet ⟨hname, hmode, htouch, hdir ▸ hnew⟩
      · exact .inl
    · intro id row hrow
      exact hafter.snapshots hfresh.snapshot id row fun h => hfresh.source (h.symm.trans hrow)

/-- **A branch that fails leaves nothing behind exactly when no call raises once a directory has
been created.** -/
theorem leavesNothing_iff (deps : Deps) (a : BranchAnswers) (req : CreateBranchRequest) (w : World)
    (hfresh : a.Fresh req w) :
    LeavesNothing deps a req w ↔
      (Reaches deps a req w ∨ TouchesSource a req w →
        Reaches deps a req w ∧ Completes deps a req) := by
  unfold LeavesNothing createBranch
  cases hname : branchNameError req.branchName with
  | some e =>
    have hreaches : ¬ Reaches deps a req w := fun h => nomatch hname.symm.trans h.1
    have htouches : ¬ TouchesSource a req w := fun h => nomatch hname.symm.trans h.1
    refine iff_of_true ?_ fun h => (h.elim hreaches htouches).elim
    exact ⟨fun _ _ _ => Iff.rfl, fun _ => Iff.rfl, fun _ _ _ => Iff.rfl⟩
  | none =>
    simp only [wp_bind]
    apply wp_iff_of sourceSnapshot_spec
    · rintro source w' ⟨hafter, hfound⟩
      have hprovisions := @provisions_congr a w req.tenantId
        (toFullName req.sourceDatabaseName req.branchName) w' hafter.databases
      apply wp_iff_of provision_spec
      · rintro id w'' ⟨hid, howns, hdir, _, hprovides, hregisters⟩
        subst hid
        have hreaches : Reaches deps a req w := ⟨hname, hfound, hprovisions.mp hprovides⟩
        apply wp_iff_of (fill_spec howns)
        · intro _ _ hfills
          exact iff_of_true trivial fun _ => ⟨hreaches, hregisters, hfills⟩
        · rintro e w''' ⟨hgrows, hfails⟩
          exact iff_of_false (not_sameFor hfresh (hgrows.dirs hdir)) fun h =>
            hfails (h (.inl hreaches)).2.2
      · rintro e w'' (⟨hw'', hrefused⟩ | ⟨hthere, hprovides, hfails⟩)
        · have hreaches : ¬ Reaches deps a req w := fun h => hrefused (hprovisions.mpr h.2.2)
          rw [hw'', sameFor_iff hfresh hname hafter]
          exact ⟨fun hquiet h => (h.elim hreaches hquiet).elim,
            fun h htouches => hreaches (h (.inr htouches)).1⟩
        · have hreaches : Reaches deps a req w := ⟨hname, hfound, hprovisions.mp hprovides⟩
          exact iff_of_false (not_sameFor hfresh hthere) fun h =>
            hfails (h (.inl hreaches)).2.1
    · rintro e w' ⟨hafter, hmissing⟩
      have hreaches : ¬ Reaches deps a req w := fun h => hmissing h.2.1
      rw [sameFor_iff hfresh hname hafter]
      exact ⟨fun hquiet h => (h.elim hreaches hquiet).elim,
        fun h htouches => hreaches (h (.inr htouches)).1⟩

/-- A snapshot whose calls all answer. -/
def quietSnapshot : SnapshotAnswers :=
  ⟨.ok true, none, .ok (some "token"), true, none, none, .ok ("key", "sum", 3), 5, .ok 21, none,
    none⟩

/-- A restore whose archive is gone. -/
def lostArchive : RestoreAnswers :=
  ⟨.ok true, none, none, .ok (some "token"), some "NoSuchKey", none, none, none⟩

/-- A branch of database 1 of tenant 7, by the id 9, whose archive cannot be downloaded. -/
def lostBranch : BranchAnswers :=
  ⟨quietSnapshot, none, none, none, none, 9, none, none, none, none, .ok 22, lostArchive, none,
    none, 6⟩

/-- `POST /databases/shop/branches` with the name `dev`. -/
def devRequest : CreateBranchRequest := ⟨7, 1, "shop", "dev", .latest, none⟩

/-- One database, and no snapshot. -/
def shopWorld : World :=
  ⟨AList.insert 1 ⟨1, 7, "shop", "/7/1/data.kuzu"⟩ ∅, {(7, 1)}, ∅⟩

theorem leavesNothing_iff_lostBranch : lostBranch.Fresh devRequest shopWorld ∧
    (LeavesNothing ⟨true, true⟩ lostBranch devRequest shopWorld ↔
      (Reaches ⟨true, true⟩ lostBranch devRequest shopWorld ∨
          TouchesSource lostBranch devRequest shopWorld →
        Reaches ⟨true, true⟩ lostBranch devRequest shopWorld ∧
          Completes ⟨true, true⟩ lostBranch devRequest)) := by
  have hfresh : lostBranch.Fresh devRequest shopWorld := ⟨by decide, by decide, fun _ _ => rfl⟩
  exact ⟨hfresh, leavesNothing_iff _ _ _ _ hfresh⟩

/-- The archive cannot be downloaded: the directory of the branch stays. -/
theorem not_leavesNothing : ¬ ∀ deps a req w, BranchAnswers.Fresh a req w →
    LeavesNothing deps a req w := by
  intro h
  have hleaves := h ⟨true, true⟩ lostBranch devRequest shopWorld
    ⟨by decide, by decide, fun _ _ => rfl⟩
  obtain ⟨e, hsame⟩ := error_of_wp hleaves (by decide +kernel)
  have hdir := (hsame.dirs 9).mp (by decide +kernel)
  exact absurd hdir (by decide)

/-- With a row of that name there, no call returns. -/
theorem not_returns_of_row
    (hrow : (w.findByName req.tenantId
      (toFullName req.sourceDatabaseName req.branchName)).isSome) :
    wp (createBranch deps a req) (fun _ _ => False) (fun _ _ => True) w := by
  unfold createBranch
  cases branchNameError req.branchName with
  | some e => trivial
  | none =>
    simp only [wp_bind]
    apply wp_mono sourceSnapshot_spec
    · rintro source w' ⟨hafter, _⟩
      rw [← findByName_congr hafter.databases] at hrow
      apply wp_mono provision_spec
      · rintro id w'' ⟨_, _, _, _, hprovides, _⟩
        simp [hprovides.2.2.1] at hrow
      · intro _ _ _
        trivial
    · intro _ _ _
      trivial

/-- A failed copy leaves the row of the branch. -/
theorem row_left (hreaches : Reaches deps a req w) (hregisters : a.Registers)
    (hfails : ¬ Fills deps a req) :
    wp (createBranch deps a req) (fun _ _ => False)
      (fun _ w' => (w'.findByName req.tenantId
        (toFullName req.sourceDatabaseName req.branchName)).isSome) w := by
  obtain ⟨hname, hfound, hprovides⟩ := hreaches
  unfold createBranch
  rw [hname]
  simp only [wp_bind]
  apply wp_mono sourceSnapshot_spec
  · rintro source w' ⟨hafter, _⟩
    apply wp_mono provision_spec
    · rintro id w'' ⟨hid, howns, _, hrow, _, _⟩
      subst hid
      apply wp_mono (fill_spec howns)
      · intro _ _ hfills
        exact absurd hfills hfails
      · rintro e w''' ⟨hgrows, _⟩
        rw [findByName_congr hgrows.databases]
        exact hrow
    · rintro e w'' (⟨_, hrefused⟩ | ⟨_, _, hunregistered⟩)
      · exact absurd ((provisions_congr hafter.databases).mpr hprovides) hrefused
      · exact absurd hregisters hunregistered
  · rintro e w' ⟨_, hmissing⟩
    exact absurd hfound hmissing

/-- **After a failed copy no retry with the same name can succeed**, whatever its calls answer. -/
theorem no_retry (hreaches : Reaches deps a req w) (hregisters : a.Registers)
    (hfails : ¬ Fills deps a req) :
    wp (createBranch deps a req) (fun _ _ => False)
      (fun _ w' => ∀ deps' a' mode description,
        wp (createBranch deps' a' { req with fromSnapshot := mode, description := description })
          (fun _ _ => False) (fun _ _ => True) w') w := by
  apply wp_mono (row_left hreaches hregisters hfails)
  · intro _ _ h
    exact h
  · intro e w' hrow deps' a' mode description
    exact not_returns_of_row hrow

end Branches

end KuzuEventBus.Service.BranchFailure
