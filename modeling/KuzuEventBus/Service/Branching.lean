import KuzuEventBus.Service.RestorePitr

/-!
# Branches

`src/application/usecases/branching`: a branch is a new database that a snapshot of its source is
restored into, and merging it restores a snapshot of the branch into the target.  Both are composed
of other use cases, which look snapshots up in one registry, and check there whose they are.

The content of a database and of an archive is abstract here, and the services answer without
exceptions of their own, except where a use case goes on after one.

## Main definitions

* `Registry` — the databases, the archives and the rows of the snapshots.
* `createDatabaseSnapshot`, `restoreDatabaseFromSnapshot`, `provision` — the use cases.
* `createBranch`, `mergeBranch` — their compositions.
* `Recovers` — every later recovery of a branch starts from the content it has.
* `Merges` — a merge returns, and the target has the content of the branch.

## Main results

* `recovers_iff` — **an untouched branch is recovered exactly when its newest snapshot holds what
  the branch got**: the duplicated row has the time of its source, and the initial snapshot is
  later.
* `not_merges` — **no merge returns**: the snapshot is the branch's, and the restore looks for the
  target's.
-/

namespace KuzuEventBus.Service.Branching

/-! ### The registry -/

/-- A row of `kuzu_db_snapshots`. -/
structure SnapshotRecord where
  id : ℕ
  databaseId : ℕ
  objectKey : ℕ
  createdAt : Instant
  deriving DecidableEq

/-- A database: whose it is, and what is at its path. -/
structure Database (C : Type) where
  tenantId : Uuid
  content : C

/-- The databases and the archives, by their keys, the rows of the snapshots and the clock. -/
structure Registry (C : Type) where
  databases : List (Database C)
  objects : List C
  snapshots : List SnapshotRecord
  now : Instant

/-- The exceptions of the use cases. -/
inductive BranchError where
  /-- `FileNotFoundError("Database not found")` -/
  | databaseNotFound
  /-- `FileNotFoundError("Snapshot not found")` -/
  | snapshotNotFound
  /-- `ValueError(f"Snapshot {snapshot_id} not found")` -/
  | sourceSnapshotNotFound (snapshotId : ℕ)
  /-- `ValueError(f"No snapshot found before {...}")` -/
  | noSnapshot (target : Instant)
  /-- The storage has no such object. -/
  | objectNotFound
  deriving DecidableEq

variable {C : Type}

/-- The content of a database. -/
def Registry.content (s : Registry C) (databaseId : ℕ) : Option C :=
  (s.databases[databaseId]?).map Database.content

/-- The content of the archive of a row. -/
def Registry.archived (s : Registry C) (row : SnapshotRecord) : Option C :=
  s.objects[row.objectKey]?

/-- An answer of `list_by_database`: the rows of the database, the newest first. -/
def Registry.Lists (s : Registry C) (databaseId : ℕ) (rows : List SnapshotRecord) : Prop :=
  rows.Perm (s.snapshots.filter fun row => row.databaseId = databaseId) ∧
    rows.Pairwise fun row row' => row'.createdAt ≤ row.createdAt

/-- The rows were written before now, for databases and with objects that exist. -/
structure Registry.Ok (s : Registry C) : Prop where
  id : ∀ row ∈ s.snapshots, row.id < s.snapshots.length
  database : ∀ row ∈ s.snapshots, row.databaseId < s.databases.length
  object : ∀ row ∈ s.snapshots, row.objectKey < s.objects.length
  createdAt : ∀ row ∈ s.snapshots, row.createdAt ≤ s.now

/-! ### The use cases -/

/-- `SnapshotRepository.save`. -/
def Registry.save (s : Registry C) (databaseId objectKey : ℕ) (createdAt : Instant) :
    SnapshotRecord × Registry C :=
  let row := ⟨s.snapshots.length, databaseId, objectKey, createdAt⟩
  (row, { s with snapshots := s.snapshots ++ [row] })

/-- The database of a tenant. -/
def Registry.find (s : Registry C) (tenantId : Uuid) (databaseId : ℕ) :
    Except BranchError (Database C) :=
  match s.databases[databaseId]? with
  | none => .error .databaseNotFound
  | some info => if info.tenantId = tenantId then .ok info else .error .databaseNotFound

/-- `CreateDatabaseSnapshotUseCase.execute`: the archive is uploaded under a new key; it takes some
time until the row is written. -/
def createDatabaseSnapshot (tenantId : Uuid) (databaseId time : ℕ) (s : Registry C) :
    Except BranchError (SnapshotRecord × Registry C) := do
  let info ← s.find tenantId databaseId
  let s := { s with objects := s.objects ++ [info.content], now := s.now + time }
  pure (s.save databaseId (s.objects.length - 1) s.now)

/-- `RestoreDatabaseFromSnapshotUseCase.execute`: the row has to be one of the database. -/
def restoreDatabaseFromSnapshot (tenantId : Uuid) (databaseId snapshotId : ℕ) (s : Registry C) :
    Except BranchError (Registry C) := do
  let info ← s.find tenantId databaseId
  match s.snapshots.find? fun row => row.id = snapshotId with
  | none => throw .snapshotNotFound
  | some snapshot =>
    if snapshot.databaseId = databaseId then
      match s.archived snapshot with
      | none => throw .objectNotFound
      | some content =>
        pure { s with databases := s.databases.set databaseId { info with content } }
    else throw .snapshotNotFound

/-- `ProvisionTenantResourcesUseCase.execute`: a new database, and its initial snapshot, unless that
fails. -/
def provision (fresh : C) (initialSnapshot : Option ℕ) (tenantId : Uuid) (s : Registry C) :
    ℕ × Registry C :=
  let databaseId := s.databases.length
  let s := { s with databases := s.databases ++ [⟨tenantId, fresh⟩] }
  match initialSnapshot with
  | none => (databaseId, s)
  | some time =>
    match createDatabaseSnapshot tenantId databaseId time s with
    | .error _ => (databaseId, s)
    | .ok (_, s) => (databaseId, s)

/-! ### Branches -/

/-- `from_snapshot`: the rows that are listed are an answer of the repository. -/
inductive FromSnapshot (s : Registry C) (sourceId : ℕ) where
  | latest
  | snapshotId (id : ℕ)
  | timestamp (target : Instant) (rows : List SnapshotRecord) (lists : s.Lists sourceId rows)

/-- The latest row that is not after the target. -/
def nearest (rows : List SnapshotRecord) (target : Instant) : Option SnapshotRecord :=
  (rows.filter fun row => row.createdAt ≤ target).argmax SnapshotRecord.createdAt

/-- What is not determined by the registry: how long the snapshot of the source takes, how long the
initial snapshot, if it does not fail, and what the replay of the log makes of a content. -/
structure BranchAnswers (C : Type) where
  snapshotTime : ℕ
  initialSnapshot : Option ℕ
  replay : C → C

/-- The row whose archive is restored into the branch. -/
def sourceRow (tenantId : Uuid) (sourceId time : ℕ) (s : Registry C) :
    FromSnapshot s sourceId → Except BranchError (SnapshotRecord × Registry C)
  | .latest => createDatabaseSnapshot tenantId sourceId time s
  | .snapshotId id =>
    match s.snapshots.find? fun row => row.id = id with
    | none => .error (.sourceSnapshotNotFound id)
    | some row => .ok (row, s)
  | .timestamp target rows _ =>
    match nearest rows target with
    | none => .error (.noSnapshot target)
    | some row => .ok (row, s)

/-- What the replay makes of the content of the branch; only a timestamp is replayed to. -/
def FromSnapshot.replay {s : Registry C} {sourceId : ℕ} (answers : BranchAnswers C) :
    FromSnapshot s sourceId → C → C
  | .timestamp _ _ _ => answers.replay
  | _ => id

/-- `CreateBranchUseCase.execute`. -/
def createBranch (fresh : C) (answers : BranchAnswers C) (tenantId : Uuid) (sourceId : ℕ)
    (s : Registry C) (fromSnapshot : FromSnapshot s sourceId) :
    Except BranchError (ℕ × Registry C) := do
  let (source, s) ← sourceRow tenantId sourceId answers.snapshotTime s fromSnapshot
  let (branchId, s) := provision fresh answers.initialSnapshot tenantId s
  let (row, s) := s.save branchId source.objectKey source.createdAt
  let s ← restoreDatabaseFromSnapshot tenantId branchId row.id s
  let info ← s.find tenantId branchId
  pure (branchId, { s with
    databases := s.databases.set branchId
      { info with content := fromSnapshot.replay answers info.content } })

/-- `MergeBranchUseCase.execute`. -/
def mergeBranch (tenantId : Uuid) (branchId targetId time : ℕ) (s : Registry C) :
    Except BranchError (Registry C) := do
  let (snapshot, s) ← createDatabaseSnapshot tenantId branchId time s
  restoreDatabaseFromSnapshot tenantId targetId snapshot.id s

/-! ### Recovering a branch -/

/-- The snapshot of a PITR restore to any time from now on, and the one that is checked out, hold
what the branch has now, however the repository lists them. -/
def Recovers (s : Registry C) (branchId : ℕ) : Prop :=
  ∀ rows, s.Lists branchId rows →
    (∀ target, s.now ≤ target → ∃ row, nearest rows target = some row ∧
      s.archived row = s.content branchId ∧ s.content branchId ≠ none) ∧
    ∃ row, rows.head? = some row ∧ s.archived row = s.content branchId ∧ s.content branchId ≠ none

/-- The time of the initial snapshot is that of its row, and then a fresh database is what the
branch got; without it, and with rows of one time, that is what the source's archive holds. -/
def Recoverable (fresh : C) (answers : BranchAnswers C) (tenantId : Uuid) (sourceId : ℕ)
    (s : Registry C) (fromSnapshot : FromSnapshot s sourceId) : Prop :=
  ∃ source s₁ c, sourceRow tenantId sourceId answers.snapshotTime s fromSnapshot =
    .ok (source, s₁) ∧
    s₁.archived source = some c ∧
    match answers.initialSnapshot with
    | none => fromSnapshot.replay answers c = c
    | some time => fromSnapshot.replay answers c = fresh ∧
        (source.createdAt = s₁.now + time → fromSnapshot.replay answers c = c)

section

variable {s s' : Registry C} {tenantId : Uuid} {databaseId time : ℕ} {row : SnapshotRecord}

theorem mem_of_nearest {rows : List SnapshotRecord} {target : Instant}
    (h : nearest rows target = some row) : row ∈ rows :=
  List.mem_of_mem_filter (List.argmax_mem h)

/-- The first of the newest rows is the first of the list, when all of them are before the target.
-/
theorem nearest_eq_head? {rows : List SnapshotRecord} {target : Instant}
    (hsorted : rows.Pairwise fun row row' => row'.createdAt ≤ row.createdAt)
    (htarget : ∀ row ∈ rows, row.createdAt ≤ target) : nearest rows target = rows.head? := by
  unfold nearest
  rw [List.filter_eq_self.2 fun row hrow => by simpa using htarget row hrow,
    ← Lists.head?_insertionSort_ge]
  congr 1
  exact hsorted.insertionSort_eq

/-- A snapshot of a database writes a row with its content. -/
theorem createDatabaseSnapshot_ok
    (h : createDatabaseSnapshot tenantId databaseId time s = .ok (row, s')) :
    ∃ info, s.databases[databaseId]? = some info ∧ info.tenantId = tenantId ∧
      row = ⟨s.snapshots.length, databaseId, s.objects.length, s.now + time⟩ ∧
      s' = { s with
        objects := s.objects ++ [info.content]
        now := s.now + time
        snapshots := s.snapshots ++ [row] } := by
  unfold createDatabaseSnapshot Registry.find at h
  cases hinfo : s.databases[databaseId]? with
  | none =>
    rw [hinfo] at h
    cases h
  | some info =>
    rw [hinfo] at h
    by_cases htenant : info.tenantId = tenantId
    · simp only [htenant, if_true] at h
      cases h
      refine ⟨info, rfl, htenant, ?_, ?_⟩ <;> simp
    · simp only [htenant, if_false] at h
      cases h

/-- A snapshot keeps the registry in order. -/
theorem Registry.Ok.createDatabaseSnapshot (hok : s.Ok)
    (h : createDatabaseSnapshot tenantId databaseId time s = .ok (row, s')) :
    s'.Ok ∧ row ∈ s'.snapshots := by
  obtain ⟨info, hinfo, -, rfl, rfl⟩ := createDatabaseSnapshot_ok h
  have hlt := (List.getElem?_eq_some_iff.1 hinfo).1
  refine ⟨⟨?_, ?_, ?_, ?_⟩, by simp⟩
  all_goals simp only [List.forall_mem_append, List.forall_mem_singleton, List.length_append,
    List.length_singleton]
  · exact ⟨fun row hrow => Nat.lt_succ_of_lt (hok.id row hrow), Nat.lt_succ_self _⟩
  · exact ⟨hok.database, hlt⟩
  · exact ⟨fun row hrow => Nat.lt_succ_of_lt (hok.object row hrow), Nat.lt_succ_self _⟩
  · exact ⟨fun row hrow => (hok.createdAt row hrow).trans (Nat.le_add_right _ _), le_rfl⟩

/-- The row that is restored from is one of the registry, whichever way it is found. -/
theorem sourceRow_ok (hok : s.Ok) {sourceId : ℕ} {fromSnapshot : FromSnapshot s sourceId}
    (h : sourceRow tenantId sourceId time s fromSnapshot = .ok (row, s')) :
    s'.Ok ∧ row ∈ s'.snapshots := by
  cases fromSnapshot with
  | latest => exact hok.createDatabaseSnapshot h
  | snapshotId id =>
    simp only [sourceRow] at h
    split at h
    · cases h
    next hfind =>
      cases h
      exact ⟨hok, List.mem_of_find?_eq_some hfind⟩
  | timestamp target rows lists =>
    simp only [sourceRow] at h
    split at h
    · cases h
    next hnearest =>
      cases h
      exact ⟨hok, List.mem_of_mem_filter (lists.1.mem_iff.1 (mem_of_nearest hnearest))⟩

/-- The registry with a new database. -/
def Registry.withDatabase (s : Registry C) (tenantId : Uuid) (content : C) : Registry C :=
  { s with databases := s.databases ++ [⟨tenantId, content⟩] }

/-- The initial snapshot of a new database holds what it is created with. -/
theorem provision_some (fresh : C) (tenantId : Uuid) (time : ℕ) (s : Registry C) :
    provision fresh (some time) tenantId s = (s.databases.length,
      { s.withDatabase tenantId fresh with
        objects := s.objects ++ [fresh]
        now := s.now + time
        snapshots := s.snapshots ++
          [⟨s.snapshots.length, s.databases.length, s.objects.length, s.now + time⟩] }) := by
  have hfind : (s.withDatabase tenantId fresh).databases[s.databases.length]? =
      some ⟨tenantId, fresh⟩ := by
    simp [Registry.withDatabase]
  unfold provision createDatabaseSnapshot Registry.find
  simp only [Registry.withDatabase] at hfind ⊢
  rw [hfind]
  simp [Registry.save, bind, Except.bind, pure, Except.pure]

/-- The row of the initial snapshot, if it did not fail. -/
def Registry.initialRows (s : Registry C) (initialSnapshot : Option ℕ) : List SnapshotRecord :=
  initialSnapshot.toList.map fun time =>
    ⟨s.snapshots.length, s.databases.length, s.objects.length, s.now + time⟩

/-- A database is provisioned with its content, under a new id, and nothing that was there changes.
-/
theorem provision_eq (fresh : C) (initialSnapshot : Option ℕ) (tenantId : Uuid) (s : Registry C) :
    provision fresh initialSnapshot tenantId s = (s.databases.length,
      { databases := s.databases ++ [⟨tenantId, fresh⟩]
        objects := s.objects ++ initialSnapshot.toList.map fun _ => fresh
        snapshots := s.snapshots ++ s.initialRows initialSnapshot
        now := s.now + initialSnapshot.getD 0 }) := by
  cases initialSnapshot with
  | none => simp [provision, Registry.initialRows]
  | some time =>
    rw [provision_some]
    simp [Registry.initialRows, Registry.withDatabase]

theorem find_ok {info : Database C} (h : s.find tenantId databaseId = .ok info) :
    s.databases[databaseId]? = some info := by
  unfold Registry.find at h
  split at h
  · cases h
  next hinfo =>
    split at h
    · cases h
      exact hinfo
    · cases h

/-- A restore finds a row of the database, and puts the content of its archive there. -/
theorem restoreDatabaseFromSnapshot_ok {snapshotId : ℕ}
    (h : restoreDatabaseFromSnapshot tenantId databaseId snapshotId s = .ok s') :
    ∃ info snapshot content, s.databases[databaseId]? = some info ∧
      s.snapshots.find? (fun row => row.id = snapshotId) = some snapshot ∧
      snapshot.databaseId = databaseId ∧ s.archived snapshot = some content ∧
      s' = { s with databases := s.databases.set databaseId { info with content } } := by
  unfold restoreDatabaseFromSnapshot at h
  cases hinfo : s.find tenantId databaseId with
  | error e =>
    rw [hinfo] at h
    cases h
  | ok info =>
    rw [hinfo] at h
    dsimp only [bind, Except.bind] at h
    split at h
    · cases h
    next snapshot hsnapshot =>
      split at h
      next hdatabase =>
        split at h
        · cases h
        next content hcontent =>
          cases h
          exact ⟨info, snapshot, content, find_ok hinfo, hsnapshot, hdatabase, hcontent, rfl⟩
      · cases h

/-- The row that was saved last is found by its id. -/
theorem find?_save {rows : List SnapshotRecord} (hid : ∀ row ∈ rows, row.id < rows.length)
    (row : SnapshotRecord) (hrow : row.id = rows.length) :
    (rows ++ [row]).find? (fun row => row.id = rows.length) = some row := by
  have hnone : rows.find? (fun row => row.id = rows.length) = none := by
    rw [List.find?_eq_none]
    intro row' hrow'
    simpa using (hid row' hrow').ne
  rw [List.find?_append, hnone, Option.none_or]
  simp [hrow]

/-- No row of an older registry is one of a new database. -/
theorem filter_new_eq_nil (hok : s.Ok) :
    s.snapshots.filter (fun row => row.databaseId = s.databases.length) = [] := by
  rw [List.filter_eq_nil_iff]
  intro row hrow
  simpa using (hok.database row hrow).ne

/-- The rows after the initial snapshot have their ids below the next. -/
theorem id_lt_of_initialRows (hok : s.Ok) (initialSnapshot : Option ℕ) :
    ∀ row ∈ s.snapshots ++ s.initialRows initialSnapshot,
      row.id < (s.snapshots ++ s.initialRows initialSnapshot).length := by
  intro row hrow
  rw [List.length_append]
  rcases List.mem_append.1 hrow with hold | hnew
  · exact Nat.lt_add_right _ (hok.id row hold)
  · cases initialSnapshot with
    | none => cases hnew
    | some time =>
      rw [List.mem_singleton.1 hnew]
      simp [Registry.initialRows]

/-- What a branch is made of: the row it was restored from, duplicated, and the initial snapshot. -/
theorem createBranch_ok {fresh : C} {answers : BranchAnswers C} {sourceId branchId : ℕ}
    {fromSnapshot : FromSnapshot s sourceId} (hok : s.Ok)
    (h : createBranch fresh answers tenantId sourceId s fromSnapshot = .ok (branchId, s')) :
    ∃ source s₁ c row,
      sourceRow tenantId sourceId answers.snapshotTime s fromSnapshot = .ok (source, s₁) ∧
      s₁.Ok ∧ source ∈ s₁.snapshots ∧ s₁.archived source = some c ∧
      s'.content branchId = some (fromSnapshot.replay answers c) ∧
      s'.snapshots.filter (fun row => row.databaseId = branchId) =
        s₁.initialRows answers.initialSnapshot ++ [row] ∧
      row.id = (s₁.snapshots ++ s₁.initialRows answers.initialSnapshot).length ∧
      row.createdAt = source.createdAt ∧ s'.archived row = some c ∧
      (∀ first ∈ s₁.initialRows answers.initialSnapshot, s'.archived first = some fresh) ∧
      s'.now = s₁.now + answers.initialSnapshot.getD 0 := by
  unfold createBranch at h
  cases hsource : sourceRow tenantId sourceId answers.snapshotTime s fromSnapshot with
  | error e =>
    rw [hsource] at h
    cases h
  | ok c₁ =>
    obtain ⟨source, s₁⟩ := c₁
    obtain ⟨hok₁, hmem⟩ := sourceRow_ok hok hsource
    rw [hsource] at h
    dsimp only [bind, Except.bind] at h
    simp only [provision_eq, Registry.save] at h
    split at h
    · cases h
    next s₃ hrestore =>
      split at h
      · cases h
      next info hinfo =>
        cases h
        obtain ⟨info', snapshot, c, -, hfind, -, hc, rfl⟩ := restoreDatabaseFromSnapshot_ok hrestore
        rw [find?_save (id_lt_of_initialRows hok₁ _) _ rfl] at hfind
        cases hfind
        have hinfo := find_ok hinfo
        have hlt : s₁.databases.length <
          (s₁.databases ++ [(⟨tenantId, fresh⟩ : Database C)]).length := by
          simp
        simp only [List.getElem?_set_self hlt] at hinfo
        cases hinfo
        have hobject : source.objectKey < s₁.objects.length := hok₁.object source hmem
        refine ⟨source, s₁, c, ⟨_, s₁.databases.length, source.objectKey, source.createdAt⟩, rfl,
          hok₁, hmem, ?_, ?_, ?_, rfl, rfl, hc, ?_, rfl⟩
        · rw [← hc]
          simp [Registry.archived, List.getElem?_append_left hobject]
        · simp [Registry.content]
        · rw [List.filter_append, List.filter_append, filter_new_eq_nil hok₁, List.nil_append]
          congr 1
          · cases answers.initialSnapshot <;> simp [Registry.initialRows]
          · simp
        · intro first hfirst
          cases hinitial : answers.initialSnapshot with
          | none =>
            rw [hinitial] at hfirst
            cases hfirst
          | some time =>
            rw [hinitial] at hfirst
            rw [List.mem_singleton.1 hfirst]
            simp [Registry.archived]

/-- A list of rows is recovered from its first. -/
theorem recovers_iff_head {branchId : ℕ} {got : C} (hgot : s.content branchId = some got)
    (hnow : ∀ row ∈ s.snapshots, row.databaseId = branchId → row.createdAt ≤ s.now) :
    Recovers s branchId ↔ ∀ rows, s.Lists branchId rows →
      ∃ row, rows.head? = some row ∧ s.archived row = some got := by
  unfold Recovers
  rw [hgot]
  refine forall₂_congr fun rows hlists => ?_
  have htime : ∀ row ∈ rows, row.createdAt ≤ s.now := by
    intro row hrow
    obtain ⟨hmem, hdatabase⟩ := List.mem_filter.1 (hlists.1.mem_iff.1 hrow)
    exact hnow row hmem (by simpa using hdatabase)
  constructor
  · rintro ⟨-, row, hhead, harchived, -⟩
    exact ⟨row, hhead, harchived⟩
  · rintro ⟨row, hhead, harchived⟩
    refine ⟨fun target htarget => ⟨row, ?_, harchived, by simp⟩, row, hhead, harchived, by simp⟩
    rw [nearest_eq_head? hlists.2 fun row' hrow' => (htime row' hrow').trans htarget, hhead]

/-- Of two rows the newer is listed first, and either is when they have one time. -/
theorem head_of_two_iff {first row : SnapshotRecord} (hne : first ≠ row)
    (htime : row.createdAt ≤ first.createdAt) {P : SnapshotRecord → Prop} :
    (∀ rows : List SnapshotRecord, (rows.Perm [first, row] ∧
        rows.Pairwise fun r r' => r'.createdAt ≤ r.createdAt) → ∃ r, rows.head? = some r ∧ P r) ↔
      P first ∧ (row.createdAt = first.createdAt → P row) := by
  constructor
  · intro h
    constructor
    · obtain ⟨r, hr, hP⟩ := h [first, row] ⟨List.Perm.refl _, by simpa using htime⟩
      cases hr
      exact hP
    · intro heq
      obtain ⟨r, hr, hP⟩ := h [row, first] ⟨List.Perm.swap _ _ _, by simpa using heq.ge⟩
      cases hr
      exact hP
  · rintro ⟨hfirst, hrow⟩ rows ⟨hperm, hsorted⟩
    rcases rows with _ | ⟨r, rows⟩
    · exact absurd hperm.length_eq (by simp)
    · refine ⟨r, rfl, ?_⟩
      have hmem : r ∈ [first, row] := hperm.mem_iff.1 List.mem_cons_self
      rcases List.mem_cons.1 hmem with rfl | hmem
      · exact hfirst
      · obtain rfl := List.mem_singleton.1 hmem
        have hlater : first ∈ rows :=
          (List.mem_cons.1 (hperm.mem_iff.2 List.mem_cons_self)).resolve_left hne
        exact hrow (htime.antisymm ((List.pairwise_cons.1 hsorted).1 first hlater))

/-- **An untouched branch is recovered exactly when its newest snapshot holds what it got.** -/
theorem recovers_iff {fresh : C} {answers : BranchAnswers C} {sourceId branchId : ℕ}
    {fromSnapshot : FromSnapshot s sourceId} (hok : s.Ok)
    (h : createBranch fresh answers tenantId sourceId s fromSnapshot = .ok (branchId, s')) :
    Recovers s' branchId ↔ Recoverable fresh answers tenantId sourceId s fromSnapshot := by
  obtain ⟨source, s₁, c, row, hsource, hok₁, hmem, hc, hgot, hrows, hid, htime, hrow, hfirst,
    hnow⟩ :=
    createBranch_ok hok h
  have hsourceTime := hok₁.createdAt source hmem
  have hcondition : Recoverable fresh answers tenantId sourceId s fromSnapshot ↔
      match answers.initialSnapshot with
      | none => fromSnapshot.replay answers c = c
      | some time => fromSnapshot.replay answers c = fresh ∧
          (source.createdAt = s₁.now + time → fromSnapshot.replay answers c = c) := by
    constructor
    · rintro ⟨source', s₁', c', hsource', hc', hcond⟩
      rw [hsource] at hsource'
      cases hsource'
      rw [hc] at hc'
      cases hc'
      exact hcond
    · intro hcond
      exact ⟨source, s₁, c, hsource, hc, hcond⟩
  rw [hcondition, recovers_iff_head hgot]
  · unfold Registry.Lists
    rw [hrows]
    cases hinitial : answers.initialSnapshot with
    | none =>
      -- one row, with the content of the source
      simp only [Registry.initialRows, Option.toList_none, List.map_nil, List.nil_append,
        List.perm_singleton]
      constructor
      · intro hall
        obtain ⟨r, hr, harchived⟩ := hall [row] ⟨rfl, by simp⟩
        cases hr
        exact Option.some.inj (harchived.symm.trans hrow)
      · rintro heq rows ⟨rfl, -⟩
        exact ⟨row, rfl, by rw [hrow, heq]⟩
    | some time =>
      -- two rows; the initial snapshot is the newer, unless they have one time
      rw [hinitial] at hid hfirst
      have harchived := hfirst _ List.mem_cons_self
      refine (head_of_two_iff ?_ ?_).trans ?_
      · intro heq
        rw [← heq] at hid
        simp [Registry.initialRows] at hid
      · show row.createdAt ≤ s₁.now + time
        exact htime.trans_le (hsourceTime.trans (Nat.le_add_right _ _))
      · rw [harchived, hrow, htime, Option.some_inj, Option.some_inj, eq_comm (a := fresh),
          eq_comm (a := c)]
  · intro row' hrow' hdatabase
    have hmem' : row' ∈ s₁.initialRows answers.initialSnapshot ++ [row] := by
      rw [← hrows]
      simpa [hdatabase] using hrow'
    rw [hnow]
    rcases List.mem_append.1 hmem' with hfirst' | hrow'
    · cases hinitial : answers.initialSnapshot with
      | none =>
        rw [hinitial] at hfirst'
        cases hfirst'
      | some time =>
        rw [hinitial] at hfirst'
        rw [List.mem_singleton.1 hfirst']
        rfl
    · rw [List.mem_singleton.1 hrow', htime]
      exact hsourceTime.trans (Nat.le_add_right _ _)

/-! ### Merging a branch -/

/-- A merge returns, the target has the content of the branch, and the branch the one it had. -/
def Merges (tenantId : Uuid) (branchId targetId time : ℕ) (s : Registry C) : Prop :=
  ∃ s', mergeBranch tenantId branchId targetId time s = .ok s' ∧
    s'.content targetId = s.content branchId ∧ s'.content branchId = s.content branchId

/-- **No merge of a database into another returns**: the row of the snapshot is the branch's, and
the restore answers that there is no such snapshot of the target. -/
theorem not_merges {branchId targetId : ℕ} (hok : s.Ok) (hne : branchId ≠ targetId) :
    ¬ Merges tenantId branchId targetId time s := by
  rintro ⟨s', hmerge, -⟩
  unfold mergeBranch at hmerge
  cases hsnapshot : createDatabaseSnapshot tenantId branchId time s with
  | error e =>
    rw [hsnapshot] at hmerge
    cases hmerge
  | ok c₁ =>
    obtain ⟨row, s₁⟩ := c₁
    rw [hsnapshot] at hmerge
    obtain ⟨info, -, -, hrow, rfl⟩ := createDatabaseSnapshot_ok hsnapshot
    obtain ⟨-, snapshot, -, -, hfind, hdatabase, -, -⟩ := restoreDatabaseFromSnapshot_ok hmerge
    have hsaved := find?_save hok.id row (by rw [hrow])
    rw [show row.id = s.snapshots.length by rw [hrow]] at hfind
    rw [hsaved] at hfind
    cases hfind
    rw [hrow] at hdatabase
    exact hne hdatabase

end

/-! ### Two databases of one tenant -/

/-- Databases with the contents seven and eight. -/
def testRegistry : Registry ℕ := ⟨[⟨0, 7⟩, ⟨0, 8⟩], [], [], 0⟩

theorem ok_testRegistry : testRegistry.Ok where
  id := by decide
  database := by decide
  object := by decide
  createdAt := by decide

/-- A branch whose initial snapshot failed is recovered from the duplicated row. -/
theorem recovers_iff_of_failed : ∃ s',
    createBranch 0 ⟨1, none, id⟩ 0 0 testRegistry .latest = .ok (2, s') ∧ Recovers s' 2 := by
  have hcond : Recoverable 0 ⟨1, none, id⟩ 0 0 testRegistry .latest := ⟨_, _, 7, rfl, rfl, rfl⟩
  exact ⟨_, rfl, (recovers_iff ok_testRegistry rfl).2 hcond⟩

/-- With its initial snapshot, a branch of a database that is not empty is recovered empty. -/
theorem not_recovers_latest : ∃ s',
    createBranch 0 ⟨1, some 1, id⟩ 0 0 testRegistry .latest = .ok (2, s') ∧ ¬ Recovers s' 2 := by
  refine ⟨_, rfl, fun h => ?_⟩
  obtain ⟨-, row, hhead, harchived, -⟩ := h [⟨1, 2, 1, 2⟩, ⟨2, 2, 0, 1⟩]
    ⟨List.Perm.refl _, by decide⟩
  cases hhead
  exact absurd harchived (by decide)

/-- The merge of the first database into the second does not return. -/
theorem not_merges_testRegistry : ¬ Merges 0 0 1 1 testRegistry :=
  not_merges ok_testRegistry (by decide)

/-- The merge answers that the snapshot it has just taken is not there. -/
theorem mergeBranch_testRegistry :
    mergeBranch 0 0 1 1 testRegistry = .error .snapshotNotFound ∧
      ¬ Merges 0 0 1 1 testRegistry := by
  refine ⟨rfl, ?_⟩
  rintro ⟨s', hmerge, -⟩
  cases hmerge

end KuzuEventBus.Service.Branching
