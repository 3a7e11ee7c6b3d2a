import KuzuEventBus.Lib.Runs
import KuzuEventBus.Service.RestorePitr
import KuzuEventBus.Service.SnapshotRoundTrip

/-!
# The rows of the snapshots

Everything that writes rows of `kuzu_db_snapshots`: `CreateDatabaseSnapshot`, the initial snapshot
of `ProvisionTenantResources`, and `CreateBranch`, which writes a second row for the object of
another one.  An archive is made for one database, and its key and the directory in it have the id
of that database; a row that duplicates another has the same key.

Ids are their texts.  An archive is an outcome of the work of `CreateDatabaseSnapshot` on some disk;
what else happens on the disks is left open.

## Main definitions

* `ObjectKey`, `Row`, `State` — the keys, the rows, and the registry with the objects.
* `Shot` — an archive of a database, and what else goes into its row.
* `createDatabaseSnapshot`, `provision`, `createBranch`, `step` — the use cases.
* `Row.Own` — the object of the row is one of its own database.

## Main results

* `createSnapshot_shape` — an archive has one directory, with the id, and the database in it.
* `exists_object` — what is stored under the key of a row, in every run.
* `always_own_iff` — **every row is of its own database exactly as long as no branch is created.**
-/

namespace KuzuEventBus.Service.SnapshotRows

open FileTree FileOps SnapshotFiles

/-! ### Archives -/

/-- `tenants/{tenant_id}/{database_id}/{filename}`, in a bucket. -/
structure ObjectKey where
  bucket : String
  tenantId : String
  databaseId : String
  filename : String
  deriving DecidableEq

/-- The object key as it is returned by `upload_database`. -/
def ObjectKey.text (key : ObjectKey) : String :=
  "s3://" ++ key.bucket ++ "/tenants/" ++ key.tenantId ++ "/" ++ key.databaseId ++ "/" ++
    key.filename

/-- The directory of the snapshots that are kept, and that of the others. -/
def filePrefix (archived : Bool) : String := if archived then "snapshots/archive" else "snapshots"

/-- The name of the file of a snapshot. -/
def snapshotFilename (archived : Bool) (ts : String) : String :=
  filePrefix archived ++ "/snapshot-" ++ ts ++ ".tar.gz"

/-- What is stored: the bytes, and what `tarfile` makes of them. -/
structure Object where
  data : Bytes
  archive : Archive

/-- The names in every directory of an archive differ. -/
def ArchiveDistinct : Archive → Prop
  | .unreadable => True
  | .readable entries _ => DistinctEntries entries

/-- An archive that `CreateDatabaseSnapshot` makes of a database, and what else goes into the row:
`archived` is the flag of the request. -/
structure Shot (databaseId : String) where
  object : Object
  bucket : String
  archived : Bool
  ts : String
  createdAt : Instant
  distinct : ArchiveDistinct object.archive
  taken : ∃ kuzuDatabase tmp tmpName filePath d d',
    (.ok object.archive, d') ∈ createSnapshot kuzuDatabase tmp tmpName databaseId filePath true d

/-! ### The registry -/

/-- A row of `kuzu_db_snapshots`. -/
structure Row where
  id : ℕ
  tenantId : String
  databaseId : String
  objectKey : ObjectKey
  createdAt : Instant
  deriving DecidableEq

/-- The databases with their tenants, the objects of the storage, and the rows. -/
structure State where
  databases : List (String × String)
  objects : ObjectKey → Option Object
  rows : List Row

/-- `SnapshotRepository.save`. -/
def State.save (s : State) (tenantId databaseId : String) (objectKey : ObjectKey)
    (createdAt : Instant) : Row × State :=
  let row := ⟨s.rows.length, tenantId, databaseId, objectKey, createdAt⟩
  (row, { s with rows := s.rows ++ [row] })

/-- `upload_database`, over what is stored under the key. -/
def State.upload (s : State) (key : ObjectKey) (object : Object) : State :=
  { s with objects := Function.update s.objects key (some object) }

/-- The key of the archive of a snapshot. -/
def Shot.key {databaseId : String} (shot : Shot databaseId) (tenantId : String) : ObjectKey :=
  ⟨shot.bucket, tenantId, databaseId, snapshotFilename shot.archived shot.ts⟩

/-- `CreateDatabaseSnapshotUseCase.execute`: the database has to be the tenant's. -/
def createDatabaseSnapshot (s : State) (tenantId databaseId : String) (shot : Shot databaseId) :
    Option (Row × State) :=
  if (tenantId, databaseId) ∈ s.databases then
    some ((s.upload (shot.key tenantId) shot.object).save tenantId databaseId (shot.key tenantId)
      shot.createdAt)
  else none

/-- `ProvisionTenantResourcesUseCase.execute`: a new database under a new id, and its initial
snapshot unless there is none or it fails. -/
def provision (s : State) (tenantId databaseId : String) (initial : Option (Shot databaseId)) :
    Option State :=
  if databaseId ∈ s.databases.map Prod.snd then none
  else
    let s := { s with databases := s.databases ++ [(tenantId, databaseId)] }
    match initial with
    | none => some s
    | some shot => (createDatabaseSnapshot s tenantId databaseId shot).map Prod.snd

/-- `from_snapshot`, with what is made or listed for it. -/
inductive FromSnapshot (sourceId : String) where
  | latest (shot : Shot sourceId)
  | snapshotId (id : ℕ)
  | timestamp (target : Instant) (listed : List Row)

/-- The latest row that is not after the target. -/
def nearest (rows : List Row) (target : Instant) : Option Row :=
  (rows.filter fun row => row.createdAt ≤ target).argmax Row.createdAt

/-- The row whose object the branch gets; a snapshot that is named by its id can be anyone's. -/
def sourceRow (s : State) (tenantId sourceId : String) :
    FromSnapshot sourceId → Option (Row × State)
  | .latest shot => createDatabaseSnapshot s tenantId sourceId shot
  | .snapshotId id => (s.rows.find? fun row => row.id = id).map fun row => (row, s)
  | .timestamp target listed =>
    if listed.Perm (s.rows.filter fun row => row.databaseId = sourceId) then
      (nearest listed target).map fun row => (row, s)
    else none

/-- `CreateBranchUseCase.execute`, up to the row of the branch: what is restored into it is not
registered. -/
def createBranch (s : State) (tenantId sourceId branchId : String)
    (fromSnapshot : FromSnapshot sourceId) (initial : Option (Shot branchId)) : Option State := do
  let (source, s) ← sourceRow s tenantId sourceId fromSnapshot
  let s ← provision s tenantId branchId initial
  pure (s.save tenantId branchId source.objectKey source.createdAt).2

/-- The use cases; one that raises in between has done what an earlier one does. -/
inductive Action where
  | provision (tenantId databaseId : String) (initial : Option (Shot databaseId))
  | snapshot (tenantId databaseId : String) (shot : Shot databaseId)
  | branch (tenantId sourceId branchId : String) (fromSnapshot : FromSnapshot sourceId)
      (initial : Option (Shot branchId))

/-- One use case. -/
def step (s : State) : Action → Option State
  | .provision tenantId databaseId initial => provision s tenantId databaseId initial
  | .snapshot tenantId databaseId shot =>
    (createDatabaseSnapshot s tenantId databaseId shot).map Prod.snd
  | .branch tenantId sourceId branchId fromSnapshot initial =>
    createBranch s tenantId sourceId branchId fromSnapshot initial

/-- Nothing is there. -/
def init : State := ⟨[], fun _ => none, []⟩

/-- The object of the row was uploaded for the database of the row. -/
def Row.Own (row : Row) : Prop := row.objectKey.databaseId = row.databaseId

instance (row : Row) : Decidable row.Own := inferInstanceAs (Decidable (_ = _))

/-- Only a branch is given a row without an upload. -/
def Action.IsBranch : Action → Prop
  | .branch .. => True
  | _ => False

/-! ### The archive of a snapshot -/

section Shape

variable {kuzuDatabase : FilePath → FileOp Unit} {tmp filePath p dir tmpParent : FilePath}
  {tmpName databaseId : String} {d d' : Disk} {archive : Archive}

theorem triple_true {α : Type} {P : Disk → Prop} (m : FileM α) :
    Triple P m (fun _ _ => True) (fun _ => True) := by
  rintro d hd ⟨e | a, d'⟩ ho
  · exact trivial
  · exact trivial

/-- A workspace is empty. -/
theorem triple_mkdtemp_empty :
    Triple (fun _ => True) (perform (mkdtemp tmp tmpName))
      (fun tmpParent d => get tmpParent d = some (.dir [])) (fun _ => True) := by
  refine Triple.perform fun d _ => ⟨?_, fun _ _ => trivial⟩
  unfold mkdtemp
  split
  · next entries hentries =>
    split
    · exact trivial
    · exact get_put_self ⟨entries, hentries⟩ tmpName _
  · exact trivial

/-- What is copied into an empty directory is the only thing there. -/
theorem triple_copyDatabase_shape :
    Triple (fun d => get dir d = some (.dir [])) (copyDatabase p (dir ++ [dataKuzu]))
      (fun _ d => ∃ x, get dir d = some (.dir [(dataKuzu, x)])) (fun _ => True) := by
  have hparent : ∀ d, get dir d = some (.dir []) → IsDir (get (dir ++ [dataKuzu]).dropLast d) := by
    intro d hdir
    rw [List.dropLast_concat]
    exact ⟨[], hdir⟩
  unfold copyDatabase
  refine Triple.bind (triple_look _) fun isDir => ?_
  cases isDir with
  | true =>
    rw [if_pos rfl]
    refine Triple.perform fun d hd => ⟨?_, fun _ _ => trivial⟩
    obtain ⟨hisDir, hdir⟩ := hd
    rcases hp : get p d with _ | (content | entries)
    · rw [hp] at hisDir
      cases hisDir
    · rw [hp] at hisDir
      cases hisDir
    · rw [copytree_of_none hp (get_in_empty hdir _) (hparent d hdir)]
      exact ⟨_, get_put_in_empty hdir _ _⟩
  | false =>
    rw [if_neg Bool.false_ne_true]
    refine Triple.perform fun d hd => ⟨?_, fun _ _ => trivial⟩
    obtain ⟨-, hdir⟩ := hd
    have htarget : copyTarget p (dir ++ [dataKuzu]) d = dir ++ [dataKuzu] := by
      unfold copyTarget
      rw [get_in_empty hdir _]
    have hnot : ¬ IsDir (get (dir ++ [dataKuzu]) d) := by
      rw [get_in_empty hdir _]
      rintro ⟨entries, hentries⟩
      cases hentries
    rcases hp : get p d with _ | (content | entries)
    · unfold copy2
      rw [hp]
      exact trivial
    · unfold copy2
      rw [hp]
      dsimp only
      rw [htarget]
      split
      · exact trivial
      · rw [writeBytes_of_not_isDir hnot (hparent d hdir)]
        exact ⟨_, get_put_in_empty hdir _ _⟩
    · unfold copy2
      rw [hp]
      exact trivial

/-- The directory of the id is made in the workspace, and the database copied into it. -/
theorem triple_copyDatabaseToArchive_shape :
    Triple (fun d => get tmpParent d = some (.dir []))
      (copyDatabaseToArchive p (tmpParent ++ [databaseId]) dataKuzu)
      (fun _ d => ∃ x, get (tmpParent ++ [databaseId]) d = some (.dir [(dataKuzu, x)]))
      (fun _ => True) := by
  have hmkdir : Triple (fun d => get tmpParent d = some (.dir []))
      (perform (mkdir (tmpParent ++ [databaseId])))
      (fun _ d => get (tmpParent ++ [databaseId]) d = some (.dir [])) (fun _ => True) := by
    refine Triple.perform fun d hd => ⟨?_, fun _ _ => trivial⟩
    have hnone : get (tmpParent ++ [databaseId]) d = none := by
      rw [get_append, hd]
      rfl
    rw [mkdir_child databaseId ⟨[], hd⟩ hnone]
    exact get_put_self ⟨[], hd⟩ databaseId _
  unfold copyDatabaseToArchive
  refine Triple.bind hmkdir fun _ => Triple.bind triple_copyDatabase_shape fun _ => ?_
  exact Triple.ret fun _ hd => hd

/-- **The archive of a snapshot** has one directory at the top, with the id of the database, and the
database in it: wherever the database is and whatever else is on the disk. -/
theorem createSnapshot_shape
    (h : (.ok archive, d') ∈ createSnapshot kuzuDatabase tmp tmpName databaseId filePath true d) :
    ∃ x, archive = .readable [(databaseId, .dir [(dataKuzu, x)])] true := by
  have htriple : Triple (fun _ => True)
      (createSnapshot kuzuDatabase tmp tmpName databaseId filePath)
      (fun archive _ => ∃ x, archive = .readable [(databaseId, .dir [(dataKuzu, x)])] true)
      (fun _ => True) := by
    unfold createSnapshot
    refine Triple.bind (triple_true _) fun p => Triple.bind (triple_true _) fun _ => ?_
    refine Triple.bind triple_mkdtemp_empty fun tmpParent => ?_
    refine Triple.bind triple_copyDatabaseToArchive_shape fun _ => ?_
    refine (triple_look _).conseq (fun d hd => hd) ?_ fun _ hd => hd
    rintro archive d ⟨harchive, x, hd⟩
    rw [hd] at harchive
    cases harchive
    exact ⟨x, rfl⟩
  exact htriple d trivial _ h

end Shape

/-! ### What is stored -/

section Runs

variable {s s' s₁ : State} {tenantId databaseId sourceId branchId : String} {row : Row}
  {actions : List Action}

/-- The object holds a database, in a directory of this id. -/
def Object.BuiltFor (object : Object) (databaseId : String) : Prop :=
  ∃ x, object.archive = .readable [(databaseId, .dir [(dataKuzu, x)])] true ∧ x.Distinct

/-- The objects are archives of the databases in their keys, and the rows have keys of objects. -/
structure Inv (s : State) : Prop where
  builtFor : ∀ key object, s.objects key = some object → object.BuiltFor key.databaseId
  filename : ∀ key object, s.objects key = some object → ∃ archived ts,
    key.filename = snapshotFilename archived ts
  stored : ∀ row ∈ s.rows, (s.objects row.objectKey).isSome
  database : ∀ row ∈ s.rows, row.objectKey.databaseId ∈ s.databases.map Prod.snd

theorem inv_init : Inv init where
  builtFor := nofun
  filename := nofun
  stored := nofun
  database := nofun

theorem Shot.builtFor (shot : Shot databaseId) : shot.object.BuiltFor databaseId := by
  obtain ⟨kuzuDatabase, tmp, tmpName, filePath, d, d', htaken⟩ := shot.taken
  obtain ⟨x, hx⟩ := createSnapshot_shape htaken
  have hdistinct := shot.distinct
  rw [hx] at hdistinct
  exact ⟨x, hx, hdistinct.2.1.2.1⟩

theorem objects_upload (s : State) (key key' : ObjectKey) (object : Object) :
    (s.upload key object).objects key' = if key' = key then some object else s.objects key' :=
  Function.update_apply _ _ _ _

/-- An object is stored under a key of its database. -/
theorem Inv.upload (hinv : Inv s) {key : ObjectKey} {object : Object}
    (hbuilt : object.BuiltFor key.databaseId)
    (hname : ∃ archived ts, key.filename = snapshotFilename archived ts) :
    Inv (s.upload key object) := by
  refine ⟨fun key' object' hobject => ?_, fun key' object' hobject => ?_, fun row hrow => ?_,
    hinv.database⟩
  · rw [objects_upload] at hobject
    split at hobject
    · next hkey =>
      cases hobject
      rwa [hkey]
    · exact hinv.builtFor key' object' hobject
  · rw [objects_upload] at hobject
    split at hobject
    · next hkey => rwa [hkey]
    · exact hinv.filename key' object' hobject
  · rw [objects_upload]
    split
    · rfl
    · exact hinv.stored row hrow

/-- A row is saved with the key of an object. -/
theorem Inv.save (hinv : Inv s) {key : ObjectKey} (hstored : (s.objects key).isSome)
    (hdatabase : key.databaseId ∈ s.databases.map Prod.snd) (tenantId databaseId : String)
    (createdAt : Instant) : Inv (s.save tenantId databaseId key createdAt).2 := by
  refine ⟨hinv.builtFor, hinv.filename, fun row hrow => ?_, fun row hrow => ?_⟩
  · rcases List.mem_append.1 hrow with hold | hnew
    · exact hinv.stored row hold
    · rw [List.mem_singleton.1 hnew]
      exact hstored
  · rcases List.mem_append.1 hrow with hold | hnew
    · exact hinv.database row hold
    · rw [List.mem_singleton.1 hnew]
      exact hdatabase

/-- A snapshot writes its object, and one row of its own database. -/
theorem createDatabaseSnapshot_ok {shot : Shot databaseId}
    (h : createDatabaseSnapshot s tenantId databaseId shot = some (row, s')) :
    (tenantId, databaseId) ∈ s.databases ∧ row.Own ∧ s'.rows = s.rows ++ [row] ∧
      s' = ((s.upload (shot.key tenantId) shot.object).save tenantId databaseId (shot.key tenantId)
        shot.createdAt).2 := by
  unfold createDatabaseSnapshot at h
  split at h
  · next hmem =>
    cases h
    exact ⟨hmem, rfl, rfl, rfl⟩
  · cases h

theorem Inv.createDatabaseSnapshot (hinv : Inv s) {shot : Shot databaseId}
    (h : createDatabaseSnapshot s tenantId databaseId shot = some (row, s')) : Inv s' := by
  obtain ⟨hmem, -, -, rfl⟩ := createDatabaseSnapshot_ok h
  have hupload : Inv (s.upload (shot.key tenantId) shot.object) :=
    hinv.upload shot.builtFor ⟨shot.archived, shot.ts, rfl⟩
  refine hupload.save ?_ (List.mem_map_of_mem hmem) tenantId databaseId shot.createdAt
  rw [objects_upload, if_pos rfl]
  rfl

/-- A new database has a new id; its initial snapshot is of its own. -/
theorem provision_ok {initial : Option (Shot databaseId)}
    (h : provision s tenantId databaseId initial = some s') :
    databaseId ∉ s.databases.map Prod.snd ∧
      (s' = { s with databases := s.databases ++ [(tenantId, databaseId)] } ∨
        ∃ shot row, createDatabaseSnapshot
          { s with databases := s.databases ++ [(tenantId, databaseId)] } tenantId databaseId shot =
            some (row, s')) := by
  unfold provision at h
  split at h
  · cases h
  · next hnew =>
    refine ⟨hnew, ?_⟩
    cases initial with
    | none =>
      cases h
      exact Or.inl rfl
    | some shot =>
      obtain ⟨⟨row, s''⟩, hsnapshot, rfl⟩ := Option.map_eq_some_iff.1 h
      exact Or.inr ⟨shot, row, hsnapshot⟩

theorem Inv.withDatabase (hinv : Inv s) (tenantId databaseId : String) :
    Inv { s with databases := s.databases ++ [(tenantId, databaseId)] } := by
  refine ⟨hinv.builtFor, hinv.filename, hinv.stored, fun row hrow => ?_⟩
  rw [List.map_append]
  exact List.mem_append_left _ (hinv.database row hrow)

theorem Inv.provision (hinv : Inv s) {initial : Option (Shot databaseId)}
    (h : provision s tenantId databaseId initial = some s') : Inv s' := by
  obtain ⟨-, rfl | ⟨shot, row, hsnapshot⟩⟩ := provision_ok h
  · exact hinv.withDatabase tenantId databaseId
  · exact (hinv.withDatabase tenantId databaseId).createDatabaseSnapshot hsnapshot

/-- The rows that were there are there. -/
theorem mem_rows_of_provision {initial : Option (Shot databaseId)}
    (h : provision s tenantId databaseId initial = some s') (hrow : row ∈ s.rows) :
    row ∈ s'.rows := by
  obtain ⟨-, rfl | ⟨shot, row', hsnapshot⟩⟩ := provision_ok h
  · exact hrow
  · obtain ⟨-, -, hrows, -⟩ := createDatabaseSnapshot_ok hsnapshot
    rw [hrows]
    exact List.mem_append_left _ hrow

/-- The row whose object a branch gets is a row of the registry, however it is named. -/
theorem sourceRow_ok (hinv : Inv s) {fromSnapshot : FromSnapshot sourceId}
    (h : sourceRow s tenantId sourceId fromSnapshot = some (row, s₁)) :
    Inv s₁ ∧ row ∈ s₁.rows := by
  cases fromSnapshot with
  | latest shot =>
    refine ⟨hinv.createDatabaseSnapshot h, ?_⟩
    obtain ⟨-, -, hrows, -⟩ := createDatabaseSnapshot_ok h
    rw [hrows]
    exact List.mem_append_right _ (List.mem_singleton_self row)
  | snapshotId id =>
    obtain ⟨row', hfind, heq⟩ := Option.map_eq_some_iff.1 h
    cases heq
    exact ⟨hinv, List.mem_of_find?_eq_some hfind⟩
  | timestamp target listed =>
    simp only [sourceRow] at h
    split at h
    · next hperm =>
      obtain ⟨row', hnearest, heq⟩ := Option.map_eq_some_iff.1 h
      cases heq
      have hlisted : row ∈ listed := List.mem_of_mem_filter (List.argmax_mem hnearest)
      exact ⟨hinv, List.mem_of_mem_filter (hperm.mem_iff.1 hlisted)⟩
    · cases h

/-- A branch gets a row with the key of another one, under its own new id. -/
theorem createBranch_ok (hinv : Inv s) {fromSnapshot : FromSnapshot sourceId}
    {initial : Option (Shot branchId)}
    (h : createBranch s tenantId sourceId branchId fromSnapshot initial = some s') :
    ∃ source s₂, Inv s₂ ∧ source ∈ s₂.rows ∧ source.objectKey.databaseId ≠ branchId ∧
      s' = (s₂.save tenantId branchId source.objectKey source.createdAt).2 := by
  obtain ⟨⟨source, s₁⟩, hsource, h⟩ := Option.bind_eq_some_iff.1 h
  obtain ⟨s₂, hprovision, h⟩ := Option.bind_eq_some_iff.1 h
  cases h
  obtain ⟨hinv₁, hmem⟩ := sourceRow_ok hinv hsource
  refine ⟨source, s₂, hinv₁.provision hprovision, mem_rows_of_provision hprovision hmem, ?_, rfl⟩
  -- the database of the key was there before the branch
  rintro rfl
  exact (provision_ok hprovision).1 (hinv₁.database source hmem)

theorem inv_step (hinv : Inv s) {a : Action} (h : step s a = some s') : Inv s' := by
  cases a with
  | provision tenantId databaseId initial => exact hinv.provision h
  | snapshot tenantId databaseId shot =>
    obtain ⟨⟨row, s''⟩, hsnapshot, rfl⟩ := Option.map_eq_some_iff.1 h
    exact hinv.createDatabaseSnapshot hsnapshot
  | branch tenantId sourceId branchId fromSnapshot initial =>
    obtain ⟨source, s₂, hinv₂, hmem, -, rfl⟩ := createBranch_ok hinv h
    exact hinv₂.save (hinv₂.stored source hmem) (hinv₂.database source hmem) tenantId branchId _

theorem inv_of_run (h : Runs.run step init actions = some s) : Inv s :=
  Runs.always_of_invariant (fun _ _ _ hinv hstep => inv_step hinv hstep) inv_init actions actions
    List.prefix_rfl s h

/-- **What is stored under the key of a row** is an archive of the database in the key. -/
theorem exists_object (h : Runs.run step init actions = some s) (hrow : row ∈ s.rows) :
    ∃ object, s.objects row.objectKey = some object ∧
      object.BuiltFor row.objectKey.databaseId ∧
      row.objectKey.text.endsWith ".tar.gz" = true := by
  have hinv := inv_of_run h
  obtain ⟨object, hobject⟩ := Option.isSome_iff_exists.1 (hinv.stored row hrow)
  obtain ⟨archived, ts, hfilename⟩ := hinv.filename _ object hobject
  refine ⟨object, hobject, hinv.builtFor _ object hobject, ?_⟩
  unfold ObjectKey.text
  rw [hfilename]
  unfold snapshotFilename
  rw [← String.append_assoc, String.endsWith_eq_endsWith_toSlice, String.Slice.endsWith_string_iff,
    String.copy_toSlice, String.toList_append]
  exact List.suffix_append _ _

/-! ### Rows of their own databases -/

/-- The rows a snapshot of a database adds are of its own. -/
theorem own_of_createDatabaseSnapshot {shot : Shot databaseId}
    (h : createDatabaseSnapshot s tenantId databaseId shot = some (row, s'))
    (hown : ∀ row ∈ s.rows, row.Own) : ∀ row ∈ s'.rows, row.Own := by
  obtain ⟨-, hnew, hrows, -⟩ := createDatabaseSnapshot_ok h
  rw [hrows]
  exact List.forall_mem_append.2 ⟨hown, List.forall_mem_singleton.2 hnew⟩

theorem own_of_provision {initial : Option (Shot databaseId)}
    (h : provision s tenantId databaseId initial = some s') (hown : ∀ row ∈ s.rows, row.Own) :
    ∀ row ∈ s'.rows, row.Own := by
  obtain ⟨-, rfl | ⟨shot, row, hsnapshot⟩⟩ := provision_ok h
  · exact hown
  · exact own_of_createDatabaseSnapshot hsnapshot hown

/-- The row of a branch is not of its own. -/
theorem exists_not_own_of_createBranch (hinv : Inv s) {fromSnapshot : FromSnapshot sourceId}
    {initial : Option (Shot branchId)}
    (h : createBranch s tenantId sourceId branchId fromSnapshot initial = some s') :
    ∃ row ∈ s'.rows, ¬ row.Own := by
  obtain ⟨source, s₂, -, -, hne, rfl⟩ := createBranch_ok hinv h
  exact ⟨_, List.mem_append_right _ (List.mem_singleton_self _), hne⟩

/-- **Every row is of its own database exactly as long as no branch is created.** -/
theorem always_own_iff (actions : List Action) :
    Runs.Always step (fun s => ∀ row ∈ s.rows, row.Own) init actions ↔
      Runs.EachStep step (fun _ a _ => ¬ a.IsBranch) init actions := by
  refine Runs.always_iff (fun s (hs : Inv s ∧ ∀ row ∈ s.rows, row.Own) => hs.2) ?_ ?_
    ⟨inv_init, nofun⟩ actions
  · rintro s a s' ⟨hinv, hown⟩ hstep
    cases a with
    | provision tenantId databaseId initial =>
      exact iff_of_true (fun h => h) (own_of_provision hstep hown)
    | snapshot tenantId databaseId shot =>
      obtain ⟨⟨row, s''⟩, hsnapshot, rfl⟩ := Option.map_eq_some_iff.1 hstep
      exact iff_of_true (fun h => h) (own_of_createDatabaseSnapshot hsnapshot hown)
    | branch tenantId sourceId branchId fromSnapshot initial =>
      obtain ⟨row, hrow, hnot⟩ := exists_not_own_of_createBranch hinv hstep
      exact iff_of_false (fun h => h trivial) fun hall => hnot (hall row hrow)
  · rintro s a s' ⟨hinv, hown⟩ hstep hok
    refine ⟨inv_step hinv hstep, ?_⟩
    cases a with
    | provision tenantId databaseId initial => exact own_of_provision hstep hown
    | snapshot tenantId databaseId shot =>
      obtain ⟨⟨row, s''⟩, hsnapshot, rfl⟩ := Option.map_eq_some_iff.1 hstep
      exact own_of_createDatabaseSnapshot hsnapshot hown
    | branch tenantId sourceId branchId fromSnapshot initial => exact absurd trivial hok

/-- What holds of the rows of their own databases, and of no others, holds of all rows exactly as
long as no branch is created. -/
theorem always_iff_of_own {P : State → Row → Prop}
    (h : ∀ actions s row, Runs.run step init actions = some s → row ∈ s.rows →
      (P s row ↔ row.Own)) (actions : List Action) :
    Runs.Always step (fun s => ∀ row ∈ s.rows, (P s row ↔ row.Own)) init actions ∧
      (Runs.Always step (fun s => ∀ row ∈ s.rows, P s row) init actions ↔
        Runs.EachStep step (fun _ a _ => ¬ a.IsBranch) init actions) := by
  refine ⟨fun actions' _ s hrun row hrow => h actions' s row hrun hrow, ?_⟩
  rw [← always_own_iff]
  refine forall₄_congr fun actions' _ s hrun => forall₂_congr fun row hrow => ?_
  exact h actions' s row hrun hrow

end Runs

/-! ### A database and its branch -/

/-- A snapshot of a database that is a directory with one file. -/
def testShot : Shot "db_1" where
  object := ⟨[],
    .readable [("db_1", .dir [(dataKuzu, .dir [("catalog.kz", .file [1])])])] true⟩
  bucket := "kuzu-databases"
  archived := true
  ts := "20250101T000000Z-0a1b2c3d"
  createdAt := 1
  distinct := by simp [ArchiveDistinct, DistinctEntries, Distinct]
  taken := ⟨_, _, _, _, _, exists_createSnapshot_dir⟩

/-- A database, with a snapshot. -/
def snapshotRun : List Action :=
  [.provision "tenant_1" "db_1" none, .snapshot "tenant_1" "db_1" testShot]

/-- And a branch of it, whose initial snapshot fails. -/
def branchRun : List Action :=
  snapshotRun ++ [.branch "tenant_1" "db_1" "db_2" (.snapshotId 0) none]

theorem exists_not_own_branchRun : ∃ s row, Runs.run step init branchRun = some s ∧ row ∈ s.rows ∧
    ¬ row.Own :=
  ⟨_, _, rfl, List.mem_cons_of_mem _ (List.mem_singleton_self _), by decide⟩

end KuzuEventBus.Service.SnapshotRows
