import KuzuEventBus.Lib.Extraction
import KuzuEventBus.Service.SnapshotRows

/-!
# The checkout of a database

`QueryWorker._ensure_local_db`: when the directory of the database is not there, the latest snapshot
is downloaded, the directory is made, and the archive is extracted into the directory of the tenant.
The directory in the archive has the id of the database it was made of, so that an archive of
another database goes beside the directory that was made, which stays empty.

## Main definitions

* `Services` — what the services answer.
* `materialize`, `checkout`, `ensureLocalDb` — the method.
* `ChecksOut` — the database of the snapshot is put in its place, and no other file is changed.

## Main results

* `mem_ensureLocalDb_iff` — what a checkout that returns has done.
* `always_checksOut_iff` — **a registered snapshot is checked out to its place, and nowhere else,
  exactly when its row is of the database its archive was made of**, in every state of every run.
-/

namespace KuzuEventBus.Service.Checkout

open FileTree FileOps SnapshotFiles SnapshotRows

/-! ### The method -/

/-- What the services answer, or raise: the lock, when it is not acquired, answers with no token. -/
structure Services where
  kuzuDataDir : Option FilePath
  snapshots : Except String (List SnapshotRows.Row)
  acquired : Except String Bool
  objects : ObjectKey → Option Object
  released : Except String Bool

/-- A service answers or raises. -/
def await {α : Type} : Except String α → FileM α
  | .ok a => pure a
  | .error e => raise e

/-- The suffix of an archive, or the signature of `gzip`. -/
def isArchive (objectKey : String) (data : Bytes) : Bool :=
  objectKey.endsWith ".tar.gz" || (decide (2 < data.length) && data.take 2 == [0x1f, 0x8b])

/-- The directory of the database is made, and the archive is extracted into the directory that one
is in. -/
def materialize (objectKey : String) (object : Object) (dbDir : FilePath) : FileM Unit := do
  perform (mkdir dbDir)
  if isArchive objectKey object.data then extractInto object.archive dbDir.dropLast
  else perform (writeBytes (dbDir ++ [dataKuzu]) object.data)

/-- `download_database`. -/
def downloadDatabase (objects : ObjectKey → Option Object) (objectKey : ObjectKey) : FileM Object :=
  match objects objectKey with
  | some object => pure object
  | none => raise "RuntimeError"

/-- The checkout of the latest snapshot, under the lock. -/
def checkout (services : Services) (latest : SnapshotRows.Row) (dbDir : FilePath) : FileM Unit := do
  let token ← await services.acquired
  if token then
    finallyDo
      (do
        let object ← downloadDatabase services.objects latest.objectKey
        materialize latest.objectKey.text object dbDir)
      (do
        let _ ← await services.released
        pure ())
  else raise "TimeoutError"

/-- `db_file.exists() or db_dir.exists()`. -/
def isPresent (dbDir : FilePath) : FileM Bool := do
  let file ← perform (pathExists (dbDir ++ [dataKuzu]))
  if file then pure true else perform (pathExists dbDir)

/-- What is done for a database that is not there. -/
def restoreMissing (services : Services) (dbDir : FilePath) : List SnapshotRows.Row → FileM Unit
  | [] => perform (mkdir dbDir)
  | latest :: _ => checkout services latest dbDir

/-- `_ensure_local_db`. -/
def ensureLocalDb (services : Services) (tenantId databaseId : String) : FileM FilePath :=
  match services.kuzuDataDir with
  | none => raise "RuntimeError"
  | some baseDir => do
    let dbDir := baseDir ++ [tenantId] ++ [databaseId]
    let present ← isPresent dbDir
    if present then pure (dbDir ++ [dataKuzu])
    else do
      let snapshots ← await services.snapshots
      restoreMissing services dbDir snapshots
      pure (dbDir ++ [dataKuzu])

/-! ### What is asked for -/

/-- **On a host where the database is not, a checkout of the snapshot of the row that returns has
put its database at `<base>/<tenant>/<database>/data.kuzu`, and changed no file outside that
directory**, wherever the base is, whatever else is on the disk, and whichever steps fail. -/
def ChecksOut (s : State) (row : SnapshotRows.Row) : Prop :=
  ∀ older acquired released base d p d', IsDir d →
    get (base ++ [row.tenantId] ++ [row.databaseId]) d = none →
    (.ok p, d') ∈ ensureLocalDb ⟨some base, .ok (row :: older), acquired, s.objects, released⟩
      row.tenantId row.databaseId true d →
    (∃ object x, s.objects row.objectKey = some object ∧
      archivedDatabase object.archive = some x ∧
      get (base ++ [row.tenantId] ++ [row.databaseId] ++ [dataKuzu]) d' = some x) ∧
    ∀ q content, ¬ base ++ [row.tenantId] ++ [row.databaseId] <+: q →
      (get q d' = some (.file content) ↔ get q d = some (.file content))

/-! ### What a checkout does -/

section Runs

variable {base dbDir parent : FilePath} {tenantId databaseId root name key : String}
  {services : Services} {latest : SnapshotRows.Row} {older : List SnapshotRows.Row}
  {object : Object} {faults : Bool} {p : FilePath} {d d₁ d' : Disk} {x : FileTree}

theorem mem_await_ok_iff {α : Type} {answer : Except String α} {a : α} :
    (.ok a, d') ∈ await answer faults d ↔ answer = .ok a ∧ d' = d := by
  unfold await
  cases answer with
  | error e => exact iff_of_false (fun h => not_mem_raise h) nofun
  | ok a' =>
    rw [Except.ok.injEq, eq_comm (a := a')]
    exact mem_pure_ok_iff

theorem mem_downloadDatabase_ok_iff {objects : ObjectKey → Option Object} {objectKey : ObjectKey} :
    (.ok object, d') ∈ downloadDatabase objects objectKey faults d ↔
      objects objectKey = some object ∧ d' = d := by
  unfold downloadDatabase
  cases objects objectKey with
  | none => exact iff_of_false (fun h => not_mem_raise h) nofun
  | some object' =>
    rw [Option.some.injEq, eq_comm (a := object')]
    exact mem_pure_ok_iff

theorem mem_pathExists_ok_iff {there : Bool} :
    (.ok there, d') ∈ perform (pathExists p) faults d ↔ (get p d).isSome = there ∧ d' = d := by
  rw [mem_perform_ok_iff, pathExists_run rfl, Prod.mk.injEq, Except.ok.injEq, eq_comm (a := d)]

/-- What is not there is found not to be. -/
theorem mem_isPresent_ok_iff (habsent : get dbDir d = none) {present : Bool} :
    (.ok present, d') ∈ isPresent dbDir faults d ↔ present = false ∧ d' = d := by
  have hfile : get (dbDir ++ [dataKuzu]) d = none := by
    rw [get_append, habsent, get_none]
  unfold isPresent
  rw [mem_bind_ok_iff]
  constructor
  · rintro ⟨file, d₁, hfound, hrest⟩
    obtain ⟨rfl, rfl⟩ := mem_pathExists_ok_iff.1 hfound
    rw [hfile, Option.isSome_none, if_neg Bool.false_ne_true, mem_pathExists_ok_iff, habsent]
      at hrest
    exact ⟨hrest.1.symm, hrest.2⟩
  · rintro ⟨rfl, rfl⟩
    refine ⟨false, d', mem_pathExists_ok_iff.2 ⟨congrArg Option.isSome hfile, rfl⟩, ?_⟩
    rw [if_neg Bool.false_ne_true, mem_pathExists_ok_iff]
    exact ⟨congrArg Option.isSome habsent, rfl⟩

/-- A checkout returns when it has the lock, the object and the files. -/
theorem mem_checkout_ok_iff : (.ok (), d') ∈ checkout services latest dbDir faults d ↔
    services.acquired = .ok true ∧ (∃ released, services.released = .ok released) ∧
      ∃ object, services.objects latest.objectKey = some object ∧
        (.ok (), d') ∈ materialize latest.objectKey.text object dbDir faults d := by
  unfold checkout
  rw [mem_bind_ok_iff]
  constructor
  · rintro ⟨token, d₁, hlock, hrest⟩
    obtain ⟨hacquired, rfl⟩ := mem_await_ok_iff.1 hlock
    cases token with
    | false =>
      rw [if_neg Bool.false_ne_true] at hrest
      exact (not_mem_raise hrest).elim
    | true =>
      rw [if_pos rfl, mem_finallyDo_ok_iff] at hrest
      obtain ⟨d₂, hbody, hcleanup⟩ := hrest
      obtain ⟨object, d₃, hdownload, hfiles⟩ := mem_bind_ok_iff.1 hbody
      obtain ⟨hobject, rfl⟩ := mem_downloadDatabase_ok_iff.1 hdownload
      obtain ⟨released, d₄, hrelease, hdone⟩ := mem_bind_ok_iff.1 hcleanup
      obtain ⟨hreleased, rfl⟩ := mem_await_ok_iff.1 hrelease
      obtain ⟨-, rfl⟩ := mem_pure_ok_iff.1 hdone
      exact ⟨hacquired, ⟨released, hreleased⟩, object, hobject, hfiles⟩
  · rintro ⟨hacquired, ⟨released, hreleased⟩, object, hobject, hfiles⟩
    refine ⟨true, d, mem_await_ok_iff.2 ⟨hacquired, rfl⟩, ?_⟩
    rw [if_pos rfl, mem_finallyDo_ok_iff]
    refine ⟨d', mem_bind_ok_iff.2 ⟨object, d, ?_, hfiles⟩, mem_bind_ok_iff.2 ⟨released, d', ?_, ?_⟩⟩
    · exact mem_downloadDatabase_ok_iff.2 ⟨hobject, rfl⟩
    · exact mem_await_ok_iff.2 ⟨hreleased, rfl⟩
    · exact mem_pure_ok_iff.2 ⟨rfl, rfl⟩

/-- **What a checkout that returns has done**, when the database was not there. -/
theorem mem_ensureLocalDb_iff (hbase : services.kuzuDataDir = some base)
    (hsnapshots : services.snapshots = .ok (latest :: older))
    (habsent : get (base ++ [tenantId] ++ [databaseId]) d = none) :
    (.ok p, d') ∈ ensureLocalDb services tenantId databaseId faults d ↔
      p = base ++ [tenantId] ++ [databaseId] ++ [dataKuzu] ∧
        (.ok (), d') ∈ checkout services latest (base ++ [tenantId] ++ [databaseId]) faults d := by
  unfold ensureLocalDb
  rw [hbase]
  dsimp only
  rw [mem_bind_ok_iff]
  constructor
  · rintro ⟨present, d₁, hpresent, hrest⟩
    obtain ⟨rfl, rfl⟩ := (mem_isPresent_ok_iff habsent).1 hpresent
    rw [if_neg Bool.false_ne_true, mem_bind_ok_iff] at hrest
    obtain ⟨snapshots, d₂, hlist, hrest⟩ := hrest
    obtain ⟨hlisted, rfl⟩ := mem_await_ok_iff.1 hlist
    rw [hsnapshots] at hlisted
    cases hlisted
    obtain ⟨u, d₃, hcheckout, hdone⟩ := mem_bind_ok_iff.1 hrest
    obtain ⟨rfl, rfl⟩ := mem_pure_ok_iff.1 hdone
    exact ⟨rfl, hcheckout⟩
  · rintro ⟨rfl, hcheckout⟩
    refine ⟨false, d, (mem_isPresent_ok_iff habsent).2 ⟨rfl, rfl⟩, ?_⟩
    rw [if_neg Bool.false_ne_true, mem_bind_ok_iff]
    refine ⟨_, d, mem_await_ok_iff.2 ⟨hsnapshots, rfl⟩, mem_bind_ok_iff.2 ⟨(), d', hcheckout, ?_⟩⟩
    exact mem_pure_ok_iff.2 ⟨rfl, rfl⟩

/-! ### Where an archive goes -/

/-- The archive is extracted beside the directory that was made, or into it. -/
theorem mem_materialize_iff (hkey : key.endsWith ".tar.gz" = true)
    (harchive : object.archive = .readable [(root, .dir [(dataKuzu, x)])] true) :
    (.ok (), d') ∈ materialize key object (parent ++ [name]) faults d ↔
      ∃ d₁, (mkdir (parent ++ [name]) d).1 = (.ok (), d₁) ∧
        (.ok (), d') ∈ extractMembers parent [(root, .dir [(dataKuzu, x)])] faults d₁ := by
  have his : isArchive key object.data = true := by
    unfold isArchive
    rw [hkey]
    rfl
  unfold materialize
  rw [his, if_pos rfl, harchive, List.dropLast_concat, mem_bind_ok_iff]
  unfold extractInto
  constructor
  · rintro ⟨u, d₁, hmkdir, hrest⟩
    obtain ⟨u, d₂, hmembers, hdone⟩ := mem_bind_ok_iff.1 hrest
    obtain ⟨-, rfl⟩ := mem_pure_ok_iff.1 hdone
    exact ⟨d₁, mem_perform_ok_iff.1 hmkdir, hmembers⟩
  · rintro ⟨d₁, hmkdir, hmembers⟩
    exact ⟨(), d₁, mem_perform_ok_iff.2 hmkdir,
      mem_bind_ok_iff.2 ⟨(), d', hmembers, mem_pure_ok_iff.2 ⟨rfl, rfl⟩⟩⟩

/-- **The archive of the database itself goes into the directory that was made.** -/
theorem eq_of_mem_extractMembers_self (hx : x.Distinct)
    (hmade : get (parent ++ [name]) d₁ = some (.dir []))
    (h : (.ok (), d') ∈ extractMembers parent [(name, .dir [(dataKuzu, x)])] faults d₁) :
    d' = put (parent ++ [name]) (some (.dir [(dataKuzu, x)])) d₁ := by
  have hparent : IsDir (get parent d₁) := by
    by_contra hnot
    rw [get_append, get_cons_of_not_isDir hnot] at hmade
    cases hmade
  unfold extractMembers extractMember at h
  obtain ⟨u, d₂, hmember, hdone⟩ := mem_bind_ok_iff.1 h
  obtain ⟨-, rfl⟩ := mem_pure_ok_iff.1 hdone
  obtain ⟨u, d₃, hmake, hmembers⟩ := mem_bind_ok_iff.1 hmember
  rw [mem_perform_ok_iff, makeDirectory_of_isDir hparent ⟨[], hmade⟩] at hmake
  cases hmake
  exact (mem_extractMembers_iff _ (distinctEntries_singleton hx) hmade fun _ _ => rfl).1 hmembers

/-- **The archive of another database leaves it empty.** -/
theorem get_of_mem_extractMembers_other (hx : x.Distinct) {there : Entries}
    (hparent : get parent d₁ = some (.dir there)) (hname : there.lookup name = some (.dir []))
    (hfree : there.lookup root = none)
    (h : (.ok (), d') ∈ extractMembers parent [(root, .dir [(dataKuzu, x)])] faults d₁) :
    get (parent ++ [name] ++ [dataKuzu]) d' = none := by
  have hsome : (get parent d₁).isSome := by
    rw [hparent]
    rfl
  have hdistinct : DistinctEntries [(root, .dir [(dataKuzu, x)])] :=
    distinctEntries_singleton (distinctEntries_singleton hx)
  have hd' := (mem_extractMembers_iff _ hdistinct hparent (List.forall_mem_singleton.2 hfree)).1 h
  rw [hd', get_append, get_append, get_put_of_isSome hsome, get_cons_dir, get_nil,
    List.lookup_append, hname]
  rfl

end Runs

/-! ### Registered snapshots -/

section Rows

variable {actions : List Action} {s : State} {row : SnapshotRows.Row} {object : Object}

/-- A row of the database its archive was made of is checked out to its place. -/
theorem checksOut_of_own (hobject : s.objects row.objectKey = some object)
    (hbuilt : object.BuiltFor row.objectKey.databaseId)
    (hkey : row.objectKey.text.endsWith ".tar.gz" = true) (hown : row.Own) : ChecksOut s row := by
  obtain ⟨x, harchive, hx⟩ := hbuilt
  intro older acquired released base d p d' hroot habsent hmem
  obtain ⟨-, hcheckout⟩ := (mem_ensureLocalDb_iff rfl rfl habsent).1 hmem
  obtain ⟨-, -, object', hobject', hfiles⟩ := mem_checkout_ok_iff.1 hcheckout
  cases hobject.symm.trans hobject'
  obtain ⟨d₁, hmkdir, hmembers⟩ := (mem_materialize_iff hkey harchive).1 hfiles
  unfold SnapshotRows.Row.Own at hown
  rw [hown] at hmembers
  have hmade := get_mkdir_of_none hroot hmkdir habsent
  have hsome : (get (base ++ [row.tenantId] ++ [row.databaseId]) d₁).isSome := by
    rw [hmade]
    rfl
  rw [eq_of_mem_extractMembers_self hx hmade hmembers]
  refine ⟨⟨object, x, hobject, ?_, ?_⟩, fun q content hq => ?_⟩
  · rw [harchive]
    simp [archivedDatabase, contentRoot]
  · rw [get_append, get_put_of_isSome hsome, get_cons_dir, get_nil, List.lookup_cons,
      beq_self_eq_true]
  · exact (get_put_file_iff hq _ d₁ content).trans (mkdir_file_iff hroot hmkdir content)

/-- A row of another database is not, where there was nothing before. -/
theorem own_of_checksOut (hobject : s.objects row.objectKey = some object)
    (hbuilt : object.BuiltFor row.objectKey.databaseId)
    (hkey : row.objectKey.text.endsWith ".tar.gz" = true) (h : ChecksOut s row) : row.Own := by
  obtain ⟨x, harchive, hx⟩ := hbuilt
  by_contra hnot
  have habsent : get ([] ++ [row.tenantId] ++ [row.databaseId]) (some (.dir [])) = none :=
    get_cons_empty _ _
  obtain ⟨d₁, hmkdir⟩ := mkdir_of_empty ([] ++ [row.tenantId] ++ [row.databaseId])
  have hmade := get_mkdir_of_none ⟨[], rfl⟩ hmkdir habsent
  obtain ⟨there, hthere⟩ : IsDir (get ([] ++ [row.tenantId]) d₁) := by
    by_contra hno
    rw [get_append, get_cons_of_not_isDir hno] at hmade
    cases hmade
  have hname : there.lookup row.databaseId = some (.dir []) := by
    rwa [get_append, hthere] at hmade
  have hfree : there.lookup row.objectKey.databaseId = none := by
    have hkept : get ([] ++ [row.tenantId] ++ [row.objectKey.databaseId]) d₁ = none := by
      rw [get_of_mkdir ⟨[], rfl⟩ hmkdir fun hbelow => hnot ?_]
      · exact get_cons_empty _ _
      · show row.objectKey.databaseId = row.databaseId
        simpa using hbelow
    rwa [get_append, hthere] at hkept
  have hdistinct : DistinctEntries [(row.objectKey.databaseId, .dir [(dataKuzu, x)])] :=
    distinctEntries_singleton (distinctEntries_singleton hx)
  have hmembers : ((.ok (), put ([] ++ [row.tenantId])
      (some (.dir (there ++ [(row.objectKey.databaseId, .dir [(dataKuzu, x)])]))) d₁) :
        Outcome Unit) ∈ extractMembers ([] ++ [row.tenantId])
          [(row.objectKey.databaseId, .dir [(dataKuzu, x)])] true d₁ :=
    (mem_extractMembers_iff _ hdistinct hthere (List.forall_mem_singleton.2 hfree)).2 rfl
  have hchecked := h [] (.ok true) (.ok true) [] (some (.dir [])) _ _ ⟨[], rfl⟩ habsent
    ((mem_ensureLocalDb_iff rfl rfl habsent).2
      ⟨rfl, mem_checkout_ok_iff.2 ⟨rfl, ⟨true, rfl⟩, object,
      hobject, (mem_materialize_iff hkey harchive).2 ⟨d₁, hmkdir, hmembers⟩⟩⟩)
  obtain ⟨object', y, -, -, hy⟩ := hchecked.1
  rw [get_of_mem_extractMembers_other hx hthere hname hfree hmembers] at hy
  cases hy

/-- In every run, the rows that are checked out to their places are those of their own databases. -/
theorem checksOut_iff_own (h : Runs.run step init actions = some s) (hrow : row ∈ s.rows) :
    ChecksOut s row ↔ row.Own := by
  obtain ⟨object, hobject, hbuilt, hkey⟩ := exists_object h hrow
  exact ⟨own_of_checksOut hobject hbuilt hkey, checksOut_of_own hobject hbuilt hkey⟩

/-- **A registered snapshot is checked out to its place, and nowhere else, exactly when its row is
of the database its archive was made of**, in every state of every run; and all of them are exactly
as long as no branch is created. -/
theorem always_checksOut_iff (actions : List Action) :
    Runs.Always step (fun s => ∀ row ∈ s.rows, (ChecksOut s row ↔ row.Own)) init actions ∧
      (Runs.Always step (fun s => ∀ row ∈ s.rows, ChecksOut s row) init actions ↔
        Runs.EachStep step (fun _ a _ => ¬ a.IsBranch) init actions) :=
  always_iff_of_own (fun _ _ _ hrun hrow => checksOut_iff_own hrun hrow) actions

end Rows

/-- The row of a branch is checked out to the place of its source. -/
theorem not_checksOut_branchRun : ¬ ∀ actions,
    Runs.Always step (fun s => ∀ row ∈ s.rows, ChecksOut s row) init actions := by
  intro hall
  obtain ⟨s, row, h, hrow, hnot⟩ := exists_not_own_branchRun
  exact hnot ((checksOut_iff_own h hrow).1 (hall branchRun branchRun List.prefix_rfl s h row hrow))

end KuzuEventBus.Service.Checkout
