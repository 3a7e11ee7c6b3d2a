import KuzuEventBus.Lib.FileErrors
import KuzuEventBus.Service.PitrFiles
import KuzuEventBus.Service.SnapshotRows

/-!
# What a restore to a point in time rejects

`_restore_snapshot` goes through with an archive only when the one directory at its top has the name
of the directory it is restored to, which is the id of the database.  The archive of a snapshot has
the id of the database it was made of, and a branch is given a row for the archive of its source.

## Main definitions

* `IsRejection` — the exceptions of the validation.
* `Accepts` — no restore to a directory rejects the archive.
* `Restorable` — no restore of the snapshot of a row to the path of its database rejects it.

## Main results

* `accepts_iff` — **an archive is accepted exactly when the checks find its database.**
* `always_restorable_iff` — **a registered snapshot is restorable exactly when its row is of the
  database its archive was made of**, in every state of every run.
-/

namespace KuzuEventBus.Service.PitrLayout

open FileTree FileOps SnapshotFiles PitrFiles SnapshotRows

/-! ### Exceptions -/

/-- The exceptions of the validation. -/
def IsRejection (e : String) : Prop := ∃ rest, e = "ValueError: Invalid snapshot" ++ rest

/-- **No restore of the archive to the directory rejects it**, whatever is on the disk, unless the
system fails. -/
def Accepts (download : Download) (targetDir : FilePath) : Prop :=
  ∀ backupStamp stageStamp tmpName d, OnlyRaises (fun e => ¬ IsRejection e)
    (restoreSnapshot download backupStamp stageStamp tmpName (targetDir ++ [dataKuzu])) d

/-- The snapshot of a row as it is downloaded. -/
def downloadOf (row : SnapshotRows.Row) (object : Object) : Download :=
  ⟨row.objectKey.text, object.data, object.archive⟩

/-- **No restore of the snapshot of the row to `<base>/<tenant>/<database_id>/data.kuzu` rejects
it.** -/
def Restorable (s : State) (row : SnapshotRows.Row) : Prop :=
  ∀ object, s.objects row.objectKey = some object →
    ∀ base, Accepts (downloadOf row object) (base ++ [row.tenantId] ++ [row.databaseId])

section Validation

variable {parent tmpDir targetDir : FilePath} {dirName tmpName backupStamp stageStamp : String}
  {d d' : Disk} {download : Download} {entries : Entries} {e : String} {x : FileTree}

theorem head?_of_isRejection (h : IsRejection e) : e.toList.head? = some 'V' := by
  obtain ⟨rest, rfl⟩ := h
  rw [String.toList_append]
  rfl

/-- The exceptions of the operations are none of the validation. -/
theorem not_isRejection_of_mem (h : e ∈ systemErrors) : ¬ IsRejection e := by
  intro hrejection
  have hhead : ∀ e ∈ systemErrors, e.toList.head? ≠ some 'V' := by decide +kernel
  exact hhead e h (head?_of_isRejection hrejection)

/-- An operation rejects nothing. -/
theorem onlyRaises_perform {α : Type} {op : FileOp α} (h : RaisesSystem op) (d : Disk) :
    OnlyRaises (fun e => ¬ IsRejection e) (perform op) d :=
  h.perform.mono fun _ => not_isRejection_of_mem

/-! ### The run of the validation -/

/-- Looking which entries are directories changes nothing. -/
theorem directoriesOf_run (h : get tmpDir d = some (.dir entries)) (names : List String) :
    directoriesOf tmpDir names false d = [(.ok (names.filter (isDirIn entries)), d)] := by
  induction names with
  | nil => rfl
  | cons name names ih =>
    unfold directoriesOf
    rw [bind_of_ok (perform_sure (isDirectory_child h name)), bind_of_ok ih, List.filter_cons]
    rfl

/-- An archive whose database is found passes the checks. -/
theorem checkLayout_run (h : get tmpDir d = some (.dir entries))
    (hx : checkedDatabase dirName (.readable entries true) = some x) :
    checkLayout tmpDir dirName (topLevelDirs entries) false d =
      [(.ok (tmpDir ++ [dirName]), d)] := by
  obtain ⟨entries', sub, heq, hsingle, hsub, hdatabase⟩ := checkedDatabase_eq_some hx
  cases heq
  have hfound : (get (tmpDir ++ [dirName] ++ [dataKuzu]) d).isSome = true := by
    rw [get_append, get_append, h, get_cons_dir, get_nil, hsub, get_cons_dir, get_nil, hdatabase]
    rfl
  rw [hsingle]
  unfold checkLayout checkDataKuzu
  dsimp only
  rw [if_pos rfl, bind_of_ok (perform_sure (pathExists_run hfound)), if_pos rfl]
  rfl

/-- Any other archive is rejected. -/
theorem checkLayout_rejects (h : get tmpDir d = some (.dir entries))
    (hnone : checkedDatabase dirName (.readable entries true) = none) :
    ∃ e, IsRejection e ∧
      checkLayout tmpDir dirName (topLevelDirs entries) false d = [(.error e, d)] := by
  have hlayout : ∃ e, IsRejection e ∧ ∀ d, (raise
      "ValueError: Invalid snapshot layout: expected a single top-level directory" : FileM FilePath)
        false d = [(.error e, d)] :=
    ⟨_, ⟨" layout: expected a single top-level directory", rfl⟩, fun _ => rfl⟩
  obtain ⟨e, he, hraise⟩ := hlayout
  rcases hdirs : topLevelDirs entries with _ | ⟨name, _ | ⟨name', names⟩⟩
  · exact ⟨e, he, hraise d⟩
  · unfold checkLayout
    dsimp only
    by_cases hname : name = dirName
    · subst hname
      have hmissing : (get (tmpDir ++ [name] ++ [dataKuzu]) d).isSome = false := by
        unfold checkedDatabase at hnone
        dsimp only at hnone
        rw [hdirs, if_pos rfl] at hnone
        rw [List.append_assoc, get_append, h, List.singleton_append, hnone]
        rfl
      rw [if_pos rfl]
      refine ⟨_, ⟨": 'data.kuzu' not found in /" ++ "/".intercalate (tmpDir ++ [name]), ?_⟩,
        (bind_of_ok (perform_sure (pathExists_run hmissing))).trans rfl⟩
      rw [← String.append_assoc]
      rfl
    · rw [if_neg hname]
      refine ⟨_, ⟨" root directory: expected '" ++ dirName ++ "', got '" ++ name ++ "'", ?_⟩, rfl⟩
      simp only [← String.append_assoc]
      rfl
  · exact ⟨e, he, hraise d⟩

/-! ### The run of the restore -/

/-- The removal of the workspace rejects nothing. -/
theorem onlyRaises_removeExisting (p : FilePath) (d : Disk) :
    OnlyRaises (fun e => ¬ IsRejection e) (removeExisting p) d := by
  unfold removeExisting
  refine OnlyRaises.bind (onlyRaises_perform (raisesSystem_pathExists p) d) fun there d' _ => ?_
  cases there with
  | true => exact onlyRaises_perform (raisesSystem_rmtree p) d'
  | false => exact OnlyRaises.pure ()

/-- Nor do the renames. -/
theorem onlyRaises_swapDirectory (sourceDir targetDir backupDir stagedDir : FilePath) (d : Disk) :
    OnlyRaises (fun e => ¬ IsRejection e) (swapDirectory sourceDir targetDir backupDir stagedDir)
      d := by
  unfold swapDirectory
  refine OnlyRaises.bind (onlyRaises_perform (raisesSystem_mkdir _) d) fun _ d₁ _ => ?_
  refine OnlyRaises.bind (onlyRaises_perform (raisesSystem_replace _ _) d₁) fun _ d₂ _ => ?_
  refine OnlyRaises.bind ?_ fun _ d₃ _ => onlyRaises_perform (raisesSystem_replace _ _) d₃
  unfold backUp
  refine OnlyRaises.bind (onlyRaises_perform (raisesSystem_pathExists _) d₂) fun there d₃ _ => ?_
  cases there with
  | true => exact onlyRaises_perform (raisesSystem_replace _ _) d₃
  | false => exact OnlyRaises.pure ()

/-- A workspace that is made is in a directory. -/
theorem mkdtemp_ok (h : (.ok tmpDir, d') ∈ perform (mkdtemp parent tmpName) false d) :
    IsDir (get parent d) ∧ tmpDir = parent ++ [tmpName] ∧ d' = withWorkspace parent tmpName d := by
  rw [perform_run, List.mem_singleton] at h
  unfold mkdtemp at h
  split at h
  · next entries hentries =>
    split at h
    · cases h
    · cases h
      exact ⟨⟨entries, hentries⟩, rfl, rfl⟩
  · cases h

/-- The archive is extracted and looked at, and the checks decide what follows. -/
theorem replaceDatabase_run (hkey : download.objectKey.endsWith ".tar.gz" = true)
    (harchive : download.archive = .readable entries true)
    (hparent : IsDir (get (parent ++ [dirName]) d)) :
    replaceDatabase download backupStamp stageStamp (parent ++ [dirName] ++ [tmpName])
        (parent ++ [dirName] ++ [dataKuzu]) false (withWorkspace (parent ++ [dirName]) tmpName d) =
      (checkLayout (parent ++ [dirName] ++ [tmpName]) dirName (topLevelDirs entries)
        >>= fun sourceDir =>
        swapDirectory sourceDir (parent ++ [dirName])
          (withNameSuffix (parent ++ [dirName]) (".pitr_bak_" ++ backupStamp))
          (withNameSuffix (parent ++ [dirName]) (".pitr_stage_" ++ stageStamp))) false
        (withFiles (parent ++ [dirName]) tmpName entries d) := by
  have hworkspace : get (parent ++ [dirName] ++ [tmpName])
      (withFiles (parent ++ [dirName]) tmpName entries d) = some (.dir entries) :=
    get_workspace hparent
  unfold replaceDatabase replaceDirectory
  rw [if_pos hkey, harchive, List.dropLast_concat,
    bind_of_ok (perform_sure (extractall_run (parent ++ [dirName]) tmpName entries d)),
    bind_of_ok (perform_sure (iterdir_run hworkspace)),
    bind_of_ok (directoriesOf_run hworkspace _), List.getLast?_concat, Option.getD_some]
  rfl

/-- An archive whose database is found is not rejected. -/
theorem accepts_of_isSome (hkey : download.objectKey.endsWith ".tar.gz" = true)
    (harchive : download.archive = .readable entries true)
    (hx : checkedDatabase dirName (.readable entries true) = some x) :
    Accepts download (parent ++ [dirName]) := by
  intro backupStamp stageStamp tmpName d
  unfold restoreSnapshot
  rw [List.dropLast_concat]
  refine OnlyRaises.bind (onlyRaises_perform (raisesSystem_mkdir _) d) fun _ d₁ _ => ?_
  refine OnlyRaises.bind (onlyRaises_perform (raisesSystem_mkdtemp _ _) d₁) fun tmpDir d₂ h₂ => ?_
  obtain ⟨hparent, rfl, rfl⟩ := mkdtemp_ok h₂
  refine OnlyRaises.finallyDo ?_ (onlyRaises_removeExisting _)
  unfold OnlyRaises
  rw [replaceDatabase_run hkey harchive hparent,
    bind_of_ok (checkLayout_run (get_workspace hparent) hx)]
  exact onlyRaises_swapDirectory _ _ _ _ _

/-- Any other archive is, also where there was nothing before. -/
theorem exists_isRejection (hkey : download.objectKey.endsWith ".tar.gz" = true)
    (harchive : download.archive = .readable entries true)
    (hnone : checkedDatabase dirName (.readable entries true) = none) (parent : FilePath)
    (backupStamp stageStamp tmpName : String) :
    ∃ o ∈ restoreSnapshot download backupStamp stageStamp tmpName
        (parent ++ [dirName] ++ [dataKuzu]) false (some (.dir [])),
      ∃ e, o.1 = .error e ∧ IsRejection e := by
  obtain ⟨d₁, hmkdir⟩ := mkdir_of_empty (parent ++ [dirName])
  have hparent : IsDir (get (parent ++ [dirName]) d₁) := isDir_of_mkdir ⟨[], rfl⟩ hmkdir
  have hfree : get (parent ++ [dirName] ++ [tmpName]) d₁ = none := by
    have hmem : d₁ ∈ disks (mkdir (parent ++ [dirName])) (some (.dir [])) := by
      unfold disks
      rw [hmkdir]
      exact List.mem_cons_self
    rw [get_of_mem_mkdir (parent ++ [dirName]) tmpName [] hmem, List.append_assoc]
    cases parent with
    | nil => exact get_cons_empty _ _
    | cons name p => exact get_cons_empty _ _
  have hmkdtemp : (mkdtemp (parent ++ [dirName]) tmpName d₁).1 =
      (.ok (parent ++ [dirName] ++ [tmpName]), withWorkspace (parent ++ [dirName]) tmpName d₁) := by
    rw [mkdtemp_of_none hparent hfree]
  have hworkspace : get (parent ++ [dirName] ++ [tmpName])
      (withFiles (parent ++ [dirName]) tmpName entries d₁) = some (.dir entries) :=
    get_workspace hparent
  obtain ⟨e, he, hrejects⟩ := checkLayout_rejects hworkspace hnone
  have hbody : replaceDatabase download backupStamp stageStamp (parent ++ [dirName] ++ [tmpName])
      (parent ++ [dirName] ++ [dataKuzu]) false (withWorkspace (parent ++ [dirName]) tmpName d₁) =
        [(.error e, withFiles (parent ++ [dirName]) tmpName entries d₁)] :=
    (replaceDatabase_run hkey harchive hparent).trans (bind_of_error hrejects)
  -- the workspace is there, and is removed
  have hremoved : removeExisting (parent ++ [dirName] ++ [tmpName]) false
      (withFiles (parent ++ [dirName]) tmpName entries d₁) =
        [(.ok (), put (parent ++ [dirName] ++ [tmpName]) none
          (withFiles (parent ++ [dirName]) tmpName entries d₁))] := by
    have hrmtree : (rmtree (parent ++ [dirName] ++ [tmpName])
        (withFiles (parent ++ [dirName]) tmpName entries d₁)).1 =
          (.ok (), put (parent ++ [dirName] ++ [tmpName]) none
            (withFiles (parent ++ [dirName]) tmpName entries d₁)) := by
      unfold rmtree
      rw [hworkspace]
    exact (bind_of_ok (perform_sure (pathExists_run (congrArg Option.isSome hworkspace)))).trans
      (perform_sure hrmtree)
  have hrun : restoreSnapshot download backupStamp stageStamp tmpName
      (parent ++ [dirName] ++ [dataKuzu]) false (some (.dir [])) =
        [(.error e, put (parent ++ [dirName] ++ [tmpName]) none
          (withFiles (parent ++ [dirName]) tmpName entries d₁))] := by
    unfold restoreSnapshot
    rw [List.dropLast_concat, bind_of_ok (perform_sure hmkdir), bind_of_ok (perform_sure hmkdtemp)]
    exact finallyDo_of_eq hbody hremoved
  rw [hrun]
  exact ⟨_, List.mem_singleton_self _, e, rfl, he⟩

/-- **An archive is accepted exactly when the checks find its database.** -/
theorem accepts_iff (hkey : download.objectKey.endsWith ".tar.gz" = true)
    (harchive : download.archive = .readable entries true) :
    Accepts download (parent ++ [dirName]) ↔
      (checkedDatabase dirName (.readable entries true)).isSome := by
  constructor
  · intro haccepts
    by_contra hnot
    obtain ⟨o, ho, e, hoe, he⟩ := exists_isRejection hkey harchive
      (Option.not_isSome_iff_eq_none.1 hnot) parent "20250101T000000Z" "20250101T000000Z"
        "pitr_restore_0"
    exact haccepts _ _ _ _ o ho e hoe he
  · intro hsome
    obtain ⟨x, hx⟩ := Option.isSome_iff_exists.1 hsome
    exact accepts_of_isSome hkey harchive hx

/-- The database of an archive with one directory is found under the name of the directory. -/
theorem isSome_checkedDatabase_iff {root : String} :
    (checkedDatabase dirName (.readable [(root, .dir [(dataKuzu, x)])] true)).isSome ↔
      root = dirName := by
  have hdirs : topLevelDirs [(root, .dir [(dataKuzu, x)])] = [root] := by
    simp [topLevelDirs, isDirIn]
  unfold checkedDatabase
  dsimp only
  rw [hdirs]
  by_cases hroot : root = dirName
  · subst hroot
    simp
  · simp [hroot]

end Validation

/-! ### Registered snapshots -/

section Rows

variable {actions : List Action} {s : State} {row : SnapshotRows.Row}

/-- A snapshot is restorable when its object was made for the database of its row. -/
theorem restorable_iff_of_builtFor {object : Object}
    (hobject : s.objects row.objectKey = some object)
    (hbuilt : object.BuiltFor row.objectKey.databaseId)
    (hkey : row.objectKey.text.endsWith ".tar.gz" = true) : Restorable s row ↔ row.Own := by
  obtain ⟨x, harchive, -⟩ := hbuilt
  have haccepts : ∀ base, Accepts (downloadOf row object)
      (base ++ [row.tenantId] ++ [row.databaseId]) ↔ row.Own := by
    intro base
    exact Iff.trans (accepts_iff hkey harchive) isSome_checkedDatabase_iff
  constructor
  · intro hrestorable
    exact (haccepts []).1 (hrestorable object hobject [])
  · intro hown object' hobject' base
    rw [hobject] at hobject'
    cases hobject'
    exact (haccepts base).2 hown

/-- In every run, the rows that are restorable are those of their own databases. -/
theorem restorable_iff_own (h : Runs.run step init actions = some s) (hrow : row ∈ s.rows) :
    Restorable s row ↔ row.Own := by
  obtain ⟨object, hobject, hbuilt, hkey⟩ := exists_object h hrow
  exact restorable_iff_of_builtFor hobject hbuilt hkey

/-- **A registered snapshot is restorable exactly when its row is of the database its archive was
made of**, in every state of every run; and all of them are exactly as long as no branch is created.
-/
theorem always_restorable_iff (actions : List Action) :
    Runs.Always step (fun s => ∀ row ∈ s.rows, (Restorable s row ↔ row.Own)) init actions ∧
      (Runs.Always step (fun s => ∀ row ∈ s.rows, Restorable s row) init actions ↔
        Runs.EachStep step (fun _ a _ => ¬ a.IsBranch) init actions) :=
  always_iff_of_own (fun _ _ _ hrun hrow => restorable_iff_own hrun hrow) actions

end Rows

/-- The row of a branch is not restorable. -/
theorem not_restorable_branchRun : ¬ ∀ actions,
    Runs.Always step (fun s => ∀ row ∈ s.rows, Restorable s row) init actions := by
  intro hall
  obtain ⟨s, row, h, hrow, hnot⟩ := exists_not_own_branchRun
  exact hnot ((restorable_iff_own h hrow).1 (hall branchRun branchRun List.prefix_rfl s h row hrow))

end KuzuEventBus.Service.PitrLayout
