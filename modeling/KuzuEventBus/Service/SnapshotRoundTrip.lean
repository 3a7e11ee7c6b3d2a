import KuzuEventBus.Service.SnapshotFiles

/-!
# From a database to its snapshot, and back

What `CreateDatabaseSnapshot` does with files.  The snapshot is of the path of the database, or of
`data.kuzu` in the directory there, and is an archive with `data.kuzu` in a directory of the id; it
is restored to the path itself.

What the engine leaves at a path where it opens a new database is a parameter.  The directory in
which the archive is made is not removed: the removal raises `NameError`, which is passed over.

## Main definitions

* `copyDatabaseToArchive`, `createSnapshot` — the copy, and the use case.
* `databaseAt` — the database at a path, as a snapshot finds it.
* `Restored` — a restore without failures returns, and the database is the one of the snapshot.
* `Fits` — file goes to file, or directory to directory.

## Main results

* `createSnapshot_ok` — the archive of a snapshot.
* `restored_iff` — **a snapshot is restored exactly when it fits what is at the path.**
-/

namespace KuzuEventBus.Service.SnapshotFiles

open FileTree FileOps

/-! ### Taking a snapshot -/

/-- `shutil.copytree` of a directory, `shutil.copy2` of a file. -/
def copyDatabase (source target : FilePath) : FileM Unit := do
  let isDir ← perform (isDirectory source)
  if isDir then perform (copytree source target) else perform (copy2 source target)

/-- `copy_database_to_archive`. -/
def copyDatabaseToArchive (sourcePath destDir : FilePath) (normalizeName : String) :
    FileM FilePath := do
  perform (mkdir destDir)
  copyDatabase sourcePath (destDir ++ [normalizeName])
  pure (destDir ++ [normalizeName])

/-- The normalisation of the path: `data.kuzu` in the directory, when it is there. -/
def normalizePath (filePath : FilePath) : FileM FilePath := do
  let isDir ← perform (isDirectory filePath)
  if isDir then do
    let there ← perform (pathExists (filePath ++ [dataKuzu]))
    pure (if there then filePath ++ [dataKuzu] else filePath)
  else pure filePath

/-- A database that is not there is opened, which makes it. -/
def openMissing (kuzuDatabase : FilePath → FileOp Unit) (p : FilePath) : FileM Unit := do
  let there ← perform (pathExists p)
  if there then pure ()
  else do
    perform (mkdir p.dropLast)
    perform (kuzuDatabase p)

/-- `tar.add`. -/
def tarAdd (rootDir : FilePath) (arcname : String) : FileOp Archive := look fun d =>
  match get rootDir d with
  | some x => .ok (.readable [(arcname, x)] true)
  | none => .error "FileNotFoundError"

/-- `CreateDatabaseSnapshotUseCase.execute`, from the path to the archive. -/
def createSnapshot (kuzuDatabase : FilePath → FileOp Unit) (tmp : FilePath)
    (tmpName databaseId : String) (filePath : FilePath) : FileM Archive := do
  let p ← normalizePath filePath
  openMissing kuzuDatabase p
  let tmpParent ← perform (mkdtemp tmp tmpName)
  let _ ← copyDatabaseToArchive p (tmpParent ++ [databaseId]) dataKuzu
  perform (tarAdd (tmpParent ++ [databaseId]) databaseId)

/-! ### What is asked for -/

/-- The database in what is at a path: `data.kuzu` in a directory, when it is there. -/
def databaseAt : Option FileTree → Option FileTree
  | some (.dir entries) =>
    match entries.lookup dataKuzu with
    | some x => some x
    | none => some (.dir entries)
  | t => t

/-- **A restore without failures returns, and the database at the path is the one of the snapshot.**
-/
def Restored (download : Download) (tmpName : String) (filePath : FilePath) (x : FileTree)
    (d : Disk) : Prop :=
  ∃ d', restoreDatabase download tmpName filePath false d = [(.ok (), d')] ∧
    databaseAt (get filePath d') = some x

/-- A file goes over a file or nothing, at the path or in the directory there; a directory goes over
a directory or nothing, and holds no `data.kuzu` of its own. -/
def Fits (x : FileTree) (t : Option FileTree) : Prop :=
  match x with
  | .file _ => ¬ IsDir (copiedOver t)
  | .dir entries => entries.lookup dataKuzu = none ∧ ∀ content, t ≠ some (.file content)

/-! ### The archive of a snapshot -/

section Taking

variable {kuzuDatabase : FilePath → FileOp Unit} {tmp filePath p : FilePath}
  {tmpName databaseId : String} {x : FileTree} {d d' : Disk} {archive : Archive}

/-- What an operation that only looks has seen, when failures do not matter. -/
theorem triple_look {α : Type} {P : Disk → Prop} (f : Disk → Except String α) :
    Triple P (perform (look f)) (fun a d => f d = .ok a ∧ P d) (fun _ => True) :=
  (Triple.perform_look_eq f).conseq (fun _ hd => hd) (fun _ _ hd => hd) fun _ _ => trivial

theorem databaseAt_dir (entries : Entries) :
    databaseAt (some (.dir entries)) = some ((entries.lookup dataKuzu).getD (.dir entries)) := by
  unfold databaseAt
  dsimp only
  cases entries.lookup dataKuzu <;> rfl

/-- The snapshot is of the database at the path. -/
theorem triple_normalizePath :
    Triple (fun d => databaseAt (get filePath d) = some x) (normalizePath filePath)
      (fun p d => get p d = some x ∧ filePath <+: p) (fun _ => True) := by
  unfold normalizePath
  refine Triple.bind (triple_look _) fun isDir => ?_
  cases isDir with
  | false =>
    rw [if_neg Bool.false_ne_true]
    refine Triple.ret fun d hd => ⟨?_, List.prefix_rfl⟩
    obtain ⟨hisDir, hx⟩ := hd
    rcases ht : get filePath d with _ | (content | entries)
    · rwa [ht] at hx
    · rwa [ht] at hx
    · rw [ht] at hisDir
      cases hisDir
  | true =>
    rw [if_pos rfl]
    refine Triple.bind (triple_look _) fun there => ?_
    refine Triple.ret fun d hd => ?_
    obtain ⟨hthere, hisDir, hx⟩ := hd
    rcases ht : get filePath d with _ | (content | entries)
    · rw [ht] at hisDir
      cases hisDir
    · rw [ht] at hisDir
      cases hisDir
    · rw [ht, databaseAt_dir] at hx
      have hchild : get (filePath ++ [dataKuzu]) d = entries.lookup dataKuzu := by
        rw [get_append, ht]
        rfl
      rw [hchild] at hthere
      cases hlookup : entries.lookup dataKuzu with
      | some y =>
        rw [hlookup] at hthere hx
        cases hthere
        rw [Option.isSome_some, if_pos rfl, hchild, hlookup]
        exact ⟨hx, List.prefix_append _ _⟩
      | none =>
        rw [hlookup] at hthere hx
        cases hthere
        rw [Option.isSome_none, if_neg Bool.false_ne_true, ht]
        exact ⟨hx, List.prefix_rfl⟩

/-- A database that is there is not opened. -/
theorem triple_openMissing :
    Triple (fun d => get p d = some x) (openMissing kuzuDatabase p)
      (fun _ d => get p d = some x) (fun _ => True) := by
  unfold openMissing
  refine Triple.bind (triple_look _) fun there => ?_
  cases there with
  | true => exact Triple.ret fun d hd => hd.2
  | false =>
    rintro d ⟨hthere, hx⟩
    rw [hx] at hthere
    cases hthere

/-- The directory of the archive is empty, and lies apart from the database. -/
theorem triple_mkdtemp_apart (hplace : ¬ p <+: tmp ++ [tmpName]) :
    Triple (fun d => get p d = some x) (perform (mkdtemp tmp tmpName))
      (fun tmpParent d => Apart tmpParent p ∧ get p d = some x ∧
        get tmpParent d = some (.dir [])) (fun _ => True) := by
  refine Triple.perform fun d hd => ⟨?_, fun _ _ => trivial⟩
  unfold mkdtemp
  split
  · next entries hentries =>
    split
    · exact trivial
    · next hfree =>
      have hnone : get (tmp ++ [tmpName]) d = none := by
        rw [get_append, hentries]
        exact Option.not_isSome_iff_eq_none.1 hfree
      have hapart : Apart (tmp ++ [tmpName]) p := by
        refine ⟨?_, hplace⟩
        -- nothing lies in a directory that is not there yet
        rintro ⟨rest, rfl⟩
        rw [get_append, hnone, get_none] at hd
        cases hd
      exact ⟨hapart, (get_put_of_apart hapart _ d).trans hd,
        get_put_self ⟨entries, hentries⟩ tmpName _⟩
  · exact trivial

/-- The database is in the directory of the archive, under the name `data.kuzu`. -/
theorem triple_copyDatabase {dir : FilePath} (hapart : ¬ dir <+: p) :
    Triple (fun d => get p d = some x ∧ get dir d = some (.dir []))
      (copyDatabase p (dir ++ [dataKuzu]))
      (fun _ d => get dir d = some (.dir [(dataKuzu, x)])) (fun _ => True) := by
  have hparent : ∀ d, get dir d = some (.dir []) → IsDir (get (dir ++ [dataKuzu]).dropLast d) := by
    intro d hdir
    rw [List.dropLast_concat]
    exact ⟨[], hdir⟩
  unfold copyDatabase
  refine Triple.bind (triple_look _) fun isDir => ?_
  cases isDir with
  | true =>
    rw [if_pos rfl]
    refine Triple.perform fun d hd => ⟨?_, fun _ _ => trivial⟩
    obtain ⟨hisDir, hx, hdir⟩ := hd
    rw [hx] at hisDir
    cases x with
    | file content => cases hisDir
    | dir entries =>
      rw [copytree_of_none hx (get_in_empty hdir _) (hparent d hdir)]
      exact get_put_in_empty hdir _ _
  | false =>
    rw [if_neg Bool.false_ne_true]
    refine Triple.perform fun d hd => ⟨?_, fun _ _ => trivial⟩
    obtain ⟨hisDir, hx, hdir⟩ := hd
    rw [hx] at hisDir
    cases x with
    | dir entries => cases hisDir
    | file content =>
      have htarget : copyTarget p (dir ++ [dataKuzu]) d = dir ++ [dataKuzu] := by
        unfold copyTarget
        rw [get_in_empty hdir _]
      have hne : p ≠ dir ++ [dataKuzu] := by
        rintro rfl
        exact hapart (List.prefix_append _ _)
      have hcopy : copy2 p (dir ++ [dataKuzu]) d = writeBytes (dir ++ [dataKuzu]) content d := by
        unfold copy2
        rw [hx]
        dsimp only
        rw [htarget, if_neg hne]
      rw [hcopy, writeBytes_of_not_isDir ?_ (hparent d hdir)]
      · exact get_put_in_empty hdir _ _
      · rw [get_in_empty hdir _]
        rintro ⟨entries, hentries⟩
        cases hentries

/-- The copy is in a directory of its own. -/
theorem triple_copyDatabaseToArchive {tmpParent : FilePath}
    (hapart : Apart tmpParent p) :
    Triple (fun d => get p d = some x ∧ get tmpParent d = some (.dir []))
      (copyDatabaseToArchive p (tmpParent ++ [databaseId]) dataKuzu)
      (fun _ d => get (tmpParent ++ [databaseId]) d = some (.dir [(dataKuzu, x)]))
      (fun _ => True) := by
  unfold copyDatabaseToArchive
  have hmkdir : Triple (fun d => get p d = some x ∧ get tmpParent d = some (.dir []))
      (perform (mkdir (tmpParent ++ [databaseId])))
      (fun _ d => get p d = some x ∧ get (tmpParent ++ [databaseId]) d = some (.dir []))
      (fun _ => True) := by
    refine Triple.perform fun d hd => ⟨?_, fun _ _ => trivial⟩
    obtain ⟨hp, htmp⟩ := hd
    have hnone : get (tmpParent ++ [databaseId]) d = none := by
      rw [get_append, htmp]
      rfl
    rw [mkdir_child databaseId ⟨[], htmp⟩ hnone]
    exact ⟨(get_put_of_apart (hapart.append _) _ d).trans hp,
      get_put_self ⟨[], htmp⟩ databaseId _⟩
  refine Triple.bind hmkdir fun _ =>
    Triple.bind (triple_copyDatabase (hapart.append [databaseId]).1) fun _ => ?_
  exact Triple.ret fun _ hd => hd

/-- **The archive of a snapshot** holds the database, in a directory of the id. -/
theorem createSnapshot_ok (hx : databaseAt (get filePath d) = some x)
    (hplace : ¬ filePath <+: tmp ++ [tmpName])
    (h : (.ok archive, d') ∈ createSnapshot kuzuDatabase tmp tmpName databaseId filePath true d) :
    archive = .readable [(databaseId, .dir [(dataKuzu, x)])] true := by
  have htriple : Triple (fun d => databaseAt (get filePath d) = some x)
      (createSnapshot kuzuDatabase tmp tmpName databaseId filePath)
      (fun archive _ => archive = .readable [(databaseId, .dir [(dataKuzu, x)])] true)
      (fun _ => True) := by
    unfold createSnapshot
    refine Triple.bind triple_normalizePath fun p => ?_
    rintro d ⟨hp, hbelow⟩
    have hplace' : ¬ p <+: tmp ++ [tmpName] := fun h => hplace (hbelow.trans h)
    refine Triple.bind triple_openMissing (fun _ => ?_) d hp
    refine Triple.bind (triple_mkdtemp_apart hplace') fun tmpParent => ?_
    rintro d ⟨hapart, hp, htmp⟩
    refine Triple.bind (triple_copyDatabaseToArchive hapart) (fun _ => ?_) d ⟨hp, htmp⟩
    refine (triple_look _).conseq (fun d hd => hd) ?_ fun _ hd => hd
    rintro archive d ⟨harchive, hd⟩
    rw [hd] at harchive
    cases harchive
    rfl
  exact htriple d hx _ h

end Taking

/-! ### The restore of an archive -/

section Restoring

variable {parent source : FilePath} {name tmpName : String} {t : Option FileTree} {d d₁ d₂ : Disk}
  {download : Download} {entries copied : Entries} {content : Bytes} {r : Except String Unit}

theorem cleanup_run (parent : FilePath) (hne : tmpName ≠ name) (d : Disk) :
    ∃ d', cleanup (parent ++ [tmpName]) false d = [(.ok (), d')] ∧
      get (parent ++ [name]) d' = get (parent ++ [name]) d := by
  unfold cleanup
  cases hthere : (get (parent ++ [tmpName]) d).isSome with
  | false =>
    exact ⟨d, bind_of_ok (perform_sure (pathExists_run hthere)), rfl⟩
  | true =>
    refine ⟨_, (bind_of_ok (perform_sure (pathExists_run hthere))).trans
      (suppress_of_eq (perform_run _ d)), ?_⟩
    exact (touches_rmtree _).get (apart_append parent [] [] hne) List.mem_cons_self

/-- Without failures, the copy of the database decides what the restore does. -/
theorem restoreDatabase_run (hne : tmpName ≠ name)
    (hkey : download.objectKey.endsWith ".tar.gz" = true)
    (hentries : download.archive = .readable entries true)
    (hsome : (archivedDatabase (.readable entries true)).isSome)
    (hroot : IsDir d) (hmkdir : (mkdir parent d).1 = (.ok (), d₁))
    (hfree : get (parent ++ [tmpName]) d = none)
    (hcopy : copyOver (sourceOf parent tmpName entries) (parent ++ [name]) false
      (withFiles parent tmpName entries d₁) = [(r, d₂)]) :
    ∃ d', restoreDatabase download tmpName (parent ++ [name]) false d = [(r, d')] ∧
      get (parent ++ [name]) d' = get (parent ++ [name]) d₂ := by
  have hparent : IsDir (get parent d₁) := isDir_of_mkdir hroot hmkdir
  have hfree₁ : get (parent ++ [tmpName]) d₁ = none := by
    rw [← hfree]
    refine get_of_mem_mkdir parent tmpName [] ?_
    unfold disks
    rw [hmkdir]
    exact List.mem_cons_self
  have hworkspace : get (parent ++ [tmpName]) (withFiles parent tmpName entries d₁) =
    some (.dir entries) := get_workspace hparent
  have hfound : (get (contentRoot (parent ++ [tmpName]) (entries.map Prod.fst).dedup ++
      [dataKuzu]) (withFiles parent tmpName entries d₁)).isSome = true := by
    rw [get_dbSource hworkspace, hsome]
  have hagain : (mkdir parent (withFiles parent tmpName entries d₁)).1 =
      (.ok (), withFiles parent tmpName entries d₁) := by
    rw [mkdir_of_isDir (isDir_withFiles hparent)]
  -- the copy is the last thing the extraction does
  have hextract : extractDatabaseFromArchive
      (contentRoot (parent ++ [tmpName]) (entries.map Prod.fst).dedup) (parent ++ [name]) dataKuzu
        false (withFiles parent tmpName entries d₁) = [(r.map fun _ => parent ++ [name], d₂)] := by
    unfold extractDatabaseFromArchive
    rw [bind_of_ok (perform_sure (pathExists_run hfound)), if_pos rfl, List.dropLast_concat,
      bind_of_ok (perform_sure hagain)]
    cases r with
    | error e => exact bind_of_error hcopy
    | ok u => exact bind_of_ok hcopy
  have hoverwrite : overwrite download (parent ++ [tmpName]) (parent ++ [name]) false
      (withWorkspace parent tmpName d₁) = [(r, d₂)] := by
    unfold overwrite
    rw [if_pos hkey, hentries,
      bind_of_ok (perform_sure (extractall_run parent tmpName entries d₁)),
      bind_of_ok (perform_sure (iterdir_run hworkspace))]
    cases r with
    | error e => exact bind_of_error hextract
    | ok u => exact bind_of_ok hextract
  obtain ⟨d', hcleanup, hget⟩ := cleanup_run parent hne d₂
  refine ⟨d', ?_, hget⟩
  have hmkdtemp : (mkdtemp parent tmpName d₁).1 =
      (.ok (parent ++ [tmpName]), withWorkspace parent tmpName d₁) := by
    rw [mkdtemp_of_none hparent hfree₁]
  unfold restoreDatabase
  rw [List.dropLast_concat, bind_of_ok (perform_sure hmkdir), bind_of_ok (perform_sure hmkdtemp)]
  exact finallyDo_of_eq hoverwrite hcleanup

/-- A directory goes over a directory or nothing. -/
theorem copyOver_dir_run (hapart : Apart source (parent ++ [name]))
    (hd : Staged source parent name (some (.dir copied)) t d)
    (h : ∀ content, t ≠ some (.file content)) :
    ∃ d', copyOver source (parent ++ [name]) false d = [(.ok (), d')] ∧
      get (parent ++ [name]) d' = some (.dir copied) := by
  obtain ⟨hsource, hparent, ht⟩ := hd
  have hisDir := isDirectory_of_isDir ⟨copied, hsource⟩
  unfold copyOver
  rw [bind_of_ok (perform_sure hisDir), if_pos rfl]
  rcases t with _ | (content | entries)
  · have hremove : removeExisting (parent ++ [name]) false d = [(.ok (), d)] :=
      bind_of_ok (perform_sure (pathExists_run (congrArg Option.isSome ht)))
    rw [bind_of_ok hremove, perform_run, copytree_of_none hsource ht
      (by rwa [List.dropLast_concat])]
    exact ⟨_, rfl, get_put_self hparent name _⟩
  · exact absurd rfl (h content)
  · have hremoved : (rmtree (parent ++ [name]) d).1 = (.ok (), put (parent ++ [name]) none d) := by
      unfold rmtree
      rw [ht]
    have hremove : removeExisting (parent ++ [name]) false d =
        [(.ok (), put (parent ++ [name]) none d)] :=
      (bind_of_ok (perform_sure (pathExists_run (congrArg Option.isSome ht)))).trans
        (perform_sure hremoved)
    have hparent' : IsDir (get parent (put (parent ++ [name]) none d)) :=
      isDir_put_append hparent name [] _
    rw [bind_of_ok hremove, perform_run,
      copytree_of_none ((get_put_of_apart hapart.symm _ d).trans hsource)
        (get_put_self hparent name none) (by rwa [List.dropLast_concat])]
    exact ⟨_, rfl, get_put_self hparent' name _⟩

/-- A directory does not go over a file. -/
theorem copyOver_dir_file (hd : Staged source parent name (some (.dir copied))
    (some (.file content)) d) :
    ∃ e, copyOver source (parent ++ [name]) false d = [(.error e, d)] := by
  obtain ⟨hsource, hparent, ht⟩ := hd
  have hisDir := isDirectory_of_isDir ⟨copied, hsource⟩
  have hremoved : (rmtree (parent ++ [name]) d).1 = (.error "NotADirectoryError", d) := by
    unfold rmtree
    rw [ht]
    rfl
  have hremove : removeExisting (parent ++ [name]) false d = [(.error "NotADirectoryError", d)] :=
    (bind_of_ok (perform_sure (pathExists_run (congrArg Option.isSome ht)))).trans
      (perform_sure hremoved)
  unfold copyOver
  rw [bind_of_ok (perform_sure hisDir), if_pos rfl]
  exact ⟨_, bind_of_error hremove⟩

/-- A file goes over a file or nothing, at the path or in the directory there. -/
theorem copyOver_file_run {p : FilePath} (hne : ∀ q, p ++ [dataKuzu] ≠ parent ++ name :: q)
    (hd : Staged (p ++ [dataKuzu]) parent name (some (.file content)) t d)
    (h : ¬ IsDir (copiedOver t)) :
    ∃ d', copyOver (p ++ [dataKuzu]) (parent ++ [name]) false d = [(.ok (), d')] ∧
      databaseAt (get (parent ++ [name]) d') = some (.file content) := by
  obtain ⟨q, hcopy, hover, hdrop, hq⟩ := copy2_eq hne hd
  unfold copyOver
  rw [bind_of_ok (perform_sure (isDirectory_of_file hd.1)), if_neg Bool.false_ne_true, perform_run,
    hcopy, writeBytes_of_not_isDir (by rwa [hover]) hdrop]
  refine ⟨_, rfl, ?_⟩
  rcases hq with ⟨entries, rfl, rfl⟩ | ⟨-, rfl⟩
  · rw [show parent ++ name :: [dataKuzu] = (parent ++ [name]) ++ [dataKuzu] by simp,
      get_put_append, hd.2.2, put_cons_dir, databaseAt_dir, lookup_setEntry, if_pos rfl]
    rfl
  · rw [get_put_self hd.2.1]
    rfl

/-- A file does not go over a directory. -/
theorem copyOver_file_dir {p : FilePath} (hne : ∀ q, p ++ [dataKuzu] ≠ parent ++ name :: q)
    (hd : Staged (p ++ [dataKuzu]) parent name (some (.file content)) t d)
    (h : IsDir (copiedOver t)) :
    ∃ e, copyOver (p ++ [dataKuzu]) (parent ++ [name]) false d = [(.error e, d)] := by
  obtain ⟨q, hcopy, hover, ⟨entries, hentries⟩, -⟩ := copy2_eq hne hd
  obtain ⟨entries', hentries'⟩ := h
  have hwrite : writeBytes (parent ++ name :: q) content d = refuse "IsADirectoryError" d := by
    unfold writeBytes
    rw [hentries, hover, hentries']
  unfold copyOver
  rw [bind_of_ok (perform_sure (isDirectory_of_file hd.1)), if_neg Bool.false_ne_true, perform_run,
    hcopy, hwrite]
  exact ⟨_, rfl⟩

theorem not_restored_of_error {targetPath : FilePath} {x : FileTree} {e : String}
    (h : restoreDatabase download tmpName targetPath false d = [(.error e, d₁)]) :
    ¬ Restored download tmpName targetPath x d := by
  rintro ⟨d', hrestore, -⟩
  rw [h] at hrestore
  cases hrestore

/-- **A snapshot is restored exactly when it fits what is at the path.** -/
theorem restored_iff {kuzuDatabase : FilePath → FileOp Unit} {tmp : FilePath}
    {snapshotName databaseId : String} {x : FileTree} {d₀ d₀' : Disk}
    (hsnapshot : (.ok download.archive, d₀') ∈
      createSnapshot kuzuDatabase tmp snapshotName databaseId (parent ++ [name]) true d₀)
    (hstored : databaseAt (get (parent ++ [name]) d₀) = some x)
    (hplace : ¬ parent ++ [name] <+: tmp ++ [snapshotName])
    (hkey : download.objectKey.endsWith ".tar.gz" = true) (hroot : IsDir d)
    (hmkdir : (mkdir parent d).1 = (.ok (), d₁)) (hfree : get (parent ++ [tmpName]) d = none)
    (hne : tmpName ≠ name) :
    Restored download tmpName (parent ++ [name]) x d ↔ Fits x (get (parent ++ [name]) d) := by
  have harchive := createSnapshot_ok hstored hplace hsnapshot
  have hx : archivedDatabase (.readable [(databaseId, .dir [(dataKuzu, x)])] true) = some x := by
    simp [archivedDatabase, contentRoot]
  have ht : get (parent ++ [name]) d₁ = get (parent ++ [name]) d := by
    refine get_of_mem_mkdir parent name [] ?_
    unfold disks
    rw [hmkdir]
    exact List.mem_cons_self
  generalize hfiles : [(databaseId, FileTree.dir [(dataKuzu, x)])] = entries at harchive hx
  have hd : Staged (sourceOf parent tmpName entries) parent name
      (archivedDatabase (.readable entries true)) (get (parent ++ [name]) d)
      (withFiles parent tmpName entries d₁) :=
    staged_withFiles hne (isDir_of_mkdir hroot hmkdir) ht
  rw [hx] at hd
  have hrun : ∀ r d₂, copyOver (sourceOf parent tmpName entries) (parent ++ [name]) false
        (withFiles parent tmpName entries d₁) = [(r, d₂)] →
      ∃ d', restoreDatabase download tmpName (parent ++ [name]) false d = [(r, d')] ∧
        get (parent ++ [name]) d' = get (parent ++ [name]) d₂ := fun r d₂ =>
    restoreDatabase_run hne hkey harchive (by rw [hx]; rfl) hroot hmkdir hfree
  have hapart : ∀ q, Apart (sourceOf parent tmpName entries) (parent ++ name :: q) :=
    apart_sourceOf hne
  cases x with
  | file content =>
    have hsource : ∀ q, sourceOf parent tmpName entries ≠ parent ++ name :: q := by
      intro q heq
      exact (hapart q).1 (heq ▸ List.prefix_rfl)
    by_cases hdir : IsDir (copiedOver (get (parent ++ [name]) d))
    · obtain ⟨e, hcopy⟩ := copyOver_file_dir hsource hd hdir
      obtain ⟨d', hrestore, -⟩ := hrun _ _ hcopy
      exact iff_of_false (not_restored_of_error hrestore) (not_not_intro hdir)
    · obtain ⟨d₂, hcopy, hget⟩ := copyOver_file_run hsource hd hdir
      obtain ⟨d', hrestore, hkept⟩ := hrun _ _ hcopy
      refine iff_of_true ⟨d', hrestore, ?_⟩ hdir
      rw [hkept]
      exact hget
  | dir copied =>
    by_cases hfile : ∃ content, get (parent ++ [name]) d = some (.file content)
    · obtain ⟨content, hcontent⟩ := hfile
      rw [hcontent] at hd
      obtain ⟨e, hcopy⟩ := copyOver_dir_file hd
      obtain ⟨d', hrestore, -⟩ := hrun _ _ hcopy
      exact iff_of_false (not_restored_of_error hrestore) fun h => h.2 content hcontent
    · have hfile : ∀ content, get (parent ++ [name]) d ≠ some (.file content) :=
        fun content hcontent => hfile ⟨content, hcontent⟩
      obtain ⟨d₂, hcopy, hget⟩ := copyOver_dir_run (hapart []) hd hfile
      obtain ⟨d', hrestore, hkept⟩ := hrun _ _ hcopy
      rw [hget] at hkept
      cases hlookup : copied.lookup dataKuzu with
      | none =>
        refine iff_of_true ⟨d', hrestore, ?_⟩ ⟨hlookup, hfile⟩
        rw [hkept, databaseAt_dir, hlookup]
        rfl
      | some y =>
        -- what is found at the path is the entry of the directory
        refine iff_of_false ?_ ?_
        · rintro ⟨d'', hrestore', hdatabase⟩
          rw [hrestore] at hrestore'
          cases hrestore'
          rw [hkept, databaseAt_dir, hlookup] at hdatabase
          cases hdatabase
          exact ne_dir_of_lookup hlookup rfl
        · rintro ⟨hnone, -⟩
          rw [hlookup] at hnone
          cases hnone

/-- A program that returns has an outcome that says so. -/
theorem exists_ok {α : Type} {m : FileM α} {faults : Bool} {d : Disk}
    (h : (m faults d).any (fun o => o.1.isOk) = true) : ∃ a d', (.ok a, d') ∈ m faults d := by
  obtain ⟨⟨e | a, d'⟩, ho, hok⟩ := List.any_eq_true.1 h
  · cases hok
  · exact ⟨a, d', ho⟩

/-- A directory with a database is the database of a snapshot. -/
theorem exists_createSnapshot_dir : ∃ d',
    (.ok (.readable [("db_1", .dir [(dataKuzu, .dir [("catalog.kz", .file [1])])])] true), d') ∈
      createSnapshot (fun _ => refuse "RuntimeError") [] "kuzu-snap-0" "db_1" ([] ++ [dataKuzu])
        true (some (.dir [(dataKuzu, .dir [("catalog.kz", .file [1])])])) := by
  obtain ⟨archive, d', h⟩ : ∃ archive d', (.ok archive, d') ∈
      createSnapshot (fun _ => refuse "RuntimeError") [] "kuzu-snap-0" "db_1" ([] ++ [dataKuzu])
        true (some (.dir [(dataKuzu, .dir [("catalog.kz", .file [1])])])) :=
    exists_ok (by decide +kernel)
  rw [createSnapshot_ok (by rfl) (by decide) h] at h
  exact ⟨d', h⟩

/-- The directory goes back to where nothing is left. -/
theorem restored_iff_absent :
    Restored ⟨"snapshots/snapshot-0.tar.gz", [],
        .readable [("db_1", .dir [(dataKuzu, .dir [("catalog.kz", .file [1])])])] true⟩
      "restore_0" ([] ++ [dataKuzu]) (.dir [("catalog.kz", .file [1])]) (some (.dir [])) ↔
      Fits (.dir [("catalog.kz", .file [1])]) (get ([] ++ [dataKuzu]) (some (.dir []))) := by
  obtain ⟨d', h⟩ := exists_createSnapshot_dir
  exact restored_iff h (by rfl) (by decide) (by decide +kernel) ⟨[], rfl⟩ rfl rfl (by decide)

/-- A directory is not restored where a file is. -/
theorem not_always_restored : ¬ ∀ (kuzuDatabase : FilePath → FileOp Unit) (tmp parent : FilePath)
    (snapshotName databaseId name tmpName : String) (x : FileTree) (d₀ d₀' d d₁ : Disk)
    (download : Download),
    (.ok download.archive, d₀') ∈
      createSnapshot kuzuDatabase tmp snapshotName databaseId (parent ++ [name]) true d₀ →
    databaseAt (get (parent ++ [name]) d₀) = some x → ¬ parent ++ [name] <+: tmp ++ [snapshotName] →
    download.objectKey.endsWith ".tar.gz" = true → IsDir d →
    (mkdir parent d).1 = (.ok (), d₁) → get (parent ++ [tmpName]) d = none → tmpName ≠ name →
    Restored download tmpName (parent ++ [name]) x d := by
  intro hall
  obtain ⟨d', h⟩ := exists_createSnapshot_dir
  obtain ⟨d'', hrestore, -⟩ := hall _ [] [] "kuzu-snap-0" "db_1" dataKuzu "restore_0" _ _ d'
    (some (.dir [(dataKuzu, .file [2])])) _
    ⟨"snapshots/snapshot-0.tar.gz", [],
      .readable [("db_1", .dir [(dataKuzu, .dir [("catalog.kz", .file [1])])])] true⟩
    h (by rfl) (by decide) (by decide +kernel) ⟨_, rfl⟩ rfl rfl (by decide)
  have hraises : (restoreDatabase ⟨"snapshots/snapshot-0.tar.gz", [],
      .readable [("db_1", .dir [(dataKuzu, .dir [("catalog.kz", .file [1])])])] true⟩
      "restore_0" ([] ++ [dataKuzu]) false
      (some (.dir [(dataKuzu, .file [2])]))).any (fun o => o.1.isOk) = false := by decide +kernel
  rw [hrestore] at hraises
  cases hraises

end Restoring

end KuzuEventBus.Service.SnapshotFiles
