import KuzuEventBus.Lib.FileOps

/-!
# The files of a restore

What `RestoreDatabaseFromSnapshot` does with files, and `extract_database_from_archive` with it.  An
archive is extracted beside the path, and the database in it copied over what is there: with
`rmtree` and `copytree` when it is a directory, and with `copy2` when it is a file.

## Main definitions

* `extractDatabaseFromArchive`, `restoreDatabase` — the extraction, and the use case.
* `archivedDatabase` — the database in an archive, as a restore finds it.
* `AllOrNothing` — a restore that raises leaves what was at the path.
* `Harmless` — it can do nothing there, or changes nothing.

## Main results

* `triple_restoreDatabase` — what the overwriting keeps, the restore keeps.
* `exists_restoreDatabase` — a restore that is not harmless can raise and leave the path changed.
* `allOrNothing_iff` — **a restore that raises leaves what was at the path exactly when it is
  harmless.**
-/

namespace KuzuEventBus.Service.SnapshotFiles

open FileTree FileOps

/-- The name of the database in an archive. -/
def dataKuzu : String := "data.kuzu"

/-! ### The factory -/

/-- The removal of what is at the path. -/
def removeExisting (destPath : FilePath) : FileM Unit := do
  let there ← perform (pathExists destPath)
  if there then perform (rmtree destPath) else pure ()

/-- The copy to the path: over what is there, which is removed for a directory. -/
def copyOver (dbSource destPath : FilePath) : FileM Unit := do
  let isDir ← perform (isDirectory dbSource)
  if isDir then do
    removeExisting destPath
    perform (copytree dbSource destPath)
  else perform (copy2 dbSource destPath)

/-- `extract_database_from_archive`. -/
def extractDatabaseFromArchive (archiveContentDir destPath : FilePath) (expectedDbName : String) :
    FileM FilePath := do
  let dbSource := archiveContentDir ++ [expectedDbName]
  let found ← perform (pathExists dbSource)
  if found then do
    perform (mkdir destPath.dropLast)
    copyOver dbSource destPath
    pure destPath
  else raise "FileNotFoundError"

/-! ### Restoring a snapshot -/

/-- What is downloaded: the key, the bytes, and what `tarfile` makes of them. -/
structure Download where
  objectKey : String
  data : Bytes
  archive : Archive

/-- The single root of the extracted files if there is one, else their directory. -/
def contentRoot (tmpDir : FilePath) : List String → FilePath
  | [name] => tmpDir ++ [name]
  | _ => tmpDir

/-- `target_path.with_suffix(target_path.suffix + ".tmp")`. -/
def tmpFile (targetPath : FilePath) : FilePath :=
  targetPath.dropLast ++ [targetPath.getLast?.getD "" ++ ".tmp"]

/-- The file of a snapshot that is no archive. -/
def replaceFile (data : Bytes) (targetPath : FilePath) : FileM Unit := do
  perform (writeBytes (tmpFile targetPath) data)
  perform (replace (tmpFile targetPath) targetPath)

/-- The archive, or the file, takes the place of the database. -/
def overwrite (download : Download) (tmpDir targetPath : FilePath) : FileM Unit :=
  if download.objectKey.endsWith ".tar.gz" then do
    perform (extractall download.archive tmpDir)
    let entries ← perform (iterdir tmpDir)
    let _ ← extractDatabaseFromArchive (contentRoot tmpDir entries) targetPath dataKuzu
    pure ()
  else do
    perform (mkdir (tmpFile targetPath).dropLast)
    replaceFile download.data targetPath

/-- The cleanup, whose removals may fail. -/
def cleanup (tmpDir : FilePath) : FileM Unit := do
  let there ← perform (pathExists tmpDir)
  if there then suppress (perform (rmtree tmpDir)) else pure ()

/-- `RestoreDatabaseFromSnapshotUseCase.execute`, from the download to the end of the cleanup. -/
def restoreDatabase (download : Download) (tmpName : String) (targetPath : FilePath) :
    FileM Unit := do
  let parent := targetPath.dropLast
  perform (mkdir parent)
  let tmpDir ← perform (mkdtemp parent tmpName)
  finallyDo (overwrite download tmpDir targetPath) (cleanup tmpDir)

/-! ### What is asked for -/

/-- The database in an archive, where a restore looks for it. -/
def archivedDatabase : Archive → Option FileTree
  | .readable entries true =>
    get (contentRoot [] (entries.map Prod.fst).dedup ++ [dataKuzu]) (some (.dir entries))
  | _ => none

/-- What `copy2` copies over: a directory is copied into. -/
def copiedOver : Option FileTree → Option FileTree
  | some (.dir entries) => entries.lookup dataKuzu
  | t => t

/-- **A restore that raises, wherever that is, leaves what was at the path**: for every place of the
path, every name of the workspace, and whatever else is on the disk. -/
def AllOrNothing (download : Download) (prior : Option FileTree) : Prop :=
  ∀ parent name tmpName d, tmpName ≠ name → get (parent ++ [name]) d = prior →
    ∀ o ∈ restoreDatabase download tmpName (parent ++ [name]) true d, ∀ e, o.1 = .error e →
      get (parent ++ [name]) o.2 = prior

/-- The restore can do nothing at the path, or changes nothing: there is no database in the archive;
it is a directory and there is a file; it is a file and goes over a directory, or it is empty and
goes over an empty file; or there is no archive, and the file goes over a directory, or over itself.
-/
def Harmless (download : Download) (prior : Option FileTree) : Prop :=
  if download.objectKey.endsWith ".tar.gz" then
    match archivedDatabase download.archive with
    | none => True
    | some (.dir _) => ∃ content, prior = some (.file content)
    | some (.file content) =>
      IsDir (copiedOver prior) ∨ content = [] ∧ copiedOver prior = some (.file [])
  else IsDir prior ∨ prior = some (.file download.data)

/-! ### The workspace of a restore -/

section Workspace

variable {parent : FilePath} {name tmpName : String} {t : Option FileTree} {d d' : Disk}
  {archive : Archive} {entries : Entries}

/-- What is at a path, and that the directory of the path is one. -/
def Holds (parent : FilePath) (name : String) (t : Option FileTree) (d : Disk) : Prop :=
  IsDir (get parent d) ∧ get (parent ++ [name]) d = t

theorem triple_mkdir_parent :
    Triple (fun d => get (parent ++ [name]) d = t) (perform (mkdir parent))
      (fun _ d => get (parent ++ [name]) d = t) (fun d => get (parent ++ [name]) d = t) := by
  refine Triple.perform_keeps fun d hd => ⟨?_, fun d' hd' => ?_⟩
  · exact (get_of_mem_mkdir parent name [] List.mem_cons_self).trans hd
  · exact (get_of_mem_mkdir parent name [] (List.mem_cons_of_mem _ hd')).trans hd

/-- A workspace lies beside the path. -/
theorem triple_mkdtemp (hne : tmpName ≠ name) :
    Triple (fun d => get (parent ++ [name]) d = t) (perform (mkdtemp parent tmpName))
      (fun tmpDir d => tmpDir = parent ++ [tmpName] ∧ Holds parent name t d)
      (fun d => get (parent ++ [name]) d = t) := by
  have hapart : Apart (parent ++ [tmpName]) (parent ++ [name]) := apart_append parent [] [] hne
  refine Triple.perform fun d hd => ⟨?_, fun d' hd' => ?_⟩
  · unfold mkdtemp
    split
    · next entries hparent =>
      split
      · exact hd
      · exact ⟨rfl, isDir_put_append ⟨entries, hparent⟩ tmpName [] _,
          (get_put_of_apart hapart _ d).trans hd⟩
    · exact hd
  · exact ((touches_mkdtemp parent tmpName).get hapart (List.mem_cons_of_mem _ hd')).trans hd

/-- What touches the workspace keeps the rest. -/
theorem holds_of_touches {α : Type} {op : FileOp α} (hne : tmpName ≠ name)
    (hop : Touches op (parent ++ [tmpName])) (hd : Holds parent name t d) (hd' : d' ∈ disks op d) :
    Holds parent name t d' := by
  refine ⟨?_, (hop.get (apart_append parent [] [] hne) hd').trans hd.2⟩
  rcases hop d d' hd' with rfl | ⟨o, rfl⟩
  · exact hd.1
  · exact isDir_put_append hd.1 tmpName [] o

/-- Files extracted into the workspace are there. -/
theorem triple_extractall (hne : tmpName ≠ name) :
    Triple (Holds parent name t) (perform (extractall archive (parent ++ [tmpName])))
      (fun _ d => (∃ entries, archive = .readable entries true ∧
        get (parent ++ [tmpName]) d = some (.dir entries)) ∧ Holds parent name t d)
      (fun d => get (parent ++ [name]) d = t) := by
  refine Triple.perform fun d hd => ⟨?_, fun d' hd' => ?_⟩
  · have hkept := holds_of_touches hne (touches_extractall archive (parent ++ [tmpName])) hd
      List.mem_cons_self
    unfold extractall at hkept ⊢
    cases archive with
    | unreadable => exact hkept.2
    | readable entries complete =>
      cases complete with
      | false => exact hkept.2
      | true => exact ⟨⟨entries, rfl, get_put_self hd.1 tmpName _⟩, hkept⟩
  · exact (holds_of_touches hne (touches_extractall archive (parent ++ [tmpName])) hd
      (List.mem_cons_of_mem _ hd')).2

/-- The cleanup keeps what is at the path. -/
theorem triple_cleanup (hne : tmpName ≠ name) :
    Triple (fun d => get (parent ++ [name]) d = t) (cleanup (parent ++ [tmpName]))
      (fun _ d => get (parent ++ [name]) d = t) (fun d => get (parent ++ [name]) d = t) := by
  unfold cleanup
  refine Triple.bind (Triple.perform_look _) fun there => ?_
  cases there with
  | true =>
    exact Triple.suppress
      (Triple.perform_apart (touches_rmtree _) (apart_append parent [] [] hne))
  | false => exact Triple.pure ()

/-- **A restore keeps what is at the path when the overwriting does.** -/
theorem triple_restoreDatabase {download : Download} (hne : tmpName ≠ name)
    (h : Triple (Holds parent name t) (overwrite download (parent ++ [tmpName]) (parent ++ [name]))
      (fun _ d => get (parent ++ [name]) d = t) (fun d => get (parent ++ [name]) d = t)) :
    Triple (fun d => get (parent ++ [name]) d = t)
      (restoreDatabase download tmpName (parent ++ [name]))
      (fun _ d => get (parent ++ [name]) d = t) (fun d => get (parent ++ [name]) d = t) := by
  unfold restoreDatabase
  rw [List.dropLast_concat]
  refine Triple.bind triple_mkdir_parent fun _ => Triple.bind (triple_mkdtemp hne) fun tmpDir => ?_
  rintro d ⟨rfl, hd⟩
  exact Triple.finallyDo h (fun _ => triple_cleanup hne) (triple_cleanup hne) d hd

end Workspace

/-! ### A restore that raises -/

section Raises

variable {parent : FilePath} {name tmpName : String} {t : Option FileTree} {d d' : Disk}
  {download : Download} {entries : Entries}

/-- The root of the extracted files lies in the workspace. -/
theorem contentRoot_eq (tmpDir : FilePath) (names : List String) :
    contentRoot tmpDir names = tmpDir ++ contentRoot [] names := by
  unfold contentRoot
  split
  · rfl
  · exact (List.append_nil _).symm

/-- The database of an archive is where the restore looks for it. -/
theorem get_dbSource (h : get (parent ++ [tmpName]) d = some (.dir entries)) :
    get (contentRoot (parent ++ [tmpName]) (entries.map Prod.fst).dedup ++ [dataKuzu]) d =
      archivedDatabase (.readable entries true) := by
  rw [contentRoot_eq, List.append_assoc, get_append, h]
  rfl

/-- What `copy2` copies over is found at the place it copies to. -/
theorem get_copyTarget (p q : FilePath) (d : Disk) :
    get (copyTarget (p ++ [dataKuzu]) q d) d = copiedOver (get q d) := by
  unfold copyTarget copiedOver
  rcases ht : get q d with _ | (content | entries)
  · exact ht
  · exact ht
  · show get (q ++ (p ++ [dataKuzu]).getLast?.toList) d = entries.lookup dataKuzu
    rw [List.getLast?_concat, Option.toList_some, get_append, ht, get_cons_dir, get_nil]

/-- The database in the workspace, and what is at the path. -/
def Staged (dbSource parent : FilePath) (name : String) (x : Option FileTree)
    (t : Option FileTree) (d : Disk) : Prop :=
  get dbSource d = x ∧ Holds parent name t d

/-- The directory of the path is there already. -/
theorem triple_mkdir_staged {dbSource : FilePath} {x : Option FileTree} :
    Triple (Staged dbSource parent name x t) (perform (mkdir parent))
      (fun _ => Staged dbSource parent name x t) (Staged dbSource parent name x t) := by
  refine Triple.perform_of_eq fun d hd d' hd' => ?_
  unfold disks at hd'
  rw [mkdir_of_isDir hd.2.1] at hd'
  simpa using hd'

/-- A file is copied over a directory, or over an empty file when it is empty, to no effect. -/
theorem triple_copyOver_file {p : FilePath} {content : Bytes}
    (h : IsDir (copiedOver t) ∨ content = [] ∧ copiedOver t = some (.file [])) :
    Triple (Staged (p ++ [dataKuzu]) parent name (some (.file content)) t)
      (copyOver (p ++ [dataKuzu]) (parent ++ [name]))
      (fun _ => Staged (p ++ [dataKuzu]) parent name (some (.file content)) t)
      (Staged (p ++ [dataKuzu]) parent name (some (.file content)) t) := by
  unfold copyOver
  refine Triple.bind (Triple.perform_look_eq _) fun isDir => ?_
  cases isDir with
  | true =>
    rintro d ⟨hisDir, hsource, -⟩
    rw [hsource] at hisDir
    cases hisDir
  | false =>
    rw [if_neg Bool.false_ne_true]
    refine (Triple.perform_of_eq fun d hd d' hd' => ?_).pre fun d hd => hd.2
    refine eq_of_mem_copy2 hd.1 ?_ hd'
    rw [get_copyTarget, hd.2.2]
    exact h

/-- A directory is not copied over a file. -/
theorem triple_copyOver_dir {dbSource : FilePath} {entries : Entries} {content : Bytes}
    (h : t = some (.file content)) :
    Triple (Staged dbSource parent name (some (.dir entries)) t)
      (copyOver dbSource (parent ++ [name]))
      (fun _ => Staged dbSource parent name (some (.dir entries)) t)
      (Staged dbSource parent name (some (.dir entries)) t) := by
  unfold copyOver
  refine Triple.bind (Triple.perform_look_eq _) fun isDir => ?_
  cases isDir with
  | false =>
    rintro d ⟨hisDir, hsource, -⟩
    rw [hsource] at hisDir
    cases hisDir
  | true =>
    rw [if_pos rfl]
    -- the removal of the file raises
    refine Triple.bind (R := fun _ _ => False) ?_ fun _ d hd => hd.elim
    unfold removeExisting
    refine Triple.bind ((Triple.perform_look_eq _).pre fun d hd => hd.2) fun there => ?_
    cases there with
    | false =>
      rintro d ⟨hthere, -, -, hd⟩
      rw [hd, h] at hthere
      cases hthere
    | true =>
      rw [if_pos rfl]
      refine Triple.perform fun d hd => ?_
      obtain ⟨-, hstaged⟩ := hd
      have hfile := hstaged.2.2.trans h
      unfold rmtree
      rw [hfile]
      refine ⟨hstaged, fun d' hd' => ?_⟩
      rw [List.mem_singleton.1 hd']
      exact hstaged

/-- **An extraction that can do nothing at the path does nothing.** -/
theorem triple_extract {p : FilePath} {x : Option FileTree}
    (h : match x with
      | none => True
      | some (.dir _) => ∃ content, t = some (.file content)
      | some (.file content) =>
        IsDir (copiedOver t) ∨ content = [] ∧ copiedOver t = some (.file [])) :
    Triple (Staged (p ++ [dataKuzu]) parent name x t)
      (extractDatabaseFromArchive p (parent ++ [name]) dataKuzu)
      (fun _ => Staged (p ++ [dataKuzu]) parent name x t)
      (Staged (p ++ [dataKuzu]) parent name x t) := by
  unfold extractDatabaseFromArchive
  refine Triple.bind (Triple.perform_look_eq _) fun found => ?_
  cases found with
  | false =>
    rw [if_neg Bool.false_ne_true]
    exact (Triple.raise _).pre fun d hd => hd.2
  | true =>
    rw [if_pos rfl, List.dropLast_concat]
    rcases x with _ | (content | entries)
    · rintro d ⟨hfound, hsource, -⟩
      rw [hsource] at hfound
      cases hfound
    · refine Triple.pre (Triple.bind triple_mkdir_staged fun _ => ?_) fun d hd => hd.2
      exact Triple.bind (triple_copyOver_file h) fun _ => Triple.pure _
    · obtain ⟨content, hcontent⟩ := h
      refine Triple.pre (Triple.bind triple_mkdir_staged fun _ => ?_) fun d hd => hd.2
      exact Triple.bind (triple_copyOver_dir hcontent) fun _ => Triple.pure _

/-- The file written beside the path. -/
def Written (parent : FilePath) (name : String) (data : Bytes) (t : Option FileTree) (d : Disk) :
    Prop :=
  get (parent ++ [name ++ ".tmp"]) d = some (.file data) ∧ Holds parent name t d

theorem tmpFile_concat (parent : FilePath) (name : String) :
    tmpFile (parent ++ [name]) = parent ++ [name ++ ".tmp"] := by
  unfold tmpFile
  rw [List.dropLast_concat, List.getLast?_concat, Option.getD_some]

theorem tmp_ne (name : String) : name ++ ".tmp" ≠ name := by
  intro h
  have hlength := congrArg String.length h
  rw [String.length_append] at hlength
  have htmp : ".tmp".length = 4 := by decide
  omega

theorem triple_writeBytes {data : Bytes} :
    Triple (Holds parent name t) (perform (writeBytes (parent ++ [name ++ ".tmp"]) data))
      (fun _ => Written parent name data t) (Holds parent name t) := by
  have hkept : ∀ d d', Holds parent name t d →
      d' ∈ disks (writeBytes (parent ++ [name ++ ".tmp"]) data) d → Holds parent name t d' :=
    fun d d' hd hd' => holds_of_touches (tmp_ne name) (touches_writeBytes _ data) hd hd'
  refine Triple.perform fun d hd => ⟨?_, fun d' hd' => hkept d d' hd (List.mem_cons_of_mem _ hd')⟩
  have hnext := hkept d _ hd List.mem_cons_self
  unfold writeBytes at hnext ⊢
  split
  · exact hd
  · next entries hparent hnot =>
    refine ⟨get_put_self hd.1 _ _, isDir_put_append hd.1 _ [] _, ?_⟩
    exact (get_put_of_apart (apart_append parent [] [] (tmp_ne name)) _ d).trans hd.2
  · exact hd

/-- A file does not replace a directory, and replaces itself to no effect. -/
theorem triple_replace {data : Bytes} (h : IsDir t ∨ t = some (.file data)) :
    Triple (Written parent name data t)
      (perform (replace (parent ++ [name ++ ".tmp"]) (parent ++ [name])))
      (fun _ d => get (parent ++ [name]) d = t ∧ t = some (.file data))
      (fun d => get (parent ++ [name]) d = t) := by
  refine Triple.perform fun d hd => ?_
  obtain ⟨hwritten, hparent, hthere⟩ := hd
  have hapart : Apart (parent ++ [name ++ ".tmp"]) (parent ++ [name]) :=
    apart_append parent [] [] (tmp_ne name)
  rw [replace_of_apart hwritten (by rwa [List.dropLast_concat]) hapart]
  unfold moveOver
  rcases h with ⟨entries, hdir⟩ | hfile
  · rw [hthere.trans hdir]
    refine ⟨hthere, fun d' hd' => ?_⟩
    rw [List.mem_singleton.1 hd']
    exact hthere
  · rw [hthere.trans hfile]
    refine ⟨⟨?_, hfile⟩, fun d' hd' => ?_⟩
    · exact (get_put_self (isDir_put_append hparent _ [] _) name _).trans hfile.symm
    · rw [List.mem_singleton.1 hd']
      exact hthere

/-- The file of a snapshot takes the place of the very same file only. -/
theorem triple_replaceFile {data : Bytes} (h : IsDir t ∨ t = some (.file data)) :
    Triple (Holds parent name t) (replaceFile data (parent ++ [name]))
      (fun _ d => get (parent ++ [name]) d = t ∧ t = some (.file data))
      (fun d => get (parent ++ [name]) d = t) := by
  unfold replaceFile
  rw [tmpFile_concat]
  refine Triple.bind ?_ fun _ => triple_replace h
  exact triple_writeBytes.conseq (fun d hd => hd) (fun _ d hd => hd) fun d hd => hd.2

/-- A restore that can do nothing at the path, or changes nothing, keeps what is there. -/
theorem triple_overwrite (hne : tmpName ≠ name) (h : Harmless download t) :
    Triple (Holds parent name t) (overwrite download (parent ++ [tmpName]) (parent ++ [name]))
      (fun _ d => get (parent ++ [name]) d = t) (fun d => get (parent ++ [name]) d = t) := by
  unfold Harmless at h
  unfold overwrite
  split
  · next harchive =>
    rw [if_pos harchive] at h
    refine Triple.bind (triple_extractall hne) fun _ => ?_
    rintro d ⟨⟨entries, hentries, hworkspace⟩, hd⟩
    rw [hentries] at h
    have hiterdir : Triple (fun d => get (parent ++ [tmpName]) d = some (.dir entries) ∧
          Holds parent name t d) (perform (iterdir (parent ++ [tmpName])))
        (fun names d => names = (entries.map Prod.fst).dedup ∧
          get (parent ++ [tmpName]) d = some (.dir entries) ∧ Holds parent name t d)
        (fun d => get (parent ++ [name]) d = t) := by
      refine (Triple.perform_look_eq _).conseq (fun d hd => hd) ?_ fun d hd => hd.2.2
      rintro names d ⟨hnames, hd⟩
      rw [hd.1] at hnames
      cases hnames
      exact ⟨rfl, hd⟩
    refine Triple.bind hiterdir (fun names => ?_) d ⟨hworkspace, hd⟩
    rintro d ⟨rfl, hworkspace, hd⟩
    refine (((triple_extract h).conseq (fun d hd => hd) (fun _ d hd => hd.2.2)
      fun d hd => hd.2.2).bind fun _ => Triple.pure ()) d ⟨get_dbSource hworkspace, hd⟩
  · next hraw =>
    rw [if_neg hraw] at h
    rw [tmpFile_concat, List.dropLast_concat]
    have hmkdir : Triple (Holds parent name t) (perform (mkdir parent))
        (fun _ => Holds parent name t) (fun d => get (parent ++ [name]) d = t) := by
      refine (Triple.perform_of_eq fun d hd d' hd' => ?_).conseq (fun d hd => hd)
        (fun _ d hd => hd) fun d hd => hd.2
      unfold disks at hd'
      rw [mkdir_of_isDir hd.1] at hd'
      simpa using hd'
    refine Triple.bind hmkdir fun _ => ?_
    exact (triple_replaceFile h).conseq (fun d hd => hd) (fun _ d hd => hd.1) fun d hd => hd

end Raises

/-! ### What a failure can leave -/

section Leaves

variable {parent : FilePath} {name tmpName : String} {t x : Option FileTree} {d : Disk}
  {download : Download} {entries : Entries} {p : FilePath}

/-- After an outcome of the overwriting the restore can raise, with the same at the path: the check
for the workspace fails, or the cleanup lets the exception through. -/
theorem mem_finallyDo_cleanup (parent : FilePath) (hne : tmpName ≠ name) {body : FileM Unit}
    {o : Outcome Unit} (ho : o ∈ body true d) :
    ∃ e d', ((.error e, d') : Outcome Unit) ∈
        finallyDo body (cleanup (parent ++ [tmpName])) true d ∧
      get (parent ++ [name]) d' = get (parent ++ [name]) o.2 := by
  obtain ⟨e | u, d'⟩ := o
  · -- the cleanup goes through
    have hcleanup : ∃ d'', ((.ok (), d'') : Outcome Unit) ∈
        cleanup (parent ++ [tmpName]) true d' ∧
          get (parent ++ [name]) d'' = get (parent ++ [name]) d' := by
      unfold cleanup
      cases hthere : (get (parent ++ [tmpName]) d').isSome with
      | false =>
        exact ⟨d', mem_bind_perform (pathExists_run hthere) (List.mem_singleton.2 rfl), rfl⟩
      | true =>
        refine ⟨_, mem_bind_perform (pathExists_run hthere)
          (List.mem_map.2 ⟨_, mem_perform _ true d', rfl⟩), ?_⟩
        exact (touches_rmtree _).get (apart_append parent [] [] hne) List.mem_cons_self
    obtain ⟨d'', hmem, hget⟩ := hcleanup
    exact ⟨e, d'', mem_finallyDo ho hmem, hget⟩
  · -- the check for the workspace fails
    have hcheck : ((.error "OSError", d') : Outcome Unit) ∈
        cleanup (parent ++ [tmpName]) true d' :=
      mem_bind_of_error (mem_perform_of_fails List.mem_cons_self)
    exact ⟨"OSError", d', mem_finallyDo ho hcheck, rfl⟩

/-- The disk with the workspace, as the restore finds it. -/
def withWorkspace (parent : FilePath) (tmpName : String) (d : Disk) : Disk :=
  put (parent ++ [tmpName]) (some (.dir [])) d

/-- Nothing is in the way of the workspace. -/
theorem mkdtemp_of_none (hparent : IsDir (get parent d))
    (hfree : get (parent ++ [tmpName]) d = none) :
    mkdtemp parent tmpName d =
      ((.ok (parent ++ [tmpName]), withWorkspace parent tmpName d), [d]) := by
  obtain ⟨entries, hentries⟩ := hparent
  rw [get_append, hentries, get_cons_dir, get_nil] at hfree
  unfold mkdtemp
  rw [hentries]
  dsimp only
  rw [hfree, if_neg (by simp)]
  rfl

/-- After an outcome of the overwriting the restore can raise, with the same at the path. -/
theorem mem_restoreDatabase (hne : tmpName ≠ name) (hparent : IsDir (get parent d))
    (hfree : get (parent ++ [tmpName]) d = none) {o : Outcome Unit}
    (ho : o ∈ overwrite download (parent ++ [tmpName]) (parent ++ [name]) true
      (withWorkspace parent tmpName d)) :
    ∃ e d', ((.error e, d') : Outcome Unit) ∈
        restoreDatabase download tmpName (parent ++ [name]) true d ∧
      get (parent ++ [name]) d' = get (parent ++ [name]) o.2 := by
  obtain ⟨e, d', hmem, hget⟩ := mem_finallyDo_cleanup parent hne ho
  refine ⟨e, d', ?_, hget⟩
  unfold restoreDatabase
  rw [List.dropLast_concat]
  have hmkdir : (mkdir parent d).1 = (.ok (), d) := by rw [mkdir_of_isDir hparent]
  have hmkdtemp : (mkdtemp parent tmpName d).1 =
      (.ok (parent ++ [tmpName]), withWorkspace parent tmpName d) := by
    rw [mkdtemp_of_none hparent hfree]
  exact mem_bind_perform hmkdir (mem_bind_perform hmkdtemp hmem)

/-- The disk with the extracted files. -/
def withFiles (parent : FilePath) (tmpName : String) (entries : Entries) (d : Disk) : Disk :=
  put (parent ++ [tmpName]) (some (.dir entries)) (withWorkspace parent tmpName d)

/-- Where a restore looks for the database of an archive. -/
def sourceOf (parent : FilePath) (tmpName : String) (entries : Entries) : FilePath :=
  contentRoot (parent ++ [tmpName]) (entries.map Prod.fst).dedup ++ [dataKuzu]

/-- An archive that is complete is extracted to the workspace. -/
theorem extractall_run (parent : FilePath) (tmpName : String) (entries : Entries) (d : Disk) :
    (extractall (.readable entries true) (parent ++ [tmpName])
      (withWorkspace parent tmpName d)).1 = (.ok (), withFiles parent tmpName entries d) := rfl

theorem get_workspace (hparent : IsDir (get parent d)) :
    get (parent ++ [tmpName]) (withFiles parent tmpName entries d) = some (.dir entries) :=
  get_put_self (isDir_put_append hparent tmpName [] _) tmpName _

theorem isDir_withFiles (hparent : IsDir (get parent d)) :
    IsDir (get parent (withFiles parent tmpName entries d)) :=
  isDir_put_append (isDir_put_append hparent tmpName [] _) tmpName [] _

/-- The database, its workspace, and what is at the path, once the files are extracted. -/
theorem staged_withFiles (hne : tmpName ≠ name) (hparent : IsDir (get parent d))
    (ht : get (parent ++ [name]) d = t) :
    Staged (sourceOf parent tmpName entries) parent name
      (archivedDatabase (.readable entries true)) t (withFiles parent tmpName entries d) := by
  have hapart : Apart (parent ++ [tmpName]) (parent ++ [name]) := apart_append parent [] [] hne
  refine ⟨get_dbSource (get_workspace hparent), isDir_withFiles hparent, ?_⟩
  exact (get_put_of_apart hapart _ _).trans ((get_put_of_apart hapart _ d).trans ht)

/-- The copy of a database that is in the archive is a part of the overwriting. -/
theorem mem_overwrite (harchive : download.objectKey.endsWith ".tar.gz" = true)
    (hentries : download.archive = .readable entries true)
    (hsome : (archivedDatabase (.readable entries true)).isSome)
    (hparent : IsDir (get parent d)) {o : Outcome Unit}
    (ho : o ∈ copyOver (sourceOf parent tmpName entries) (parent ++ [name]) true
      (withFiles parent tmpName entries d)) :
    ∃ o' ∈ overwrite download (parent ++ [tmpName]) (parent ++ [name]) true
      (withWorkspace parent tmpName d), o'.2 = o.2 := by
  have hworkspace : get (parent ++ [tmpName]) (withFiles parent tmpName entries d) =
    some (.dir entries) := get_workspace hparent
  have hextract : ∃ o' ∈ extractDatabaseFromArchive
      (contentRoot (parent ++ [tmpName]) (entries.map Prod.fst).dedup) (parent ++ [name]) dataKuzu
        true (withFiles parent tmpName entries d), o'.2 = o.2 := by
    unfold extractDatabaseFromArchive
    have hfound : (get (contentRoot (parent ++ [tmpName]) (entries.map Prod.fst).dedup ++
        [dataKuzu]) (withFiles parent tmpName entries d)).isSome = true := by
      rw [get_dbSource hworkspace, hsome]
    have hmkdir : (mkdir parent (withFiles parent tmpName entries d)).1 =
        (.ok (), withFiles parent tmpName entries d) := by
      rw [mkdir_of_isDir (isDir_withFiles hparent)]
    have hcopy : ∃ o' ∈ (do
        copyOver (sourceOf parent tmpName entries) (parent ++ [name])
        pure (parent ++ [name]) : FileM FilePath) true (withFiles parent tmpName entries d),
        o'.2 = o.2 := by
      obtain ⟨e | u, d'⟩ := o
      · exact ⟨_, mem_bind_of_error ho, rfl⟩
      · exact ⟨_, mem_bind_of_ok ho List.mem_cons_self, rfl⟩
    obtain ⟨o', hmem, hsame⟩ := hcopy
    refine ⟨o', mem_bind_perform (pathExists_run hfound) ?_, hsame⟩
    rw [if_pos rfl, List.dropLast_concat]
    exact mem_bind_perform hmkdir hmem
  obtain ⟨o', hmem, hsame⟩ := hextract
  have hrest : ∃ o'' ∈ (do
      let _ ← extractDatabaseFromArchive
        (contentRoot (parent ++ [tmpName]) (entries.map Prod.fst).dedup) (parent ++ [name]) dataKuzu
      pure () : FileM Unit) true (withFiles parent tmpName entries d), o''.2 = o'.2 := by
    obtain ⟨e | target, d'⟩ := o'
    · exact ⟨_, mem_bind_of_error hmem, rfl⟩
    · exact ⟨_, mem_bind_of_ok hmem List.mem_cons_self, rfl⟩
  obtain ⟨o'', hmem', hsame'⟩ := hrest
  refine ⟨o'', ?_, hsame'.trans hsame⟩
  unfold overwrite
  rw [if_pos harchive, hentries]
  exact mem_bind_perform (extractall_run parent tmpName entries d)
    (mem_bind_perform (iterdir_run hworkspace) hmem')

/-- The database of an archive does not lie at the path, nor in a directory there. -/
theorem apart_sourceOf (hne : tmpName ≠ name) (q : FilePath) :
    Apart (sourceOf parent tmpName entries) (parent ++ name :: q) := by
  unfold sourceOf
  rw [contentRoot_eq, List.append_assoc, List.append_assoc]
  exact apart_append parent _ _ hne

/-- A directory that is copied leaves the path changed, unless there is a file. -/
theorem exists_copyOver_dir {source : FilePath} {copied : Entries}
    (hapart : Apart source (parent ++ [name]))
    (hd : Staged source parent name (some (.dir copied)) t d)
    (h : ∀ content, t ≠ some (.file content)) :
    ∃ o ∈ copyOver source (parent ++ [name]) true d, get (parent ++ [name]) o.2 ≠ t := by
  obtain ⟨hsource, hparent, ht⟩ := hd
  have hisDir := isDirectory_of_isDir ⟨copied, hsource⟩
  have hdrop : IsDir (get (parent ++ [name]).dropLast d) := by rwa [List.dropLast_concat]
  rcases t with _ | (content | entries)
  · -- nothing is there, and the copy is
    have hthere := pathExists_run (congrArg Option.isSome ht)
    refine ⟨(.ok (), put (parent ++ [name]) (some (.dir copied)) d), ?_, ?_⟩
    · unfold copyOver removeExisting
      refine mem_bind_perform hisDir (mem_bind_of_ok
        (mem_bind_perform hthere List.mem_cons_self) ?_)
      have hcopy := mem_perform (copytree source (parent ++ [name])) true d
      rwa [copytree_of_none hsource ht hdrop] at hcopy
    · rw [get_put_self hparent]
      simp
  · exact absurd rfl (h content)
  · -- the directory is removed, and the copy fails
    have hthere := pathExists_run (congrArg Option.isSome ht)
    have hremoved : (rmtree (parent ++ [name]) d).1 = (.ok (), put (parent ++ [name]) none d) := by
      unfold rmtree
      rw [ht]
    have hnone : get (parent ++ [name]) (put (parent ++ [name]) none d) = none :=
      get_put_self hparent name none
    refine ⟨(.error "OSError", put (parent ++ [name]) none d), ?_, ?_⟩
    · unfold copyOver removeExisting
      refine mem_bind_perform hisDir (mem_bind_of_ok
        (mem_bind_perform hthere (List.mem_cons.2 (Or.inl hremoved.symm))) ?_)
      refine mem_perform_of_fails ?_
      rw [copytree_of_none ((get_put_of_apart hapart.symm _ d).trans hsource) hnone ?_]
      · exact List.mem_append_left _ List.mem_cons_self
      · rw [List.dropLast_concat]
        exact isDir_put_append hparent name [] _
    · rw [hnone]
      simp

/-- Where a file is copied to, and what is there: to the path, or into the directory there. -/
theorem copy2_eq {content : Bytes} (hne : ∀ q, p ++ [dataKuzu] ≠ parent ++ name :: q)
    (hd : Staged (p ++ [dataKuzu]) parent name (some (.file content)) t d) :
    ∃ q, copy2 (p ++ [dataKuzu]) (parent ++ [name]) d = writeBytes (parent ++ name :: q) content d ∧
      get (parent ++ name :: q) d = copiedOver t ∧
      IsDir (get (parent ++ name :: q).dropLast d) ∧
      ((∃ entries, t = some (.dir entries) ∧ q = [dataKuzu]) ∨ ¬ IsDir t ∧ q = []) := by
  obtain ⟨hsource, hparent, ht⟩ := hd
  have hcopy : ∀ q, copyTarget (p ++ [dataKuzu]) (parent ++ [name]) d = parent ++ name :: q →
      copy2 (p ++ [dataKuzu]) (parent ++ [name]) d =
        writeBytes (parent ++ name :: q) content d := by
    intro q htarget
    unfold copy2
    rw [hsource]
    dsimp only
    rw [htarget, if_neg (hne q)]
  have hover : ∀ q, copyTarget (p ++ [dataKuzu]) (parent ++ [name]) d = parent ++ name :: q →
      get (parent ++ name :: q) d = copiedOver t := by
    intro q htarget
    rw [← htarget, get_copyTarget, ht]
  rcases t with _ | (written | entries)
  · have htarget : copyTarget (p ++ [dataKuzu]) (parent ++ [name]) d = parent ++ name :: [] := by
      unfold copyTarget
      rw [ht]
    refine ⟨[], hcopy [] htarget, hover [] htarget, by rwa [List.dropLast_concat], Or.inr ⟨?_, rfl⟩⟩
    rintro ⟨entries, hentries⟩
    cases hentries
  · have htarget : copyTarget (p ++ [dataKuzu]) (parent ++ [name]) d = parent ++ name :: [] := by
      unfold copyTarget
      rw [ht]
    refine ⟨[], hcopy [] htarget, hover [] htarget, by rwa [List.dropLast_concat], Or.inr ⟨?_, rfl⟩⟩
    rintro ⟨entries, hentries⟩
    cases hentries
  · have htarget : copyTarget (p ++ [dataKuzu]) (parent ++ [name]) d =
        parent ++ name :: [dataKuzu] := by
      unfold copyTarget
      rw [ht]
      simp
    refine ⟨[dataKuzu], hcopy _ htarget, hover _ htarget, ?_, Or.inl ⟨entries, rfl, rfl⟩⟩
    rw [show parent ++ name :: [dataKuzu] = (parent ++ [name]) ++ [dataKuzu] by simp,
      List.dropLast_concat, ht]
    exact ⟨entries, rfl⟩

/-- A file that is copied leaves the path changed, unless it goes over a directory, or is empty and
goes over an empty file. -/
theorem exists_copyOver_file {content : Bytes} (hne : ∀ q, p ++ [dataKuzu] ≠ parent ++ name :: q)
    (hd : Staged (p ++ [dataKuzu]) parent name (some (.file content)) t d)
    (hdir : ¬ IsDir (copiedOver t))
    (hempty : ¬ (content = [] ∧ copiedOver t = some (.file []))) :
    ∃ o ∈ copyOver (p ++ [dataKuzu]) (parent ++ [name]) true d,
      get (parent ++ [name]) o.2 ≠ t := by
  obtain ⟨q, hcopy, hover, hdrop, -⟩ := copy2_eq hne hd
  have hq : parent ++ name :: q ≠ [] := by simp
  obtain ⟨o, ho, hchanged⟩ := exists_writeBytes (by rwa [hover]) hdrop hq (by rwa [hover])
  refine ⟨o, ?_, fun hkept => hchanged ?_⟩
  · unfold copyOver
    refine mem_bind_perform (isDirectory_of_file hd.1) ?_
    rw [if_neg Bool.false_ne_true]
    unfold perform at ho ⊢
    rwa [hcopy]
  · -- what is at the path holds what is in it
    have hassoc : parent ++ name :: q = (parent ++ [name]) ++ q := by simp
    rw [hassoc, get_append (parent ++ [name]) q o.2, get_append (parent ++ [name]) q d, hkept,
      hd.2.2]

/-- The file of a snapshot takes the place of another, or of nothing. -/
theorem mem_replaceFile {data : Bytes} (hparent : IsDir (get parent d))
    (ht : get (parent ++ [name]) d = t) (hfile : get (parent ++ [name ++ ".tmp"]) d = none)
    (hdir : ¬ IsDir t) :
    ∃ d', ((.ok (), d') : Outcome Unit) ∈ replaceFile data (parent ++ [name]) true d ∧
      get (parent ++ [name]) d' = some (.file data) := by
  have hwrite : (writeBytes (parent ++ [name ++ ".tmp"]) data d).1 =
      (.ok (), put (parent ++ [name ++ ".tmp"]) (some (.file data)) d) := by
    rw [writeBytes_of_not_isDir]
    · rw [hfile]
      rintro ⟨entries, hentries⟩
      cases hentries
    · rwa [List.dropLast_concat]
  have hapart : Apart (parent ++ [name ++ ".tmp"]) (parent ++ [name]) :=
    apart_append parent [] [] (tmp_ne name)
  generalize hd₂ : put (parent ++ [name ++ ".tmp"]) (some (.file data)) d = d₂ at hwrite
  have hwritten : get (parent ++ [name ++ ".tmp"]) d₂ = some (.file data) :=
    hd₂ ▸ get_put_self hparent _ _
  have hparent₂ : IsDir (get parent d₂) := hd₂ ▸ isDir_put_append hparent _ [] _
  have ht₂ : get (parent ++ [name]) d₂ = t := (hd₂ ▸ get_put_of_apart hapart _ d).trans ht
  have hreplace : (replace (parent ++ [name ++ ".tmp"]) (parent ++ [name]) d₂).1 =
      (.ok (), put (parent ++ [name]) (some (.file data))
        (put (parent ++ [name ++ ".tmp"]) none d₂)) := by
    rw [replace_of_apart hwritten (by rwa [List.dropLast_concat]) hapart]
    unfold moveOver
    rw [ht₂]
    rcases t with _ | (content | entries)
    · rfl
    · rfl
    · exact absurd ⟨entries, rfl⟩ hdir
  refine ⟨_, ?_, get_put_self (isDir_put_append hparent₂ (name ++ ".tmp") [] none) name _⟩
  unfold replaceFile
  rw [tmpFile_concat]
  exact mem_bind_perform hwrite (List.mem_cons.2 (Or.inl hreplace.symm))

/-- A file that takes the place of another, or of nothing, changes the path. -/
theorem exists_overwrite_file (hne : tmpName ≠ name)
    (hraw : ¬ download.objectKey.endsWith ".tar.gz" = true) (hparent : IsDir (get parent d))
    (ht : get (parent ++ [name]) d = t)
    (hfile : get (parent ++ [name ++ ".tmp"]) d = none) (htmp : tmpName ≠ name ++ ".tmp")
    (hdir : ¬ IsDir t) (hsame : t ≠ some (.file download.data)) :
    ∃ o ∈ overwrite download (parent ++ [tmpName]) (parent ++ [name]) true
      (withWorkspace parent tmpName d), get (parent ++ [name]) o.2 ≠ t := by
  have hparent' : IsDir (get parent (withWorkspace parent tmpName d)) :=
    isDir_put_append hparent tmpName [] _
  have hmkdir : (mkdir parent (withWorkspace parent tmpName d)).1 =
      (.ok (), withWorkspace parent tmpName d) := by
    rw [mkdir_of_isDir hparent']
  obtain ⟨d', hmem, hget⟩ := mem_replaceFile hparent'
    ((get_put_of_apart (apart_append parent [] [] hne) _ d).trans ht)
    ((get_put_of_apart (apart_append parent [] [] htmp) _ d).trans hfile) hdir
  refine ⟨(.ok (), d'), ?_, ?_⟩
  · unfold overwrite
    rw [if_neg hraw, tmpFile_concat, List.dropLast_concat]
    exact mem_bind_perform hmkdir hmem
  · rw [hget]
    exact fun heq => hsame heq.symm

/-- A restore that is not harmless can raise and leave the path changed. -/
theorem exists_restoreDatabase (hne : tmpName ≠ name) (htmp : tmpName ≠ name ++ ".tmp")
    (hparent : IsDir (get parent d)) (hfree : get (parent ++ [tmpName]) d = none)
    (hfile : get (parent ++ [name ++ ".tmp"]) d = none) (ht : get (parent ++ [name]) d = t)
    (h : ¬ Harmless download t) :
    ∃ e d', ((.error e, d') : Outcome Unit) ∈
        restoreDatabase download tmpName (parent ++ [name]) true d ∧
      get (parent ++ [name]) d' ≠ t := by
  obtain ⟨o, ho, hchanged⟩ : ∃ o ∈ overwrite download (parent ++ [tmpName]) (parent ++ [name]) true
      (withWorkspace parent tmpName d), get (parent ++ [name]) o.2 ≠ t := by
    unfold Harmless at h
    split at h
    · next harchive =>
      -- there is a database in the archive
      obtain ⟨entries, hentries⟩ : ∃ entries, download.archive = .readable entries true := by
        cases hread : download.archive with
        | unreadable =>
          rw [hread] at h
          exact absurd trivial h
        | readable entries complete =>
          cases complete with
          | true => exact ⟨entries, rfl⟩
          | false =>
            rw [hread] at h
            exact absurd trivial h
      rw [hentries] at h
      have hd : Staged (sourceOf parent tmpName entries) parent name
          (archivedDatabase (.readable entries true)) t (withFiles parent tmpName entries d) :=
        staged_withFiles hne hparent ht
      have hcopy : ∀ o ∈ copyOver (sourceOf parent tmpName entries) (parent ++ [name]) true
          (withFiles parent tmpName entries d), get (parent ++ [name]) o.2 ≠ t →
          (archivedDatabase (.readable entries true)).isSome →
          ∃ o ∈ overwrite download (parent ++ [tmpName]) (parent ++ [name]) true
            (withWorkspace parent tmpName d), get (parent ++ [name]) o.2 ≠ t := by
        intro o ho hchanged hsome
        obtain ⟨o', ho', hsame⟩ := mem_overwrite harchive hentries hsome hparent ho
        exact ⟨o', ho', by rwa [hsame]⟩
      rcases hx : archivedDatabase (.readable entries true) with _ | (content | copied)
      · rw [hx] at h
        exact absurd trivial h
      · rw [hx] at h hd
        have h := not_or.1 h
        obtain ⟨o, ho, hchanged⟩ := exists_copyOver_file
          (fun q heq => (apart_sourceOf hne q).1 ⟨[], by rw [List.append_nil]; exact heq⟩)
            hd h.1 h.2
        exact hcopy o ho hchanged (by rw [hx]; rfl)
      · rw [hx] at h hd
        obtain ⟨o, ho, hchanged⟩ := exists_copyOver_dir (apart_sourceOf hne []) hd
          fun content hcontent => h ⟨content, hcontent⟩
        exact hcopy o ho hchanged (by rw [hx]; rfl)
    · next hraw =>
      have h := not_or.1 h
      exact exists_overwrite_file hne hraw hparent ht hfile htmp h.1 h.2
  obtain ⟨e, d', hmem, hget⟩ := mem_restoreDatabase hne hparent hfree ho
  exact ⟨e, d', hmem, by rwa [hget]⟩

end Leaves

/-- **A restore that raises leaves what was at the path exactly when it can do nothing there, or
changes nothing.** -/
theorem allOrNothing_iff {download : Download} {prior : Option FileTree} :
    AllOrNothing download prior ↔ Harmless download prior := by
  constructor
  · intro hall
    by_contra hharm
    have hprior : get ([] ++ [dataKuzu]) (some (.dir (setEntry dataKuzu prior []))) = prior := by
      rw [List.nil_append, get_cons_dir, get_nil, lookup_setEntry, if_pos rfl]
    have hfree : ∀ name, name ≠ dataKuzu →
        get ([] ++ [name]) (some (.dir (setEntry dataKuzu prior []))) = none := by
      intro name hname
      rw [List.nil_append, get_cons_dir, get_nil, lookup_setEntry, if_neg hname]
      rfl
    have hne : "restore_0" ≠ dataKuzu := by decide
    obtain ⟨e, d', hmem, hchanged⟩ := exists_restoreDatabase hne (by decide) ⟨_, rfl⟩
      (hfree _ hne) (hfree _ (by decide)) hprior hharm
    exact hchanged (hall [] dataKuzu "restore_0" _ (by decide) hprior _ hmem e rfl)
  · rintro hharm parent name tmpName d hne hprior ⟨e' | u, d'⟩ ho e he
    · exact triple_restoreDatabase hne (triple_overwrite hne hharm) d hprior _ ho
    · cases he

/-- A directory at the path is removed before the copy, which can fail. -/
theorem not_always_allOrNothing : ¬ ∀ download prior, AllOrNothing download prior := by
  intro hall
  have hdisk : get ([] ++ [dataKuzu]) (some (.dir [(dataKuzu, .dir [("old", .file [1])])])) =
      some (.dir [("old", .file [1])]) := rfl
  have hfree : ∀ name, name ≠ dataKuzu →
      get ([] ++ [name]) (some (.dir [(dataKuzu, .dir [("old", .file [1])])])) = none := by
    intro name hname
    have hne : (name == dataKuzu) = false := by simpa using hname
    rw [List.nil_append, get_cons_dir, List.lookup_cons, hne]
    rfl
  obtain ⟨e, d', hmem, hchanged⟩ := exists_restoreDatabase
    (show "restore_0" ≠ dataKuzu by decide) (by decide) ⟨_, rfl⟩
    (hfree _ (by decide)) (hfree _ (by decide)) hdisk
    (show ¬ Harmless ⟨"snapshots/snapshot-0.tar.gz", [],
        .readable [("db_1", .dir [(dataKuzu, .dir [("new", .file [2])])])] true⟩
      (some (.dir [("old", .file [1])])) by
      have hkey : "snapshots/snapshot-0.tar.gz".endsWith ".tar.gz" = true := by decide +kernel
      unfold Harmless
      rw [if_pos hkey]
      rintro ⟨content, hcontent⟩
      cases hcontent)
  exact hchanged (hall _ _ [] dataKuzu "restore_0" _ (by decide) hdisk _ hmem e rfl)

end KuzuEventBus.Service.SnapshotFiles
