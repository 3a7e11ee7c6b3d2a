import KuzuEventBus.Service.SnapshotFiles
import Mathlib.Data.Set.Finite.Basic

/-!
# The files of a restore to a point in time

What `_restore_snapshot` does with files.  An archive is extracted into the directory of the
database, and must have one directory at the top, with the name of that directory and with
`data.kuzu` in it.  It is moved beside the directory of the database, that directory is moved away,
and the archive's takes its place: three renames.  A snapshot that is no archive is written beside
the path and renamed.

## Main definitions

* `directoriesOf`, `checkLayout`, `swapDirectory`, `restoreSnapshot` — the method, step after step.
* `snapshotContent` — the database of a snapshot, when the checks accept it.
* `AllOrNothing` — a run that raises leaves the path, a run that returns leaves the snapshot there.
* `Harmless` — the archive is rejected, or the file cannot change the path.

## Main results

* `triple_checkLayout` — the checks let no other archive through.
* `swapDirectory_ok`, `swapDirectory_fails` — the renames, and the last of them failing.
* `allOrNothing_iff_harmless` — **the restore is all or nothing exactly when it is harmless.**
-/

namespace KuzuEventBus.Service.PitrFiles

open FileTree FileOps SnapshotFiles

/-! ### The method -/

/-- The entries that are directories. -/
def directoriesOf (tmpDir : FilePath) : List String → FileM (List String)
  | [] => pure []
  | name :: names => do
    let isDir ← perform (isDirectory (tmpDir ++ [name]))
    let topLevelDirs ← directoriesOf tmpDir names
    pure (if isDir then name :: topLevelDirs else topLevelDirs)

/-- `data.kuzu` must be in the root of the content. -/
def checkDataKuzu (contentRoot : FilePath) : FileM FilePath := do
  let found ← perform (pathExists (contentRoot ++ [dataKuzu]))
  if found then pure contentRoot
  else raise ("ValueError: Invalid snapshot: 'data.kuzu' not found in /" ++
    "/".intercalate contentRoot)

/-- The validation of the extracted files: a single directory at the top, with the expected name. -/
def checkLayout (tmpDir : FilePath) (expectedRootName : String) : List String → FileM FilePath
  | [name] =>
    if name = expectedRootName then checkDataKuzu (tmpDir ++ [name])
    else raise ("ValueError: Invalid snapshot root directory: expected '" ++ expectedRootName ++
      "', got '" ++ name ++ "'")
  | _ => raise "ValueError: Invalid snapshot layout: expected a single top-level directory"

/-- `target_dir.with_name(target_dir.name + …)`. -/
def withNameSuffix (targetDir : FilePath) (suffix : String) : FilePath :=
  targetDir.dropLast ++ [targetDir.getLast?.getD "" ++ suffix]

/-- The directory that is there is moved away. -/
def backUp (targetDir backupDir : FilePath) : FileM Unit := do
  let there ← perform (pathExists targetDir)
  if there then perform (replace targetDir backupDir) else pure ()

/-- The content is staged beside the directory, and takes its place. -/
def swapDirectory (sourceDir targetDir backupDir stagedDir : FilePath) : FileM Unit := do
  perform (mkdir targetDir.dropLast)
  perform (replace sourceDir stagedDir)
  backUp targetDir backupDir
  perform (replace stagedDir targetDir)

/-- The content of the archive takes the place of the directory. -/
def replaceDirectory (archive : Archive) (backupStamp stageStamp : String)
    (tmpDir targetDir : FilePath) : FileM Unit := do
  perform (extractall archive tmpDir)
  let entries ← perform (iterdir tmpDir)
  let topLevelDirs ← directoriesOf tmpDir entries
  let sourceDir ← checkLayout tmpDir (targetDir.getLast?.getD "") topLevelDirs
  swapDirectory sourceDir targetDir (withNameSuffix targetDir (".pitr_bak_" ++ backupStamp))
    (withNameSuffix targetDir (".pitr_stage_" ++ stageStamp))

/-- The archive takes the place of the directory of the database, or the file that of the database.
-/
def replaceDatabase (download : Download) (backupStamp stageStamp : String)
    (tmpDir targetPath : FilePath) : FileM Unit :=
  if download.objectKey.endsWith ".tar.gz" then
    replaceDirectory download.archive backupStamp stageStamp tmpDir targetPath.dropLast
  else replaceFile download.data targetPath

/-- `_restore_snapshot`, after the download.  The removal of the workspace may raise. -/
def restoreSnapshot (download : Download) (backupStamp stageStamp tmpName : String)
    (targetPath : FilePath) : FileM Unit := do
  let parent := targetPath.dropLast
  perform (mkdir parent)
  let tmpDir ← perform (mkdtemp parent tmpName)
  finallyDo (replaceDatabase download backupStamp stageStamp tmpDir targetPath)
    (removeExisting tmpDir)

/-! ### What is asked for -/

/-- The entry is a directory. -/
def isDirIn (entries : Entries) (name : String) : Bool :=
  match entries.lookup name with
  | some (.dir _) => true
  | _ => false

/-- The directories at the top of an archive. -/
def topLevelDirs (entries : Entries) : List String :=
  (entries.map Prod.fst).dedup.filter (isDirIn entries)

/-- The database of an archive that is accepted for a directory of this name. -/
def checkedDatabase (dirName : String) : Archive → Option FileTree
  | .readable entries true =>
    if topLevelDirs entries = [dirName] then get [dirName, dataKuzu] (some (.dir entries)) else none
  | _ => none

/-- The database of a snapshot. -/
def snapshotContent (download : Download) (dirName : String) : Option FileTree :=
  if download.objectKey.endsWith ".tar.gz" then checkedDatabase dirName download.archive
  else some (.file download.data)

/-- **A restore that raises, wherever that is, leaves what was at the path, and one that returns
leaves the database of the snapshot**: for every place of the directory, all clock readings, every
name of the workspace, and whatever else is on the disk. -/
def AllOrNothing (download : Download) (dirName fileName : String) (prior : Option FileTree) :
    Prop :=
  ∀ base backupStamp stageStamp tmpName, tmpName ≠ fileName →
    Triple (fun d => get (base ++ [dirName] ++ [fileName]) d = prior)
      (restoreSnapshot download backupStamp stageStamp tmpName (base ++ [dirName] ++ [fileName]))
      (fun _ d => ∃ x, snapshotContent download dirName = some x ∧
        get (base ++ [dirName] ++ [fileName]) d = some x)
      (fun d => get (base ++ [dirName] ++ [fileName]) d = prior)

/-- The archive is rejected; or there is no archive, and the file goes over a directory, or over
itself. -/
def Harmless (download : Download) (dirName : String) (prior : Option FileTree) : Prop :=
  if download.objectKey.endsWith ".tar.gz" then checkedDatabase dirName download.archive = none
  else IsDir prior ∨ prior = some (.file download.data)

/-! ### What is rejected -/

section Rejected

variable {parent tmpDir : FilePath} {dirName name tmpName backupStamp stageStamp : String}
  {t : Option FileTree} {d : Disk} {download : Download} {entries : Entries} {faults : Bool}
  {P : Disk → Prop}

theorem isDirectory_child (h : get tmpDir d = some (.dir entries)) (name : String) :
    (isDirectory (tmpDir ++ [name]) d).1 = (.ok (isDirIn entries name), d) := by
  unfold isDirectory look isDirIn
  dsimp only
  rw [get_append, h, get_cons_dir, get_nil]
  rcases entries.lookup name with _ | (content | entries')
  · rfl
  · rfl
  · rfl

/-- What an operation that keeps the disk gives. -/
theorem triple_of_run {α : Type} {op : FileOp α} {a : α}
    (h : ∀ d, P d → (op d).1 = (.ok a, d) ∧ (op d).2 = [d]) :
    Triple P (perform op) (fun b d => b = a ∧ P d) P := by
  refine Triple.perform fun d hd => ?_
  obtain ⟨hrun, hfails⟩ := h d hd
  rw [hrun, hfails]
  refine ⟨⟨rfl, hd⟩, fun d' hd' => ?_⟩
  rwa [List.mem_singleton.1 hd']

/-- Looking which entries are directories changes nothing. -/
theorem triple_directoriesOf (hP : ∀ d, P d → get tmpDir d = some (.dir entries))
    (names : List String) :
    Triple P (directoriesOf tmpDir names)
      (fun dirs d => dirs = names.filter (isDirIn entries) ∧ P d) P := by
  induction names with
  | nil => exact Triple.ret fun d hd => ⟨rfl, hd⟩
  | cons name names ih =>
    unfold directoriesOf
    refine Triple.bind (triple_of_run fun d hd => ⟨isDirectory_child (hP d hd) name, rfl⟩)
      fun isDir => ?_
    rintro d ⟨rfl, hd⟩
    refine Triple.bind ih (fun dirs => ?_) d hd
    rintro d ⟨rfl, hd⟩
    refine Triple.ret (fun d hd => ⟨?_, hd⟩) d hd
    rw [List.filter_cons]

/-- **The checks let no other archive through.** -/
theorem triple_checkLayout (hP : ∀ d, P d → get tmpDir d = some (.dir entries))
    (hchecked : checkedDatabase dirName (.readable entries true) = none) :
    Triple P (checkLayout tmpDir dirName (topLevelDirs entries)) (fun _ _ => False) P := by
  unfold checkedDatabase at hchecked
  unfold checkLayout
  split
  · next name hsingle =>
    split
    · next hname =>
      dsimp only at hchecked
      rw [hsingle, hname, if_pos rfl] at hchecked
      have hmissing : ∀ d, P d → (pathExists (tmpDir ++ [name] ++ [dataKuzu]) d).1 =
          (.ok false, d) := by
        intro d hd
        refine pathExists_run ?_
        rw [List.append_assoc, get_append, hP d hd, hname, List.singleton_append, hchecked]
        rfl
      unfold checkDataKuzu
      refine Triple.bind (triple_of_run fun d hd => ⟨hmissing d hd, rfl⟩) fun found => ?_
      rintro d ⟨rfl, hd⟩
      rw [if_neg Bool.false_ne_true]
      exact Triple.raise _ d hd
    · exact Triple.raise _
  · exact Triple.raise _

/-- The extracted files, beside the database. -/
def Extracted (parent : FilePath) (dirName tmpName name : String) (entries : Entries)
    (t : Option FileTree) (d : Disk) : Prop :=
  get (parent ++ [dirName] ++ [tmpName]) d = some (.dir entries) ∧
    Holds (parent ++ [dirName]) name t d

/-- A rejected archive, and a file that cannot change the path, leave what is there; only a file
over itself returns. -/
theorem triple_replaceDatabase (hne : tmpName ≠ name) (h : Harmless download dirName t) :
    Triple (Holds (parent ++ [dirName]) name t)
      (replaceDatabase download backupStamp stageStamp (parent ++ [dirName] ++ [tmpName])
        (parent ++ [dirName] ++ [name]))
      (fun _ d => get (parent ++ [dirName] ++ [name]) d = t ∧
        ∃ x, snapshotContent download dirName = some x ∧ t = some x)
      (fun d => get (parent ++ [dirName] ++ [name]) d = t) := by
  unfold Harmless at h
  unfold replaceDatabase snapshotContent
  split
  · next harchive =>
    rw [if_pos harchive] at h
    rw [List.dropLast_concat]
    unfold replaceDirectory
    refine Triple.bind (triple_extractall hne) fun _ => ?_
    rintro d ⟨⟨entries, hentries, hworkspace⟩, hd⟩
    rw [hentries] at h
    rw [List.getLast?_concat, Option.getD_some]
    -- from here on nothing changes
    refine Triple.conseq (P := Extracted parent dirName tmpName name entries t)
      (E := Extracted parent dirName tmpName name entries t) ?_
      (fun d hd => hd) (fun _ d hd => hd) (fun d hd => hd.2.2) d ⟨hworkspace, hd⟩
    refine Triple.bind (triple_of_run fun d hd => ⟨iterdir_run hd.1, rfl⟩) fun names => ?_
    rintro d ⟨rfl, hd⟩
    refine Triple.bind (triple_directoriesOf (fun d hd => hd.1) _) (fun dirs => ?_) d hd
    rintro d ⟨rfl, hd⟩
    refine Triple.bind (triple_checkLayout (fun d hd => hd.1) h) (fun _ d hd => ?_) d hd
    exact hd.elim
  · next hraw =>
    rw [if_neg hraw] at h
    exact (triple_replaceFile h).conseq (fun d hd => hd) (fun _ d hd => ⟨hd.1, _, rfl, hd.2⟩)
      fun d hd => hd

/-- The removal of the workspace keeps what is at the path. -/
theorem triple_removeExisting (hne : tmpName ≠ name) :
    Triple (fun d => get (parent ++ [name]) d = t) (removeExisting (parent ++ [tmpName]))
      (fun _ d => get (parent ++ [name]) d = t) (fun d => get (parent ++ [name]) d = t) := by
  unfold removeExisting
  refine Triple.bind (Triple.perform_look _) fun there => ?_
  cases there with
  | true => exact Triple.perform_apart (touches_rmtree _) (apart_append parent [] [] hne)
  | false => exact Triple.pure ()

/-- **A restore that is harmless keeps what is at the path.** -/
theorem triple_restoreSnapshot (hne : tmpName ≠ name) (h : Harmless download dirName t) :
    Triple (fun d => get (parent ++ [dirName] ++ [name]) d = t)
      (restoreSnapshot download backupStamp stageStamp tmpName (parent ++ [dirName] ++ [name]))
      (fun _ d => get (parent ++ [dirName] ++ [name]) d = t ∧
        ∃ x, snapshotContent download dirName = some x ∧ t = some x)
      (fun d => get (parent ++ [dirName] ++ [name]) d = t) := by
  unfold restoreSnapshot
  rw [List.dropLast_concat]
  refine Triple.bind triple_mkdir_parent fun _ => Triple.bind (triple_mkdtemp hne) fun tmpDir => ?_
  rintro d ⟨rfl, hd⟩
  refine Triple.finallyDo (triple_replaceDatabase hne h) (fun _ => ?_) (triple_removeExisting hne)
    d hd
  rintro d ⟨hd, hcontent⟩
  exact (triple_removeExisting hne).conseq (fun d hd => hd) (fun _ d hd => ⟨hd, hcontent⟩)
    (fun d hd => hd) d hd

end Rejected

/-! ### The renames -/

section Renames

variable {base q : FilePath} {dirName backupName stagedName name : String} {sub : Entries}
  {d : Disk}

/-- The content is in the workspace, and nothing is in the way of the renames. -/
structure Staging (base : FilePath) (dirName backupName stagedName : String) (source : FilePath)
    (sub : Entries) (d : Disk) : Prop where
  staged_ne : stagedName ≠ dirName
  backup_ne : backupName ≠ dirName
  staged_ne_backup : stagedName ≠ backupName
  isDir_base : IsDir (get base d)
  isDir_target : IsDir (get (base ++ [dirName]) d)
  content : get source d = some (.dir sub)
  staged : get (base ++ [stagedName]) d = none
  backup : get (base ++ [backupName]) d = none

/-- The directory is moved away, and the content is beside it. -/
theorem Staging.exists_backUp
    (h : Staging base dirName backupName stagedName (base ++ [dirName] ++ name :: q) sub d) :
    ∃ d', (∀ o ∈ perform (replace (base ++ [stagedName]) (base ++ [dirName])) true d',
        o ∈ swapDirectory (base ++ [dirName] ++ name :: q) (base ++ [dirName])
          (base ++ [backupName]) (base ++ [stagedName]) true d) ∧
      IsDir (get base d') ∧ get (base ++ [dirName]) d' = none ∧
      get (base ++ [stagedName]) d' = some (.dir sub) := by
  obtain ⟨hstaged, hbackup, hboth, hbase, htarget, hsource, hnostaged, hnobackup⟩ := h
  have hsiblings : ∀ {a b : String}, a ≠ b → Apart (base ++ [a]) (base ++ [b]) :=
    fun h => apart_append base [] [] h
  -- the content moves beside the directory
  have hapart : ∀ {a : String}, dirName ≠ a →
      Apart (base ++ [dirName] ++ name :: q) (base ++ [a]) :=
    fun h => (hsiblings h).append _
  have hstage : (replace (base ++ [dirName] ++ name :: q) (base ++ [stagedName]) d).1 =
      (.ok (), moved (base ++ [dirName] ++ name :: q) (base ++ [stagedName]) (.dir sub) d) := by
    rw [replace_of_none hsource (by rwa [List.dropLast_concat]) (hapart hstaged.symm) hnostaged]
  have hremoved : IsDir (get base (put (base ++ [dirName] ++ name :: q) none d)) := by
    rw [List.append_assoc]
    exact isDir_put_append hbase _ _ _
  obtain ⟨entries, hentries⟩ : IsDir (get (base ++ [dirName])
      (moved (base ++ [dirName] ++ name :: q) (base ++ [stagedName]) (.dir sub) d)) := by
    unfold moved
    rw [get_put_of_apart (hsiblings hstaged)]
    exact isDir_put_append htarget _ _ _
  have hcontent : get (base ++ [stagedName])
      (moved (base ++ [dirName] ++ name :: q) (base ++ [stagedName]) (.dir sub) d) =
        some (.dir sub) := get_put_self hremoved _ _
  have hfree : get (base ++ [backupName])
      (moved (base ++ [dirName] ++ name :: q) (base ++ [stagedName]) (.dir sub) d) = none := by
    unfold moved
    rw [get_put_of_apart (hsiblings hboth), get_put_of_apart (hapart hbackup.symm), hnobackup]
  have hbase' : IsDir (get base
      (moved (base ++ [dirName] ++ name :: q) (base ++ [stagedName]) (.dir sub) d)) :=
    isDir_put_append hremoved _ [] _
  generalize moved (base ++ [dirName] ++ name :: q) (base ++ [stagedName]) (.dir sub) d = d₁
    at hstage hentries hcontent hfree hbase'
  -- the directory moves away
  have hreplace : (replace (base ++ [dirName]) (base ++ [backupName]) d₁).1 =
      (.ok (), moved (base ++ [dirName]) (base ++ [backupName]) (.dir entries) d₁) := by
    rw [replace_of_none hentries (by rwa [List.dropLast_concat]) (hsiblings hbackup.symm) hfree]
  have hremoved' : IsDir (get base (put (base ++ [dirName]) none d₁)) :=
    isDir_put_append hbase' _ [] _
  have hmem : ((.ok (), moved (base ++ [dirName]) (base ++ [backupName]) (.dir entries) d₁) :
      Outcome Unit) ∈ backUp (base ++ [dirName]) (base ++ [backupName]) true d₁ :=
    mem_bind_perform (pathExists_run (congrArg Option.isSome hentries))
      (List.mem_cons.2 (Or.inl hreplace.symm))
  refine ⟨moved (base ++ [dirName]) (base ++ [backupName]) (.dir entries) d₁, fun o ho => ?_,
    isDir_put_append hremoved' _ [] _, ?_, ?_⟩
  · unfold swapDirectory
    have hmkdir : (mkdir (base ++ [dirName]).dropLast d).1 = (.ok (), d) := by
      rw [List.dropLast_concat, mkdir_of_isDir hbase]
    exact mem_bind_perform hmkdir (mem_bind_perform hstage (mem_bind_of_ok hmem ho))
  · unfold moved
    rw [get_put_of_apart (hsiblings hbackup), get_put_self hbase']
  · unfold moved
    rw [get_put_of_apart (hsiblings hboth.symm), get_put_of_apart (hsiblings hstaged.symm),
      hcontent]

/-- **When the last rename fails**, there is nothing at the directory. -/
theorem swapDirectory_fails
    (h : Staging base dirName backupName stagedName (base ++ [dirName] ++ name :: q) sub d) :
    ∃ d', ((.error "OSError", d') : Outcome Unit) ∈
        swapDirectory (base ++ [dirName] ++ name :: q) (base ++ [dirName]) (base ++ [backupName])
          (base ++ [stagedName]) true d ∧
      get (base ++ [dirName]) d' = none := by
  obtain ⟨d', hmem, hbase, hnone, hcontent⟩ := h.exists_backUp
  refine ⟨d', hmem _ (mem_perform_of_fails ?_), hnone⟩
  rw [replace_of_none hcontent (by rwa [List.dropLast_concat])
    (apart_append base [] [] h.staged_ne) hnone]
  exact List.mem_cons_self

/-- **The content takes the place of the directory.** -/
theorem swapDirectory_ok
    (h : Staging base dirName backupName stagedName (base ++ [dirName] ++ name :: q) sub d) :
    ∃ d', ((.ok (), d') : Outcome Unit) ∈
        swapDirectory (base ++ [dirName] ++ name :: q) (base ++ [dirName]) (base ++ [backupName])
          (base ++ [stagedName]) true d ∧
      get (base ++ [dirName]) d' = some (.dir sub) := by
  obtain ⟨d', hmem, hbase, hnone, hcontent⟩ := h.exists_backUp
  refine ⟨moved (base ++ [stagedName]) (base ++ [dirName]) (.dir sub) d',
    hmem _ (List.mem_cons.2 (Or.inl ?_)), get_put_self (isDir_put_append hbase _ [] _) _ _⟩
  rw [replace_of_none hcontent (by rwa [List.dropLast_concat])
    (apart_append base [] [] h.staged_ne) hnone]

end Renames

/-! ### What can go wrong -/

section Leaves

variable {base parent tmpDir : FilePath}
  {dirName name tmpName backupStamp stageStamp : String} {x : FileTree} {t : Option FileTree}
  {d d' : Disk} {download : Download} {archive : Archive} {entries sub : Entries} {faults : Bool}

theorem withNameSuffix_concat (base : FilePath) (dirName suffix : String) :
    withNameSuffix (base ++ [dirName]) suffix = base ++ [dirName ++ suffix] := by
  unfold withNameSuffix
  rw [List.dropLast_concat, List.getLast?_concat, Option.getD_some]

/-- An archive that is accepted has one directory at the top, with the database in it. -/
theorem checkedDatabase_eq_some (h : checkedDatabase dirName archive = some x) :
    ∃ entries sub, archive = .readable entries true ∧ topLevelDirs entries = [dirName] ∧
      entries.lookup dirName = some (.dir sub) ∧ sub.lookup dataKuzu = some x := by
  unfold checkedDatabase at h
  split at h
  · next entries =>
    split at h
    · next hsingle =>
      rw [get_cons_dir] at h
      rcases hlookup : entries.lookup dirName with _ | (content | sub)
      · rw [hlookup] at h
        cases h
      · rw [hlookup] at h
        cases h
      · rw [hlookup] at h
        exact ⟨entries, sub, rfl, hsingle, hlookup, h⟩
    · cases h
  · cases h

theorem mem_directoriesOf (h : get tmpDir d = some (.dir entries)) (names : List String) :
    ((.ok (names.filter (isDirIn entries)), d) : Outcome (List String)) ∈
      directoriesOf tmpDir names faults d := by
  induction names with
  | nil => exact List.mem_cons_self
  | cons name names ih =>
    unfold directoriesOf
    refine mem_bind_perform (isDirectory_child h name) (mem_bind_of_ok ih ?_)
    rw [List.filter_cons]
    exact List.mem_cons_self

/-- A run of the restore, from the workspace on. -/
theorem mem_restoreSnapshot (hparent : IsDir (get parent d))
    (hfree : get (parent ++ [tmpName]) d = none) {o : Outcome Unit}
    (ho : o ∈ finallyDo (replaceDatabase download backupStamp stageStamp (parent ++ [tmpName])
      (parent ++ [name])) (removeExisting (parent ++ [tmpName])) true
      (withWorkspace parent tmpName d)) :
    o ∈ restoreSnapshot download backupStamp stageStamp tmpName (parent ++ [name]) true d := by
  unfold restoreSnapshot
  rw [List.dropLast_concat]
  have hmkdir : (mkdir parent d).1 = (.ok (), d) := by rw [mkdir_of_isDir hparent]
  have hmkdtemp : (mkdtemp parent tmpName d).1 =
      (.ok (parent ++ [tmpName]), withWorkspace parent tmpName d) := by
    rw [mkdtemp_of_none hparent hfree]
  exact mem_bind_perform hmkdir (mem_bind_perform hmkdtemp ho)

/-- After anything, the check for the workspace can fail. -/
theorem mem_finallyDo_check {body : FileM Unit} {o : Outcome Unit} (ho : o ∈ body true d) :
    ((.error "OSError", o.2) : Outcome Unit) ∈ finallyDo body (removeExisting tmpDir) true d := by
  have hcheck : ((.error "OSError", o.2) : Outcome Unit) ∈ removeExisting tmpDir true o.2 :=
    mem_bind_of_error (mem_perform_of_fails List.mem_cons_self)
  exact mem_finallyDo ho hcheck

/-- Without a workspace there is nothing to remove. -/
theorem mem_finallyDo_none {body : FileM Unit} {o : Outcome Unit} (ho : o ∈ body true d)
    (hnone : get tmpDir o.2 = none) : o ∈ finallyDo body (removeExisting tmpDir) true d := by
  have hthere : ((.ok (), o.2) : Outcome Unit) ∈ removeExisting tmpDir true o.2 :=
    mem_bind_perform (pathExists_run (congrArg Option.isSome hnone)) (List.mem_singleton.2 rfl)
  exact mem_finallyDo ho hthere

/-- An archive that is accepted, and a disk where nothing is in the way. -/
structure Ready (download : Download) (dirName tmpName backupStamp stageStamp : String)
    (base : FilePath) (entries sub : Entries) (x : FileTree) (d : Disk) : Prop where
  key : download.objectKey.endsWith ".tar.gz" = true
  archive : download.archive = .readable entries true
  single : topLevelDirs entries = [dirName]
  content : entries.lookup dirName = some (.dir sub)
  database : sub.lookup dataKuzu = some x
  isDir_base : IsDir (get base d)
  isDir_target : IsDir (get (base ++ [dirName]) d)
  workspace : get (base ++ [dirName] ++ [tmpName]) d = none
  backup : get (base ++ [dirName ++ (".pitr_bak_" ++ backupStamp)]) d = none
  staged : get (base ++ [dirName ++ (".pitr_stage_" ++ stageStamp)]) d = none

theorem append_ne_self (dirName : String) {suffix : String} (h : suffix ≠ "") :
    dirName ++ suffix ≠ dirName := by
  intro heq
  have hempty : dirName ++ suffix = dirName ++ "" := heq.trans (String.append_empty).symm
  rw [String.append_right_inj] at hempty
  exact h hempty

/-- The names of the backup and of the staged directory are of three kinds. -/
theorem names_ne (dirName backupStamp stageStamp : String) :
    dirName ++ (".pitr_stage_" ++ stageStamp) ≠ dirName ∧
      dirName ++ (".pitr_bak_" ++ backupStamp) ≠ dirName ∧
      dirName ++ (".pitr_stage_" ++ stageStamp) ≠ dirName ++ (".pitr_bak_" ++ backupStamp) := by
  have hstage : (".pitr_stage_" ++ stageStamp).toList =
      ['.', 'p', 'i', 't', 'r', '_', 's', 't', 'a', 'g', 'e', '_'] ++ stageStamp.toList :=
    String.toList_append
  have hbackup : (".pitr_bak_" ++ backupStamp).toList =
      ['.', 'p', 'i', 't', 'r', '_', 'b', 'a', 'k', '_'] ++ backupStamp.toList :=
    String.toList_append
  refine ⟨append_ne_self dirName ?_, append_ne_self dirName ?_, ?_⟩
  · intro heq
    rw [heq] at hstage
    cases hstage
  · intro heq
    rw [heq] at hbackup
    cases hbackup
  · rw [Ne, String.append_right_inj]
    intro heq
    rw [heq, hbackup] at hstage
    cases hstage

/-- Once the archive is extracted, the renames can begin. -/
theorem Ready.staging
    (h : Ready download dirName tmpName backupStamp stageStamp base entries sub x d) :
    Staging base dirName (dirName ++ (".pitr_bak_" ++ backupStamp))
      (dirName ++ (".pitr_stage_" ++ stageStamp)) (base ++ [dirName] ++ tmpName :: [dirName]) sub
      (withFiles (base ++ [dirName]) tmpName entries d) := by
  obtain ⟨hstaged, hbackup, hboth⟩ := names_ne dirName backupStamp stageStamp
  have hsibling : ∀ other, other ≠ dirName → get (base ++ [other]) d = none →
      get (base ++ [other]) (withFiles (base ++ [dirName]) tmpName entries d) = none := by
    intro other hother hnone
    have hapart : Apart (base ++ [dirName] ++ [tmpName]) (base ++ [other]) :=
      Apart.append (apart_append base [] [] hother.symm) _
    exact (get_put_of_apart hapart _ _).trans ((get_put_of_apart hapart _ d).trans hnone)
  refine ⟨hstaged, hbackup, hboth, ?_, isDir_withFiles h.isDir_target, ?_,
    hsibling _ hstaged h.staged, hsibling _ hbackup h.backup⟩
  · unfold withFiles withWorkspace
    rw [List.append_assoc]
    exact isDir_put_append (isDir_put_append h.isDir_base dirName [tmpName] _) dirName [tmpName] _
  · rw [show base ++ [dirName] ++ tmpName :: [dirName] =
      base ++ [dirName] ++ [tmpName] ++ [dirName] by simp, get_append, get_workspace h.isDir_target,
      get_cons_dir, get_nil, h.content]

/-- The archive passes the checks, and the renames follow. -/
theorem Ready.mem_replaceDatabase
    (h : Ready download dirName tmpName backupStamp stageStamp base entries sub x d)
    {o : Outcome Unit}
    (ho : o ∈ swapDirectory (base ++ [dirName] ++ tmpName :: [dirName]) (base ++ [dirName])
      (base ++ [dirName ++ (".pitr_bak_" ++ backupStamp)])
      (base ++ [dirName ++ (".pitr_stage_" ++ stageStamp)]) true
      (withFiles (base ++ [dirName]) tmpName entries d)) :
    o ∈ replaceDatabase download backupStamp stageStamp (base ++ [dirName] ++ [tmpName])
      (base ++ [dirName] ++ [name]) true (withWorkspace (base ++ [dirName]) tmpName d) := by
  have hworkspace : get (base ++ [dirName] ++ [tmpName])
      (withFiles (base ++ [dirName]) tmpName entries d) = some (.dir entries) :=
    get_workspace h.isDir_target
  have hfound : (get (base ++ [dirName] ++ [tmpName] ++ [dirName] ++ [dataKuzu])
      (withFiles (base ++ [dirName]) tmpName entries d)).isSome = true := by
    rw [get_append, get_append _ [dirName], hworkspace, get_cons_dir, get_nil, h.content,
      get_cons_dir, get_nil, h.database]
    rfl
  have hlayout : ((.ok (base ++ [dirName] ++ [tmpName] ++ [dirName]),
      withFiles (base ++ [dirName]) tmpName entries d) : Outcome FilePath) ∈
        checkLayout (base ++ [dirName] ++ [tmpName]) dirName (topLevelDirs entries) true
          (withFiles (base ++ [dirName]) tmpName entries d) := by
    rw [h.single]
    unfold checkLayout checkDataKuzu
    dsimp only
    rw [if_pos rfl]
    exact mem_bind_perform (pathExists_run hfound) List.mem_cons_self
  unfold replaceDatabase replaceDirectory
  rw [if_pos h.key, h.archive, List.dropLast_concat]
  refine mem_bind_perform (extractall_run (base ++ [dirName]) tmpName entries d)
    (mem_bind_perform (iterdir_run hworkspace)
      (mem_bind_of_ok (mem_directoriesOf hworkspace _) ?_))
  rw [List.getLast?_concat, Option.getD_some]
  refine mem_bind_of_ok hlayout ?_
  rw [withNameSuffix_concat, withNameSuffix_concat, List.append_assoc (base ++ [dirName])]
  exact ho

/-- An archive that is accepted can take the database away, or be there after an exception, or put
nothing at the path. -/
theorem Ready.exists_restoreSnapshot
    (h : Ready download dirName tmpName backupStamp stageStamp base entries sub x d)
    (hfresh : sub.lookup tmpName = none) (name : String) (t : Option FileTree) :
    ∃ o ∈ restoreSnapshot download backupStamp stageStamp tmpName (base ++ [dirName] ++ [name])
        true d,
      ¬ Ensures (fun _ d => ∃ x, snapshotContent download dirName = some x ∧
          get (base ++ [dirName] ++ [name]) d = some x)
        (fun d => get (base ++ [dirName] ++ [name]) d = t) o := by
  cases t with
  | some y =>
    -- the last rename fails
    obtain ⟨d', hswap, hnone⟩ := swapDirectory_fails h.staging
    have hgone : ∀ file, get (base ++ [dirName] ++ [file]) d' = none := by
      intro file
      rw [get_append, hnone, get_none]
    refine ⟨_, mem_restoreSnapshot h.isDir_target h.workspace
      (mem_finallyDo_none (h.mem_replaceDatabase hswap) (hgone tmpName)), ?_⟩
    intro hkept
    have hkept : get (base ++ [dirName] ++ [name]) d' = some y := hkept
    rw [hgone] at hkept
    cases hkept
  | none =>
    obtain ⟨d', hswap, hcontent⟩ := swapDirectory_ok h.staging
    have hfile : ∀ file, get (base ++ [dirName] ++ [file]) d' = sub.lookup file := by
      intro file
      rw [get_append, hcontent]
      rfl
    cases hlookup : sub.lookup name with
    | some y =>
      -- the check for the workspace fails
      refine ⟨_, mem_restoreSnapshot h.isDir_target h.workspace
        (mem_finallyDo_check (h.mem_replaceDatabase hswap)), ?_⟩
      intro hkept
      have hkept : get (base ++ [dirName] ++ [name]) d' = none := hkept
      rw [hfile, hlookup] at hkept
      cases hkept
    | none =>
      refine ⟨_, mem_restoreSnapshot h.isDir_target h.workspace
        (mem_finallyDo_none (h.mem_replaceDatabase hswap) ((hfile tmpName).trans hfresh)), ?_⟩
      rintro ⟨y, -, hkept⟩
      have hkept : get (base ++ [dirName] ++ [name]) d' = some y := hkept
      rw [hfile, hlookup] at hkept
      cases hkept

/-- A file that changes the path can be there after an exception. -/
theorem exists_restoreSnapshot_file (hraw : ¬ download.objectKey.endsWith ".tar.gz" = true)
    (hne : tmpName ≠ name) (htmp : tmpName ≠ name ++ ".tmp") (hparent : IsDir (get parent d))
    (hfree : get (parent ++ [tmpName]) d = none) (ht : get (parent ++ [name]) d = t)
    (hfile : get (parent ++ [name ++ ".tmp"]) d = none)
    (hdir : ¬ IsDir t) (hsame : t ≠ some (.file download.data)) :
    ∃ e d', ((.error e, d') : Outcome Unit) ∈
        restoreSnapshot download backupStamp stageStamp tmpName (parent ++ [name]) true d ∧
      get (parent ++ [name]) d' ≠ t := by
  have hparent' : IsDir (get parent (withWorkspace parent tmpName d)) :=
    isDir_put_append hparent tmpName [] _
  obtain ⟨d', hmem, hget⟩ := mem_replaceFile hparent'
    ((get_put_of_apart (apart_append parent [] [] hne) _ d).trans ht)
    ((get_put_of_apart (apart_append parent [] [] htmp) _ d).trans hfile) hdir
  refine ⟨_, d', mem_restoreSnapshot hparent hfree (mem_finallyDo_check (o := (.ok (), d')) ?_), ?_⟩
  · unfold replaceDatabase
    rw [if_neg hraw]
    exact hmem
  · rw [hget]
    exact fun heq => hsame heq.symm

end Leaves

/-- There is a name for the workspace that is not taken. -/
theorem exists_workspace_name (names : List String) : ∃ tmpName, tmpName ∉ names := by
  have hinj : Function.Injective fun n : ℕ =>
      "pitr_restore_" ++ String.ofList (List.replicate n '0') := by
    intro n m heq
    have hlength := congrArg String.length heq
    simpa using hlength
  obtain ⟨tmpName, -, hfresh⟩ :=
    (Set.infinite_range_of_injective hinj).exists_notMem_finset names.toFinset
  exact ⟨tmpName, fun hmem => hfresh (List.mem_toFinset.2 hmem)⟩

theorem lookup_eq_none_of_not_mem {entries : Entries} {name : String}
    (h : name ∉ entries.map Prod.fst) : entries.lookup name = none := by
  rw [List.lookup_eq_none_iff]
  intro entry hentry
  rw [bne_iff_ne]
  rintro rfl
  exact h (List.mem_map_of_mem hentry)

/-- **The restore is all or nothing exactly when the archive is rejected or, without an archive, the
file cannot change the path.** -/
theorem allOrNothing_iff_harmless {download : Download} {dirName fileName : String}
    {prior : Option FileTree} :
    AllOrNothing download dirName fileName prior ↔ Harmless download dirName prior := by
  constructor
  · intro hall
    unfold Harmless
    -- a disk with nothing but the directory is enough to see what a restore can do
    have htarget : get ([] ++ [dirName])
        (some (.dir [(dirName, .dir (setEntry fileName prior []))])) =
          some (.dir (setEntry fileName prior [])) := by
      rw [List.nil_append, get_cons_dir, get_nil, List.lookup_cons, beq_self_eq_true]
    have hfile : ∀ file, get ([] ++ [dirName] ++ [file])
        (some (.dir [(dirName, .dir (setEntry fileName prior []))])) =
          if file = fileName then prior else none := by
      intro file
      rw [get_append, htarget, get_cons_dir, get_nil, lookup_setEntry]
      rfl
    have hsibling : ∀ other, other ≠ dirName → get ([] ++ [other])
        (some (.dir [(dirName, .dir (setEntry fileName prior []))])) = none := by
      intro other hother
      have hne : (other == dirName) = false := beq_eq_false_iff_ne.2 hother
      rw [List.nil_append, get_cons_dir, get_nil, List.lookup_cons, hne]
      rfl
    split
    · next hkey =>
      by_contra hsome
      obtain ⟨x, hx⟩ := Option.ne_none_iff_exists'.1 hsome
      obtain ⟨entries, sub, harchive, hsingle, hsub, hdatabase⟩ := checkedDatabase_eq_some hx
      obtain ⟨tmpName, hnames⟩ := exists_workspace_name (fileName :: sub.map Prod.fst)
      rw [List.mem_cons, not_or] at hnames
      obtain ⟨hstaged, hbackup, -⟩ := names_ne dirName "20250101T000000Z" "20250101T000000Z"
      have hready : Ready download dirName tmpName "20250101T000000Z" "20250101T000000Z" []
          entries sub x (some (.dir [(dirName, .dir (setEntry fileName prior []))])) :=
        ⟨hkey, harchive, hsingle, hsub, hdatabase, ⟨_, rfl⟩, ⟨_, htarget⟩,
          (hfile tmpName).trans (if_neg hnames.1), hsibling _ hbackup, hsibling _ hstaged⟩
      obtain ⟨o, ho, hnot⟩ :=
        hready.exists_restoreSnapshot (lookup_eq_none_of_not_mem hnames.2) fileName prior
      exact hnot (hall [] _ _ tmpName hnames.1 _ ((hfile fileName).trans (if_pos rfl)) o ho)
    · next hraw =>
      by_contra hharm
      obtain ⟨hdir, hsame⟩ := not_or.1 hharm
      obtain ⟨tmpName, hnames⟩ := exists_workspace_name [fileName, fileName ++ ".tmp"]
      rw [List.mem_cons, not_or, List.mem_singleton] at hnames
      have hprior := (hfile fileName).trans (if_pos rfl)
      obtain ⟨e, d', hmem, hchanged⟩ := exists_restoreSnapshot_file hraw hnames.1 hnames.2
        ⟨_, htarget⟩ ((hfile tmpName).trans (if_neg hnames.1)) hprior
        ((hfile _).trans (if_neg (tmp_ne fileName))) hdir hsame
      exact hchanged (hall []
        "20250101T000000Z" "20250101T000000Z" tmpName hnames.1 _ hprior _ hmem)
  · intro hharm base backupStamp stageStamp tmpName hne
    refine (triple_restoreSnapshot hne hharm).conseq (fun d hd => hd) ?_ fun d hd => hd
    rintro - d ⟨hd, x, hcontent, hx⟩
    exact ⟨x, hcontent, hd.trans hx⟩

/-- When the last rename fails, the database is gone. -/
theorem not_allOrNothing_accepted :
    ¬ ∀ download dirName fileName prior, AllOrNothing download dirName fileName prior := by
  intro hall
  have hready : Ready ⟨"snapshots/snapshot-0.tar.gz", [],
        .readable [("db_1", .dir [(dataKuzu, .file [2])])] true⟩ "db_1" "pitr_restore_0"
      "20250101T000000Z" "20250101T000000Z" [] [("db_1", .dir [(dataKuzu, .file [2])])]
      [(dataKuzu, .file [2])] (.file [2]) (some (.dir [("db_1", .dir [(dataKuzu, .file [1])])])) :=
    ⟨by decide +kernel, rfl, by decide +kernel, by rfl, by rfl, ⟨_, rfl⟩, ⟨_, rfl⟩, by rfl, by rfl,
      by rfl⟩
  obtain ⟨o, ho, hnot⟩ := hready.exists_restoreSnapshot (by rfl) dataKuzu (some (.file [1]))
  exact hnot (hall _ _ dataKuzu (some (.file [1])) [] _ _ _ (by decide) _ (by rfl) o ho)

end KuzuEventBus.Service.PitrFiles
