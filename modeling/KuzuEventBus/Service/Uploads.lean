import KuzuEventBus.Lib.Effects
import KuzuEventBus.Lib.HashMap
import KuzuEventBus.Service.Replays

/-!
# Uploads of files

`src/application/usecases/upload_kuzu_database_file.py`: a file is stored under the name the request
gives it, behind the ids of the tenant and of the database.  The log is stored there as well, and so
are the snapshots.

How the calls that are awaited answer is an argument: each may raise, and what was done before
stays.

## Main definitions

* `World` — the rows of the databases and the snapshots, and the objects of the storage.
* `uploadDatabase`, `execute` — the storage, and the use case.
* `Listed` — an object that a restore finds in the log.
* `Untouched` — the log and the snapshots of a database are as they were.
* `Harmless` — what a request has to meet.

## Main results

* `listed_iff` — the objects that are found in the log.
* `locate_path` — what is uploaded is found under the path that is returned.
* `untouched_iff` — **an upload leaves the log and the snapshots untouched exactly when its name is
  none of theirs, or its content is there already.**
-/

namespace KuzuEventBus.Service.Uploads

open EffectM Replays

/-! ### The storage -/

/-- The content of an object. -/
abbrev Content := List UInt8

/-- What `find_by_id` returns of a row of `kuzu_databases`. -/
structure DatabaseInfo where
  tenantId : Uuid
  name : String

/-- A row of `kuzu_db_snapshots`; the key is the path that `upload_database` returned. -/
structure RegisteredSnapshot where
  id : Uuid
  databaseId : Uuid
  objectKey : String

/-- The rows, and the objects by their buckets and keys; `bucket` is the one of the service. -/
structure World where
  databases : HashMap Uuid DatabaseInfo
  snapshots : List RegisteredSnapshot
  bucket : String
  objects : HashMap (String × String) Content

/-- `_object_key`. -/
def objectKey (tenantId databaseId : Uuid) (filename : String) : String :=
  "tenants/" ++ toString tenantId ++ "/" ++ toString databaseId ++ "/" ++ filename

/-- `s3://bucket/key`, or a key in the bucket of the service. -/
def World.locate (w : World) (filePath : String) : String × String :=
  if "s3://".toList <+: filePath.toList then
    let rest := filePath.toList.drop 5
    (String.ofList (rest.takeWhile (· ≠ '/')), String.ofList (rest.dropWhile (· ≠ '/')).tail)
  else (w.bucket, filePath)

/-- `download_database`; there is nothing when it raises. -/
def World.download (w : World) (filePath : String) : Option Content :=
  w.objects.lookup (w.locate filePath)

/-- The content of an object in the bucket of the service. -/
def World.content (w : World) (key : String) : Option Content :=
  w.objects.lookup (w.bucket, key)

/-- `list_objects`. -/
def World.listObjects (w : World) (front : String) : List StoredObject :=
  w.objects.entries.filterMap fun ⟨(bucket, key), content⟩ =>
    if bucket = w.bucket ∧ front.toList <+: key.toList then some ⟨key, content.length⟩ else none

/-- `put_object`. -/
def World.put (w : World) (key : String) (content : Content) : World :=
  { w with objects := w.objects.insert (w.bucket, key) content }

/-! ### The use case -/

/-- `UploadKuzuDatabaseFileRequest`. -/
structure UploadRequest where
  tenantId : Uuid
  databaseId : Uuid
  fileContent : Content
  fileName : String

/-- `UploadKuzuDatabaseFileResponse`. -/
structure UploadResponse where
  filePath : String
  fileSize : ℕ
  uploadedAt : String
  uploadUrl : Option String

/-- The event of an upload, with its `metadata`. -/
structure FileUploaded where
  tenantId : Uuid
  eventType : String
  title : String
  message : String
  databaseId : String
  fileName : String
  fileSize : ℕ

/-- How the calls of an upload answer. -/
structure UploadAnswers where
  checkPermission : Except PyError Bool
  findById : Except PyError Unit
  ensureBucket : Except PyError Unit
  put : Except PyError Unit
  cacheDelete : String → Except PyError Unit
  emitEvent : FileUploaded → Except PyError Unit

/-- `upload_database`. -/
def uploadDatabase (a : UploadAnswers) (tenantId databaseId : Uuid) (fileContent : Content)
    (filename : String) : EffectM PyError World String := do
  ofExcept a.ensureBucket
  let objectName := objectKey tenantId databaseId filename
  ofExcept a.put
  modify fun w => w.put objectName fileContent
  pure ("s3://" ++ (← get).bucket ++ "/" ++ objectName)

/-- `find_by_id`, if the database is the tenant's. -/
def World.findOwned (w : World) (tenantId databaseId : Uuid) : Option DatabaseInfo :=
  (w.databases.lookup databaseId).filter fun info => info.tenantId = tenantId

/-- `UploadKuzuDatabaseFileUseCase.execute`. -/
def execute (a : UploadAnswers) (req : UploadRequest) : EffectM PyError World UploadResponse := do
  match ← ofExcept a.checkPermission with
  | false => throw "Not authorized to upload files"
  | true =>
    ofExcept a.findById
    match (← get).findOwned req.tenantId req.databaseId with
    | none => throw "Database does not belong to tenant"
    | some info =>
      let destPath ← uploadDatabase a req.tenantId req.databaseId req.fileContent req.fileName
      ofExcept (a.cacheDelete ("db_info:" ++ toString req.databaseId))
      ofExcept (a.emitEvent
        { tenantId := req.tenantId
          eventType := "file_uploaded"
          title := "File Uploaded"
          message := "File '" ++ req.fileName ++ "' uploaded to database '" ++ info.name ++ "'"
          databaseId := toString req.databaseId
          fileName := req.fileName
          fileSize := req.fileContent.length })
      pure ⟨destPath, req.fileContent.length, "", none⟩

/-! ### What is asked for -/

/-- The prefix of the log of a database. -/
def walPrefix (tenantId databaseId : Uuid) : String :=
  "tenants/" ++ toString tenantId ++ "/" ++ toString databaseId ++ "/wal/"

section

variable {τ : Type} [LinearOrder τ] (F : Formats τ)

/-- A restore between some two times finds the object in the log of the database. -/
def Listed (w : World) (tenantId databaseId : Uuid) (key : String) : Prop :=
  ∃ startTime endTime, ∃ walFile ∈ Restore.findWalFilesInRange F
    (.ok (w.listObjects (walPrefix tenantId databaseId))) startTime endTime, walFile.key = key

/-- **The objects of the log and of the snapshots of the database have the contents they had, and
the log has no other object.** -/
structure Untouched (req : UploadRequest) (w w' : World) : Prop where
  wal : ∀ key, Listed F w req.tenantId req.databaseId key → w'.content key = w.content key
  snapshots : ∀ row ∈ w.snapshots, row.databaseId = req.databaseId →
    w'.download row.objectKey = w.download row.objectKey
  listed : ∀ key, Listed F w' req.tenantId req.databaseId key →
    Listed F w req.tenantId req.databaseId key

/-- The file is a file of the log: it is in `wal/`, and its name says a time. -/
def WalName (fileName : String) : Prop :=
  "wal/".toList <+: fileName.toList ∧ (timeOf F fileName).isSome = true

/-- The object is stored: the call is permitted, the database is the tenant's, and no call up to the
storage raises. -/
def Puts (a : UploadAnswers) (req : UploadRequest) (w : World) : Prop :=
  a.checkPermission = .ok true ∧ a.findById = .ok () ∧
    (w.findOwned req.tenantId req.databaseId).isSome = true ∧ a.ensureBucket = .ok () ∧
      a.put = .ok ()

/-- **What is stored is no file of the log and no snapshot of the database**, or it is there
already. -/
def Harmless (a : UploadAnswers) (req : UploadRequest) (w : World) : Prop :=
  Puts a req w →
    WalName F req.fileName ∨ (∃ row ∈ w.snapshots, row.databaseId = req.databaseId ∧
      w.locate row.objectKey = (w.bucket, objectKey req.tenantId req.databaseId req.fileName)) →
    w.content (objectKey req.tenantId req.databaseId req.fileName) = some req.fileContent

end

/-! ### Names -/

section

variable {τ : Type} [LinearOrder τ] {F : Formats τ} {w w' : World}

theorem toList_objectKey (tenantId databaseId : Uuid) (fileName : String) :
    (objectKey tenantId databaseId fileName).toList =
      ("tenants/" ++ toString tenantId ++ "/" ++ toString databaseId).toList ++
        '/' :: fileName.toList := by
  unfold objectKey
  rw [String.toList_append, String.toList_append, List.append_assoc]
  rfl

omit [LinearOrder τ] in
/-- The time of a file is the one of its name. -/
theorem timeOf_objectKey (tenantId databaseId : Uuid) (fileName : String) :
    timeOf F (objectKey tenantId databaseId fileName) = timeOf F fileName := by
  have hname : filename (objectKey tenantId databaseId fileName) = filename fileName :=
    PyText.lastPart_of_sep (toList_objectKey tenantId databaseId fileName)
  unfold timeOf
  rw [hname]

/-- A file is behind the prefix of the log when its name is in `wal/`. -/
theorem walPrefix_isPrefix_iff (tenantId databaseId : Uuid) (fileName : String) :
    (walPrefix tenantId databaseId).toList <+: (objectKey tenantId databaseId fileName).toList ↔
      "wal/".toList <+: fileName.toList := by
  have hslash : "/wal/".toList = '/' :: "wal/".toList := by decide +kernel
  rw [toList_objectKey, walPrefix, String.toList_append, hslash, List.prefix_append_right_inj,
    List.cons_prefix_cons, and_iff_right rfl]

/-- **What is uploaded is found under the path that is returned**: no bucket has a slash in its
name. -/
theorem locate_path (hbucket : '/' ∉ w.bucket.toList) (key : String) :
    w.locate ("s3://" ++ w.bucket ++ "/" ++ key) = (w.bucket, key) := by
  have hall : ∀ c ∈ w.bucket.toList, (c ≠ '/' : Bool) = true := by
    intro c hc
    simpa using fun h : c = '/' => hbucket (h ▸ hc)
  have hpath : ("s3://" ++ w.bucket ++ "/" ++ key).toList =
      "s3://".toList ++ (w.bucket.toList ++ '/' :: key.toList) := by
    simp [String.toList_append]
  have hscheme : "s3://".toList.length = 5 := by decide +kernel
  unfold World.locate
  have htake : (w.bucket.toList ++ '/' :: key.toList).takeWhile (· ≠ '/') = w.bucket.toList := by
    rw [List.takeWhile_append_of_pos hall, List.takeWhile_cons_of_neg (by simp), List.append_nil]
  have hdrop : (w.bucket.toList ++ '/' :: key.toList).dropWhile (· ≠ '/') = '/' :: key.toList := by
    rw [List.dropWhile_append_of_pos hall, List.dropWhile_cons_of_neg (by simp)]
  rw [hpath, if_pos (List.prefix_append _ _), ← hscheme, List.drop_left]
  dsimp only
  rw [htake, hdrop, List.tail_cons, String.ofList_toList, String.ofList_toList]

/-! ### Listing and storing -/

theorem mem_listObjects_iff {front : String} {key : String} :
    (∃ obj ∈ w.listObjects front, obj.key = key) ↔
      (w.content key).isSome = true ∧ front.toList <+: key.toList := by
  unfold World.listObjects World.content
  simp only [List.mem_filterMap, Option.isSome_iff_exists, ← AList.mem_entries_iff]
  constructor
  · rintro ⟨obj, ⟨⟨⟨bucket, key'⟩, content⟩, hmem, hobj⟩, rfl⟩
    split at hobj
    · next h =>
      cases hobj
      obtain ⟨rfl, hfront⟩ := h
      exact ⟨⟨content, hmem⟩, hfront⟩
    · cases hobj
  · rintro ⟨⟨content, hmem⟩, hfront⟩
    exact ⟨⟨key, content.length⟩, ⟨⟨(w.bucket, key), content⟩, hmem, if_pos ⟨rfl, hfront⟩⟩, rfl⟩

/-- **An object is found in the log exactly when it is there, behind the prefix, and its name says a
time.** -/
theorem listed_iff {tenantId databaseId : Uuid} {key : String} :
    Listed F w tenantId databaseId key ↔ (w.content key).isSome = true ∧
      (walPrefix tenantId databaseId).toList <+: key.toList ∧ (timeOf F key).isSome = true := by
  rw [← and_assoc, ← mem_listObjects_iff]
  unfold Listed Restore.findWalFilesInRange findWalFiles
  simp only [List.mem_insertionSort, List.mem_filterMap]
  constructor
  · rintro ⟨startTime, endTime, walFile, ⟨obj, hobj, hfile⟩, rfl⟩
    unfold Replays.walFile? at hfile
    split at hfile
    · cases hfile
    · next ts hts =>
      split at hfile
      · cases hfile
        exact ⟨⟨obj, List.mem_of_mem_filter hobj, rfl⟩, by rw [hts]; rfl⟩
      · cases hfile
  · rintro ⟨⟨obj, hobj, rfl⟩, htime⟩
    obtain ⟨ts, hts⟩ := Option.isSome_iff_exists.mp htime
    refine ⟨ts, ts, ⟨obj.key, ts, obj.size⟩, ⟨obj, ?_, ?_⟩, rfl⟩
    · simpa using hobj
    · unfold Replays.walFile?
      rw [hts]
      exact if_pos ⟨le_rfl, le_rfl⟩

/-- Storing an object leaves the others. -/
theorem content_put (key key' : String) (content : Content) :
    (w.put key content).content key' = if key' = key then some content else w.content key' := by
  have hlookup : (w.put key content).content key' =
      if (w.bucket, key') = (w.bucket, key) then some content else w.content key' :=
    AList.lookup_insert_eq _ _ _ _
  rw [hlookup]
  simp only [Prod.mk.injEq, true_and]

@[inherit_doc content_put]
theorem download_put (key filePath : String) (content : Content) :
    (w.put key content).download filePath =
      if w.locate filePath = (w.bucket, key) then some content else w.download filePath :=
  AList.lookup_insert_eq _ _ _ _

/-- **Storing an object leaves the log and the snapshots untouched exactly when it is none of
them, or there already.** -/
theorem untouched_put_iff (req : UploadRequest) :
    Untouched F req w
        (w.put (objectKey req.tenantId req.databaseId req.fileName) req.fileContent) ↔
      (WalName F req.fileName ∨ (∃ row ∈ w.snapshots, row.databaseId = req.databaseId ∧
          w.locate row.objectKey = (w.bucket, objectKey req.tenantId req.databaseId req.fileName)) →
        w.content (objectKey req.tenantId req.databaseId req.fileName) = some req.fileContent) := by
  set key := objectKey req.tenantId req.databaseId req.fileName with hkey
  have hwal : (walPrefix req.tenantId req.databaseId).toList <+: key.toList ∧
      (timeOf F key).isSome = true ↔ WalName F req.fileName := by
    rw [hkey, walPrefix_isPrefix_iff, timeOf_objectKey]
    rfl
  constructor
  · rintro h (hname | ⟨row, hrow, hdatabase, hlocate⟩)
    · -- the new object is listed, so it was listed before
      have hlisted : Listed F (w.put key req.fileContent) req.tenantId req.databaseId key := by
        rw [listed_iff, hwal, content_put, if_pos rfl]
        exact ⟨rfl, hname⟩
      rw [← h.wal key (h.listed key hlisted), content_put, if_pos rfl]
    · have hsame := h.snapshots row hrow hdatabase
      rw [download_put, if_pos hlocate, World.download, hlocate] at hsame
      exact hsame.symm
  · intro h
    refine ⟨fun key' hlisted => ?_, fun row hrow hdatabase => ?_, fun key' hlisted => ?_⟩
    · rw [content_put]
      split
      · next heq =>
        subst heq
        exact (h (.inl (hwal.mp (listed_iff.mp hlisted).2))).symm
      · rfl
    · rw [download_put]
      split
      · next hlocate =>
        rw [World.download, hlocate]
        exact (h (.inr ⟨row, hrow, hdatabase, hlocate⟩)).symm
      · rfl
    · rw [listed_iff] at hlisted ⊢
      refine ⟨?_, hlisted.2⟩
      rw [content_put] at hlisted
      split at hlisted
      · next heq =>
        subst heq
        rw [h (.inl (hwal.mp hlisted.2))]
        rfl
      · exact hlisted.1

/-- Nothing is touched when nothing is stored. -/
theorem Untouched.refl (req : UploadRequest) : Untouched F req w w :=
  ⟨fun _ _ => rfl, fun _ _ _ => rfl, fun _ h => h⟩

/-- **A request stores its file exactly when it gets that far**, however it ends. -/
theorem wp_execute (a : UploadAnswers) (req : UploadRequest) (P : World → Prop) :
    wp (execute a req) (fun _ => P) (fun _ => P) w ↔
      (Puts a req w → P (w.put (objectKey req.tenantId req.databaseId req.fileName)
        req.fileContent)) ∧ (¬ Puts a req w → P w) := by
  unfold execute Puts
  rcases a.checkPermission with e | _ | _
  · simp
  · simp
  rcases a.findById with e | _
  · simp
  rcases howned : w.findOwned req.tenantId req.databaseId with _ | info
  · simp [howned]
  unfold uploadDatabase
  rcases a.ensureBucket with e | _
  · simp [howned]
  rcases a.put with e | _
  · simp [howned]
  -- what comes after the storage changes nothing
  have hrest (x : Except PyError Unit) (s : World) :
      wp (ofExcept x : EffectM PyError World Unit) (fun _ => P) (fun _ => P) s ↔ P s := by
    cases x with
    | error e => rfl
    | ok u => rfl
  simp [howned, hrest]

/-- **An upload leaves the log and the snapshots of the database untouched exactly when its name is
none of theirs, or its content is there already.** -/
theorem untouched_iff (F : Formats τ) (a : UploadAnswers) (req : UploadRequest) (w : World) :
    wp (execute a req) (fun _ w' => Untouched F req w w') (fun _ w' => Untouched F req w w') w ↔
      Harmless F a req w := by
  rw [wp_execute, untouched_put_iff]
  exact and_iff_left fun _ => Untouched.refl req

end

/-! ### An upload into the log -/

/-- Every call goes through. -/
def quietUpload : UploadAnswers :=
  ⟨.ok true, .ok (), .ok (), .ok (), fun _ => .ok (), fun _ => .ok ()⟩

/-- A request for database 1 of tenant 7. -/
def namedRequest (fileName : String) : UploadRequest := ⟨7, 1, [1], fileName⟩

/-- The database, with one file in its log and one snapshot. -/
def loggedWorld : World where
  databases := AList.insert 1 ⟨7, "shop"⟩ ∅
  snapshots := [⟨3, 1, "s3://kuzu-databases/tenants/7/1/snapshots/snapshot-1.tar.gz"⟩]
  bucket := "kuzu-databases"
  objects := AList.insert ("kuzu-databases", "tenants/7/1/wal/wal-19700101T000005Z.log") [0]
    (AList.insert ("kuzu-databases", "tenants/7/1/snapshots/snapshot-1.tar.gz") [0] ∅)

/-- **An upload overwrites the log, or a snapshot**, when it has its name. -/
theorem not_untouched_loggedWorld :
    ¬ wp (execute quietUpload (namedRequest "wal/wal-19700101T000005Z.log"))
        (fun _ => Untouched testFormats (namedRequest "wal/wal-19700101T000005Z.log") loggedWorld)
        (fun _ => Untouched testFormats (namedRequest "wal/wal-19700101T000005Z.log") loggedWorld)
        loggedWorld ∧
    ¬ wp (execute quietUpload (namedRequest "snapshots/snapshot-1.tar.gz"))
        (fun _ => Untouched testFormats (namedRequest "snapshots/snapshot-1.tar.gz") loggedWorld)
        (fun _ => Untouched testFormats (namedRequest "snapshots/snapshot-1.tar.gz") loggedWorld)
        loggedWorld := by
  have hputs (fileName : String) : Puts quietUpload (namedRequest fileName) loggedWorld :=
    ⟨rfl, rfl, rfl, rfl, rfl⟩
  constructor
  · intro h
    have huntouched := ((wp_execute _ _ _).mp h).1 (hputs _)
    have hlisted : Listed testFormats loggedWorld 7 1
        "tenants/7/1/wal/wal-19700101T000005Z.log" :=
      listed_iff.mpr ⟨by decide +kernel, by decide +kernel, by decide +kernel⟩
    exact absurd (huntouched.wal _ hlisted) (by decide +kernel)
  · intro h
    have huntouched := ((wp_execute _ _ _).mp h).1 (hputs _)
    exact absurd (huntouched.snapshots _ List.mem_cons_self rfl) (by decide +kernel)

end KuzuEventBus.Service.Uploads
