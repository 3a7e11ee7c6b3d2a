import KuzuEventBus.Storage.Manifest
import KuzuEventBus.Storage.Ports
import KuzuEventBus.Storage.Wal

/-!
# The file backend

The operations of `casys_storage_fs/src/backend.rs` on whole branches, as a
`StorageBackend` of its own and as granular ports.  A reading of the clock is an
argument.

## Main definitions

* `FsBackend.createBranch` — a new branch, at the latest or at an earlier version of another.
* `FsBackend.snapshot`, `FsBackend.commitTx` — a new version of a branch.
* `FsBackend.storageBackend` — the backend of `Engine::open`.
* `openFsComposite` — the backend of `Engine::open_fs_composite`, from the granular ports.

## Main results

* `readFile_createBranch` — creating a branch writes to the directory of the branch only, and
  to no directory inside it.
-/

namespace KuzuEventBus

namespace FsBackend

/-- The version `create_branch` starts from. -/
def baseManifest (codec : ManifestCodec) (fs : FileSystem) (root : FilePath) (db : DatabaseName)
    (source : BranchName) : Option Timestamp → Except Fault (Option Manifest)
  | some ts => pitrManifest codec fs root db source ts
  | none => latestManifest codec fs root db source

/-- The first manifest of a new branch. -/
def branchManifest (newBranch : BranchName) (nowMs : Timestamp) (base : Option Manifest) :
    Manifest where
  branch := newBranch.asStr
  versionTs := nowMs
  segments := (base.map Manifest.segments).getD []
  walTail := base.bind Manifest.walTail

/-- `create_branch`: the manifest is copied, under the time `nowMs`; `tmpTs` is the time in
the name of the temporary file. -/
def createBranch (codec : ManifestCodec) (fs : FileSystem) (root : FilePath) (db : DatabaseName)
    (source newBranch : BranchName) (at' : Option Timestamp) (nowMs : Timestamp) (tmpTs : ℕ) :
    Except Fault FileSystem := do
  let base ← baseManifest codec fs root db source at'
  pure (writeManifest codec fs root db newBranch (branchManifest newBranch nowMs base) tmpTs)

/-- `snapshot`. -/
def snapshot (codec : ManifestCodec) (fs : FileSystem) (root : FilePath) (db : DatabaseName)
    (branch : BranchName) (clock : Clock) : Except Fault (Timestamp × FileSystem) := do
  let base ← latestManifest codec fs root db branch
  pure (clock.nowMs,
    writeManifest codec fs root db branch (branchManifest branch clock.nowMs base) clock.tmpTs)

/-- The segment size of `commit_tx` and `append_records`. -/
def maxSegmentBytes : ℕ := 4 * 1024 * 1024

/-- A writer of its own for the records, as `commit_tx` and `append_records` use it; `flush`
leaves the contents as they are. -/
def writeRecords (fs : FileSystem) (root : FilePath) (db : DatabaseName) (branch : BranchName)
    (records : List Bytes) : Except Fault (WalWriter × FileSystem) := do
  let (w, fs) ← WalWriter.open fs root db branch maxSegmentBytes
  w.writeAll fs records

/-- `commit_tx`: the records, then a snapshot. -/
def commitTx (codec : ManifestCodec) (fs : FileSystem) (root : FilePath) (db : DatabaseName)
    (branch : BranchName) (records : List Bytes) (clock : Clock) :
    Except Fault (Timestamp × FileSystem) := do
  let (_, fs) ← writeRecords fs root db branch records
  snapshot codec fs root db branch clock

/-- `list_snapshot_timestamps`. -/
def listSnapshotTimestamps (codec : ManifestCodec) (fs : FileSystem) (root : FilePath)
    (db : DatabaseName) (branch : BranchName) : Except Fault (List Timestamp) :=
  (listManifestPaths fs root db branch).mapM fun path =>
    (readManifest codec fs path).map Manifest.versionTs

/-- `impl StorageBackend for FsBackend`. -/
def storageBackend (codec : ManifestCodec) : StorageBackend FileSystem where
  createBranch fs root db source newBranch at' clock :=
    createBranch codec fs root db source newBranch at' clock.nowMs clock.tmpTs
  snapshot := snapshot codec
  commitTx := commitTx codec
  listSnapshotTimestamps := listSnapshotTimestamps codec

/-! ### Granular ports -/

/-- `to_meta`: the ranges of the segments are left out. -/
def toMeta (m : Manifest) : ManifestMeta where
  branch := m.branch
  versionTs := m.versionTs
  segments := m.segments.map fun s => ⟨s.id⟩
  walTail := m.walTail.map fun w => ⟨w.epoch, w.seq⟩

/-- `from_meta`. -/
def fromMeta (m : ManifestMeta) : Manifest where
  branch := m.branch
  versionTs := m.versionTs
  segments := m.segments.map fun s => ⟨s.id, none⟩
  walTail := m.walTail.map fun w => ⟨w.epoch, w.seq⟩

/-- `impl StorageCatalog for FsBackend`: its `create_branch` is the one of the backend, again. -/
def storageCatalog (codec : ManifestCodec) : StorageCatalog FileSystem where
  createBranch fs root db source newBranch at' clock :=
    createBranch codec fs root db source newBranch at' clock.nowMs clock.tmpTs

/-- `latest_manifest_meta`. -/
def latestManifestMeta (codec : ManifestCodec) (fs : FileSystem) (root : FilePath)
    (db : DatabaseName) (branch : BranchName) : Except Fault (Option ManifestMeta) :=
  (latestManifest codec fs root db branch).map (Option.map toMeta)

/-- `pitr_manifest_meta`. -/
def pitrManifestMeta (codec : ManifestCodec) (fs : FileSystem) (root : FilePath) (db : DatabaseName)
    (branch : BranchName) (at' : Timestamp) : Except Fault (Option ManifestMeta) :=
  (pitrManifest codec fs root db branch at').map (Option.map toMeta)

/-- `read_manifest_meta`. -/
def readManifestMeta (codec : ManifestCodec) (fs : FileSystem) (root : FilePath) (db : DatabaseName)
    (branch : BranchName) (ts : Timestamp) : Except Fault (Option ManifestMeta) :=
  let path := branchDir root db branch ++ ["manifest-" ++ toString ts ++ ".json"]
  if fs.isFile path then (readManifest codec fs path).map fun m => some (toMeta m) else .ok none

/-- `write_manifest_meta`. -/
def writeManifestMeta (codec : ManifestCodec) (fs : FileSystem) (root : FilePath)
    (db : DatabaseName)
    (branch : BranchName) (newMeta : ManifestMeta) (clock : Clock) : Except Fault FileSystem :=
  .ok (writeManifest codec fs root db branch (fromMeta newMeta) clock.tmpTs)

/-- `impl ManifestStore for FsBackend`. -/
def manifestStore (codec : ManifestCodec) : ManifestStore FileSystem where
  listSnapshotTimestamps := listSnapshotTimestamps codec
  latestManifestMeta := latestManifestMeta codec
  pitrManifestMeta := pitrManifestMeta codec
  readManifestMeta := readManifestMeta codec
  writeManifestMeta := writeManifestMeta codec

/-- The tail `append_records` finds: the last segment of the listing. -/
def lastListed (fs : FileSystem) (root : FilePath) (db : DatabaseName) (branch : BranchName) :
    WalTailMeta :=
  match (listWalNames fs (walDir root db branch)).getLast?.bind parseSeqFromName with
  | some (epoch, seq) => ⟨epoch, seq⟩
  | none => ⟨0, 0⟩

/-- `append_records`. -/
def appendRecords (fs : FileSystem) (root : FilePath) (db : DatabaseName) (branch : BranchName)
    (records : List Bytes) : Except Fault (WalTailMeta × FileSystem) := do
  let (_, fs) ← writeRecords fs root db branch records
  pure (lastListed fs root db branch, fs)

/-- `impl WalSink for FsBackend`. -/
def walSink : WalSink FileSystem where
  appendRecords := appendRecords

/-- `list_wal_segments`. -/
def listWalSegments (fs : FileSystem) (root : FilePath) (db : DatabaseName) (branch : BranchName) :
    List WalTailMeta :=
  (listWalNames fs (walDir root db branch)).filterMap fun name =>
    (parseSeqFromName name).map fun t => ⟨t.1, t.2⟩

/-- `read_wal_segment`: the first segment listed with that number; none reads as no records. -/
def readWalSegment (fs : FileSystem) (root : FilePath) (db : DatabaseName) (branch : BranchName)
    (tail : WalTailMeta) : Except Fault (List Bytes) :=
  match (listWalNames fs (walDir root db branch)).find? fun name =>
    parseSeqFromName name = some (tail.epoch, tail.seq) with
  | some name => readRecords fs (walDir root db branch ++ [name])
  | none => .ok []

/-- `impl WalSource for FsBackend`. -/
def walSource : WalSource FileSystem where
  listWalSegments := listWalSegments
  readWalSegment := readWalSegment

/-! ### Creating a branch -/

/-- A branch without manifests can be branched from; the new branch has no segments. -/
theorem createBranch_of_no_manifests {codec : ManifestCodec} {fs : FileSystem} {root : FilePath}
    {db : DatabaseName} {source newBranch : BranchName} (nowMs : Timestamp) (tmpTs : ℕ)
    (h : listManifestNames fs (branchDir root db source) = []) :
    createBranch codec fs root db source newBranch none nowMs tmpTs =
      .ok (writeManifest codec fs root db newBranch (branchManifest newBranch nowMs none)
        tmpTs) := by
  rw [createBranch, baseManifest, latestManifest, listManifestPaths, h]
  rfl

/-- **Creating a branch writes only to files of the branch's own directory**, none of them in
a directory inside it. -/
theorem readFile_createBranch {codec : ManifestCodec} {fs fs' : FileSystem} {root : FilePath}
    {db : DatabaseName} {source newBranch : BranchName} {at' : Option Timestamp}
    {nowMs : Timestamp} {tmpTs : ℕ} {q : FilePath}
    (h : createBranch codec fs root db source newBranch at' nowMs tmpTs = .ok fs')
    (hq : ∀ name, q ≠ branchDir root db newBranch ++ [name]) : fs'.readFile q = fs.readFile q := by
  obtain ⟨base, -, hwrite⟩ := bind_eq_ok h
  cases hwrite
  rw [writeManifest, readFile_atomicWriteFile, if_neg (hq _), if_neg (hq _)]

end FsBackend

/-- The backend of `Engine::open_fs_composite`. -/
def openFsComposite (codec : ManifestCodec) : StorageBackend FileSystem :=
  CompositeBackend.toStorageBackend
    { catalog := FsBackend.storageCatalog codec
      manifest := FsBackend.manifestStore codec
      walSink := some FsBackend.walSink
      walSource := some FsBackend.walSource }

end KuzuEventBus
