import KuzuEventBus.Core
import KuzuEventBus.Lib.FileSystem

/-!
# Storage ports

The storage interfaces of `casys_core/src/lib.rs`, over the state `σ` of whatever
implements them, and `CompositeBackend`, which puts a backend together from
granular ports.  The readings of the clock are arguments.

## Main definitions

* `ManifestMeta`, `WalTailMeta`, `SegmentId` — what the ports exchange.
* `StorageCatalog`, `ManifestStore`, `WalSink`, `WalSource` — the granular ports.
* `StorageBackend` — the whole backend.
* `CompositeBackend`, `CompositeBackend.toStorageBackend` — a backend from ports.
* `StorageBackend.run` — a run of calls.
-/

namespace KuzuEventBus

/-- The readings of the clock during one call: the one a version is stamped with, a `u64`, and
the one in the name of a temporary file. -/
structure Clock where
  nowMs : Timestamp
  nowMs_lt : nowMs < 2 ^ 64
  tmpTs : ℕ

/-- `SegmentId`. -/
structure SegmentId where
  id : String
  deriving DecidableEq

/-- `WalTailMeta`. -/
structure WalTailMeta where
  epoch : ℕ
  seq : ℕ
  deriving DecidableEq

/-- `ManifestMeta`. -/
structure ManifestMeta where
  branch : String
  versionTs : Timestamp
  segments : List SegmentId
  walTail : Option WalTailMeta
  deriving DecidableEq

/-! ### Granular ports -/

/-- `StorageCatalog`. -/
structure StorageCatalog (σ : Type) where
  createBranch : σ → FilePath → DatabaseName → BranchName → BranchName → Option Timestamp → Clock →
    Except Fault σ

/-- `ManifestStore`. -/
structure ManifestStore (σ : Type) where
  listSnapshotTimestamps : σ → FilePath → DatabaseName → BranchName → Except Fault (List Timestamp)
  latestManifestMeta : σ → FilePath → DatabaseName → BranchName → Except Fault (Option ManifestMeta)
  pitrManifestMeta : σ → FilePath → DatabaseName → BranchName → Timestamp →
    Except Fault (Option ManifestMeta)
  readManifestMeta : σ → FilePath → DatabaseName → BranchName → Timestamp →
    Except Fault (Option ManifestMeta)
  writeManifestMeta : σ → FilePath → DatabaseName → BranchName → ManifestMeta → Clock →
    Except Fault σ

/-- `WalSink`. -/
structure WalSink (σ : Type) where
  appendRecords : σ → FilePath → DatabaseName → BranchName → List Bytes →
    Except Fault (WalTailMeta × σ)

/-- `WalSource`. -/
structure WalSource (σ : Type) where
  listWalSegments : σ → FilePath → DatabaseName → BranchName → List WalTailMeta
  readWalSegment : σ → FilePath → DatabaseName → BranchName → WalTailMeta →
    Except Fault (List Bytes)

/-! ### Backends -/

/-- `StorageBackend`. -/
structure StorageBackend (σ : Type) where
  createBranch : σ → FilePath → DatabaseName → BranchName → BranchName → Option Timestamp → Clock →
    Except Fault σ
  snapshot : σ → FilePath → DatabaseName → BranchName → Clock → Except Fault (Timestamp × σ)
  commitTx : σ → FilePath → DatabaseName → BranchName → List Bytes → Clock →
    Except Fault (Timestamp × σ)
  listSnapshotTimestamps : σ → FilePath → DatabaseName → BranchName → Except Fault (List Timestamp)

/-- `CompositeBackend`, with the ports its operations call. -/
structure CompositeBackend (σ : Type) where
  catalog : StorageCatalog σ
  manifest : ManifestStore σ
  walSink : Option (WalSink σ)
  walSource : Option (WalSource σ)

namespace CompositeBackend

variable {σ : Type} (b : CompositeBackend σ)

/-- The next version of a branch: the segments of the last one, and a WAL tail. -/
def nextMeta (branch : BranchName) (nowMs : Timestamp) (prev : Option ManifestMeta)
    (walTail : Option WalTailMeta) : ManifestMeta where
  branch := branch.asStr
  versionTs := nowMs
  segments := (prev.map ManifestMeta.segments).getD []
  walTail := walTail

/-- `CompositeBackend::snapshot`. -/
def snapshot (s : σ) (root : FilePath) (db : DatabaseName) (branch : BranchName) (clock : Clock) :
    Except Fault (Timestamp × σ) := do
  let prev ← b.manifest.latestManifestMeta s root db branch
  let newMeta := nextMeta branch clock.nowMs prev (prev.bind ManifestMeta.walTail)
  let s ← b.manifest.writeManifestMeta s root db branch newMeta clock
  pure (clock.nowMs, s)

/-- The append of `commit_tx`, if there is a sink. -/
def appendIfSink (s : σ) (root : FilePath) (db : DatabaseName) (branch : BranchName)
    (records : List Bytes) : Except Fault (Option WalTailMeta × σ) :=
  match b.walSink with
  | some sink => (sink.appendRecords s root db branch records).map fun r => (some r.1, r.2)
  | none => .ok (none, s)

/-- `CompositeBackend::commit_tx`. -/
def commitTx (s : σ) (root : FilePath) (db : DatabaseName) (branch : BranchName)
    (records : List Bytes) (clock : Clock) : Except Fault (Timestamp × σ) := do
  let (tail, s) ← b.appendIfSink s root db branch records
  let prev ← b.manifest.latestManifestMeta s root db branch
  let newMeta := nextMeta branch clock.nowMs prev
    (tail.orElse fun _ => prev.bind ManifestMeta.walTail)
  let s ← b.manifest.writeManifestMeta s root db branch newMeta clock
  pure (clock.nowMs, s)

/-- `impl StorageBackend for CompositeBackend`. -/
def toStorageBackend : StorageBackend σ where
  createBranch := b.catalog.createBranch
  snapshot := b.snapshot
  commitTx := b.commitTx
  listSnapshotTimestamps := b.manifest.listSnapshotTimestamps

end CompositeBackend

/-! ### Runs -/

/-- The calls that publish a version. -/
inductive PublishCall where
  | createBranch (source newBranch : BranchName) (at' : Option Timestamp)
  | snapshot (branch : BranchName)
  | commitTx (branch : BranchName) (records : List Bytes)

/-- The branch a call publishes a version of. -/
def PublishCall.target : PublishCall → BranchName
  | .createBranch _ newBranch _ => newBranch
  | .snapshot branch => branch
  | .commitTx branch _ => branch

/-- A call on a database, with the readings of the clock during it. -/
structure TimedCall where
  db : DatabaseName
  call : PublishCall
  clock : Clock

namespace StorageBackend

variable {σ : Type} (b : StorageBackend σ)

/-- The state after one call. -/
def step (root : FilePath) (s : σ) (c : TimedCall) : Except Fault σ :=
  match c.call with
  | .createBranch source newBranch at' => b.createBranch s root c.db source newBranch at' c.clock
  | .snapshot branch => (b.snapshot s root c.db branch c.clock).map Prod.snd
  | .commitTx branch records => (b.commitTx s root c.db branch records c.clock).map Prod.snd

/-- The state after a sequence of calls. -/
def run (root : FilePath) (s : σ) (calls : List TimedCall) : Except Fault σ :=
  calls.foldlM (b.step root) s

variable {b} {root : FilePath} {s s' : σ}

@[simp] theorem run_nil : b.run root s [] = .ok s := rfl

theorem run_cons (c : TimedCall) (cs : List TimedCall) :
    b.run root s (c :: cs) = b.step root s c >>= fun s => b.run root s cs := rfl

theorem run_append (cs cs' : List TimedCall) :
    b.run root s (cs ++ cs') = b.run root s cs >>= fun s => b.run root s cs' := by
  rw [run, List.foldlM_append]
  rfl

/-- What the steps of a run preserve, the run preserves. -/
theorem run_induction {P : σ → Prop} {cs : List TimedCall}
    (hstep : ∀ c ∈ cs, ∀ s s', P s → b.step root s c = .ok s' → P s') :
    ∀ {s s' : σ}, P s → b.run root s cs = .ok s' → P s' := by
  induction cs with
  | nil => intro s s' h hrun; cases hrun; exact h
  | cons c cs ih =>
    intro s s' h hrun
    rw [run_cons] at hrun
    obtain ⟨s₁, hc, hrun⟩ := bind_eq_ok hrun
    exact ih (fun c' hc' => hstep c' (List.mem_cons_of_mem c hc'))
      (hstep c List.mem_cons_self s s₁ h hc) hrun

end StorageBackend

end KuzuEventBus
