import KuzuEventBus.Core
import KuzuEventBus.Lib.FileSystem
import KuzuEventBus.Lib.Json
import KuzuEventBus.Lib.Text

/-!
# Manifests

The versions of a branch, as `casys_storage_fs/src/manifest.rs` keeps them: one
file for each version in the branch's directory, named by its timestamp, and
written to a temporary file that is then renamed.

How `serde` writes and reads a manifest is a parameter.

## Main definitions

* `branchDir` — the directory of a branch.
* `Manifest`, `ManifestCodec` — manifests, and their text.
* `atomicWriteFile`, `writeManifest`, `readManifest` — one manifest.
* `listManifestNames`, `latestManifest`, `pitrManifest` — the manifests of a branch.

## Main results

* `readFile_atomicWriteFile` — an atomic write changes the target and the temporary file only.
-/

namespace KuzuEventBus

open Text

/-- `branch_dir`, of `catalog.rs` and of `manifest.rs`. -/
def branchDir (root : FilePath) (db : DatabaseName) (branch : BranchName) : FilePath :=
  root ++ [db.asStr, "branches", branch.asStr]

/-- `Range`. -/
structure TxRange where
  txMin : ℕ
  txMax : ℕ
  deriving DecidableEq

/-- `SegmentRef`. -/
structure SegmentRef where
  id : String
  range : Option TxRange
  deriving DecidableEq

/-- `WalTail`. -/
structure WalTail where
  epoch : ℕ
  seq : ℕ
  deriving DecidableEq

/-- `Manifest`. -/
structure Manifest where
  branch : String
  versionTs : Timestamp
  segments : List SegmentRef
  walTail : Option WalTail
  deriving DecidableEq

/-- The fields `serde` writes of a manifest, in their order; absent options are skipped. -/
def Manifest.toJson (m : Manifest) : Json :=
  let rangeJson (r : TxRange) : Json :=
    .object [("tx_min", .number (.posInt r.txMin)), ("tx_max", .number (.posInt r.txMax))]
  let segmentJson (s : SegmentRef) : Json :=
    .object (("id", .string s.id) :: (s.range.map fun r => ("range", rangeJson r)).toList)
  let walTailJson (w : WalTail) : Json :=
    .object [("epoch", .number (.posInt w.epoch)), ("seq", .number (.posInt w.seq))]
  .object ([("branch", .string m.branch), ("version_ts", .number (.posInt m.versionTs)),
      ("segments", .array (m.segments.map segmentJson))] ++
    (m.walTail.map fun w => ("wal_tail", walTailJson w)).toList)

/-- What `serde` makes of manifests: their text, and the manifest a text stands for. -/
structure ManifestCodec where
  /-- `serde_json::to_vec_pretty`. -/
  toVecPretty : Manifest → Bytes
  /-- `serde_json::from_slice`. -/
  fromSlice : Bytes → Option Manifest

/-- Pretty text, reading back the text of the given manifests. -/
def ManifestCodec.ofManifests (ms : List Manifest) : ManifestCodec where
  toVecPretty m := (m.toJson.prettyText 0).flatMap String.utf8EncodeChar
  fromSlice bs := ms.find? fun m => (m.toJson.prettyText 0).flatMap String.utf8EncodeChar == bs

/-- `Manifest::filename`. -/
def Manifest.filename (m : Manifest) : String :=
  "manifest-" ++ toString m.versionTs ++ ".json"

/-- `parse_ts_from_filename`. -/
def parseTsFromFilename (fileName : String) : Option Timestamp :=
  let cs := fileName.toList
  if "manifest-".toList.isPrefixOf cs && ".json".toList.isSuffixOf (cs.drop 9) then
    parseU64 ((cs.drop 9).take ((cs.drop 9).length - 5))
  else none

/-! ### One manifest -/

/-- The temporary file `atomic_write_file` writes first. -/
def tmpFileName (name : String) (ts : ℕ) : String := "." ++ name ++ ".tmp-" ++ toString ts

/-- `atomic_write_file` for the file `name` of the directory `dir`, at the clock reading
`ts`: write a temporary file beside it, flush it, rename it. -/
def atomicWriteFile (fs : FileSystem) (dir : FilePath) (name : String) (bytes : Bytes) (ts : ℕ) :
    FileSystem :=
  let tmpPath := dir ++ [tmpFileName name ts]
  (((fs.create tmpPath).append tmpPath bytes)).rename tmpPath (dir ++ [name])

/-- `write_manifest`. -/
def writeManifest (codec : ManifestCodec) (fs : FileSystem) (root : FilePath) (db : DatabaseName)
    (branch : BranchName) (m : Manifest) (ts : ℕ) : FileSystem :=
  atomicWriteFile fs (branchDir root db branch) m.filename (codec.toVecPretty m) ts

/-- `read_manifest`. -/
def readManifest (codec : ManifestCodec) (fs : FileSystem) (path : FilePath) :
    Except Fault Manifest :=
  match fs.readFile path with
  | none => .error (.error (.storageIo "read: No such file or directory"))
  | some data =>
    match codec.fromSlice data with
    | none => .error (.error (.storageIo "parse manifest"))
    | some m => .ok m

/-- **An atomic write changes the target and the temporary file only.** -/
theorem readFile_atomicWriteFile (fs : FileSystem) (dir : FilePath) (name : String) (bytes : Bytes)
    (ts : ℕ) (q : FilePath) : (atomicWriteFile fs dir name bytes ts).readFile q =
      if q = dir ++ [name] then some bytes
      else if q = dir ++ [tmpFileName name ts] then none else fs.readFile q := by
  have htmp : ((fs.create (dir ++ [tmpFileName name ts])).append
      (dir ++ [tmpFileName name ts]) bytes).readFile (dir ++ [tmpFileName name ts]) =
        some bytes := by
    rw [FileSystem.readFile_append, if_pos rfl, FileSystem.readFile_create, if_pos rfl]
    rfl
  rw [atomicWriteFile, FileSystem.readFile_rename q htmp]
  by_cases hq : q = dir ++ [name]
  · rw [if_pos hq, if_pos hq]
  · by_cases hq' : q = dir ++ [tmpFileName name ts]
    · rw [if_neg hq, if_neg hq, if_pos hq', if_pos hq']
    · rw [if_neg hq, if_neg hq, if_neg hq', if_neg hq', FileSystem.readFile_append, if_neg hq',
        FileSystem.readFile_create, if_neg hq']

/-! ### The manifests of a branch -/

/-- The names `list_manifest_paths` keeps of a directory, in the order it returns them. -/
def listManifestNames (fs : FileSystem) (dir : FilePath) : List String :=
  sortNames ((fs.readDir dir).filter fun name => (parseTsFromFilename name).isSome)

/-- `list_manifest_paths`. -/
def listManifestPaths (fs : FileSystem) (root : FilePath) (db : DatabaseName)
    (branch : BranchName) : List FilePath :=
  (listManifestNames fs (branchDir root db branch)).map fun name =>
    branchDir root db branch ++ [name]

/-- `latest_manifest`: the last one of the listing. -/
def latestManifest (codec : ManifestCodec) (fs : FileSystem) (root : FilePath) (db : DatabaseName)
    (branch : BranchName) : Except Fault (Option Manifest) :=
  match (listManifestPaths fs root db branch).getLast? with
  | some path => (readManifest codec fs path).map some
  | none => .ok none

/-- The choice of `pitr_manifest`: the greatest timestamp not after `at`, the first listed
of equal ones. -/
def bestManifest (at' : Timestamp) : List String → Option (Timestamp × String) →
    Option (Timestamp × String)
  | [], best => best
  | name :: names, best =>
    match parseTsFromFilename name with
    | some ts =>
      if ts ≤ at' then
        match best with
        | some (bestTs, bestName) =>
          if bestTs ≥ ts then bestManifest at' names (some (bestTs, bestName))
          else bestManifest at' names (some (ts, name))
        | none => bestManifest at' names (some (ts, name))
      else bestManifest at' names best
    | none => bestManifest at' names best

/-- `pitr_manifest`. -/
def pitrManifest (codec : ManifestCodec) (fs : FileSystem) (root : FilePath) (db : DatabaseName)
    (branch : BranchName) (at' : Timestamp) : Except Fault (Option Manifest) :=
  match bestManifest at' (listManifestNames fs (branchDir root db branch)) none with
  | some (_, name) => (readManifest codec fs (branchDir root db branch ++ [name])).map some
  | none => .ok none

end KuzuEventBus
