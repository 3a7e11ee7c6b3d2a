import KuzuEventBus.Core
import KuzuEventBus.Lib.FileSystem
import KuzuEventBus.Lib.Text

/-!
# The write-ahead log

The segment files of one branch, as `casys_storage_fs/src/wal.rs` writes and
reads them: a writer opens the segment after the last one listed, rotates to the
next one when a record does not fit, and a reader takes the records of each file
in the order of the listing.

A segment never holds `2 ^ 64` bytes, so `bytes_written` is a natural number.

## Main definitions

* `walFilename`, `parseSeqFromName`, `listWalPaths` — segment names.
* `WalWriter`, `WalWriter.open`, `WalWriter.writeRecord` — the writer.
* `readRecords` — the records of one segment.
* `Session`, `runSessions`, `readWal` — whole runs on one branch, and what they read back.
-/

namespace KuzuEventBus

open Text

/-! ### Segment names -/

/-- `wal_dir`. -/
def walDir (root : FilePath) (db : DatabaseName) (branch : BranchName) : FilePath :=
  root ++ [db.asStr, "branches", branch.asStr, "wal"]

/-- `wal_filename`. -/
def walFilename (epoch seq : ℕ) : String :=
  "wal-" ++ toString epoch ++ "-" ++ toString seq ++ ".wal"

/-- `parse_seq_from_name`: what follows a third dash is ignored. -/
def parseSeqFromName (name : String) : Option (ℕ × ℕ) :=
  let cs := name.toList
  if !("wal-".toList.isPrefixOf cs) || !(".wal".toList.isSuffixOf cs) then none
  else
    let core := (cs.drop 4).take (cs.length - 8)
    match core.splitOn '-' with
    | epoch :: seq :: _ => do
      let epoch ← parseU64 epoch
      let seq ← parseU64 seq
      some (epoch, seq)
    | _ => none

/-- The names `list_wal_paths` keeps of a directory, in the order it returns them. -/
def listWalNames (fs : FileSystem) (dir : FilePath) : List String :=
  sortNames ((fs.readDir dir).filter fun name => (parseSeqFromName name).isSome)

/-- `list_wal_paths`. -/
def listWalPaths (fs : FileSystem) (root : FilePath) (db : DatabaseName) (branch : BranchName) :
    List FilePath :=
  (listWalNames fs (walDir root db branch)).map fun name => walDir root db branch ++ [name]

/-! ### The writer -/

/-- `WalWriter`; the open file is the path it was created at. -/
structure WalWriter where
  dir : FilePath
  file : FilePath
  epoch : ℕ
  seq : ℕ
  bytesWritten : ℕ
  maxSegmentBytes : ℕ

/-- `WalWriter::open`: the segment after the last one of the listing. -/
def WalWriter.open (fs : FileSystem) (root : FilePath) (db : DatabaseName) (branch : BranchName)
    (maxSegmentBytes : ℕ) : Except Fault (WalWriter × FileSystem) := do
  let dir := walDir root db branch
  let (nextEpoch, nextSeq) ← match (listWalNames fs dir).getLast?.bind parseSeqFromName with
    | some (ep, sq) => do
      let next ← checkedAdd sq 1
      pure (ep, next)
    | none => pure (0, 0)
  let path := dir ++ [walFilename nextEpoch nextSeq]
  pure (⟨dir, path, nextEpoch, nextSeq, 0, maxSegmentBytes⟩, fs.create path)

/-- `WalWriter::rotate`. -/
def WalWriter.rotate (w : WalWriter) (fs : FileSystem) : Except Fault (WalWriter × FileSystem) := do
  let seq ← checkedAdd w.seq 1
  let path := w.dir ++ [walFilename w.epoch seq]
  pure ({ w with seq := seq, file := path, bytesWritten := 0 }, fs.create path)

/-- `u32::to_le_bytes`. -/
def u32LeBytes (n : ℕ) : Bytes :=
  [UInt8.ofNat n, UInt8.ofNat (n / 2 ^ 8), UInt8.ofNat (n / 2 ^ 16), UInt8.ofNat (n / 2 ^ 24)]

/-- `u32::from_le_bytes`. -/
def u32OfLeBytes (b₀ b₁ b₂ b₃ : UInt8) : ℕ :=
  b₀.toNat + 2 ^ 8 * b₁.toNat + 2 ^ 16 * b₂.toNat + 2 ^ 24 * b₃.toNat

/-- `WalWriter::write_record`: rotate when the record does not fit, then write
the length (`as u32` keeps the low 32 bits) and the payload. -/
def WalWriter.writeRecord (w : WalWriter) (fs : FileSystem) (payload : Bytes) :
    Except Fault (WalWriter × FileSystem) := do
  let need := 4 + payload.length
  let (w, fs) ← if w.bytesWritten + need > w.maxSegmentBytes then w.rotate fs else pure (w, fs)
  let len := payload.length % 2 ^ 32
  let fs := (fs.append w.file (u32LeBytes len)).append w.file payload
  pure ({ w with bytesWritten := w.bytesWritten + need }, fs)

/-! ### The reader -/

/-- The loop of `read_records`: a length that is cut short ends the file, a
payload that is cut short is an error.  `fuel` bounds the number of records. -/
def readRecordsLoop : ℕ → Bytes → Except Fault (List Bytes)
  | 0, _ => .ok []
  | fuel + 1, b₀ :: b₁ :: b₂ :: b₃ :: rest =>
    let len := u32OfLeBytes b₀ b₁ b₂ b₃
    if len ≤ rest.length then do
      let records ← readRecordsLoop fuel (rest.drop len)
      pure (rest.take len :: records)
    else .error (.error (.storageIo "read payload: failed to fill whole buffer"))
  | _ + 1, _ => .ok []

/-- `read_records`; a file holds at most one record for each of its bytes. -/
def readRecords (fs : FileSystem) (path : FilePath) : Except Fault (List Bytes) :=
  match fs.readFile path with
  | some bytes => readRecordsLoop bytes.length bytes
  | none => .error (.error (.storageIo "open: No such file or directory"))

/-! ### Runs on one branch -/

/-- One session of a writer: `open` with a segment size, the records it writes, `flush`. -/
structure Session where
  maxSegmentBytes : ℕ
  payloads : List Bytes

/-- Write records one after the other. -/
def WalWriter.writeAll (w : WalWriter) (fs : FileSystem) :
    List Bytes → Except Fault (WalWriter × FileSystem)
  | [] => .ok (w, fs)
  | p :: ps => do
    let (w, fs) ← w.writeRecord fs p
    w.writeAll fs ps

/-- Run one session; `flush` leaves the contents as they are. -/
def runSession (root : FilePath) (db : DatabaseName) (branch : BranchName) (fs : FileSystem)
    (s : Session) : Except Fault FileSystem := do
  let (w, fs) ← WalWriter.open fs root db branch s.maxSegmentBytes
  let (_, fs) ← w.writeAll fs s.payloads
  pure fs

/-- Run sessions one after the other. -/
def runSessions (root : FilePath) (db : DatabaseName) (branch : BranchName) (fs : FileSystem)
    (ss : List Session) : Except Fault FileSystem :=
  ss.foldlM (runSession root db branch) fs

/-- The records of all segments, in the order of the listing. -/
def readWal (fs : FileSystem) (root : FilePath) (db : DatabaseName) (branch : BranchName) :
    Except Fault (List Bytes) := do
  let segments ← (listWalPaths fs root db branch).mapM (readRecords fs)
  pure segments.flatten

end KuzuEventBus
