import KuzuEventBus.Core
import KuzuEventBus.Lib.ByteCodes
import KuzuEventBus.Lib.FileSystem

/-!
# Segment files

The immutable segments of `casys_storage_fs/src/segments.rs`: a header of 26
bytes (magic number, version, two counts, the CRC-32 of the data) in front of the
data.  The checksum covers the data alone, so of the header a change of the magic
number or of the checksum is noticed, one of the version makes no difference, and
one of the counts is read as a different count.

## Main definitions

* `SegmentHeader.toBytes`, `SegmentHeader.fromBytes` — the header.
* `Segment.writeToPath`, `Segment.readFromPath` — one file.
* `segmentPath`, `writeSegment`, `readSegment` — the file of a segment id.
* `Intact` — a read fails, or gives the counts and the data back.

## Main results

* `fromBytes_toBytes` — the header reads back.
* `intact_readFromPath_iff` — what decides whether a file reads as given counts and data.
* `intact_setByte_iff`, `intact_truncate_iff` — which changes of a file are noticed.
* `segment_integrity` — the file of a segment, its changes and its truncations.
-/

namespace KuzuEventBus

open ByteCodes

/-! ### The header -/

/-- `SEGMENT_MAGIC`, "CASS". -/
def segmentMagic : UInt32 := 0x43415353

/-- `SEGMENT_VERSION`. -/
def segmentVersion : UInt16 := 1

/-- `SegmentHeader`. -/
structure SegmentHeader where
  magic : UInt32
  version : UInt16
  nodeCount : UInt64
  edgeCount : UInt64
  /-- CRC-32 of the data section. -/
  checksum : UInt32
deriving DecidableEq

/-- `SegmentHeader::new`. -/
def SegmentHeader.new (nodeCount edgeCount : UInt64) (checksum : UInt32) : SegmentHeader :=
  ⟨segmentMagic, segmentVersion, nodeCount, edgeCount, checksum⟩

/-- `SegmentHeader::to_bytes`. -/
def SegmentHeader.toBytes (h : SegmentHeader) : Bytes :=
  leBytes 4 h.magic.toNat ++ (leBytes 2 h.version.toNat ++ (leBytes 8 h.nodeCount.toNat ++
    (leBytes 8 h.edgeCount.toNat ++ leBytes 4 h.checksum.toNat)))

/-- `&bytes[start..start + len]`. -/
def slice (bytes : Bytes) (start len : ℕ) : Bytes := (bytes.drop start).take len

/-- `u16::from_le_bytes`, at `start`. -/
def u16At (bytes : Bytes) (start : ℕ) : UInt16 := UInt16.ofNat (ofLeBytes (slice bytes start 2))

/-- `u32::from_le_bytes`, at `start`. -/
def u32At (bytes : Bytes) (start : ℕ) : UInt32 := UInt32.ofNat (ofLeBytes (slice bytes start 4))

/-- `u64::from_le_bytes`, at `start`. -/
def u64At (bytes : Bytes) (start : ℕ) : UInt64 := UInt64.ofNat (ofLeBytes (slice bytes start 8))

/-- `{:#x}`. -/
def hexText (n : UInt32) : String := "0x" ++ String.ofList (Nat.toDigits 16 n.toNat)

/-- `SegmentHeader::from_bytes`; the version is read, not checked. -/
def SegmentHeader.fromBytes (bytes : Bytes) : Except Fault SegmentHeader :=
  if bytes.length < 26 then .error (.error (.storageIo "segment header too short"))
  else
    let magic := u32At bytes 0
    if magic ≠ segmentMagic then
      .error (.error (.storageIo ("invalid segment magic: " ++ hexText magic)))
    else .ok ⟨magic, u16At bytes 4, u64At bytes 6, u64At bytes 14, u32At bytes 22⟩

/-! ### The file -/

/-- `Segment`. -/
structure Segment where
  header : SegmentHeader
  data : Bytes
deriving DecidableEq

/-- `Segment::new`; `hash` is `crc32fast::hash`. -/
def Segment.new (hash : Bytes → UInt32) (nodeCount edgeCount : UInt64) (data : Bytes) : Segment :=
  ⟨.new nodeCount edgeCount (hash data), data⟩

/-- `Segment::write_to_path`. -/
def Segment.writeToPath (seg : Segment) (fs : FileSystem) (path : FilePath) : FileSystem :=
  ((fs.create path).append path seg.header.toBytes).append path seg.data

/-- `Path::display`. -/
def displayPath (path : FilePath) : String := "/".intercalate path

/-- `Segment::read_from_path`. -/
def Segment.readFromPath (hash : Bytes → UInt32) (fs : FileSystem) (path : FilePath) :
    Except Fault Segment :=
  match fs.readFile path with
  | none => .error (.error (.storageIo
      ("open(" ++ displayPath path ++ "): No such file or directory (os error 2)")))
  | some bytes =>
    if bytes.length < 26 then
      .error (.error (.storageIo "read header: failed to fill whole buffer"))
    else do
      let header ← SegmentHeader.fromBytes (bytes.take 26)
      let data := bytes.drop 26
      let computed := hash data
      if computed ≠ header.checksum then
        .error (.error (.storageIo ("checksum mismatch: expected " ++ hexText header.checksum ++
          ", got " ++ hexText computed)))
      else pure ⟨header, data⟩

/-- `segments_dir`. -/
def Segment.segmentsDir (root : FilePath) (db : DatabaseName) : FilePath :=
  root ++ [db.asStr, "segments"]

/-- The characters of the first `n` bytes of a text; none if there are fewer, or if the
last of them is not the end of a character. -/
def bytePrefix : List Char → ℕ → Option (List Char)
  | _, 0 => some []
  | [], _ + 1 => none
  | c :: cs, n + 1 =>
    if c.utf8Size ≤ n + 1 then (bytePrefix cs (n + 1 - c.utf8Size)).map (c :: ·) else none

/-- `segment_path`: the first two bytes of the id name the shard; taking them panics
inside a character. -/
def segmentPath (root : FilePath) (db : DatabaseName) (segmentId : String) :
    Except Fault FilePath := do
  let shard ← if segmentId.utf8ByteSize ≥ 2 then
      match bytePrefix segmentId.toList 2 with
      | some cs => pure (String.ofList cs)
      | none => .error (.panic "byte index 2 is not a char boundary")
    else pure "00"
  pure (Segment.segmentsDir root db ++ [shard, segmentId ++ ".seg"])

/-- `write_segment`. -/
def writeSegment (fs : FileSystem) (root : FilePath) (db : DatabaseName) (segmentId : String)
    (seg : Segment) : Except Fault (FilePath × FileSystem) := do
  let path ← segmentPath root db segmentId
  pure (path, seg.writeToPath fs path)

/-- `read_segment`. -/
def readSegment (hash : Bytes → UInt32) (fs : FileSystem) (root : FilePath) (db : DatabaseName)
    (segmentId : String) : Except Fault Segment := do
  let path ← segmentPath root db segmentId
  Segment.readFromPath hash fs path

/-! ### Slices -/

theorem slice_append_left {xs : Bytes} {len : ℕ} (h : xs.length = len) (ys : Bytes) :
    slice (xs ++ ys) 0 len = xs := by
  rw [slice, List.drop_zero, List.take_left' h]

theorem slice_append_right {xs : Bytes} {n : ℕ} (h : xs.length = n) (ys : Bytes)
    (start len : ℕ) : slice (xs ++ ys) (n + start) len = slice ys start len := by
  rw [slice, slice, ← List.drop_drop, List.drop_left' h]

theorem slice_take {bytes : Bytes} {start len n : ℕ} (h : start + len ≤ n) :
    slice (bytes.take n) start len = slice bytes start len := by
  rw [slice, slice, List.drop_take, List.take_take, Nat.min_eq_left (by omega)]

theorem u32At_take {bytes : Bytes} {start n : ℕ} (h : start + 4 ≤ n) :
    u32At (bytes.take n) start = u32At bytes start := by
  rw [u32At, slice_take h, u32At]

theorem u64At_take {bytes : Bytes} {start n : ℕ} (h : start + 8 ≤ n) :
    u64At (bytes.take n) start = u64At bytes start := by
  rw [u64At, slice_take h, u64At]

theorem slice_set_outside {start len i : ℕ} (bytes : Bytes) (b : UInt8)
    (h : i < start ∨ start + len ≤ i) :
    slice (bytes.set i b) start len = slice bytes start len := by
  rw [slice, slice, List.drop_set]
  split
  · rfl
  · next hi =>
    rw [List.take_set, List.set_eq_of_length_le]
    rw [List.length_take]
    omega

theorem slice_set_inside {start len i : ℕ} (bytes : Bytes) (b : UInt8) (h : start ≤ i) :
    slice (bytes.set i b) start len = (slice bytes start len).set (i - start) b := by
  rw [slice, slice, List.drop_set, if_neg (Nat.not_lt.mpr h), List.take_set]

/-- A byte of a slice that is changed changes the number read from it. -/
theorem ofLeBytes_slice_set_ne {start len i : ℕ} {bytes : Bytes} {b : UInt8} (h : start ≤ i)
    (h' : i < start + len) (hi : i < bytes.length) (hb : b ≠ bytes[i]) :
    ofLeBytes (slice (bytes.set i b) start len) ≠ ofLeBytes (slice bytes start len) := by
  have hlen : i - start < (slice bytes start len).length := by
    rw [slice, List.length_take, List.length_drop]
    omega
  rw [slice_set_inside bytes b h]
  apply ofLeBytes_set_ne hlen
  simpa [slice, Nat.add_sub_cancel' h] using hb

theorem ofLeBytes_slice_lt (bytes : Bytes) (start len : ℕ) :
    ofLeBytes (slice bytes start len) < 256 ^ len := by
  refine lt_of_lt_of_le (ofLeBytes_lt _) (Nat.pow_le_pow_right (by decide) ?_)
  rw [slice]
  exact List.length_take_le _ _

theorem u32At_eq_iff {bytes bytes' : Bytes} {start : ℕ} : u32At bytes start = u32At bytes' start ↔
    ofLeBytes (slice bytes start 4) = ofLeBytes (slice bytes' start 4) := by
  have h := ofLeBytes_slice_lt bytes start 4
  have h' := ofLeBytes_slice_lt bytes' start 4
  rw [u32At, u32At, ← UInt32.toNat_inj, UInt32.toNat_ofNat', UInt32.toNat_ofNat',
    Nat.mod_eq_of_lt (by omega), Nat.mod_eq_of_lt (by omega)]

theorem u64At_eq_iff {bytes bytes' : Bytes} {start : ℕ} : u64At bytes start = u64At bytes' start ↔
    ofLeBytes (slice bytes start 8) = ofLeBytes (slice bytes' start 8) := by
  have h := ofLeBytes_slice_lt bytes start 8
  have h' := ofLeBytes_slice_lt bytes' start 8
  rw [u64At, u64At, ← UInt64.toNat_inj, UInt64.toNat_ofNat', UInt64.toNat_ofNat',
    Nat.mod_eq_of_lt (by omega), Nat.mod_eq_of_lt (by omega)]

/-! ### What is written reads back -/

theorem SegmentHeader.length_toBytes (h : SegmentHeader) : h.toBytes.length = 26 := by
  simp [toBytes]

/-- The fields of a header, each at its place in front of whatever follows. -/
theorem SegmentHeader.fields_toBytes (h : SegmentHeader) (data : Bytes) :
    u32At (h.toBytes ++ data) 0 = h.magic ∧ u16At (h.toBytes ++ data) 4 = h.version ∧
      u64At (h.toBytes ++ data) 6 = h.nodeCount ∧ u64At (h.toBytes ++ data) 14 = h.edgeCount ∧
      u32At (h.toBytes ++ data) 22 = h.checksum := by
  have hmagic := length_leBytes 4 h.magic.toNat
  have hversion := length_leBytes 2 h.version.toNat
  have hnodes := length_leBytes 8 h.nodeCount.toNat
  have hedges := length_leBytes 8 h.edgeCount.toNat
  simp only [u32At, u16At, u64At, toBytes, List.append_assoc]
  refine ⟨?_, ?_, ?_, ?_, ?_⟩
  · rw [slice_append_left hmagic, ofLeBytes_leBytes_of_lt h.magic.toNat_lt, UInt32.ofNat_toNat]
  · rw [slice_append_right hmagic _ 0, slice_append_left hversion,
      ofLeBytes_leBytes_of_lt h.version.toNat_lt, UInt16.ofNat_toNat]
  · rw [slice_append_right hmagic _ 2, slice_append_right hversion _ 0, slice_append_left hnodes,
      ofLeBytes_leBytes_of_lt h.nodeCount.toNat_lt, UInt64.ofNat_toNat]
  · rw [slice_append_right hmagic _ 10, slice_append_right hversion _ 8,
      slice_append_right hnodes _ 0, slice_append_left hedges,
      ofLeBytes_leBytes_of_lt h.edgeCount.toNat_lt, UInt64.ofNat_toNat]
  · rw [slice_append_right hmagic _ 18, slice_append_right hversion _ 16,
      slice_append_right hnodes _ 8, slice_append_right hedges _ 0,
      slice_append_left (length_leBytes 4 _), ofLeBytes_leBytes_of_lt h.checksum.toNat_lt,
      UInt32.ofNat_toNat]

/-- **A header reads back**, if it has the magic number of its kind. -/
theorem fromBytes_toBytes {h : SegmentHeader} (hmagic : h.magic = segmentMagic) :
    SegmentHeader.fromBytes h.toBytes = .ok h := by
  obtain ⟨h₀, h₄, h₆, h₁₄, h₂₂⟩ := h.fields_toBytes []
  rw [List.append_nil] at h₀ h₄ h₆ h₁₄ h₂₂
  rw [SegmentHeader.fromBytes, if_neg (by rw [h.length_toBytes]; decide)]
  simp only [h₀, h₄, h₆, h₁₄, h₂₂, hmagic, ne_eq, not_true_eq_false, ↓reduceIte]
  rw [← hmagic]

theorem readFile_writeToPath (seg : Segment) (fs : FileSystem) (path : FilePath) :
    (seg.writeToPath fs path).readFile path = some (seg.header.toBytes ++ seg.data) := by
  simp only [Segment.writeToPath, FileSystem.readFile_append, FileSystem.readFile_create,
    ↓reduceIte, Option.getD_some, List.nil_append]

/-! ### What a file reads as -/

/-- The read fails with an error, or gives the counts and the data back. -/
def Intact (r : Except Fault Segment) (nodeCount edgeCount : UInt64) (data : Bytes) : Prop :=
  (∃ e, r = .error (.error e)) ∨ ∃ seg, r = .ok seg ∧ seg.header.nodeCount = nodeCount ∧
    seg.header.edgeCount = edgeCount ∧ seg.data = data

variable {hash : Bytes → UInt32} {fs fs' : FileSystem} {path : FilePath} {bytes : Bytes}
  {nodes edges : UInt64} {data : Bytes}

/-- A file with a good magic number and checksum reads as what its fields say. -/
theorem readFromPath_of_checks (hfile : fs.readFile path = some bytes) (hlen : 26 ≤ bytes.length)
    (hmagic : u32At bytes 0 = segmentMagic) (hsum : hash (bytes.drop 26) = u32At bytes 22) :
    Segment.readFromPath hash fs path = .ok ⟨⟨u32At bytes 0, u16At bytes 4, u64At bytes 6,
      u64At bytes 14, u32At bytes 22⟩, bytes.drop 26⟩ := by
  have htake : (bytes.take 26).length = 26 := by rw [List.length_take]; omega
  have hversion : u16At (bytes.take 26) 4 = u16At bytes 4 := by
    rw [u16At, slice_take (by decide), u16At]
  have hheader : SegmentHeader.fromBytes (bytes.take 26) = .ok ⟨u32At bytes 0, u16At bytes 4,
      u64At bytes 6, u64At bytes 14, u32At bytes 22⟩ := by
    rw [SegmentHeader.fromBytes, if_neg (by rw [htake]; decide), u32At_take (by decide), hversion,
      u64At_take (by decide), u64At_take (by decide), u32At_take (by decide)]
    simp only [hmagic, ne_eq, not_true_eq_false, ↓reduceIte]
  rw [Segment.readFromPath, hfile]
  simp only
  rw [if_neg (Nat.not_lt.mpr hlen), hheader]
  change (if hash (bytes.drop 26) ≠ u32At bytes 22 then _ else _) = _
  rw [if_neg (not_not.mpr hsum)]
  rfl

/-- A file without them is refused. -/
theorem readFromPath_of_not_checks (hfile : fs.readFile path = some bytes)
    (h : ¬ (26 ≤ bytes.length ∧ u32At bytes 0 = segmentMagic ∧
      hash (bytes.drop 26) = u32At bytes 22)) :
    ∃ e, Segment.readFromPath hash fs path = .error (.error e) := by
  rw [Segment.readFromPath, hfile]
  simp only
  by_cases hlen : bytes.length < 26
  · rw [if_pos hlen]
    exact ⟨_, rfl⟩
  rw [if_neg hlen, SegmentHeader.fromBytes,
    if_neg (by rw [List.length_take]; omega), u32At_take (by decide), u32At_take (by decide)]
  simp only
  by_cases hmagic : u32At bytes 0 = segmentMagic
  · have hsum : hash (bytes.drop 26) ≠ u32At bytes 22 :=
      fun hsum => h ⟨Nat.not_lt.mp hlen, hmagic, hsum⟩
    rw [if_neg (not_not.mpr hmagic)]
    change ∃ e, (if hash (bytes.drop 26) ≠ u32At bytes 22 then _ else _) = _
    rw [if_pos hsum]
    exact ⟨_, rfl⟩
  · rw [if_pos hmagic]
    exact ⟨_, rfl⟩

/-- **What decides whether a file reads as given counts and data**: if it passes the
checks, its fields have to say so. -/
theorem intact_readFromPath_iff (hfile : fs.readFile path = some bytes) :
    Intact (Segment.readFromPath hash fs path) nodes edges data ↔
      (26 ≤ bytes.length → u32At bytes 0 = segmentMagic →
        hash (bytes.drop 26) = u32At bytes 22 →
          u64At bytes 6 = nodes ∧ u64At bytes 14 = edges ∧ bytes.drop 26 = data) := by
  by_cases hchecks : 26 ≤ bytes.length ∧ u32At bytes 0 = segmentMagic ∧
      hash (bytes.drop 26) = u32At bytes 22
  · obtain ⟨hlen, hmagic, hsum⟩ := hchecks
    rw [readFromPath_of_checks hfile hlen hmagic hsum, Intact]
    constructor
    · rintro (⟨e, he⟩ | ⟨seg, hseg, hfields⟩) _ _ _
      · cases he
      · cases hseg
        exact hfields
    · intro h
      exact .inr ⟨_, rfl, h hlen hmagic hsum⟩
  · constructor
    · intro _ hlen hmagic hsum
      exact absurd ⟨hlen, hmagic, hsum⟩ hchecks
    · intro _
      exact .inl (readFromPath_of_not_checks hfile hchecks)

/-! ### Changes of a file -/

/-- The file of a segment. -/
structure SegmentFile (hash : Bytes → UInt32) (bytes : Bytes) (nodes edges : UInt64)
    (data : Bytes) : Prop where
  length : bytes.length = 26 + data.length
  magic : u32At bytes 0 = segmentMagic
  nodeCount : u64At bytes 6 = nodes
  edgeCount : u64At bytes 14 = edges
  checksum : u32At bytes 22 = hash data
  data : bytes.drop 26 = data

theorem segmentFile_new (hash : Bytes → UInt32) (nodes edges : UInt64) (data : Bytes) :
    SegmentFile hash ((SegmentHeader.new nodes edges (hash data)).toBytes ++ data) nodes edges
      data := by
  have hlen := (SegmentHeader.new nodes edges (hash data)).length_toBytes
  obtain ⟨h₀, -, h₆, h₁₄, h₂₂⟩ :=
    (SegmentHeader.new nodes edges (hash data)).fields_toBytes data
  exact ⟨by rw [List.length_append, hlen], h₀, h₆, h₁₄, h₂₂, List.drop_left' hlen⟩

/-- **A change of one byte.**  It is noticed, or makes no difference, unless it is in one
of the two counts. -/
theorem intact_setByte_iff (hhash : DetectsByteChange hash)
    (hfile : fs.readFile path = some bytes) (h : SegmentFile hash bytes nodes edges data)
    {i : ℕ} {b : UInt8} (hi : i < bytes.length) (hb : b ≠ bytes[i]) :
    Intact (Segment.readFromPath hash (fs.setByte path i b) path) nodes edges data ↔
      i < 6 ∨ 22 ≤ i := by
  rw [intact_readFromPath_iff (FileSystem.readFile_setByte i b hfile), List.length_set]
  have hlen : 26 ≤ bytes.length := by rw [h.length]; omega
  -- the fields the byte is not in read as before
  have h32 (start : ℕ) (hout : i < start ∨ start + 4 ≤ i) :
      u32At (bytes.set i b) start = u32At bytes start := by
    rw [u32At, slice_set_outside bytes b hout, u32At]
  have h64 (start : ℕ) (hout : i < start ∨ start + 8 ≤ i) :
      u64At (bytes.set i b) start = u64At bytes start := by
    rw [u64At, slice_set_outside bytes b hout, u64At]
  have hdata (hout : i < 26) : (bytes.set i b).drop 26 = data := by
    rw [List.drop_set, if_pos hout, h.data]
  rcases Nat.lt_or_ge i 4 with h₄ | h₄
  · -- the magic number
    have hmagic : u32At (bytes.set i b) 0 ≠ segmentMagic := by
      rw [← h.magic, ne_eq, u32At_eq_iff]
      exact ofLeBytes_slice_set_ne (Nat.zero_le _) (by omega) hi hb
    exact iff_of_true (fun _ hm _ => absurd hm hmagic) (by omega)
  rcases Nat.lt_or_ge i 6 with h₆ | h₆
  · -- the version, which no check reads
    refine iff_of_true (fun _ _ _ => ⟨?_, ?_, hdata (by omega)⟩) (by omega)
    · rw [h64 6 (by omega), h.nodeCount]
    · rw [h64 14 (by omega), h.edgeCount]
  rcases Nat.lt_or_ge i 22 with h₂₂ | h₂₂
  · -- the counts: every check still passes
    refine iff_of_false (fun hall => ?_) (by omega)
    obtain ⟨hnodes, hedges, -⟩ := hall hlen (by rw [h32 0 (by omega), h.magic])
      (by rw [hdata (by omega), h32 22 (by omega), h.checksum])
    rcases Nat.lt_or_ge i 14 with h₁₄ | h₁₄
    · rw [← h.nodeCount, u64At_eq_iff] at hnodes
      exact ofLeBytes_slice_set_ne h₆ (by omega) hi hb hnodes
    · rw [← h.edgeCount, u64At_eq_iff] at hedges
      exact ofLeBytes_slice_set_ne h₁₄ (by omega) hi hb hedges
  rcases Nat.lt_or_ge i 26 with h₂₆ | h₂₆
  · -- the checksum
    refine iff_of_true (fun _ _ hsum => ?_) (by omega)
    rw [hdata h₂₆, ← h.checksum, eq_comm, u32At_eq_iff] at hsum
    exact absurd hsum (ofLeBytes_slice_set_ne h₂₂ (by omega) hi hb)
  · -- the data
    refine iff_of_true (fun _ _ hsum => ?_) (by omega)
    have hin : i - 26 < data.length := by have := h.length; omega
    have hbyte : b ≠ data[i - 26] := by
      have hget : bytes[i] = data[i - 26] := by
        simp only [← h.data, List.getElem_drop, Nat.add_sub_cancel' h₂₆]
      rwa [← hget]
    rw [List.drop_set, if_neg (Nat.not_lt.mpr h₂₆), h.data, h32 22 (by omega), h.checksum,
      List.set_eq_take_append_cons_drop, if_pos hin] at hsum
    have hsplit : data = data.take (i - 26) ++ data[i - 26] :: data.drop (i - 26 + 1) := by
      rw [List.getElem_cons_drop, List.take_append_drop]
    exact absurd (hsum.trans (congrArg hash hsplit)) (hhash _ _ _ _ hbyte)

/-- **A truncation.**  It is noticed unless what is left of the data has the checksum of
all of it. -/
theorem intact_truncate_iff (hfile : fs.readFile path = some bytes)
    (h : SegmentFile hash bytes nodes edges data) {n : ℕ} (hn : n < bytes.length) :
    Intact (Segment.readFromPath hash (fs.truncate path n) path) nodes edges data ↔
      n < 26 ∨ hash (data.take (n - 26)) ≠ hash data := by
  rw [intact_readFromPath_iff (FileSystem.readFile_truncate n hfile), List.length_take,
    Nat.min_eq_left hn.le]
  rcases Nat.lt_or_ge n 26 with hshort | hlong
  · exact iff_of_true (fun hlen => absurd hlen (Nat.not_le.mpr hshort)) (.inl hshort)
  have hdata : (bytes.take n).drop 26 = data.take (n - 26) := by rw [List.drop_take, h.data]
  -- fewer bytes are left than there were
  have hcut : data.take (n - 26) ≠ data := by
    intro heq
    have hlen := congrArg List.length heq
    rw [List.length_take] at hlen
    have := h.length
    omega
  rw [u32At_take (by omega), u32At_take (by omega), h.magic, h.checksum, hdata]
  constructor
  · intro hall
    right
    intro hsum
    exact hcut (hall hlong rfl hsum).2.2
  · intro hor _ _ hsum
    rcases hor with hlt | hne
    · exact absurd hlong (Nat.not_le.mpr hlt)
    · exact absurd hsum hne

/-- **The file of a segment.**  It reads back; a change of one byte outside the counts
fails the read or changes neither the counts nor the data; a truncation does so unless
it keeps the header and the rest of the data has the same checksum. -/
theorem segment_integrity {root : FilePath} {db : DatabaseName} {segmentId : String}
    (hhash : DetectsByteChange hash)
    (hwrite : writeSegment fs root db segmentId (.new hash nodes edges data) = .ok (path, fs')) :
    ∃ bytes, fs'.readFile path = some bytes ∧ bytes.length = 26 + data.length ∧
      (∃ seg, readSegment hash fs' root db segmentId = .ok seg ∧
        seg.header.nodeCount = nodes ∧ seg.header.edgeCount = edges ∧ seg.data = data) ∧
      (∀ (i : ℕ) (b : UInt8) (hi : i < bytes.length), b ≠ bytes[i] →
        (Intact (readSegment hash (fs'.setByte path i b) root db segmentId) nodes edges data ↔
          i < 6 ∨ 22 ≤ i)) ∧
      ∀ n < bytes.length,
        (Intact (readSegment hash (fs'.truncate path n) root db segmentId) nodes edges data ↔
          n < 26 ∨ hash (data.take (n - 26)) ≠ hash data) := by
  obtain ⟨path', hpath, hfs⟩ := bind_eq_ok hwrite
  cases hfs
  have hread (files : FileSystem) : readSegment hash files root db segmentId =
      Segment.readFromPath hash files path := by
    rw [readSegment, hpath]
    rfl
  have hfile : (Segment.writeToPath (.new hash nodes edges data) fs path).readFile path =
      some ((SegmentHeader.new nodes edges (hash data)).toBytes ++ data) :=
    readFile_writeToPath _ fs path
  have hseg := segmentFile_new hash nodes edges data
  refine ⟨_, hfile, hseg.length, ?_, ?_, ?_⟩
  · rw [hread, readFromPath_of_checks hfile (Nat.le.intro hseg.length.symm) hseg.magic
      (by rw [hseg.data, hseg.checksum])]
    exact ⟨_, rfl, hseg.nodeCount, hseg.edgeCount, hseg.data⟩
  · intro i b hi hb
    rw [hread]
    exact intact_setByte_iff hhash hfile hseg hi hb
  · intro n hn
    rw [hread]
    exact intact_truncate_iff hfile hseg hn

/-- The file of a small segment, and the file cut inside its header. -/
theorem segment_integrity_crc32 :
    ∃ path fs', writeSegment ∅ [] ⟨"main", by decide⟩ "abc123" (.new crc32 10 5 [1, 2, 3]) =
        .ok (path, fs') ∧
      (∃ seg, readSegment crc32 fs' [] ⟨"main", by decide⟩ "abc123" = .ok seg ∧
        seg.header.nodeCount = 10 ∧ seg.header.edgeCount = 5 ∧ seg.data = [1, 2, 3]) ∧
      Intact (readSegment crc32 (fs'.truncate path 3) [] ⟨"main", by decide⟩ "abc123") 10 5
        [1, 2, 3] := by
  obtain ⟨path, fs', hwrite⟩ : ∃ path fs', writeSegment ∅ [] ⟨"main", by decide⟩ "abc123"
      (.new crc32 10 5 [1, 2, 3]) = .ok (path, fs') := ⟨_, _, rfl⟩
  obtain ⟨bytes, -, hlen, hread, -, hcut⟩ := segment_integrity crc32_detectsByteChange hwrite
  exact ⟨path, fs', hwrite, hread, (hcut 3 (by rw [hlen]; decide)).mpr (.inl (by decide))⟩

/-- Two changes that are not noticed: a byte of the node count, and a cut that leaves data
of the same checksum, here none. -/
theorem segment_changes_unnoticed :
    ∃ path fs', writeSegment ∅ [] ⟨"main", by decide⟩ "abc123"
        (.new crc32 1 0 [0x9D, 0x0A, 0xD9, 0x6D]) = .ok (path, fs') ∧
      (readSegment crc32 (fs'.setByte path 6 2) [] ⟨"main", by decide⟩ "abc123").map
          (fun seg => (seg.header.nodeCount, seg.data)) = .ok (2, [0x9D, 0x0A, 0xD9, 0x6D]) ∧
      (readSegment crc32 (fs'.truncate path 26) [] ⟨"main", by decide⟩ "abc123").map
          (fun seg => (seg.header.nodeCount, seg.data)) = .ok (1, []) :=
  ⟨_, _, rfl, by decide +kernel, by decide +kernel⟩

end KuzuEventBus
