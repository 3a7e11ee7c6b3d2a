import KuzuEventBus.Storage.Wal
import Mathlib.Algebra.GroupWithZero.Nat

/-!
# What a run of the write-ahead log reads back

A run on one branch is compared with an abstract log: the list of its segments,
each the list of its records.  The directory represents that log while the
listing, which sorts names as text, agrees with the order in which segments were
opened, that is, up to ten segments; from the eleventh on `wal-0-10.wal` sorts before
`wal-0-2.wal`.

## Main definitions

* `SegmentLog` — the abstract log of one writer.
* `Holds fs dir segs` — the directory `dir` holds exactly the segments `segs`.
* `WriterAt w fs log` — the writer `w` over the files `fs` represents `log`.
* `segmentCount` — the number of segments a run opens.

## Main results

* `readRecords_encodeSegment` — a segment reads back as its records.
* `writeAll_of_ok`, `writeAll_spec` — writing records refines the abstract log.
* `readWal_runSessions` — **a run of at most ten segments reads back what it wrote**.
-/

namespace KuzuEventBus

open Text

/-! ### Segment names -/

theorem walFilename_toList (epoch seq : ℕ) : (walFilename epoch seq).toList =
    "wal-".toList ++ (epoch.repr.toList ++ '-' :: seq.repr.toList) ++ ".wal".toList := by
  simp [walFilename, String.toList_append, toString]

/-- A segment name parses as the numbers it was built from. -/
theorem parseSeqFromName_walFilename {epoch seq : ℕ} (he : epoch < u64Size)
    (hs : seq < u64Size) : parseSeqFromName (walFilename epoch seq) = some (epoch, seq) := by
  have hsplit : (epoch.repr.toList ++ '-' :: seq.repr.toList).splitOn '-' =
      [epoch.repr.toList, seq.repr.toList] := by
    rw [List.splitOn_append_cons_self_of_not_mem (notMem_repr (by decide)),
      List.splitOn_eq_singleton (notMem_repr (by decide))]
  have hcore : ((walFilename epoch seq).toList.drop 4).take
      ((walFilename epoch seq).toList.length - 8) =
        epoch.repr.toList ++ '-' :: seq.repr.toList := by
    have hlen : (walFilename epoch seq).toList.length - 8 =
        (epoch.repr.toList ++ '-' :: seq.repr.toList).length := by
      rw [walFilename_toList]
      simp only [List.length_append, show "wal-".toList.length = 4 from rfl,
        show ".wal".toList.length = 4 from rfl]
      omega
    rw [hlen, walFilename_toList, List.append_assoc]
    exact List.take_left' rfl
  have hpre : "wal-".toList.isPrefixOf (walFilename epoch seq).toList = true := by
    rw [walFilename_toList, List.isPrefixOf_iff_prefix, List.append_assoc]
    exact List.prefix_append _ _
  have hsuf : ".wal".toList.isSuffixOf (walFilename epoch seq).toList = true := by
    rw [walFilename_toList, List.isSuffixOf_iff_suffix]
    exact List.suffix_append _ _
  unfold parseSeqFromName
  simp only [hpre, hsuf, hcore, hsplit, parseU64_repr he, parseU64_repr hs]
  rfl

theorem walFilename_injective {epoch i j : ℕ} (h : walFilename epoch i = walFilename epoch j) :
    i = j := by
  have hl := congrArg String.toList h
  simp only [walFilename_toList, List.append_left_inj, List.append_right_inj, List.cons.injEq,
    true_and] at hl
  have hd := congrArg (Nat.ofDigitChars 10 · 0) hl
  simpa only [Nat.toList_repr, Nat.ofDigitChars_ten_toDigits] using hd

theorem segmentPath_ne {dir : FilePath} {epoch i j : ℕ} (h : i ≠ j) :
    dir ++ [walFilename epoch i] ≠ dir ++ [walFilename epoch j] := by
  intro heq
  exact h (walFilename_injective (List.head_eq_of_cons_eq (List.append_cancel_left heq)))

/-- Up to ten segments of one epoch, the order of the names is the order of the numbers. -/
theorem walFilename_lt : ∀ j < 10, ∀ i < j, walFilename 0 i < walFilename 0 j := by decide

/-! ### Records in bytes -/

/-- The bytes `write_record` appends for one payload. -/
def encodeRecord (p : Bytes) : Bytes := u32LeBytes (p.length % 2 ^ 32) ++ p

/-- The bytes of a segment that holds the records `ps`. -/
def encodeSegment (ps : List Bytes) : Bytes := ps.flatMap encodeRecord

@[simp] theorem encodeSegment_nil : encodeSegment [] = [] := rfl

@[simp] theorem encodeSegment_cons (p : Bytes) (ps : List Bytes) :
    encodeSegment (p :: ps) = encodeRecord p ++ encodeSegment ps := rfl

theorem encodeSegment_concat (ps : List Bytes) (p : Bytes) :
    encodeSegment (ps ++ [p]) = encodeSegment ps ++ encodeRecord p := by
  simp [encodeSegment]

theorem encodeRecord_length (p : Bytes) : (encodeRecord p).length = 4 + p.length := by
  simp [encodeRecord, u32LeBytes]
  omega

/-- `from_le_bytes` undoes `to_le_bytes`. -/
theorem u32OfLeBytes_of_lt {n : ℕ} (h : n < 2 ^ 32) :
    u32OfLeBytes (UInt8.ofNat n) (UInt8.ofNat (n / 2 ^ 8)) (UInt8.ofNat (n / 2 ^ 16))
      (UInt8.ofNat (n / 2 ^ 24)) = n := by
  simp only [u32OfLeBytes, UInt8.toNat_ofNat']
  omega

/-- The reading loop on an encoded segment returns its records. -/
theorem readRecordsLoop_encodeSegment {ps : List Bytes} (hps : ∀ p ∈ ps, p.length < 2 ^ 32) :
    ∀ fuel : ℕ, (encodeSegment ps).length ≤ fuel →
      readRecordsLoop fuel (encodeSegment ps) = .ok ps := by
  induction ps with
  | nil => intro fuel _; cases fuel <;> rfl
  | cons p ps ih =>
    intro fuel hfuel
    rw [encodeSegment_cons, List.length_append, encodeRecord_length] at hfuel
    obtain ⟨fuel, rfl⟩ : ∃ f, fuel = f + 1 := ⟨fuel - 1, by omega⟩
    have hp : p.length < 2 ^ 32 := hps p List.mem_cons_self
    have hrest := ih (fun q hq => hps q (List.mem_cons_of_mem _ hq)) fuel (by omega)
    simp only [encodeSegment_cons, encodeRecord, u32LeBytes, List.cons_append, List.nil_append,
      readRecordsLoop, Nat.mod_eq_of_lt hp, u32OfLeBytes_of_lt hp]
    rw [if_pos (by simp), List.drop_left' rfl, List.take_left' rfl, hrest]
    rfl

/-- **A segment reads back as its records.** -/
theorem readRecords_encodeSegment {fs : FileSystem} {path : FilePath} {ps : List Bytes}
    (hps : ∀ p ∈ ps, p.length < 2 ^ 32) (hfile : fs.readFile path = some (encodeSegment ps)) :
    readRecords fs path = .ok ps := by
  rw [readRecords, hfile]
  exact readRecordsLoop_encodeSegment hps _ le_rfl

/-! ### The directory as a list of segments -/

/-- The directory `dir` holds exactly the segments `segs`, the `i`-th of them in the
file of sequence number `i`. -/
structure Holds (fs : FileSystem) (dir : FilePath) (segs : List (List Bytes)) : Prop where
  segment : ∀ i ps, segs[i]? = some ps →
    fs.readFile (dir ++ [walFilename 0 i]) = some (encodeSegment ps)
  noOther : ∀ name rest, (fs.readFile (dir ++ name :: rest)).isSome →
    ∃ i < segs.length, name = walFilename 0 i

variable {fs : FileSystem} {dir : FilePath} {segs : List (List Bytes)} {cur : List Bytes}

/-- A directory without files holds no segments. -/
theorem holds_nil (h : ∀ name rest, fs.readFile (dir ++ name :: rest) = none) :
    Holds fs dir [] where
  segment := by simp
  noOther := by simp [h]

/-- Creating the next file adds an empty segment. -/
theorem Holds.create (h : Holds fs dir segs) :
    Holds (fs.create (dir ++ [walFilename 0 segs.length])) dir (segs ++ [[]]) where
  segment := by
    intro i ps hi
    rw [FileSystem.readFile_create]
    rcases Nat.lt_or_ge i segs.length with hlt | hge
    · rw [List.getElem?_append_left hlt] at hi
      rw [if_neg (segmentPath_ne (by omega)), h.segment i ps hi]
    · have hlen := (List.getElem?_eq_some_iff.mp hi).1
      rw [List.length_append, List.length_singleton] at hlen
      obtain rfl : i = segs.length := by omega
      simp only [List.getElem?_concat_length, Option.some.injEq] at hi
      rw [if_pos rfl, ← hi]; rfl
  noOther := by
    intro name rest hsome
    rw [FileSystem.readFile_create] at hsome
    split at hsome
    · next heq =>
      refine ⟨segs.length, by simp, ?_⟩
      exact List.head_eq_of_cons_eq (List.append_cancel_left heq)
    · obtain ⟨i, hi, hname⟩ := h.noOther name rest hsome
      exact ⟨i, by rw [List.length_append]; omega, hname⟩

/-- Appending a record to the last file appends it to the last segment. -/
theorem Holds.append (h : Holds fs dir (segs ++ [cur])) (p : Bytes) :
    let path := dir ++ [walFilename 0 segs.length]
    Holds ((fs.append path (u32LeBytes (p.length % 2 ^ 32))).append path p) dir
      (segs ++ [cur ++ [p]]) where
  segment := by
    intro i ps hi
    simp only [FileSystem.readFile_append]
    rcases Nat.lt_or_ge i segs.length with hlt | hge
    · rw [List.getElem?_append_left hlt] at hi
      have hne : dir ++ [walFilename 0 i] ≠ dir ++ [walFilename 0 segs.length] :=
        segmentPath_ne (by omega)
      rw [if_neg hne, if_neg hne]
      exact h.segment i ps (by rw [List.getElem?_append_left hlt, hi])
    · have hlen := (List.getElem?_eq_some_iff.mp hi).1
      rw [List.length_append, List.length_singleton] at hlen
      obtain rfl : i = segs.length := by omega
      simp only [List.getElem?_concat_length, Option.some.injEq] at hi
      have hlast := h.segment segs.length cur List.getElem?_concat_length
      simp only [↓reduceIte, hlast, Option.getD_some]
      rw [← hi, encodeSegment_concat, encodeRecord, List.append_assoc]
  noOther := by
    intro name rest hsome
    have hlast := h.segment segs.length cur List.getElem?_concat_length
    simp only [FileSystem.readFile_append] at hsome
    have hold : (fs.readFile (dir ++ name :: rest)).isSome := by
      split at hsome
      · next heq => rw [heq, hlast]; rfl
      · exact hsome
    simpa using h.noOther name rest hold

/-- The listing of at most ten segments is in the order they were opened. -/
theorem Holds.listing (h : Holds fs dir segs) (hlen : segs.length ≤ 10) :
    listWalNames fs dir = (List.range segs.length).map (walFilename 0) := by
  apply sortNames_eq
  · exact (FileSystem.nodup_readDir fs dir).filter _
  · rw [List.pairwise_map]
    refine List.Pairwise.imp_of_mem ?_ List.pairwise_lt_range
    intro i j _ hj hij
    rw [List.mem_range] at hj
    exact walFilename_lt j (by omega) i hij
  · intro name
    simp only [List.mem_filter, FileSystem.mem_readDir, List.mem_map, List.mem_range]
    constructor
    · rintro ⟨⟨rest, hrest⟩, -⟩
      obtain ⟨i, hi, rfl⟩ := h.noOther name rest hrest
      exact ⟨i, hi, rfl⟩
    · rintro ⟨i, hi, rfl⟩
      refine ⟨⟨[], ?_⟩, ?_⟩
      · rw [h.segment i segs[i] (List.getElem?_eq_getElem hi)]; rfl
      · rw [parseSeqFromName_walFilename (by decide) (by unfold u64Size; omega)]; rfl

/-! ### The abstract log -/

/-- The log of one writer: the segments it has closed or found, the records of the
segment it writes to, and the bytes counted against the segment size. -/
structure SegmentLog where
  closed : List (List Bytes)
  current : List Bytes
  bytes : ℕ

/-- All segments, the open one last. -/
def SegmentLog.segments (log : SegmentLog) : List (List Bytes) := log.closed ++ [log.current]

/-- A record goes to a new segment when it does not fit into the open one. -/
def SegmentLog.write (maxSegmentBytes : ℕ) (log : SegmentLog) (p : Bytes) : SegmentLog :=
  if log.bytes + (4 + p.length) > maxSegmentBytes then
    ⟨log.segments, [p], 4 + p.length⟩
  else ⟨log.closed, log.current ++ [p], log.bytes + (4 + p.length)⟩

/-- Write records one after the other. -/
def SegmentLog.writeAll (maxSegmentBytes : ℕ) (log : SegmentLog) (ps : List Bytes) : SegmentLog :=
  ps.foldl (SegmentLog.write maxSegmentBytes) log

theorem SegmentLog.flatten_write (max : ℕ) (log : SegmentLog) (p : Bytes) :
    (log.write max p).segments.flatten = log.segments.flatten ++ [p] := by
  unfold SegmentLog.write
  split <;> simp [SegmentLog.segments]

/-- Writing neither loses, nor duplicates, nor reorders records. -/
theorem SegmentLog.flatten_writeAll (max : ℕ) (log : SegmentLog) (ps : List Bytes) :
    (log.writeAll max ps).segments.flatten = log.segments.flatten ++ ps := by
  induction ps generalizing log with
  | nil => simp [SegmentLog.writeAll]
  | cons p ps ih =>
    calc ((log.write max p).writeAll max ps).segments.flatten
        = (log.write max p).segments.flatten ++ ps := ih _
      _ = log.segments.flatten ++ p :: ps := by
        rw [SegmentLog.flatten_write, List.append_assoc, List.singleton_append]

/-- How often a writer that has counted `bytes` bytes rotates on the records `ps`. -/
def rotations (maxSegmentBytes : ℕ) : ℕ → List Bytes → ℕ
  | _, [] => 0
  | bytes, p :: ps =>
    if bytes + (4 + p.length) > maxSegmentBytes then
      rotations maxSegmentBytes (4 + p.length) ps + 1
    else rotations maxSegmentBytes (bytes + (4 + p.length)) ps

/-- The number of segments a run opens: one for each session, one for each rotation. -/
def segmentCount (ss : List Session) : ℕ :=
  (ss.map fun s => 1 + rotations s.maxSegmentBytes 0 s.payloads).sum

theorem SegmentLog.length_writeAll (max : ℕ) (log : SegmentLog) (ps : List Bytes) :
    (log.writeAll max ps).segments.length =
      log.segments.length + rotations max log.bytes ps := by
  induction ps generalizing log with
  | nil => rfl
  | cons p ps ih =>
    have hstep : ((log.write max p).writeAll max ps).segments.length =
        (log.write max p).segments.length + rotations max (log.write max p).bytes ps := ih _
    change ((log.write max p).writeAll max ps).segments.length = _
    rw [hstep, rotations]
    unfold SegmentLog.write
    split <;> simp [SegmentLog.segments]
    omega

/-! ### The writer refines the abstract log -/

/-- The writer `w` over the files `fs` represents `log`: its file is the last segment. -/
structure WriterAt (w : WalWriter) (fs : FileSystem) (log : SegmentLog) : Prop where
  epoch : w.epoch = 0
  seq : w.seq = log.closed.length
  file : w.file = w.dir ++ [walFilename 0 log.closed.length]
  bytes : w.bytesWritten = log.bytes
  holds : Holds fs w.dir log.segments

theorem rotate_of_ok {w w' : WalWriter} {fs' : FileSystem} {log : SegmentLog}
    (h : WriterAt w fs log) (hrotate : w.rotate fs = .ok (w', fs')) :
    WriterAt w' fs' ⟨log.segments, [], 0⟩ ∧ w'.dir = w.dir ∧
      w'.maxSegmentBytes = w.maxSegmentBytes := by
  obtain ⟨seq, hseq, hw'⟩ := bind_eq_ok hrotate
  obtain ⟨rfl, -⟩ := checkedAdd_eq_ok hseq
  cases hw'
  have hnext : w.seq + 1 = log.segments.length := by rw [h.seq]; simp [SegmentLog.segments]
  have hpath : w.dir ++ [walFilename w.epoch (w.seq + 1)] =
      w.dir ++ [walFilename 0 log.segments.length] := by rw [h.epoch, hnext]
  exact ⟨⟨h.epoch, hnext, hpath, rfl, by rw [hpath]; exact h.holds.create⟩, rfl, rfl⟩

/-- Rotating fails only past the last sequence number. -/
theorem exists_rotate {w : WalWriter} {log : SegmentLog} (h : WriterAt w fs log)
    (hlen : log.segments.length < 2 ^ 64) : ∃ w' fs', w.rotate fs = .ok (w', fs') := by
  have hnext : w.seq + 1 = log.segments.length := by rw [h.seq]; simp [SegmentLog.segments]
  rw [WalWriter.rotate, checkedAdd_of_lt (by rw [hnext]; exact hlen)]
  exact ⟨_, _, rfl⟩

/-- One record: a writer that returns has done what the abstract log does. -/
theorem writeRecord_of_ok {w w' : WalWriter} {fs' : FileSystem} {log : SegmentLog} {p : Bytes}
    (h : WriterAt w fs log) (hrecord : w.writeRecord fs p = .ok (w', fs')) :
    WriterAt w' fs' (log.write w.maxSegmentBytes p) ∧ w'.dir = w.dir ∧
      w'.maxSegmentBytes = w.maxSegmentBytes := by
  rw [WalWriter.writeRecord, h.bytes] at hrecord
  by_cases hfull : log.bytes + (4 + p.length) > w.maxSegmentBytes
  · simp only [if_pos hfull] at hrecord
    obtain ⟨⟨w₁, fs₁⟩, hrotate, hw'⟩ := bind_eq_ok hrecord
    cases hw'
    obtain ⟨hw₁, hdir, hmax⟩ := rotate_of_ok h hrotate
    rw [SegmentLog.write, if_pos hfull]
    refine ⟨⟨hw₁.epoch, hw₁.seq, hw₁.file, ?_, ?_⟩, hdir, hmax⟩
    · change w₁.bytesWritten + _ = _; rw [hw₁.bytes]; simp
    · change Holds ((fs₁.append w₁.file _).append w₁.file _) w₁.dir _
      rw [hw₁.file]; exact hw₁.holds.append p
  · simp only [if_neg hfull] at hrecord
    cases Except.ok.inj hrecord
    rw [SegmentLog.write, if_neg hfull]
    refine ⟨⟨h.epoch, h.seq, h.file, ?_, ?_⟩, rfl, rfl⟩
    · change w.bytesWritten + _ = _; rw [h.bytes]
    · change Holds ((fs.append w.file _).append w.file _) w.dir _
      rw [h.file]; exact h.holds.append p

theorem exists_writeRecord {w : WalWriter} {log : SegmentLog} (h : WriterAt w fs log) (p : Bytes)
    (hlen : (log.write w.maxSegmentBytes p).segments.length < 2 ^ 64) :
    ∃ w' fs', w.writeRecord fs p = .ok (w', fs') := by
  rw [WalWriter.writeRecord, h.bytes]
  by_cases hfull : log.bytes + (4 + p.length) > w.maxSegmentBytes
  · rw [SegmentLog.write, if_pos hfull] at hlen
    have hlen' : log.segments.length < 2 ^ 64 := by
      simp [SegmentLog.segments] at hlen ⊢; omega
    obtain ⟨w₁, fs₁, hrotate⟩ := exists_rotate h hlen'
    rw [if_pos hfull, hrotate]
    exact ⟨_, _, rfl⟩
  · rw [if_neg hfull]
    exact ⟨_, _, rfl⟩

/-- **A writer that returns has written what the abstract log holds.** -/
theorem writeAll_of_ok {ps : List Bytes} : ∀ {w w' : WalWriter} {fs fs' : FileSystem}
    {log : SegmentLog}, WriterAt w fs log → w.writeAll fs ps = .ok (w', fs') →
    WriterAt w' fs' (log.writeAll w.maxSegmentBytes ps) ∧ w'.dir = w.dir := by
  induction ps with
  | nil => intro w w' fs fs' log h hwrite; cases hwrite; exact ⟨h, rfl⟩
  | cons p ps ih =>
    intro w w' fs fs' log h hwrite
    obtain ⟨⟨w₁, fs₁⟩, hrecord, hrest⟩ := bind_eq_ok hwrite
    obtain ⟨hw₁, hdir, hmax⟩ := writeRecord_of_ok h hrecord
    obtain ⟨hw', hdir'⟩ := ih hw₁ hrest
    rw [hmax] at hw'
    exact ⟨hw', hdir'.trans hdir⟩

/-- **Writing records refines the abstract log.** -/
theorem writeAll_spec (ps : List Bytes) : ∀ {w : WalWriter} {fs : FileSystem} {log : SegmentLog},
    WriterAt w fs log → (log.writeAll w.maxSegmentBytes ps).segments.length < 2 ^ 64 →
    ∃ w' fs', w.writeAll fs ps = .ok (w', fs') ∧
      WriterAt w' fs' (log.writeAll w.maxSegmentBytes ps) ∧ w'.dir = w.dir := by
  have hreturns : ∀ {w : WalWriter} {fs : FileSystem} {log : SegmentLog}, WriterAt w fs log →
      (log.writeAll w.maxSegmentBytes ps).segments.length < 2 ^ 64 →
        ∃ w' fs', w.writeAll fs ps = .ok (w', fs') := by
    induction ps with
    | nil => intro w fs log _ _; exact ⟨w, fs, rfl⟩
    | cons p ps ih =>
      intro w fs log h hlen
      change ((log.write w.maxSegmentBytes p).writeAll w.maxSegmentBytes ps).segments.length < _
        at hlen
      have hstep : (log.write w.maxSegmentBytes p).segments.length < 2 ^ 64 := by
        rw [SegmentLog.length_writeAll] at hlen; omega
      obtain ⟨w₁, fs₁, hrecord⟩ := exists_writeRecord h p hstep
      obtain ⟨hw₁, -, hmax⟩ := writeRecord_of_ok h hrecord
      obtain ⟨w₂, fs₂, hrest⟩ := ih hw₁ (by rw [hmax]; exact hlen)
      exact ⟨w₂, fs₂, by rw [WalWriter.writeAll, hrecord]; exact hrest⟩
  intro w fs log h hlen
  obtain ⟨w', fs', hwrite⟩ := hreturns h hlen
  obtain ⟨hw', hdir⟩ := writeAll_of_ok h hwrite
  exact ⟨w', fs', hwrite, hw', hdir⟩

/-- Opening a writer on a directory of at most ten segments starts the next one. -/
theorem open_spec {root : FilePath} {db : DatabaseName} {branch : BranchName} (max : ℕ)
    (h : Holds fs (walDir root db branch) segs) (hlen : segs.length ≤ 10) :
    ∃ w fs', WalWriter.open fs root db branch max = .ok (w, fs') ∧
      WriterAt w fs' ⟨segs, [], 0⟩ ∧ w.dir = walDir root db branch ∧ w.maxSegmentBytes = max := by
  have hlast : (listWalNames fs (walDir root db branch)).getLast?.bind parseSeqFromName =
      if segs.length = 0 then none else some (0, segs.length - 1) := by
    rw [h.listing hlen]
    rcases Nat.eq_zero_or_pos segs.length with hz | hpos
    · rw [hz]; rfl
    · rw [if_neg (by omega), List.getLast?_map, List.getLast?_range, if_neg (by omega)]
      exact parseSeqFromName_walFilename (by decide) (by unfold u64Size; omega)
  rw [WalWriter.open, hlast]
  rcases Nat.eq_zero_or_pos segs.length with hz | hpos
  · rw [if_pos hz]
    refine ⟨_, _, rfl, ⟨rfl, hz.symm, ?_, rfl, ?_⟩, rfl, rfl⟩
    · rw [hz]
    · have := h.create; rw [hz] at this; exact this
  · have hadd : checkedAdd (segs.length - 1) 1 = .ok segs.length := by
      rw [checkedAdd_of_lt (by omega)]; congr 1; omega
    rw [if_neg (by omega)]
    simp only [hadd]
    exact ⟨_, _, rfl, ⟨rfl, rfl, rfl, rfl, h.create⟩, rfl, rfl⟩

/-! ### Whole runs -/

/-- One session adds its segments and appends its records. -/
theorem runSession_spec {root : FilePath} {db : DatabaseName} {branch : BranchName}
    (h : Holds fs (walDir root db branch) segs) (s : Session)
    (hlen : segs.length + segmentCount [s] ≤ 10) :
    ∃ fs' segs', runSession root db branch fs s = .ok fs' ∧
      Holds fs' (walDir root db branch) segs' ∧
      segs'.length = segs.length + segmentCount [s] ∧
      segs'.flatten = segs.flatten ++ s.payloads := by
  have hcount : segmentCount [s] = 1 + rotations s.maxSegmentBytes 0 s.payloads := by
    simp [segmentCount]
  obtain ⟨w, fs₁, hopen, hat, hdir, hmax⟩ := open_spec s.maxSegmentBytes h (by omega)
  have hsegs : ((SegmentLog.mk segs [] 0).writeAll s.maxSegmentBytes
      s.payloads).segments.length = segs.length + segmentCount [s] := by
    rw [SegmentLog.length_writeAll, hcount]
    simp [SegmentLog.segments]
    omega
  obtain ⟨w', fs₂, hwrite, hat', hdir'⟩ :=
    writeAll_spec s.payloads hat (by rw [hmax]; omega)
  refine ⟨fs₂, ((SegmentLog.mk segs [] 0).writeAll s.maxSegmentBytes s.payloads).segments,
    ?_, ?_, by omega, ?_⟩
  · rw [runSession, hopen]; simp only [bind, Except.bind, hwrite]; rfl
  · have := hat'.holds; rw [hdir', hdir, hmax] at this; exact this
  · rw [SegmentLog.flatten_writeAll]; simp [SegmentLog.segments]

theorem runSessions_spec {root : FilePath} {db : DatabaseName} {branch : BranchName}
    (ss : List Session) : ∀ {fs : FileSystem} {segs : List (List Bytes)},
    Holds fs (walDir root db branch) segs → segs.length + segmentCount ss ≤ 10 →
    ∃ fs' segs', runSessions root db branch fs ss = .ok fs' ∧
      Holds fs' (walDir root db branch) segs' ∧ segs'.length ≤ 10 ∧
      segs'.flatten = segs.flatten ++ ss.flatMap Session.payloads := by
  induction ss with
  | nil => intro fs segs h hlen; exact ⟨fs, segs, rfl, h, hlen, by simp⟩
  | cons s ss ih =>
    intro fs segs h hlen
    have hcount : segmentCount (s :: ss) = segmentCount [s] + segmentCount ss := by
      simp [segmentCount]
    obtain ⟨fs₁, segs₁, hrun, hholds, hlen₁, hflat⟩ := runSession_spec h s (by omega)
    obtain ⟨fs₂, segs₂, hruns, hholds', hlen₂, hflat'⟩ := ih hholds (by omega)
    refine ⟨fs₂, segs₂, ?_, hholds', hlen₂, ?_⟩
    · rw [runSessions, List.foldlM_cons, hrun]; exact hruns
    · rw [hflat', hflat, List.append_assoc]; rfl

/-- A directory of at most ten segments reads back as their records. -/
theorem Holds.readWal {root : FilePath} {db : DatabaseName} {branch : BranchName}
    (h : Holds fs (walDir root db branch) segs) (hlen : segs.length ≤ 10)
    (hps : ∀ p ∈ segs.flatten, p.length < 2 ^ 32) :
    readWal fs root db branch = .ok segs.flatten := by
  have hpaths : listWalPaths fs root db branch =
      (List.range segs.length).map fun i => walDir root db branch ++ [walFilename 0 i] := by
    rw [listWalPaths, h.listing hlen, List.map_map]; rfl
  have hsegs : segs = (List.range segs.length).map (segs.getD · []) := by
    apply List.ext_getElem (by simp)
    intro i hi _
    simp [hi]
  have hread : (listWalPaths fs root db branch).mapM (readRecords fs) = .ok segs := by
    rw [hpaths, List.mapM_map]
    conv_rhs => rw [hsegs]
    apply mapM_eq_ok
    intro i hi
    have hseg : segs[i]? = some (segs.getD i []) := by simp [List.mem_range.mp hi]
    refine readRecords_encodeSegment (fun p hp => hps p ?_) (h.segment i _ hseg)
    exact List.mem_flatten.mpr ⟨_, List.mem_of_getElem? hseg, hp⟩
  rw [KuzuEventBus.readWal, hread]; rfl

/-- **A run of at most ten segments reads back what it wrote**, in the order it was written. -/
theorem readWal_runSessions {root : FilePath} {db : DatabaseName} {branch : BranchName}
    {fs : FileSystem} {ss : List Session}
    (hempty : ∀ name rest, fs.readFile (walDir root db branch ++ name :: rest) = none)
    (hpayload : ∀ s ∈ ss, ∀ p ∈ s.payloads, p.length < 2 ^ 32)
    (hcount : segmentCount ss ≤ 10) :
    ∃ fs', runSessions root db branch fs ss = .ok fs' ∧
      readWal fs' root db branch = .ok (ss.flatMap Session.payloads) := by
  obtain ⟨fs', segs, hrun, hholds, hlen, hflat⟩ :=
    runSessions_spec ss (holds_nil hempty) (by simpa using hcount)
  rw [List.flatten_nil, List.nil_append] at hflat
  refine ⟨fs', hrun, ?_⟩
  rw [← hflat]
  apply hholds.readWal hlen
  rw [hflat]
  intro p hp
  obtain ⟨s, hs, hps⟩ := List.mem_flatMap.mp hp
  exact hpayload s hs p hps

/-- Two sessions, the second of which rotates. -/
theorem readWal_runSessions_two_sessions :
    ∃ fs', runSessions [] ⟨"db", by decide⟩ ⟨"main", by decide⟩ ∅
        [⟨1024, [[1], [2, 3]]⟩, ⟨5, [[4], [5]]⟩] = .ok fs' ∧
      readWal fs' [] ⟨"db", by decide⟩ ⟨"main", by decide⟩ = .ok [[1], [2, 3], [4], [5]] :=
  readWal_runSessions (fun _ _ => rfl) (by decide) (by decide)

/-- Eleven segments: a session whose eleven records rotate ten times reads the
last record back in third place, and of twelve sessions with one record each the
twelfth truncates the segment of the eleventh. -/
theorem readWal_past_ten_segments :
    let payloads (n : ℕ) : List Bytes := (List.range n).map fun i => [UInt8.ofNat i]
    let run (ss : List Session) : Except Fault (List Bytes) := do
      let fs ← runSessions [] ⟨"db", by decide⟩ ⟨"main", by decide⟩ ∅ ss
      readWal fs [] ⟨"db", by decide⟩ ⟨"main", by decide⟩
    run [⟨5, payloads 11⟩] = .ok [[0], [1], [10], [2], [3], [4], [5], [6], [7], [8], [9]] ∧
      run [⟨5, payloads 11⟩] ≠ .ok (payloads 11) ∧
      run ((payloads 12).map fun p => ⟨1024, [p]⟩) =
        .ok [[0], [1], [11], [2], [3], [4], [5], [6], [7], [8], [9]] := by
  decide +kernel

end KuzuEventBus
