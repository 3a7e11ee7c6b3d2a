import KuzuEventBus.Storage.WalRuns

/-!
# Segments that are cut short

A crash can leave the segment a writer has open cut at any byte.  The reader
treats the two places a record can be cut at differently: a length that is cut
short ends the file, a payload that is cut short fails the whole read.  So the
records that are there in full come back exactly when the cut leaves fewer than
four bytes after the last of them.

## Main definitions

* `wholeRecords ps n` — the records of `ps` that lie within the first `n` bytes of their segment.
* `leftover ps n` — how many of the `n` bytes lie after these.

## Main results

* `open_segment_of_ok` — the file a writer has open holds the records of the abstract log.
* `readRecordsLoop_take` — what the loop makes of a segment cut at any byte.
* `readRecords_cut_iff` — when a reader recovers the whole records.
-/

namespace KuzuEventBus

/-! ### The records in front of the cut -/

/-- The records of `ps` all of whose bytes are among the first `n` of their segment. -/
def wholeRecords : List Bytes → ℕ → List Bytes
  | [], _ => []
  | p :: ps, n => if 4 + p.length ≤ n then p :: wholeRecords ps (n - (4 + p.length)) else []

/-- The bytes among the first `n` of the segment that lie after the whole records; a cut past
the end of the segment leaves none. -/
def leftover : List Bytes → ℕ → ℕ
  | [], _ => 0
  | p :: ps, n => if 4 + p.length ≤ n then leftover ps (n - (4 + p.length)) else n

/-! ### Reading a cut segment -/

/-- The loop stops where the next length is cut short. -/
theorem readRecordsLoop_of_length_lt {bs : Bytes} (h : bs.length < 4) (fuel : ℕ) :
    readRecordsLoop fuel bs = .ok [] := by
  cases fuel with
  | zero => rfl
  | succ fuel =>
    match bs, h with
    | [], _ => rfl
    | [_], _ => rfl
    | [_, _], _ => rfl
    | [_, _, _], _ => rfl

/-- One turn of the loop, on the length of `p` and whatever follows it. -/
theorem readRecordsLoop_succ {p : Bytes} (hp : p.length < 2 ^ 32) (fuel : ℕ) (rest : Bytes) :
    readRecordsLoop (fuel + 1) (u32LeBytes (p.length % 2 ^ 32) ++ rest) =
      if p.length ≤ rest.length then do
        let records ← readRecordsLoop fuel (rest.drop p.length)
        pure (rest.take p.length :: records)
      else .error (.error (.storageIo "read payload: failed to fill whole buffer")) := by
  simp only [u32LeBytes, List.cons_append, List.nil_append, readRecordsLoop, Nat.mod_eq_of_lt hp,
    u32OfLeBytes_of_lt hp]

/-- **A segment cut at any byte.**  A cut inside a length loses the record it
belongs to, a cut inside a payload loses all of them. -/
theorem readRecordsLoop_take {ps : List Bytes} (hps : ∀ p ∈ ps, p.length < 2 ^ 32) :
    ∀ n fuel : ℕ, ((encodeSegment ps).take n).length ≤ fuel →
      readRecordsLoop fuel ((encodeSegment ps).take n) =
        if leftover ps n < 4 then .ok (wholeRecords ps n)
        else .error (.error (.storageIo "read payload: failed to fill whole buffer")) := by
  induction ps with
  | nil =>
    intro n fuel _
    rw [encodeSegment_nil, List.take_nil, readRecordsLoop_of_length_lt (by simp)]
    simp [leftover, wholeRecords]
  | cons p ps ih =>
    intro n fuel hfuel
    have hp : p.length < 2 ^ 32 := hps p List.mem_cons_self
    have hlen : (u32LeBytes (p.length % 2 ^ 32)).length = 4 := rfl
    rw [leftover, wholeRecords]
    by_cases hn : n < 4
    · -- inside the first length
      rw [if_neg (show ¬ 4 + p.length ≤ n by omega), if_pos hn,
        if_neg (show ¬ 4 + p.length ≤ n by omega)]
      apply readRecordsLoop_of_length_lt
      rw [List.length_take]
      omega
    · rw [encodeSegment_cons, encodeRecord, List.append_assoc, List.take_append, hlen,
        List.take_of_length_le (by rw [hlen]; omega)] at hfuel ⊢
      obtain ⟨fuel, rfl⟩ : ∃ f, fuel = f + 1 := by
        refine ⟨fuel - 1, ?_⟩
        rw [List.length_append, hlen] at hfuel
        omega
      rw [readRecordsLoop_succ hp]
      by_cases hwhole : 4 + p.length ≤ n
      · -- past the first record
        have hcut : (p ++ encodeSegment ps).take (n - 4) =
            p ++ (encodeSegment ps).take (n - (4 + p.length)) := by
          rw [List.take_append, List.take_of_length_le (by omega), Nat.sub_sub]
        rw [hcut] at hfuel ⊢
        rw [List.length_append, List.length_append, hlen] at hfuel
        rw [if_pos (by simp), List.drop_left' rfl, List.take_left' rfl, if_pos hwhole,
          if_pos hwhole,
          ih (fun q hq => hps q (List.mem_cons_of_mem _ hq)) (n - (4 + p.length)) fuel (by omega)]
        split <;> rfl
      · -- inside the first payload
        have hshort : ¬ p.length ≤ ((p ++ encodeSegment ps).take (n - 4)).length := by
          rw [List.length_take]
          omega
        rw [if_neg hshort, if_neg hwhole, if_neg hn]

/-! ### The open segment of a writer -/

/-- The file of `w` is the open segment of `log`. -/
structure Opened (w : WalWriter) (fs : FileSystem) (log : SegmentLog) : Prop where
  bytes : w.bytesWritten = log.bytes
  holds : fs.readFile w.file = some (encodeSegment log.current)

theorem Opened.rotate {w w' : WalWriter} {fs fs' : FileSystem}
    (hrotate : w.rotate fs = .ok (w', fs')) (closed : List (List Bytes)) :
    Opened w' fs' ⟨closed, [], 0⟩ ∧ w'.maxSegmentBytes = w.maxSegmentBytes := by
  obtain ⟨seq, -, hw'⟩ := bind_eq_ok hrotate
  cases hw'
  refine ⟨⟨rfl, ?_⟩, rfl⟩
  rw [FileSystem.readFile_create, if_pos rfl]
  rfl

/-- Writing a record to the open segment. -/
theorem Opened.append {w : WalWriter} {fs : FileSystem} {closed : List (List Bytes)}
    {records : List Bytes} {bytes : ℕ} (h : Opened w fs ⟨closed, records, bytes⟩) (p : Bytes) :
    Opened { w with bytesWritten := w.bytesWritten + (4 + p.length) }
      ((fs.append w.file (u32LeBytes (p.length % 2 ^ 32))).append w.file p)
      ⟨closed, records ++ [p], bytes + (4 + p.length)⟩ where
  bytes := congrArg (· + (4 + p.length)) h.bytes
  holds := by
    simp only [FileSystem.readFile_append, ↓reduceIte, h.holds, Option.getD_some]
    rw [encodeSegment_concat, encodeRecord, List.append_assoc]

theorem Opened.writeRecord {w w' : WalWriter} {fs fs' : FileSystem} {log : SegmentLog} {p : Bytes}
    (h : Opened w fs log) (hrecord : w.writeRecord fs p = .ok (w', fs')) :
    Opened w' fs' (log.write w.maxSegmentBytes p) ∧ w'.maxSegmentBytes = w.maxSegmentBytes := by
  rw [WalWriter.writeRecord, h.bytes] at hrecord
  rw [SegmentLog.write]
  by_cases hfull : log.bytes + (4 + p.length) > w.maxSegmentBytes
  · simp only [if_pos hfull] at hrecord
    obtain ⟨⟨w₁, fs₁⟩, hrotate, hw'⟩ := bind_eq_ok hrecord
    cases hw'
    obtain ⟨hopen, hmax⟩ := Opened.rotate hrotate log.segments
    have happend := hopen.append p
    rw [List.nil_append, Nat.zero_add] at happend
    rw [if_pos hfull]
    exact ⟨happend, hmax⟩
  · simp only [if_neg hfull] at hrecord
    cases Except.ok.inj hrecord
    rw [if_neg hfull]
    exact ⟨h.append p, rfl⟩

/-- **The open segment holds the records of the abstract log**, through every rotation. -/
theorem Opened.writeAll {ps : List Bytes} : ∀ {w w' : WalWriter} {fs fs' : FileSystem}
    {log : SegmentLog}, Opened w fs log → w.writeAll fs ps = .ok (w', fs') →
    Opened w' fs' (log.writeAll w.maxSegmentBytes ps) := by
  induction ps with
  | nil => intro w w' fs fs' log h hwrite; cases hwrite; exact h
  | cons p ps ih =>
    intro w w' fs fs' log h hwrite
    obtain ⟨⟨w₁, fs₁⟩, hrecord, hrest⟩ := bind_eq_ok hwrite
    obtain ⟨hopen, hmax⟩ := h.writeRecord hrecord
    have hrun := ih hopen hrest
    rw [hmax] at hrun
    exact hrun

theorem opened_of_open {root : FilePath} {db : DatabaseName} {branch : BranchName} {max : ℕ}
    {fs fs' : FileSystem} {w : WalWriter}
    (hopen : WalWriter.open fs root db branch max = .ok (w, fs')) :
    Opened w fs' ⟨[], [], 0⟩ ∧ w.maxSegmentBytes = max := by
  have hcreated (path : FilePath) : (fs.create path).readFile path = some [] := by
    rw [FileSystem.readFile_create, if_pos rfl]
  unfold WalWriter.open at hopen
  simp only at hopen
  -- a new branch starts at segment zero, any other one after the last segment listed
  split at hopen
  · obtain ⟨seq, -, hw⟩ := bind_eq_ok hopen
    cases hw
    exact ⟨⟨rfl, hcreated _⟩, rfl⟩
  · cases hopen
    exact ⟨⟨rfl, hcreated _⟩, rfl⟩

/-- The records of the open segment once a writer of segments of `max` bytes wrote `ps`. -/
def openRecords (max : ℕ) (ps : List Bytes) : List Bytes :=
  ((⟨[], [], 0⟩ : SegmentLog).writeAll max ps).current

theorem mem_of_mem_openRecords {max : ℕ} {ps : List Bytes} {p : Bytes}
    (h : p ∈ openRecords max ps) : p ∈ ps := by
  have hflat := SegmentLog.flatten_writeAll max ⟨[], [], 0⟩ ps
  have hmem : p ∈ ((⟨[], [], 0⟩ : SegmentLog).writeAll max ps).segments.flatten := by
    rw [SegmentLog.segments, List.flatten_append, List.mem_append]
    rw [openRecords] at h
    simpa using Or.inr h
  rw [hflat] at hmem
  simpa [SegmentLog.segments] using hmem

/-- **A reader recovers the whole records exactly when no payload is cut.**  Whatever a
writer wrote, the segment it has open can be cut at any byte `n`; of the records of that
segment those in front of the cut come back if fewer than four bytes are left after them. -/
theorem readRecords_cut_iff {root : FilePath} {db : DatabaseName} {branch : BranchName} {max : ℕ}
    {fs fs₁ fs₂ : FileSystem} {w w' : WalWriter} {ps : List Bytes}
    (hopen : WalWriter.open fs root db branch max = .ok (w, fs₁))
    (hwrite : w.writeAll fs₁ ps = .ok (w', fs₂)) (hps : ∀ p ∈ ps, p.length < 2 ^ 32) (n : ℕ) :
    readRecords (fs₂.truncate w'.file n) w'.file = .ok (wholeRecords (openRecords max ps) n) ↔
      leftover (openRecords max ps) n < 4 := by
  obtain ⟨hopened, hmax⟩ := opened_of_open hopen
  have hfile : fs₂.readFile w'.file = some (encodeSegment (openRecords max ps)) := by
    rw [openRecords, ← hmax]
    exact (hopened.writeAll hwrite).holds
  have hrecords : ∀ p ∈ openRecords max ps, p.length < 2 ^ 32 :=
    fun p hp => hps p (mem_of_mem_openRecords hp)
  rw [readRecords, FileSystem.readFile_truncate n hfile]
  simp only
  rw [readRecordsLoop_take hrecords n _ le_rfl]
  constructor
  · intro h
    by_contra hlarge
    rw [if_neg hlarge] at h
    cases h
  · intro h
    rw [if_pos h]

/-- Three records, the last one cut inside its length. -/
theorem readRecords_cut_inside_length :
    ∃ w fs₁ w' fs₂,
      WalWriter.open ∅ [] ⟨"db", by decide⟩ ⟨"main", by decide⟩ 1024 = .ok (w, fs₁) ∧
        w.writeAll fs₁ [[1], [2, 3], [4]] = .ok (w', fs₂) ∧
        readRecords (fs₂.truncate w'.file 14) w'.file = .ok [[1], [2, 3]] :=
  have hcut {w w' : WalWriter} {fs₁ fs₂ : FileSystem}
      (hopen : WalWriter.open ∅ [] ⟨"db", by decide⟩ ⟨"main", by decide⟩ 1024 = .ok (w, fs₁))
      (hwrite : w.writeAll fs₁ [[1], [2, 3], [4]] = .ok (w', fs₂)) :
      readRecords (fs₂.truncate w'.file 14) w'.file =
        .ok (wholeRecords (openRecords 1024 [[1], [2, 3], [4]]) 14) :=
    (readRecords_cut_iff hopen hwrite (by decide) 14).2 (by decide)
  ⟨_, _, _, _, rfl, rfl, hcut rfl rfl⟩

/-- A record of one byte cut right after its length: nothing of the file can be read. -/
theorem readRecords_cut_inside_payload :
    ∃ w fs₁ w' fs₂,
      WalWriter.open ∅ [] ⟨"db", by decide⟩ ⟨"main", by decide⟩ 1024 = .ok (w, fs₁) ∧
        w.writeAll fs₁ [[1], [2, 3], [4]] = .ok (w', fs₂) ∧
        wholeRecords (openRecords 1024 [[1], [2, 3], [4]]) 15 = [[1], [2, 3]] ∧
        readRecords (fs₂.truncate w'.file 15) w'.file =
          .error (.error (.storageIo "read payload: failed to fill whole buffer")) :=
  ⟨_, _, _, _, rfl, rfl, by decide, rfl⟩

end KuzuEventBus
