import KuzuEventBus.Engine.Records
import KuzuEventBus.Storage.WalCuts
import KuzuEventBus.Storage.WalTails

/-!
# Recovery after a crash

A branch on disk is the segments of the last flush and the log of the calls since.  Recovery
loads the segments, reads the log, decodes its records and replays them: `load_from_segments`,
`read_records` over `list_wal_paths`, `WalRecord::from_bytes` and `replay_wal`, one after the
other.  The loaded store is not the store that was flushed, its maps iterate in other orders and
its next ids can be lower, so replay is compared call by call with the calls that were logged.

A crash leaves the segment the writer has open cut at some byte.  Where the reader passes over the
cut, recovery comes back to the store after the calls whose records are whole.

## Main definitions

* `recover` — loading, then replaying the log.

## Main results

* `replayWal_sameGraph` — replaying the records of calls on another copy of the graph.
* `Holds.readWal_truncate` — what is read of a log whose last segment is cut.
* `recover_cut` — **recovery after a crash gives the store after the calls whose records are
  whole**.
-/

namespace KuzuEventBus

open Text

/-! ### The log of a cut run -/

variable {fs fs' : FileSystem} {dir root : FilePath} {db : DatabaseName} {branch : BranchName}

/-- The listing depends on which files there are only. -/
theorem Holds.listing_congr {segs : List (List Bytes)} (h : Holds fs dir segs)
    (hlen : segs.length ≤ 10)
    (hfiles : ∀ path, (fs'.readFile path).isSome = (fs.readFile path).isSome) :
    listWalNames fs' dir = listWalNames fs dir := by
  have hlist := h.listing hlen
  rw [hlist]
  apply sortNames_eq
  · exact (FileSystem.nodup_readDir fs' dir).filter _
  · rw [List.pairwise_map]
    refine List.Pairwise.imp_of_mem ?_ List.pairwise_lt_range
    intro i j _ hj hij
    rw [List.mem_range] at hj
    exact walFilename_lt j (by omega) i hij
  · intro name
    rw [← hlist, listWalNames, mem_sortNames, List.mem_filter, List.mem_filter,
      FileSystem.mem_readDir, FileSystem.mem_readDir]
    simp only [hfiles]

theorem FileSystem.readFile_truncate_of_ne {path q : FilePath} (n : ℕ) (h : q ≠ path) :
    (fs.truncate path n).readFile q = fs.readFile q := by
  unfold FileSystem.truncate
  split
  · exact AList.lookup_insert_ne h
  · rfl

theorem FileSystem.isSome_readFile_truncate (path q : FilePath) (n : ℕ) :
    ((fs.truncate path n).readFile q).isSome = (fs.readFile q).isSome := by
  by_cases h : q = path
  · subst h
    cases hfile : fs.readFile q with
    | none =>
      rw [FileSystem.readFile] at hfile
      rw [FileSystem.truncate, hfile, FileSystem.readFile, hfile]
    | some bytes => simp [FileSystem.readFile_truncate n hfile]
  · rw [readFile_truncate_of_ne n h]

/-- **A log whose last segment is cut** reads back as the records of the other segments and the
whole ones of the last, where the reader passes over the cut. -/
theorem Holds.readWal_truncate {closed : List (List Bytes)} {current : List Bytes}
    (h : Holds fs (walDir root db branch) (closed ++ [current])) (hlen : closed.length < 10)
    (hps : ∀ p ∈ closed.flatten ++ current, p.length < 2 ^ 32) {n : ℕ}
    (hcut : leftover current n < 4) :
    KuzuEventBus.readWal (fs.truncate (walDir root db branch ++ [walFilename 0 closed.length]) n)
      root db branch = .ok (closed.flatten ++ wholeRecords current n) := by
  let last := walDir root db branch ++ [walFilename 0 closed.length]
  have hlast : fs.readFile last = some (encodeSegment current) :=
    h.segment closed.length current List.getElem?_concat_length
  have hcount : (closed ++ [current]).length = closed.length + 1 := by simp
  have hpaths : listWalPaths (fs.truncate last n) root db branch =
      (List.range closed.length).map (fun i => walDir root db branch ++ [walFilename 0 i]) ++
        [last] := by
    rw [listWalPaths, h.listing_congr (by omega) (FileSystem.isSome_readFile_truncate last · n),
      h.listing (by omega), hcount, List.range_succ, List.map_append, List.map_append, List.map_map]
    rfl
  have hclosed : ∀ i ∈ List.range closed.length, readRecords (fs.truncate last n)
      (walDir root db branch ++ [walFilename 0 i]) = .ok (closed.getD i []) := by
    intro i hi
    rw [List.mem_range] at hi
    have hseg : closed[i]? = some (closed.getD i []) := by simp [hi]
    apply readRecords_encodeSegment
    · intro p hp
      exact hps p (List.mem_append_left _ (List.mem_flatten.mpr ⟨_, List.mem_of_getElem? hseg, hp⟩))
    · rw [FileSystem.readFile_truncate_of_ne n (segmentPath_ne (by omega))]
      exact h.segment i _ (by rw [List.getElem?_append_left hi, hseg])
  have hcurrent : readRecords (fs.truncate last n) last = .ok (wholeRecords current n) := by
    have hp : ∀ p ∈ current, p.length < 2 ^ 32 := fun p hp => hps p (List.mem_append_right _ hp)
    rw [readRecords, FileSystem.readFile_truncate n hlast]
    simp only
    rw [readRecordsLoop_take hp n _ le_rfl, if_pos hcut]
  have hsegs : (List.range closed.length).map (closed.getD · []) = closed := by
    apply List.ext_getElem (by simp)
    intro i hi _
    simp at hi
    simp [hi]
  have hread : (listWalPaths (fs.truncate last n) root db branch).mapM
      (readRecords (fs.truncate last n)) = .ok (closed ++ [wholeRecords current n]) := by
    have hfront := mapM_eq_ok hclosed
    rw [hsegs] at hfront
    rw [hpaths, List.mapM_append, List.mapM_map, Function.comp_def, hfront]
    simp [hcurrent]
    rfl
  rw [KuzuEventBus.readWal, hread]
  show Except.ok (closed ++ [wholeRecords current n]).flatten = _
  rw [List.flatten_append, List.flatten_singleton]

/-- The records in front of a cut are the first ones. -/
theorem prefix_of_wholeRecords (ps : List Bytes) : ∀ n,
    wholeRecords ps n = ps.take (wholeRecords ps n).length := by
  induction ps with
  | nil => intro n; rfl
  | cons p ps ih =>
    intro n
    rw [wholeRecords]
    split
    · rw [List.length_cons, List.take_succ_cons, ← ih]
    · rfl

/-- The open segment of a log does not depend on the closed ones. -/
theorem current_writeAll (max : ℕ) (ps : List Bytes) : ∀ log log' : SegmentLog,
    log.current = log'.current → log.bytes = log'.bytes →
      (log.writeAll max ps).current = (log'.writeAll max ps).current := by
  induction ps with
  | nil => intro log log' h _; exact h
  | cons p ps ih =>
    intro log log' h hbytes
    refine ih (log.write max p) (log'.write max p) ?_ ?_ <;>
      (rw [SegmentLog.write, SegmentLog.write, hbytes, h]; split <;> rfl)

/-- A run of sessions adds its segments and appends its records. -/
theorem holds_runSessions {ss : List Session} : ∀ {fs fs' : FileSystem} {segs : List (List Bytes)},
    Holds fs (walDir root db branch) segs → segs.length + segmentCount ss ≤ 10 →
    runSessions root db branch fs ss = .ok fs' →
    ∃ segs', Holds fs' (walDir root db branch) segs' ∧
      segs'.length = segs.length + segmentCount ss ∧
      segs'.flatten = segs.flatten ++ ss.flatMap Session.payloads := by
  induction ss with
  | nil =>
    intro fs fs' segs h _ hrun
    cases hrun
    exact ⟨segs, h, rfl, by simp⟩
  | cons s ss ih =>
    intro fs fs' segs h hlen hrun
    have hcount : segmentCount (s :: ss) = segmentCount [s] + segmentCount ss := by
      simp [segmentCount]
    obtain ⟨fs₁, segs₁, hrun₁, hholds, hlen₁, hflat⟩ := runSession_spec h s (by omega)
    rw [runSessions, List.foldlM_cons, hrun₁] at hrun
    obtain ⟨segs₂, hholds₂, hlen₂, hflat₂⟩ := ih hholds (by omega) hrun
    refine ⟨segs₂, hholds₂, by omega, ?_⟩
    rw [hflat₂, hflat, List.append_assoc]
    rfl

theorem appendsIn_runSessions {ss : List Session} : ∀ {fs fs' : FileSystem},
    runSessions root db branch fs ss = .ok fs' → AppendsIn (walDir root db branch) fs fs' := by
  induction ss with
  | nil => intro fs fs' h; cases h; exact .refl _ _
  | cons s ss ih =>
    intro fs fs' h
    obtain ⟨fs₁, hs, hss⟩ := bind_eq_ok h
    obtain ⟨⟨w, fs₂⟩, hopen, hs⟩ := bind_eq_ok hs
    obtain ⟨⟨w', fs₃⟩, hwrite, hs⟩ := bind_eq_ok hs
    cases hs
    obtain ⟨hdir, hw, happ⟩ := appendsIn_open hopen
    obtain ⟨-, -, happ'⟩ := appendsIn_writeAll hw hwrite
    rw [hdir] at happ'
    exact (happ.trans happ').trans (ih hss)

/-! ### Replay on another copy of the graph -/

namespace InMemoryGraphStore

variable {s s' t : InMemoryGraphStore}

/-- The property values of the record are ones its document keeps. -/
theorem storable_logWrite {w : Write} {r : WalRecord} (hw : w.Storable)
    (h : s.logWrite w = .ok (r, s')) : r.Storable := by
  cases w <;> obtain ⟨_, -, heq⟩ := map_eq_ok h <;> cases heq <;> exact hw

/-- **One record, replayed on another copy of the graph**, does to it what the call did. -/
theorem replayRecord_sameGraph (hs : s.Wf) (ht : t.Wf) (hsame : SameGraph s t) {w : Write}
    {r : WalRecord} (hw : w.Storable) (h : s.logWrite w = .ok (r, s')) :
    ∃ t', t.replayRecord r.stored = .ok t' ∧ s'.Wf ∧ t'.Wf ∧ SameGraph s' t' := by
  have hr := WalRecord.same_stored (storable_logWrite hw h)
  cases w with
  | node labels ps =>
    obtain ⟨⟨id, s₁⟩, hadd, heq⟩ := map_eq_ok h
    cases heq
    have hwf := hs.addNode hadd
    obtain ⟨rfl, hlt, rfl⟩ := addNode_eq_ok hadd
    obtain ⟨-, -, hps⟩ := hr
    -- the id is free in the copy as well
    have hfree : t.nodes.lookup s.nextNodeId = none :=
      hsame.nodes.lookup_eq_none hs.nextNodeId_fresh
    obtain ⟨t', hput, hwf', hnodes, hedges⟩ := ht.putNode
      (n := ⟨s.nextNodeId, labels, deserializeProps (serializeProps ps)⟩) hfree hlt
    refine ⟨t', hput, hwf, hwf', ?_, ?_⟩
    · rw [hnodes]
      exact hsame.nodes.insert _ ⟨rfl, rfl, hps⟩
    · rw [hedges]
      exact hsame.edges
  | edge a b edgeType ps =>
    obtain ⟨⟨id, s₁⟩, hadd, heq⟩ := map_eq_ok h
    cases heq
    have hwf := hs.addEdge hadd
    obtain ⟨rfl, hlt, rfl⟩ := addEdge_eq_ok hadd
    obtain ⟨-, -, -, -, hps⟩ := hr
    have hfree : t.edges.lookup s.nextEdgeId = none :=
      hsame.edges.lookup_eq_none hs.nextEdgeId_fresh
    obtain ⟨t', hput, hwf', hnodes, hedges⟩ := ht.putEdge
      (e := ⟨s.nextEdgeId, a, b, edgeType, deserializeProps (serializeProps ps)⟩) hfree hlt
    refine ⟨t', hput, hwf, hwf', ?_, ?_⟩
    · rw [hnodes]
      exact hsame.nodes
    · rw [hedges]
      exact hsame.edges.insert _ ⟨rfl, rfl, rfl, rfl, hps⟩

/-- **The records of calls, replayed on another copy of the graph**, do to it what the calls
did. -/
theorem replayWal_sameGraph {ws : List Write} : ∀ {s s' t : InMemoryGraphStore}
    {records : List WalRecord}, s.Wf → t.Wf → SameGraph s t → (∀ w ∈ ws, w.Storable) →
    s.logWrites ws = .ok (records, s') →
      ∃ t', t.replayWal (records.map WalRecord.stored) = .ok t' ∧ t'.Wf ∧ SameGraph s' t' := by
  induction ws with
  | nil =>
    intro s s' t records _ ht hsame _ h
    cases h
    exact ⟨t, rfl, ht, hsame⟩
  | cons w ws ih =>
    intro s s' t records hs ht hsame hws h
    obtain ⟨⟨r, s₁⟩, hw, h⟩ := bind_eq_ok h
    obtain ⟨⟨rs, s₂⟩, hrest, heq⟩ := bind_eq_ok h
    cases heq
    obtain ⟨t₁, hreplay, hs₁, ht₁, hsame₁⟩ :=
      replayRecord_sameGraph hs ht hsame (hws w List.mem_cons_self) hw
    obtain ⟨t', hreplay', ht', hsame'⟩ :=
      ih hs₁ ht₁ hsame₁ (fun w' hw' => hws w' (List.mem_cons_of_mem _ hw')) hrest
    refine ⟨t', ?_, ht', hsame'⟩
    rw [List.map_cons, replayWal, List.foldlM_cons, hreplay]
    exact hreplay'

/-- The first records are those of the first calls. -/
theorem logWrites_take {ws : List Write} : ∀ {s s' : InMemoryGraphStore}
    {records : List WalRecord}, s.logWrites ws = .ok (records, s') → ∀ k,
      ∃ sk, s.logWrites (ws.take k) = .ok (records.take k, sk) := by
  induction ws with
  | nil =>
    intro s s' records h k
    cases h
    exact ⟨s, by simp [logWrites]⟩
  | cons w ws ih =>
    intro s s' records h k
    obtain ⟨⟨r, s₁⟩, hw, h⟩ := bind_eq_ok h
    obtain ⟨⟨rs, s₂⟩, hrest, heq⟩ := bind_eq_ok h
    cases heq
    cases k with
    | zero => exact ⟨s, rfl⟩
    | succ k =>
      obtain ⟨sk, hk⟩ := ih hrest k
      refine ⟨sk, ?_⟩
      rw [List.take_succ_cons, List.take_succ_cons, logWrites, hw]
      simp only [bind, Except.bind, hk]
      rfl

/-! ### Recovery -/

/-- Loading the segments of a branch, then replaying its log. -/
def recover (serde : Serde) (fs : FileSystem) (root : FilePath) (db : DatabaseName)
    (branch : BranchName) : Except Fault InMemoryGraphStore := do
  let s ← loadFromSegments serde fs root db branch
  let payloads ← readWal fs root db branch
  let records ← payloads.mapM (WalRecord.fromBytes serde)
  s.replayWal records

variable {serde : Serde} {ws : List Write} {records : List WalRecord}

/-- The log is decoded into what the documents of its records keep. -/
theorem mapM_fromBytes (hdocs : ∀ r ∈ records, serde.RoundTrips r.toJson) :
    (records.map (WalRecord.toBytes serde)).mapM (WalRecord.fromBytes serde) =
      .ok (records.map WalRecord.stored) := by
  rw [List.mapM_map]
  exact mapM_eq_ok fun r hr => WalRecord.fromBytes_toBytes_stored (hdocs r hr)

/-- **Recovery from the flush of a store and a log of calls on it** gives the store after the
calls. -/
theorem recover_of_readWal {s₀ : InMemoryGraphStore} (hs₀ : s₀.Wf) (hstorable : s₀.Storable)
    (hws : ∀ w ∈ ws, w.Storable) (hlog : s₀.logWrites ws = .ok (records, s))
    (hnodes : serde.RoundTrips s₀.nodesJson) (hedges : serde.RoundTrips s₀.edgesJson)
    (hdocs : ∀ r ∈ records, serde.RoundTrips r.toJson)
    (hnodesFile : fs.readFile (nodesPath root db branch) = some (serde.toVec s₀.nodesJson))
    (hedgesFile : fs.readFile (edgesPath root db branch) = some (serde.toVec s₀.edgesJson))
    (hread : readWal fs root db branch = .ok (records.map (WalRecord.toBytes serde))) :
    ∃ t, recover serde fs root db branch = .ok t ∧ t.Wf ∧ SameGraph s t := by
  obtain ⟨t₀, hload, ht₀, hn, he⟩ := loadFromSegments_docs hs₀.toKeyed hs₀.toKeyed hnodesFile
    hedgesFile hnodes hedges
  have hsame : SameGraph s₀ t₀ := hstorable.storedAs_iff.mp ⟨hn, he⟩
  obtain ⟨t, hreplay, ht, hsame'⟩ := replayWal_sameGraph hs₀ ht₀ hsame hws hlog
  refine ⟨t, ?_, ht, hsame'⟩
  rw [recover, hload]
  simp only [bind, Except.bind, hread, mapM_fromBytes hdocs]
  exact hreplay

/-- The two files of a flush are not in a WAL directory. -/
theorem segmentFile_ne_wal (name : String) (rest : FilePath) (file : String) :
    segmentsDir root db branch ++ [file] ≠ walDir root db branch ++ name :: rest := by
  intro h
  simp [segmentsDir, walDir, branchDir] at h

/-- Flushing leaves the WAL directory alone. -/
theorem readFile_flushToSegments_wal (name : String) (rest : FilePath) :
    (flushToSegments serde fs root db branch s).readFile (walDir root db branch ++ name :: rest) =
      fs.readFile (walDir root db branch ++ name :: rest) := by
  have hnodes : walDir root db branch ++ name :: rest ≠ nodesPath root db branch :=
    (segmentFile_ne_wal name rest "nodes.seg").symm
  have hedges : walDir root db branch ++ name :: rest ≠ edgesPath root db branch :=
    (segmentFile_ne_wal name rest "edges.seg").symm
  rw [flushToSegments, flushOps, FileSystem.runOps_append, FileSystem.readFile_runOps_rewriteOps,
    if_neg hedges, FileSystem.readFile_runOps_rewriteOps, if_neg hnodes]

/-- What writers do leaves the files of a flush alone, and so does cutting a segment. -/
theorem readFile_segments_truncate (happ : AppendsIn (walDir root db branch) fs fs')
    (segment : String) (n : ℕ) (file : String) :
    (fs'.truncate (walDir root db branch ++ [segment]) n).readFile
        (segmentsDir root db branch ++ [file]) =
      fs.readFile (segmentsDir root db branch ++ [file]) := by
  rw [FileSystem.readFile_truncate_of_ne n (segmentFile_ne_wal segment [] file), segmentsDir,
    List.append_assoc]
  exact happ.readFile (by decide)

/-- **Recovery after a crash.**  A store is flushed, the calls after it are logged by writers
of any segment sizes, and the segment the last writer has open is cut at a byte that the reader
passes over: recovery gives the graph after the calls whose records are whole, and the store it
gives is well formed.  Past ten segments the listing is out of order. -/
theorem recover_cut {s₀ : InMemoryGraphStore} {before : List Session} {max : ℕ} {ps : List Bytes}
    {fs₀ fs₁ fs₂ fs₃ : FileSystem} {w w' : WalWriter} {n : ℕ}
    (hs₀ : s₀.Wf) (hstorable : s₀.Storable) (hws : ∀ w ∈ ws, w.Storable)
    (hlog : s₀.logWrites ws = .ok (records, s))
    (hnodes : serde.RoundTrips s₀.nodesJson) (hedges : serde.RoundTrips s₀.edgesJson)
    (hdocs : ∀ r ∈ records, serde.RoundTrips r.toJson)
    (hsize : ∀ r ∈ records, (r.toBytes serde).length < 2 ^ 32)
    (hempty : ∀ name rest, fs₀.readFile (walDir root db branch ++ name :: rest) = none)
    (hbefore : runSessions root db branch (flushToSegments serde fs₀ root db branch s₀) before =
      .ok fs₁)
    (hopen : WalWriter.open fs₁ root db branch max = .ok (w, fs₂))
    (hwrite : w.writeAll fs₂ ps = .ok (w', fs₃))
    (hlogged : before.flatMap Session.payloads ++ ps = records.map (WalRecord.toBytes serde))
    (hcount : segmentCount (before ++ [⟨max, ps⟩]) ≤ 10)
    (hcut : leftover (openRecords max ps) n < 4) :
    ∃ k sk t, k + (openRecords max ps).length =
        records.length + (wholeRecords (openRecords max ps) n).length ∧
      s₀.logWrites (ws.take k) = .ok (records.take k, sk) ∧
      recover serde (fs₃.truncate w'.file n) root db branch = .ok t ∧ t.Wf ∧ SameGraph sk t := by
  -- the log of the run, segment by segment
  have hnil : Holds (flushToSegments serde fs₀ root db branch s₀) (walDir root db branch) [] := by
    apply holds_nil
    intro name rest
    rw [readFile_flushToSegments_wal]
    exact hempty name rest
  have hlast : segmentCount [⟨max, ps⟩] = 1 + rotations max 0 ps := by simp [segmentCount]
  rw [segmentCount_append, hlast] at hcount
  obtain ⟨segs, hholds, hlen, hflat⟩ := holds_runSessions hnil (by simp; omega) hbefore
  rw [List.length_nil, Nat.zero_add] at hlen
  rw [List.flatten_nil, List.nil_append] at hflat
  obtain ⟨w₁, fs₄, hopen', hat, hdir, hmax⟩ := open_spec max hholds (by omega)
  rw [hopen] at hopen'
  cases hopen'
  obtain ⟨hat', hdir'⟩ := writeAll_of_ok hat hwrite
  rw [hmax] at hat'
  have hsegments := SegmentLog.length_writeAll max ⟨segs, [], 0⟩ ps
  have hrecords := SegmentLog.flatten_writeAll max ⟨segs, [], 0⟩ ps
  have hcurrent : ((⟨segs, [], 0⟩ : SegmentLog).writeAll max ps).current = openRecords max ps :=
    current_writeAll max ps _ _ rfl rfl
  generalize (⟨segs, [], 0⟩ : SegmentLog).writeAll max ps = log at *
  have hfile := hat'.file
  have hlog' := hat'.holds
  rw [hdir', hdir] at hfile hlog'
  rw [SegmentLog.segments, hcurrent] at hlog' hrecords hsegments
  have hbytes : log.closed.flatten ++ openRecords max ps =
      records.map (WalRecord.toBytes serde) := by
    rw [← hlogged, ← hflat]
    simpa [SegmentLog.segments] using hrecords
  -- what is read of it after the cut
  have hread := hlog'.readWal_truncate (by simp [SegmentLog.segments] at hsegments; omega)
    (by
      rw [hbytes]
      intro p hp
      obtain ⟨r, hr, rfl⟩ := List.mem_map.mp hp
      exact hsize r hr) hcut
  rw [prefix_of_wholeRecords, ← List.take_length_add_append, hbytes, ← List.map_take] at hread
  obtain ⟨sk, hk⟩ := logWrites_take hlog
    (log.closed.flatten.length + (wholeRecords (openRecords max ps) n).length)
  -- the files of the flush are as it left them
  have happ : AppendsIn (walDir root db branch)
      (flushToSegments serde fs₀ root db branch s₀) fs₃ := by
    obtain ⟨-, hw, happ⟩ := appendsIn_open hopen
    obtain ⟨-, -, happ'⟩ := appendsIn_writeAll hw hwrite
    rw [hdir] at happ'
    exact ((appendsIn_runSessions hbefore).trans happ).trans happ'
  obtain ⟨t, ht, hwf, hsame⟩ := recover_of_readWal hs₀ hstorable
    (fun w hw => hws w (List.mem_of_mem_take hw)) hk hnodes hedges
    (fun r hr => hdocs r (List.mem_of_mem_take hr))
    ((readFile_segments_truncate happ _ n "nodes.seg").trans readFile_flushToSegments_nodes)
    ((readFile_segments_truncate happ _ n "edges.seg").trans readFile_flushToSegments_edges) hread
  have hlength := congrArg List.length hbytes
  rw [List.length_append, List.length_map] at hlength
  refine ⟨_, sk, t, ?_, hk, ?_, hwf, hsame⟩
  · omega
  · rw [hfile]
    exact ht

/-- Two calls on the sample graph, the record of the second cut inside its length. -/
theorem recover_cut_sample :
    let db : DatabaseName := ⟨"db", by decide⟩
    let branch : BranchName := ⟨"main", by decide⟩
    let records : List WalRecord := [.addNode 3 ["C"] ∅, .addEdge 2 3 1 "S" ∅]
    let serde := Serde.ofDocs ([sample.nodesJson, sample.edgesJson] ++ records.map WalRecord.toJson)
    let ps := records.map (WalRecord.toBytes serde)
    ∃ w fs₂ w' fs₃,
      WalWriter.open (flushToSegments serde ∅ [] db branch sample) [] db branch 1024 =
        .ok (w, fs₂) ∧ w.writeAll fs₂ ps = .ok (w', fs₃) ∧
      ∃ k sk t, k + (openRecords 1024 ps).length =
          records.length + (wholeRecords (openRecords 1024 ps) 62).length ∧
        sample.logWrites ([.node ["C"] ∅, .edge 3 1 "S" ∅].take k) = .ok (records.take k, sk) ∧
        recover serde (fs₃.truncate w'.file 62) [] db branch = .ok t ∧ t.Wf ∧ SameGraph sk t := by
  intro db branch records serde ps
  have hws : ∀ w ∈ [Write.node ["C"] ∅, .edge 3 1 "S" ∅], w.Storable := by
    simp only [List.forall_mem_cons, Write.Storable, List.not_mem_nil]
    exact ⟨storable_empty, storable_empty, by simp⟩
  have hrun : new.applyWrites sampleWrites = .ok sample := rfl
  have hwf : sample.Wf := (Reachable.new.applyWrites hrun).wf
  have hstorable : sample.Storable := storable_new.applyWrites sampleWrites_storable hrun
  have hcut {w w' : WalWriter} {fs₂ fs₃ : FileSystem}
      (hopen : WalWriter.open (flushToSegments serde ∅ [] db branch sample) [] db branch 1024 =
        .ok (w, fs₂)) (hwrite : w.writeAll fs₂ ps = .ok (w', fs₃)) :=
    have hbefore : runSessions [] db branch (flushToSegments serde ∅ [] db branch sample) [] =
      .ok (flushToSegments serde ∅ [] db branch sample) := rfl
    recover_cut (n := 62) hwf hstorable hws rfl
      (by unfold Serde.RoundTrips; decide +kernel) (by unfold Serde.RoundTrips; decide +kernel)
      (by unfold Serde.RoundTrips; decide +kernel) (by decide +kernel) (fun _ _ => rfl) hbefore
      hopen hwrite rfl (by decide +kernel) (by decide +kernel)
  exact ⟨_, _, _, _, rfl, rfl, hcut rfl rfl⟩

end InMemoryGraphStore

end KuzuEventBus
