import KuzuEventBus.Storage.Publishing

/-!
# The two backends

The file backend of `Engine::open` and the composite backend of
`Engine::open_fs_composite` on the same calls.  `commit_tx` of the composite backend
publishes the tail of the WAL; that of the file backend publishes the tail the last
version had, and so no version of the file backend ever has one.

## Main definitions

* `manifestsOf` — the manifests of a branch.
* `SameRoots`, `BackendsAgree` — the same manifests and records, after every step.
* `Bare` — no version has segments or a tail.

## Main results

* `bare_run_storageBackend` — the versions of the file backend are bare.
* `run_eq_run_of_bare` — without commits, both backends do the same.
* `backendsAgree_iff` — **the backends agree exactly on the runs without commits.**
-/

namespace KuzuEventBus

/-- The manifests of a branch, in the order they are listed. -/
def manifestsOf (codec : ManifestCodec) (fs : FileSystem) (root : FilePath) (db : DatabaseName)
    (b : BranchName) : Except Fault (List Manifest) :=
  (listManifestPaths fs root db b).mapM (readManifest codec fs)

/-- Two roots hold the same manifests and the same WAL records of every branch. -/
def SameRoots (codec : ManifestCodec) (root : FilePath) (fs fs' : FileSystem) : Prop :=
  ∀ db b, manifestsOf codec fs root db b = manifestsOf codec fs' root db b ∧
    readWal fs root db b = readWal fs' root db b

/-- After every step of a run from the empty root, the two backends hold the same. -/
def BackendsAgree (codec : ManifestCodec) (root : FilePath) (calls : List TimedCall) : Prop :=
  ∀ before after fs fs', calls = before ++ after →
    (FsBackend.storageBackend codec).run root ∅ before = .ok fs →
      (openFsComposite codec).run root ∅ before = .ok fs' → SameRoots codec root fs fs'

variable {codec : ManifestCodec} {root : FilePath} {fs fs' : FileSystem} {db : DatabaseName}
  {b : BranchName} {m : Manifest} {clock : Clock} {calls : List TimedCall}

/-- The manifests of a branch are its versions. -/
theorem Versioned.manifestsOf (hcodec : codec.Lawful) (h : Versioned codec root fs) :
    ∃ ms, manifestsOf codec fs root db b = .ok ms ∧
      ∀ m, m ∈ ms ↔ ∃ ts, ts < 2 ^ 64 ∧ manifestAt codec root fs db b ts = some m := by
  have hread : ∀ path ∈ listManifestPaths fs root db b, ∃ m,
      KuzuEventBus.readManifest codec fs path = .ok m := by
    intro path hpath
    obtain ⟨name, hname, rfl⟩ := List.mem_map.mp hpath
    obtain ⟨ts, m, -, -, -, hm⟩ := h.readManifest hcodec hname
    exact ⟨m, hm⟩
  obtain ⟨ms, hms⟩ := exists_mapM_eq_ok hread
  refine ⟨ms, hms, fun m => ?_⟩
  rw [mem_of_mapM_eq_ok hms]
  constructor
  · rintro ⟨path, hpath, hm⟩
    obtain ⟨name, hname, rfl⟩ := List.mem_map.mp hpath
    obtain ⟨ts, m', hts, -, hat, hm'⟩ := h.readManifest hcodec hname
    rw [hm] at hm'
    cases hm'
    exact ⟨ts, hts, hat⟩
  · rintro ⟨ts, hts, hat⟩
    have hfile := (h.manifestAt_eq_some hcodec hat hts).1
    refine ⟨manifestPath root db b ts, List.mem_map_of_mem (h.mem_listManifestNames.mpr
      ⟨ts, hts, rfl, by rw [hfile]; rfl⟩), ?_⟩
    rw [KuzuEventBus.readManifest, hfile]
    simp only [hcodec m]

/-! ### Bare versions -/

/-- No version has segments or a tail. -/
def Bare (codec : ManifestCodec) (root : FilePath) (fs : FileSystem) : Prop :=
  ∀ ⦃db b ts m⦄, ts < 2 ^ 64 → manifestAt codec root fs db b ts = some m →
    m.segments = [] ∧ m.walTail = none

theorem bare_empty : Bare codec root ∅ := by
  intro db b ts m _ h
  cases h

theorem Publishes.bare (hcodec : codec.Lawful) (hpub : Publishes codec root db b clock m fs fs')
    (hm : m.segments = [] ∧ m.walTail = none) (h : Bare codec root fs) : Bare codec root fs' := by
  intro db' b' ts m' hts hat
  by_cases heq : (db', b', ts) = (db, b, clock.nowMs)
  · cases heq
    rw [hpub.manifestAt_self hcodec] at hat
    cases hat
    exact hm
  · rw [hpub.manifestAt_of_ne hts heq] at hat
    exact h hts hat

/-- A copy of a bare version is bare. -/
theorem Bare.branchManifest (h : Bare codec root fs) {base : Option Manifest}
    (newBranch : BranchName) (nowMs : Timestamp)
    (hbase : ∀ m ∈ base, ∃ ts, ts < 2 ^ 64 ∧ manifestAt codec root fs db b ts = some m) :
    FsBackend.branchManifest newBranch nowMs base = ⟨newBranch.asStr, nowMs, [], none⟩ := by
  cases base with
  | none => rfl
  | some m =>
    obtain ⟨ts, hts, hat⟩ := hbase m rfl
    obtain ⟨hsegments, htail⟩ := h hts hat
    rw [FsBackend.branchManifest, Option.map_some, Option.getD_some, Option.bind_some, hsegments,
      htail]

/-- So it is on the composite backend. -/
theorem Bare.nextMeta (h : Bare codec root fs) {base : Option Manifest} (newBranch : BranchName)
    (nowMs : Timestamp)
    (hbase : ∀ m ∈ base, ∃ ts, ts < 2 ^ 64 ∧ manifestAt codec root fs db b ts = some m) :
    FsBackend.fromMeta (CompositeBackend.nextMeta newBranch nowMs (base.map FsBackend.toMeta)
      ((base.map FsBackend.toMeta).bind ManifestMeta.walTail)) =
        ⟨newBranch.asStr, nowMs, [], none⟩ := by
  cases base with
  | none => rfl
  | some m =>
    obtain ⟨ts, hts, hat⟩ := hbase m rfl
    obtain ⟨hsegments, htail⟩ := h hts hat
    simp only [FsBackend.fromMeta, CompositeBackend.nextMeta, FsBackend.toMeta, Option.map_some,
      Option.getD_some, Option.bind_some, hsegments, htail, List.map_nil, Option.map_none]

/-- **A step of the file backend publishes a bare version.** -/
theorem bare_step_storageBackend (hcodec : codec.Lawful) (hversioned : Versioned codec root fs)
    (hbare : Bare codec root fs) {c : TimedCall}
    (hstep : (FsBackend.storageBackend codec).step root fs c = .ok fs') : Bare codec root fs' := by
  obtain ⟨db, call, clock⟩ := c
  cases call with
  | createBranch source newBranch at' =>
    obtain ⟨base, hbase, hpub⟩ := FsBackend.createBranch_publishes hstep
    obtain ⟨o, ho, hat⟩ := hversioned.baseManifest hcodec at'
    obtain rfl : o = base := Except.ok.inj (ho.symm.trans hbase)
    rw [hbare.branchManifest newBranch clock.nowMs hat] at hpub
    exact hpub.bare hcodec ⟨rfl, rfl⟩ hbare
  | snapshot branch =>
    obtain ⟨⟨ts, fs₁⟩, hsnapshot, rfl⟩ := map_eq_ok hstep
    obtain ⟨-, base, hbase, hpub⟩ := FsBackend.snapshot_publishes hsnapshot
    obtain ⟨o, ho, hat⟩ := hversioned.latestManifest hcodec
    obtain rfl : o = base := Except.ok.inj (ho.symm.trans hbase)
    rw [hbare.branchManifest branch clock.nowMs hat] at hpub
    exact hpub.bare hcodec ⟨rfl, rfl⟩ hbare
  | commitTx branch records =>
    obtain ⟨⟨ts, fs₁⟩, hcommit, rfl⟩ := map_eq_ok hstep
    obtain ⟨-, w, fs₂, base, hwrite, hbase, hpub⟩ := FsBackend.commitTx_publishes hcommit
    have happ := (appendsIn_writeRecords hwrite).2.2
    obtain ⟨o, ho, hat⟩ := (happ.versioned hversioned).latestManifest hcodec
    obtain rfl : o = base := Except.ok.inj (ho.symm.trans hbase)
    -- the WAL segments written in between are no versions
    have hbare₂ : Bare codec root fs₂ := by
      intro db' b' ts m hts hm
      rw [happ.manifestAt hts] at hm
      exact hbare hts hm
    rw [hbare₂.branchManifest branch clock.nowMs hat] at hpub
    exact hpub.bare hcodec ⟨rfl, rfl⟩ hbare

theorem bare_run_storageBackend (hcodec : codec.Lawful)
    (hrun : (FsBackend.storageBackend codec).run root ∅ calls = .ok fs) :
    Versioned codec root fs ∧ Bare codec root fs := by
  refine StorageBackend.run_induction (P := fun fs => Versioned codec root fs ∧ Bare codec root fs)
    (fun c _ fs₁ fs₂ h hstep => ?_) ⟨versioned_empty, bare_empty⟩ hrun
  obtain ⟨m, hpub⟩ := storageBackend_publishing hstep
  exact ⟨hpub.versioned h.1, bare_step_storageBackend hcodec h.1 h.2 hstep⟩

/-! ### The same runs -/

/-- A call other than `commit_tx`. -/
def PublishCall.isCommit : PublishCall → Bool
  | .commitTx _ _ => true
  | _ => false

/-- On bare versions, every call but `commit_tx` does the same on both backends. -/
theorem step_eq_step_of_bare (hcodec : codec.Lawful) (hversioned : Versioned codec root fs)
    (hbare : Bare codec root fs) {c : TimedCall} (hc : c.call.isCommit = false) :
    (FsBackend.storageBackend codec).step root fs c = (openFsComposite codec).step root fs c := by
  obtain ⟨db, call, clock⟩ := c
  cases call with
  | createBranch source newBranch at' => rfl
  | commitTx branch records => cases hc
  | snapshot branch =>
    obtain ⟨o, ho, hat⟩ : ∃ o, latestManifest codec fs root db branch = .ok o ∧
        ∀ m ∈ o, ∃ ts, ts < 2 ^ 64 ∧ manifestAt codec root fs db branch ts = some m :=
      hversioned.latestManifest hcodec
    have hfs : FsBackend.snapshot codec fs root db branch clock = .ok (clock.nowMs,
        writeManifest codec fs root db branch ⟨branch.asStr, clock.nowMs, [], none⟩
          clock.tmpTs) := by
      rw [FsBackend.snapshot, ho, ← hbare.branchManifest branch clock.nowMs hat]
      rfl
    have hcomposite : (openFsComposite codec).snapshot fs root db branch clock =
        .ok (clock.nowMs, writeManifest codec fs root db branch
          ⟨branch.asStr, clock.nowMs, [], none⟩ clock.tmpTs) := by
      have hprev : FsBackend.latestManifestMeta codec fs root db branch =
          .ok (o.map FsBackend.toMeta) := by
        rw [FsBackend.latestManifestMeta, ho]
        rfl
      rw [← hbare.nextMeta branch clock.nowMs hat]
      change FsBackend.latestManifestMeta codec fs root db branch >>= _ = _
      rw [hprev]
      rfl
    change (FsBackend.snapshot codec fs root db branch clock).map Prod.snd =
      ((openFsComposite codec).snapshot fs root db branch clock).map Prod.snd
    rw [hfs, hcomposite]

/-- **Without commits, both backends do the same.** -/
theorem run_eq_run_of_bare (hcodec : codec.Lawful)
    (hcalls : ∀ c ∈ calls, c.call.isCommit = false) :
    ∀ {fs : FileSystem}, Versioned codec root fs → Bare codec root fs →
      (FsBackend.storageBackend codec).run root fs calls =
        (openFsComposite codec).run root fs calls := by
  induction calls with
  | nil => intro fs _ _; rfl
  | cons c calls ih =>
    intro fs hversioned hbare
    have hc : c.call.isCommit = false := hcalls c List.mem_cons_self
    rw [StorageBackend.run_cons, StorageBackend.run_cons,
      ← step_eq_step_of_bare hcodec hversioned hbare hc]
    cases hstep : (FsBackend.storageBackend codec).step root fs c with
    | error e => rfl
    | ok fs₁ =>
      obtain ⟨m, hpub⟩ := storageBackend_publishing hstep
      exact ih (fun c' hc' => hcalls c' (List.mem_cons_of_mem c hc')) (hpub.versioned hversioned)
        (bare_step_storageBackend hcodec hversioned hbare hstep)

/-! ### A commit -/

/-- After a commit on the composite backend, its version has a tail. -/
theorem walTail_after_commit (hcodec : codec.Lawful) {records : List Bytes}
    (hstep : (openFsComposite codec).step root fs ⟨db, .commitTx b records, clock⟩ = .ok fs') :
    ∃ m, manifestAt codec root fs' db b clock.nowMs = some m ∧ m.walTail ≠ none := by
  obtain ⟨⟨ts, fs₁⟩, hcommit, rfl⟩ := map_eq_ok hstep
  obtain ⟨-, w, fs₂, base, hwrite, -, rfl⟩ := composite_commitTx_publishes hcommit
  exact ⟨_, (publishes_of_writeRecords hwrite rfl rfl).manifestAt_self hcodec, nofun⟩

/-- A root with bare versions only is not the same as one that has a version with a tail. -/
theorem not_sameRoots (hcodec : codec.Lawful) (hversioned : Versioned codec root fs)
    (hbare : Bare codec root fs) (hversioned' : Versioned codec root fs') {ts : Timestamp}
    (hts : ts < 2 ^ 64) (hat : manifestAt codec root fs' db b ts = some m)
    (htail : m.walTail ≠ none) : ¬ SameRoots codec root fs fs' := by
  intro hsame
  obtain ⟨ms, hms, hmem⟩ : ∃ ms, manifestsOf codec fs root db b = .ok ms ∧
      ∀ m, m ∈ ms ↔ ∃ ts, ts < 2 ^ 64 ∧ manifestAt codec root fs db b ts = some m :=
    hversioned.manifestsOf hcodec
  obtain ⟨ms', hms', hmem'⟩ : ∃ ms, manifestsOf codec fs' root db b = .ok ms ∧
      ∀ m, m ∈ ms ↔ ∃ ts, ts < 2 ^ 64 ∧ manifestAt codec root fs' db b ts = some m :=
    hversioned'.manifestsOf hcodec
  obtain rfl : ms = ms' := Except.ok.inj (hms.symm.trans ((hsame db b).1.trans hms'))
  obtain ⟨ts', hts', hat'⟩ := (hmem m).mp ((hmem' m).mpr ⟨ts, hts, hat⟩)
  exact htail (hbare hts' hat').2

/-- **The backends agree exactly on the runs without commits.** -/
theorem backendsAgree_iff (hcodec : codec.Lawful)
    (hfs : (FsBackend.storageBackend codec).run root ∅ calls = .ok fs)
    (hcomposite : (openFsComposite codec).run root ∅ calls = .ok fs') :
    BackendsAgree codec root calls ↔ ∀ c ∈ calls, c.call.isCommit = false := by
  constructor
  · intro hagree c hc
    obtain ⟨before, after, hcalls⟩ := List.append_of_mem hc
    cases hcall : c.call with
    | createBranch source newBranch at' => rfl
    | snapshot branch => rfl
    | commitTx branch records =>
      exfalso
      rw [List.append_cons] at hcalls
      rw [hcalls, StorageBackend.run_append] at hfs hcomposite
      obtain ⟨fs₁, hfs₁, -⟩ := bind_eq_ok hfs
      obtain ⟨fs₂, hfs₂, -⟩ := bind_eq_ok hcomposite
      have hsame := hagree _ _ fs₁ fs₂ hcalls hfs₁ hfs₂
      have hversioned₂ : Versioned codec root fs₂ :=
        run_versioned openFsComposite_publishing versioned_empty hfs₂
      rw [StorageBackend.run_append] at hfs₂
      obtain ⟨fs₃, -, hrest⟩ := bind_eq_ok hfs₂
      rw [StorageBackend.run_cons] at hrest
      obtain ⟨fs₄, hstep, hnil⟩ := bind_eq_ok hrest
      cases hnil
      have hc' : c = ⟨c.db, .commitTx branch records, c.clock⟩ := by rw [← hcall]
      rw [hc'] at hstep
      obtain ⟨m, hat, htail⟩ := walTail_after_commit hcodec hstep
      obtain ⟨hversioned₁, hbare₁⟩ := bare_run_storageBackend hcodec hfs₁
      exact not_sameRoots hcodec hversioned₁ hbare₁ hversioned₂ c.clock.nowMs_lt hat htail hsame
  · intro hcalls before after fs₁ fs₂ heq hfs₁ hfs₂
    have hbefore : ∀ c ∈ before, c.call.isCommit = false :=
      fun c hc => hcalls c (heq ▸ List.mem_append_left _ hc)
    rw [run_eq_run_of_bare hcodec hbefore versioned_empty bare_empty, hfs₂] at hfs₁
    cases hfs₁
    exact fun db b => ⟨rfl, rfl⟩

/-- A snapshot and a branch of it. -/
theorem backendsAgree_snapshot_createBranch :
    BackendsAgree testCodec [] [⟨testDb, .snapshot mainBranch, ⟨1, by decide, 1⟩⟩,
      ⟨testDb, .createBranch mainBranch devBranch none, ⟨2, by decide, 2⟩⟩] := by
  have hfs : ((FsBackend.storageBackend testCodec).run [] ∅
      [⟨testDb, .snapshot mainBranch, ⟨1, by decide, 1⟩⟩,
        ⟨testDb, .createBranch mainBranch devBranch none, ⟨2, by decide, 2⟩⟩]).isOk = true := by
    decide +kernel
  have hcomposite : ((openFsComposite testCodec).run [] ∅
      [⟨testDb, .snapshot mainBranch, ⟨1, by decide, 1⟩⟩,
        ⟨testDb, .createBranch mainBranch devBranch none, ⟨2, by decide, 2⟩⟩]).isOk = true := by
    decide +kernel
  exact (backendsAgree_iff testCodec_lawful (exists_ok hfs).choose_spec
    (exists_ok hcomposite).choose_spec).mpr (by decide)

/-- One commit: only the composite backend publishes a tail. -/
theorem not_backendsAgree_commit :
    let commit : TimedCall := ⟨testDb, .commitTx mainBranch [[1]], ⟨1, by decide, 1⟩⟩
    let manifests (backend : StorageBackend FileSystem) : Except Fault (List Manifest) := do
      let fs ← backend.run [] ∅ [commit]
      manifestsOf testCodec fs [] testDb mainBranch
    ¬ BackendsAgree testCodec [] [commit] ∧
      manifests (FsBackend.storageBackend testCodec) = .ok [⟨"main", 1, [], none⟩] ∧
      manifests (openFsComposite testCodec) = .ok [⟨"main", 1, [], some ⟨0, 0⟩⟩] := by
  intro commit manifests
  have hfs : manifests (FsBackend.storageBackend testCodec) = .ok [⟨"main", 1, [], none⟩] := by
    decide +kernel
  have hcomposite : manifests (openFsComposite testCodec) =
      .ok [⟨"main", 1, [], some ⟨0, 0⟩⟩] := by decide +kernel
  refine ⟨fun hagree => ?_, hfs, hcomposite⟩
  obtain ⟨fs, hrun, hms⟩ := bind_eq_ok hfs
  obtain ⟨fs', hrun', hms'⟩ := bind_eq_ok hcomposite
  have hsame := (hagree [commit] [] fs fs' rfl hrun hrun' testDb mainBranch).1
  rw [hms, hms'] at hsame
  exact absurd hsame (by decide)

end KuzuEventBus
