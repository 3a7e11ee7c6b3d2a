import KuzuEventBus.Storage.Versions
import Mathlib.Logic.Encodable.Basic
import Mathlib.Logic.Equiv.List

/-!
# What each call publishes

Each call of the file backend and of the composite backend over its ports, taken
apart: the version it starts from, the WAL segments it writes, the manifest it
publishes.  Versions are told apart by their timestamps, so a version stays as it
was published as long as no two calls for a branch read the same millisecond.

## Main definitions

* `ManifestCodec.listed` — text for given manifests, a code for the others.
* `TimedCall.version` — the version a call publishes.
* `Immutable` — all versions of a run stay readable as they were published.

## Main results

* `createBranch_publishes`, `FsBackend.snapshot_publishes`, `FsBackend.commitTx_publishes`,
  `composite_snapshot_publishes`, `composite_commitTx_publishes` — what each call publishes.
* `run_versioned`, `run_manifestAt_isSome` — the versions after a run.
* `immutable_iff` — **versions are immutable exactly when no two calls for a branch read the same
  millisecond.**
-/

namespace KuzuEventBus

variable {codec : ManifestCodec} {root : FilePath} {fs fs' : FileSystem} {db : DatabaseName}
  {b : BranchName} {ts : Timestamp} {clock : Clock} {records : List Bytes}

/-! ### The calls of the file backend -/

namespace FsBackend

theorem publishes_branchManifest (base : Option Manifest) :
    Publishes codec root db b clock (branchManifest b clock.nowMs base) fs
      (writeManifest codec fs root db b (branchManifest b clock.nowMs base) clock.tmpTs) :=
  ⟨rfl, rfl, fs, .refl _ _, rfl⟩

/-- `create_branch` publishes a copy of the version it starts from. -/
theorem createBranch_publishes {source newBranch : BranchName} {at' : Option Timestamp}
    (h : createBranch codec fs root db source newBranch at' clock.nowMs clock.tmpTs = .ok fs') :
    ∃ base, baseManifest codec fs root db source at' = .ok base ∧
      Publishes codec root db newBranch clock (branchManifest newBranch clock.nowMs base)
        fs fs' := by
  obtain ⟨base, hbase, hwrite⟩ := bind_eq_ok h
  cases hwrite
  exact ⟨base, hbase, publishes_branchManifest base⟩

/-- `snapshot` publishes a copy of the latest version. -/
theorem snapshot_publishes (h : snapshot codec fs root db b clock = .ok (ts, fs')) :
    ts = clock.nowMs ∧ ∃ base, latestManifest codec fs root db b = .ok base ∧
      Publishes codec root db b clock (branchManifest b clock.nowMs base) fs fs' := by
  obtain ⟨base, hbase, hwrite⟩ := bind_eq_ok h
  cases hwrite
  exact ⟨rfl, base, hbase, publishes_branchManifest base⟩

/-- `commit_tx` writes the records, and publishes a copy of the latest version. -/
theorem commitTx_publishes (h : commitTx codec fs root db b records clock = .ok (ts, fs')) :
    ts = clock.nowMs ∧ ∃ w fs₁ base, writeRecords fs root db b records = .ok (w, fs₁) ∧
      latestManifest codec fs₁ root db b = .ok base ∧
      Publishes codec root db b clock (branchManifest b clock.nowMs base) fs fs' := by
  obtain ⟨⟨w, fs₁⟩, hrecords, hsnapshot⟩ := bind_eq_ok h
  obtain ⟨hts, base, hbase, hpub⟩ := snapshot_publishes hsnapshot
  obtain ⟨hbranch, hversion, fs₂, happ, hwrite⟩ := hpub
  exact ⟨hts, w, fs₁, base, hrecords, hbase, hbranch, hversion, fs₂,
    (appendsIn_writeRecords hrecords).2.2.trans happ, hwrite⟩

end FsBackend

/-! ### The calls of the composite backend -/

open FsBackend in
/-- `snapshot` of the composite backend publishes a copy of the latest version, without the
ranges of its segments. -/
theorem composite_snapshot_publishes
    (h : (openFsComposite codec).snapshot fs root db b clock = .ok (ts, fs')) :
    ts = clock.nowMs ∧ ∃ base, latestManifest codec fs root db b = .ok base ∧
      Publishes codec root db b clock (fromMeta (CompositeBackend.nextMeta b clock.nowMs
        (base.map toMeta) ((base.map toMeta).bind ManifestMeta.walTail))) fs fs' := by
  obtain ⟨prev, hprev, hwrite⟩ := bind_eq_ok h
  obtain ⟨base, hbase, rfl⟩ := map_eq_ok hprev
  cases hwrite
  exact ⟨rfl, base, hbase, rfl, rfl, fs, .refl _ _, rfl⟩

open FsBackend in
/-- `commit_tx` of the composite backend writes the records, and publishes the latest version
with the tail it finds. -/
theorem composite_commitTx_publishes
    (h : (openFsComposite codec).commitTx fs root db b records clock = .ok (ts, fs')) :
    ts = clock.nowMs ∧ ∃ w fs₁ base, writeRecords fs root db b records = .ok (w, fs₁) ∧
      latestManifest codec fs₁ root db b = .ok base ∧
      fs' = writeManifest codec fs₁ root db b (fromMeta (CompositeBackend.nextMeta b clock.nowMs
        (base.map toMeta) (some (lastListed fs₁ root db b)))) clock.tmpTs := by
  obtain ⟨⟨tail, fs₁⟩, happend, hrest⟩ := bind_eq_ok h
  obtain ⟨⟨tail', fs₂⟩, hrecords, htail⟩ := map_eq_ok happend
  cases htail
  obtain ⟨⟨w, fs₃⟩, hwrite, hlast⟩ := bind_eq_ok hrecords
  cases hlast
  obtain ⟨prev, hprev, hrest⟩ := bind_eq_ok hrest
  obtain ⟨base, hbase, rfl⟩ := map_eq_ok hprev
  cases hrest
  exact ⟨rfl, w, _, base, hwrite, hbase, rfl⟩

/-- A manifest written after the records of a call is published by it. -/
theorem publishes_of_writeRecords {w : WalWriter} {fs₁ : FileSystem} {m : Manifest}
    (hwrite : FsBackend.writeRecords fs root db b records = .ok (w, fs₁))
    (hbranch : m.branch = b.asStr) (hversion : m.versionTs = clock.nowMs) :
    Publishes codec root db b clock m fs (writeManifest codec fs₁ root db b m clock.tmpTs) :=
  ⟨hbranch, hversion, fs₁, (appendsIn_writeRecords hwrite).2.2, rfl⟩

/-! ### A lawful codec -/

/-- The text of a manifest, as bytes. -/
def Manifest.textBytes (m : Manifest) : Bytes :=
  (m.toJson.prettyText 0).flatMap String.utf8EncodeChar

/-- What a segment or a manifest holds, as numbers. -/
abbrev ManifestCode := List ℕ × ℕ × List (List ℕ × Option (ℕ × ℕ)) × Option (ℕ × ℕ)

def Manifest.code (m : Manifest) : ManifestCode :=
  (m.branch.toList.map Char.toNat, m.versionTs,
    m.segments.map fun s => (s.id.toList.map Char.toNat, s.range.map fun r => (r.txMin, r.txMax)),
    m.walTail.map fun w => (w.epoch, w.seq))

def Manifest.ofCode (code : ManifestCode) : Manifest where
  branch := String.ofList (code.1.map Char.ofNat)
  versionTs := code.2.1
  segments := code.2.2.1.map fun s =>
    ⟨String.ofList (s.1.map Char.ofNat), s.2.map fun r => ⟨r.1, r.2⟩⟩
  walTail := code.2.2.2.map fun w => ⟨w.1, w.2⟩

theorem ofList_map_ofNat_toNat (s : String) :
    String.ofList ((s.toList.map Char.toNat).map Char.ofNat) = s := by
  have hid : Char.ofNat ∘ Char.toNat = id := funext Char.ofNat_toNat
  rw [List.map_map, hid, List.map_id, String.ofList_toList]

@[simp] theorem Manifest.ofCode_code (m : Manifest) : Manifest.ofCode m.code = m := by
  have hsegment (s : SegmentRef) : (⟨String.ofList ((s.id.toList.map Char.toNat).map Char.ofNat),
      (s.range.map fun r => (r.txMin, r.txMax)).map fun r => ⟨r.1, r.2⟩⟩ : SegmentRef) = s := by
    rw [ofList_map_ofNat_toNat, Option.map_map]
    cases s with
    | mk id range => cases range <;> rfl
  have hsegments : (m.code.2.2.1.map fun s => (⟨String.ofList (s.1.map Char.ofNat),
      s.2.map fun r => ⟨r.1, r.2⟩⟩ : SegmentRef)) = m.segments := by
    rw [Manifest.code, List.map_map]
    exact (List.map_congr_left fun s _ => hsegment s).trans (List.map_id' m.segments)
  have htail : (m.code.2.2.2.map fun w => (⟨w.1, w.2⟩ : WalTail)) = m.walTail := by
    rw [Manifest.code, Option.map_map]
    cases m.walTail <;> rfl
  have hbranch : String.ofList (m.code.1.map Char.ofNat) = m.branch :=
    ofList_map_ofNat_toNat m.branch
  rw [Manifest.ofCode, hsegments, htail, hbranch]
  rfl

/-- The given manifests as their text, and any other as a code that is not the text of one. -/
def ManifestCodec.listed (ms : List Manifest) : ManifestCodec where
  toVecPretty m := if m ∈ ms then m.textBytes else List.replicate (Encodable.encode m.code) 0
  fromSlice bs :=
    match ms.find? fun m => m.textBytes == bs with
    | some m => some m
    | none => (Encodable.decode bs.length).map Manifest.ofCode

theorem Manifest.textBytes_head? (m : Manifest) : m.textBytes.head? = some 0x7b := rfl

/-- Manifests with different texts read back, and so does everything else. -/
theorem ManifestCodec.listed_lawful {ms : List Manifest}
    (h : ∀ m ∈ ms, ms.find? (fun m' => m'.textBytes == m.textBytes) = some m) :
    (ManifestCodec.listed ms).Lawful := by
  intro m
  by_cases hm : m ∈ ms
  · simp only [ManifestCodec.listed, if_pos hm, h m hm]
  · have hnone : ms.find? (fun m' =>
        m'.textBytes == List.replicate (Encodable.encode m.code) 0) = none := by
      rw [List.find?_eq_none]
      intro m' _ heq
      -- a text begins with a brace, a code with a zero, if at all
      have hhead := congrArg List.head? (eq_of_beq heq)
      rw [m'.textBytes_head?, List.head?_replicate] at hhead
      split at hhead <;> cases hhead
    simp only [ManifestCodec.listed, if_neg hm, hnone, List.length_replicate, Encodable.encodek,
      Option.map_some, Manifest.ofCode_code]

theorem validateIdentifier_db : validateIdentifier "db" = .ok () := by decide

theorem validateIdentifier_main : validateIdentifier "main" = .ok () := by decide

theorem validateIdentifier_dev : validateIdentifier "dev" = .ok () := by decide

/-- A database, and branches of it. -/
def testDb : DatabaseName := ⟨"db", validateIdentifier_db⟩

def mainBranch : BranchName := ⟨"main", validateIdentifier_main⟩

def devBranch : BranchName := ⟨"dev", validateIdentifier_dev⟩

/-- The versions the first two milliseconds may see, with a tail and without. -/
def testCodec : ManifestCodec :=
  .listed [⟨"main", 1, [], none⟩, ⟨"main", 1, [], some ⟨0, 0⟩⟩, ⟨"main", 2, [], some ⟨0, 1⟩⟩,
    ⟨"dev", 2, [], none⟩, ⟨"dev", 2, [], some ⟨0, 0⟩⟩]

theorem testCodec_lawful : testCodec.Lawful := ManifestCodec.listed_lawful (by decide +kernel)

/-! ### Steps and runs -/

/-- The version a call publishes. -/
def TimedCall.version (c : TimedCall) : DatabaseName × BranchName × Timestamp :=
  (c.db, c.call.target, c.clock.nowMs)

/-- Every step that returns publishes a version. -/
def StorageBackend.Publishing (codec : ManifestCodec) (root : FilePath)
    (backend : StorageBackend FileSystem) : Prop :=
  ∀ ⦃c fs fs'⦄, backend.step root fs c = .ok fs' →
    ∃ m, Publishes codec root c.db c.call.target c.clock m fs fs'

open FsBackend in
theorem storageBackend_publishing : (storageBackend codec).Publishing codec root := by
  rintro ⟨db, call, clock⟩ fs fs' h
  cases call with
  | createBranch source newBranch at' =>
    obtain ⟨base, -, hpub⟩ := createBranch_publishes h
    exact ⟨_, hpub⟩
  | snapshot branch =>
    obtain ⟨⟨ts, fs₁⟩, hsnapshot, rfl⟩ := map_eq_ok h
    obtain ⟨-, base, -, hpub⟩ := snapshot_publishes hsnapshot
    exact ⟨_, hpub⟩
  | commitTx branch records =>
    obtain ⟨⟨ts, fs₁⟩, hcommit, rfl⟩ := map_eq_ok h
    obtain ⟨-, w, fs₂, base, -, -, hpub⟩ := commitTx_publishes hcommit
    exact ⟨_, hpub⟩

theorem openFsComposite_publishing : (openFsComposite codec).Publishing codec root := by
  rintro ⟨db, call, clock⟩ fs fs' h
  cases call with
  | createBranch source newBranch at' =>
    obtain ⟨base, -, hpub⟩ := FsBackend.createBranch_publishes h
    exact ⟨_, hpub⟩
  | snapshot branch =>
    obtain ⟨⟨ts, fs₁⟩, hsnapshot, rfl⟩ := map_eq_ok h
    obtain ⟨-, base, -, hpub⟩ := composite_snapshot_publishes hsnapshot
    exact ⟨_, hpub⟩
  | commitTx branch records =>
    obtain ⟨⟨ts, fs₁⟩, hcommit, rfl⟩ := map_eq_ok h
    obtain ⟨-, w, fs₂, base, hwrite, -, rfl⟩ := composite_commitTx_publishes hcommit
    exact ⟨_, publishes_of_writeRecords hwrite rfl rfl⟩

section
variable {backend : StorageBackend FileSystem} {calls : List TimedCall}
  (hb : backend.Publishing codec root)
include hb

theorem run_versioned (h : Versioned codec root fs) (hrun : backend.run root fs calls = .ok fs') :
    Versioned codec root fs' := by
  refine StorageBackend.run_induction (fun c _ fs₁ fs₂ hfs hstep => ?_) h hrun
  obtain ⟨m, hpub⟩ := hb hstep
  exact hpub.versioned hfs

/-- A run leaves the versions it does not publish alone. -/
theorem run_manifestAt_of_notMem (hts : ts < 2 ^ 64)
    (hnot : (db, b, ts) ∉ calls.map TimedCall.version)
    (hrun : backend.run root fs calls = .ok fs') :
    manifestAt codec root fs' db b ts = manifestAt codec root fs db b ts := by
  refine StorageBackend.run_induction
    (P := fun fs₁ => manifestAt codec root fs₁ db b ts = manifestAt codec root fs db b ts)
    (fun c hc fs₁ fs₂ hold hstep => ?_) rfl hrun
  obtain ⟨m, hpub⟩ := hb hstep
  have hne : (db, b, ts) ≠ c.version := by
    intro heq
    exact hnot (heq ▸ List.mem_map_of_mem hc)
  rw [hpub.manifestAt_of_ne hts hne, hold]

/-- After a run there are the versions that were there before, and those it publishes. -/
theorem run_manifestAt_isSome (hcodec : codec.Lawful) (hts : ts < 2 ^ 64) :
    ∀ {fs : FileSystem}, backend.run root fs calls = .ok fs' →
      ((manifestAt codec root fs' db b ts).isSome ↔
        (manifestAt codec root fs db b ts).isSome ∨
          (db, b, ts) ∈ calls.map TimedCall.version) := by
  induction calls with
  | nil =>
    intro fs hrun
    cases hrun
    simp
  | cons c calls ih =>
    intro fs hrun
    rw [StorageBackend.run_cons] at hrun
    obtain ⟨fs₁, hstep, hrun⟩ := bind_eq_ok hrun
    obtain ⟨m, hpub⟩ := hb hstep
    rw [ih hrun, List.map_cons, List.mem_cons]
    by_cases heq : (db, b, ts) = c.version
    · cases heq
      rw [hpub.manifestAt_self hcodec]
      simp [TimedCall.version]
    · rw [hpub.manifestAt_of_ne hts heq]
      simp [heq]

end

/-! ### Immutable versions -/

/-- No call overwrites a version, and every version stays readable at its timestamp as it was
published. -/
structure Immutable (codec : ManifestCodec) (root : FilePath) (backend : StorageBackend FileSystem)
    (calls : List TimedCall) : Prop where
  fresh : ∀ before c after fs, calls = before ++ c :: after → backend.run root ∅ before = .ok fs →
    manifestAt codec root fs c.db c.call.target c.clock.nowMs = none
  stays : ∀ before c between after fs₁ fs₂ fs₃, calls = before ++ c :: (between ++ after) →
    backend.run root ∅ before = .ok fs₁ → backend.step root fs₁ c = .ok fs₂ →
      backend.run root fs₂ between = .ok fs₃ →
        ∃ m, Publishes codec root c.db c.call.target c.clock m fs₁ fs₂ ∧
          FsBackend.readManifestMeta codec fs₃ root c.db c.call.target c.clock.nowMs =
            .ok (some (FsBackend.toMeta m)) ∧
          FsBackend.pitrManifestMeta codec fs₃ root c.db c.call.target c.clock.nowMs =
            .ok (some (FsBackend.toMeta m))

section
variable {backend : StorageBackend FileSystem} {calls : List TimedCall}

/-- Runs that never overwrite a version read a millisecond at most once for each branch. -/
theorem nodup_of_fresh (hcodec : codec.Lawful) (hb : backend.Publishing codec root)
    (hrun : backend.run root ∅ calls = .ok fs') (h : Immutable codec root backend calls) :
    (calls.map TimedCall.version).Nodup := by
  -- every prefix of the run is free of repetitions
  have hinit : ∀ before after, calls = before ++ after →
      (before.map TimedCall.version).Nodup := by
    intro before
    induction before using List.reverseRecOn with
    | nil => intro after _; exact List.nodup_nil
    | append_singleton before c ih =>
      intro after hcalls
      rw [List.append_assoc, List.singleton_append] at hcalls
      have hrun' := hrun
      rw [hcalls, StorageBackend.run_append] at hrun'
      obtain ⟨fs, hbefore, -⟩ := bind_eq_ok hrun'
      have hnone := h.fresh before c after fs hcalls hbefore
      have hiff : (manifestAt codec root fs c.db c.call.target c.clock.nowMs).isSome ↔
          (manifestAt codec root ∅ c.db c.call.target c.clock.nowMs).isSome ∨
            c.version ∈ before.map TimedCall.version :=
        run_manifestAt_isSome hb hcodec c.clock.nowMs_lt hbefore
      rw [hnone] at hiff
      rw [List.map_append, List.map_singleton, List.nodup_append_comm, List.singleton_append,
        List.nodup_cons]
      exact ⟨fun hmem => absurd (hiff.mpr (.inr hmem)) Bool.false_ne_true, ih _ hcalls⟩
  exact hinit calls [] (List.append_nil calls).symm

theorem immutable_of_nodup (hcodec : codec.Lawful) (hb : backend.Publishing codec root)
    (h : (calls.map TimedCall.version).Nodup) : Immutable codec root backend calls where
  fresh := by
    intro before c after fs hcalls hbefore
    rw [hcalls, List.map_append, List.map_cons, List.nodup_middle, List.nodup_cons] at h
    have hnot : c.version ∉ before.map TimedCall.version :=
      fun hmem => h.1 (List.mem_append_left _ hmem)
    exact run_manifestAt_of_notMem hb c.clock.nowMs_lt hnot hbefore
  stays := by
    intro before c between after fs₁ fs₂ fs₃ hcalls hbefore hstep hbetween
    rw [hcalls, List.map_append, List.map_cons, List.nodup_middle, List.nodup_cons] at h
    have hnot : c.version ∉ between.map TimedCall.version := by
      intro hmem
      rw [List.map_append] at h
      exact h.1 (List.mem_append_right _ (List.mem_append_left _ hmem))
    obtain ⟨m, hpub⟩ := hb hstep
    have hat : manifestAt codec root fs₃ c.db c.call.target c.clock.nowMs = some m := by
      rw [run_manifestAt_of_notMem hb c.clock.nowMs_lt hnot hbetween,
        hpub.manifestAt_self hcodec]
    have hversioned : Versioned codec root fs₃ :=
      run_versioned hb (hpub.versioned (run_versioned hb versioned_empty hbefore)) hbetween
    refine ⟨m, hpub, hversioned.readManifestMeta hcodec c.clock.nowMs_lt hat, ?_⟩
    rw [FsBackend.pitrManifestMeta, hversioned.pitrManifest_self hcodec c.clock.nowMs_lt hat]
    rfl

/-- **Versions are immutable exactly when no two calls for a branch read the same millisecond**,
on either backend. -/
theorem immutable_iff (hcodec : codec.Lawful)
    (hbackend : backend = FsBackend.storageBackend codec ∨ backend = openFsComposite codec)
    (hrun : backend.run root ∅ calls = .ok fs') :
    Immutable codec root backend calls ↔ (calls.map TimedCall.version).Nodup := by
  have hb : backend.Publishing codec root := by
    rcases hbackend with rfl | rfl
    · exact storageBackend_publishing
    · exact openFsComposite_publishing
  exact ⟨nodup_of_fresh hcodec hb hrun, immutable_of_nodup hcodec hb⟩

end

/-- A snapshot, and a branch of it a millisecond later. -/
theorem immutable_snapshot_createBranch :
    Immutable testCodec [] (openFsComposite testCodec)
      [⟨testDb, .snapshot mainBranch, ⟨1, by decide, 1⟩⟩,
        ⟨testDb, .createBranch mainBranch devBranch none, ⟨2, by decide, 2⟩⟩] := by
  have hok : ((openFsComposite testCodec).run [] ∅
      [⟨testDb, .snapshot mainBranch, ⟨1, by decide, 1⟩⟩,
        ⟨testDb, .createBranch mainBranch devBranch none, ⟨2, by decide, 2⟩⟩]).isOk = true := by
    decide +kernel
  exact (immutable_iff testCodec_lawful (.inr rfl) (exists_ok hok).choose_spec).mpr
    (List.Nodup.of_map (fun v => v.2.2) (by decide))

/-- A snapshot and a commit in the same millisecond: the commit overwrites the snapshot. -/
theorem not_immutable_same_millisecond :
    let snapshot : TimedCall := ⟨testDb, .snapshot mainBranch, ⟨1, by decide, 1⟩⟩
    let commit : TimedCall := ⟨testDb, .commitTx mainBranch [[1]], ⟨1, by decide, 2⟩⟩
    let read (calls : List TimedCall) : Except Fault (Option ManifestMeta) := do
      let fs ← (openFsComposite testCodec).run [] ∅ calls
      FsBackend.readManifestMeta testCodec fs [] testDb mainBranch 1
    ¬ Immutable testCodec [] (openFsComposite testCodec) [snapshot, commit] ∧
      read [snapshot] = .ok (some ⟨"main", 1, [], none⟩) ∧
      read [snapshot, commit] = .ok (some ⟨"main", 1, [], some ⟨0, 0⟩⟩) := by
  intro snapshot commit read
  refine ⟨fun h => ?_, by decide +kernel, by decide +kernel⟩
  obtain ⟨fs, hrun⟩ : ∃ fs, (openFsComposite testCodec).run [] ∅ [snapshot] = .ok fs :=
    exists_ok (by decide +kernel)
  have hsome : ((openFsComposite testCodec).run [] ∅ [snapshot]).toOption.bind (fun fs =>
      manifestAt testCodec [] fs testDb mainBranch 1) =
        some ⟨"main", 1, [], none⟩ := by decide +kernel
  rw [hrun] at hsome
  have hnone : manifestAt testCodec [] fs testDb mainBranch 1 = none :=
    h.fresh [snapshot] commit [] fs rfl hrun
  exact absurd (hsome.symm.trans hnone) (by decide)

end KuzuEventBus
