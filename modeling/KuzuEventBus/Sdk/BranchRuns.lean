import KuzuEventBus.Gql.StoreWrites
import KuzuEventBus.Lib.Noninterference
import KuzuEventBus.Lib.Separators
import KuzuEventBus.Sdk.Bindings
import KuzuEventBus.Storage.Publishing

/-!
# Runs of the Python bindings

The branches of an engine over whole runs of calls.  Every call belongs to a branch or, when it
lists or creates versions, to none; what such a domain sees is the store, the segments and the mutex
of its branch, or all files but the segments.  The mutex of the engine is seen by everyone.

## Main definitions

* `Call.domain`, `SameView`, `SeenBy` — the domain of a call, and what a domain sees.
* `KeepsEngine` — a call on another domain does not poison the mutex of the engine.

## Main results

* `reads_program`, `keeps_program` — a call reads and changes what its domain sees.
* `unwinds` — what a domain sees decides what its calls do, and the calls on others leave it.
* `answers_purge` — **branches do not disturb each other**, unless the engine is poisoned.
-/

namespace KuzuEventBus.Sdk.Bindings

open EffectM Mutexes Noninterference InMemoryGraphStore

/-! ### Keys -/

/-- The characters of an identifier; there is no slash among them. -/
theorem isIdentifierChar_of_valid {s : String} (h : validateIdentifier s = .ok ()) :
    ∀ c ∈ s.toList, isIdentifierChar c = true := by
  unfold validateIdentifier at h
  split at h
  · cases h
  · split at h
    · cases h
    · next hall => simpa using hall

theorem count_slash_of_valid {s : String} (h : validateIdentifier s = .ok ()) :
    s.toList.count '/' = 0 := by
  rw [List.count_eq_zero]
  intro hmem
  have hslash := isIdentifierChar_of_valid h _ hmem
  revert hslash
  decide

/-- **The key of a branch tells its names**, when one of two branches has checked names. -/
theorem branchKey_inj {db br db' br' : String} (hdb : validateIdentifier db = .ok ())
    (hbr : validateIdentifier br = .ok ()) (h : branchKey db br = branchKey db' br') :
    (db, br) = (db', br') := by
  have hl : db.toList ++ ['/'] ++ br.toList = db'.toList ++ ['/'] ++ br'.toList := by
    simpa [branchKey, String.toList_append] using congrArg String.toList h
  have hcount := congrArg (List.count '/') hl
  simp only [List.count_append, List.count_singleton_self, count_slash_of_valid hdb,
    count_slash_of_valid hbr] at hcount
  have hfree {l : List Char} (hl : l.count '/' = 0) : ¬ ['/'] <:+: l ++ ['/'].dropLast := by
    intro hin
    have hmem : '/' ∈ l ++ ['/'].dropLast := hin.subset List.mem_cons_self
    rw [List.dropLast_singleton, List.append_nil] at hmem
    exact List.count_eq_zero.mp hl hmem
  obtain ⟨h₁, h₂⟩ := Separators.append_sep_inj (List.cons_ne_nil '/' [])
    (hfree (count_slash_of_valid hdb)) (hfree (by omega)) hl
  rw [String.toList_inj.mp h₁, String.toList_inj.mp h₂]

theorem databaseName_of_tryFrom {name : String} {db : DatabaseName}
    (h : DatabaseName.tryFrom name = .ok db) : db.asStr = name := by
  unfold DatabaseName.tryFrom at h
  split at h
  · cases h; rfl
  · cases h

theorem branchName_of_tryFrom {name : String} {branch : BranchName}
    (h : BranchName.tryFrom name = .ok branch) : branch.asStr = name := by
  unfold BranchName.tryFrom at h
  split at h
  · cases h; rfl
  · cases h

theorem databaseName_tryFrom_asStr (db : DatabaseName) :
    DatabaseName.tryFrom db.asStr = .ok db := by
  unfold DatabaseName.tryFrom
  split
  · rfl
  · next h => rw [db.valid] at h; cases h

/-! ### Domains -/

/-- The branch a call is about, by its names; there is none for a call about versions. -/
abbrev Domain := Option (String × String)

/-- The domain of a handle. -/
def CasysBranch.domain (b : CasysBranch) : Domain := some (b.dbName.asStr, b.branchName.asStr)

/-- The domain of a call. -/
def Call.domain : Call → Domain
  | .openDatabase _ | .createBranch _ _ _ | .listSnapshots _ _ => none
  | .openBranch dbName branchName => some (dbName, branchName)
  | .query b _ _ | .flush b | .load b | .addNode b _ _ | .addEdge b _ _ _ _ => b.domain

/-- The files of a domain: those of the segments of its branch, or all others. -/
def OwnFile (dataDir : FilePath) : Domain → FilePath → Prop
  | some (db, br), q => ∃ (d : DatabaseName) (b : BranchName), d.asStr = db ∧ b.asStr = br ∧
      (q = nodesPath dataDir d b ∨ q = edgesPath dataDir d b)
  | none, q => ∀ (d : DatabaseName) (b : BranchName),
      q ≠ nodesPath dataDir d b ∧ q ≠ edgesPath dataDir d b

/-- What a domain sees is the same, the mutex of the engine apart; `own` are the files that are
looked at. -/
structure SameView (own : FilePath → Prop) (d : Domain) (s t : CasysEngine) : Prop where
  store : ∀ n ∈ d, storeAt s (branchKey n.1 n.2) = storeAt t (branchKey n.1 n.2)
  mutex : ∀ n ∈ d, s.poisoned (.store (branchKey n.1 n.2)) =
    t.poisoned (.store (branchKey n.1 n.2))
  file : ∀ q, own q → s.data.files.readFile q = t.data.files.readFile q

/-- What a domain sees is the same. -/
structure SeenBy (own : FilePath → Prop) (d : Domain) (s t : CasysEngine) : Prop
    extends SameView own d s t where
  engine : s.poisoned .engine = t.poisoned .engine

variable {setup : Setup} {own : FilePath → Prop} {d : Domain} {s t u : CasysEngine}

theorem SameView.symm (h : SameView own d s t) : SameView own d t s where
  store n hn := (h.store n hn).symm
  mutex n hn := (h.mutex n hn).symm
  file q hq := (h.file q hq).symm

theorem SameView.trans (h : SameView own d s t) (h' : SameView own d t u) :
    SameView own d s u where
  store n hn := (h.store n hn).trans (h'.store n hn)
  mutex n hn := (h.mutex n hn).trans (h'.mutex n hn)
  file q hq := (h.file q hq).trans (h'.file q hq)

instance : IsPreorder CasysEngine (SameView own d) where
  refl _ := ⟨fun _ _ => rfl, fun _ _ => rfl, fun _ _ => rfl⟩
  trans _ _ _ := SameView.trans

theorem SeenBy.poison (h : SeenBy own d s t) (l : Lock) :
    SeenBy own d (s.poison l) (t.poison l) where
  store := h.store
  mutex n hn := by rw [poison_poisoned, poison_poisoned, h.mutex n hn]
  file := h.file
  engine := by rw [poison_poisoned, poison_poisoned, h.engine]

/-- A mutex that is not that of the branch may be poisoned. -/
theorem sameView_poison {l : Lock} (hl : ∀ n ∈ d, l ≠ .store (branchKey n.1 n.2)) :
    SameView own d s (s.poison l) where
  store _ _ := rfl
  mutex n hn := by rw [poison_poisoned, if_neg (Ne.symm (hl n hn))]
  file _ _ := rfl

theorem storeAt_setStoreAt (key key' : String) (store : InMemoryGraphStore) :
    storeAt (setStoreAt key store s) key' = if key' = key then store else storeAt s key' := by
  rw [storeAt, setStoreAt, AList.lookup_insert_eq]
  split
  · rfl
  · rfl

/-- The store of another branch may be replaced. -/
theorem sameView_setStoreAt {key : String} {store : InMemoryGraphStore}
    (hkey : ∀ n ∈ d, branchKey n.1 n.2 ≠ key) : SameView own d s (setStoreAt key store s) where
  store n hn := by rw [storeAt_setStoreAt, if_neg (hkey n hn)]
  mutex _ _ := rfl
  file _ _ := rfl

theorem SeenBy.setStoreAt (h : SeenBy own d s t) (key : String) (store : InMemoryGraphStore) :
    SeenBy own d (setStoreAt key store s) (setStoreAt key store t) where
  store n hn := by rw [storeAt_setStoreAt, storeAt_setStoreAt, h.store n hn]
  mutex := h.mutex
  file := h.file
  engine := h.engine

/-- Files of other domains may be written. -/
theorem sameView_setFiles {files : FileSystem}
    (h : ∀ q, own q → files.readFile q = s.data.files.readFile q) :
    SameView own d s (setFiles files s) where
  store _ _ := rfl
  mutex _ _ := rfl
  file q hq := (h q hq).symm

/-! ### Files -/

section Files

variable {dataDir : FilePath} {db : DatabaseName} {br : BranchName} {fs fs' : FileSystem}

theorem nodesPath_eq (dataDir : FilePath) (db : DatabaseName) (br : BranchName) :
    nodesPath dataDir db br = branchDir dataDir db br ++ ["segments", "nodes.seg"] := by
  rw [nodesPath, segmentsDir, List.append_assoc]
  rfl

theorem edgesPath_eq (dataDir : FilePath) (db : DatabaseName) (br : BranchName) :
    edgesPath dataDir db br = branchDir dataDir db br ++ ["segments", "edges.seg"] := by
  rw [edgesPath, segmentsDir, List.append_assoc]
  rfl

/-- A file of a branch directory is none of its segments if it is not in `segments`. -/
theorem ownFile_of_name_ne {name : String} (hname : name ≠ "segments") (rest : FilePath) :
    OwnFile dataDir none (branchDir dataDir db br ++ name :: rest) := by
  intro d b
  rw [nodesPath_eq, edgesPath_eq]
  constructor
  · intro h
    exact hname (List.cons.inj (branchDir_append_eq h).2.2).1
  · intro h
    exact hname (List.cons.inj (branchDir_append_eq h).2.2).1

/-- A flush writes the two segments of its branch. -/
theorem readFile_flushBranch (serde : Serde) (store : InMemoryGraphStore) (q : FilePath) :
    (Engine.flushBranch serde dataDir db br fs store).readFile q =
      if q = edgesPath dataDir db br then some (serde.toVec store.edgesJson)
      else if q = nodesPath dataDir db br then some (serde.toVec store.nodesJson)
      else fs.readFile q := by
  rw [Engine.flushBranch, flushToSegments, flushOps, FileSystem.runOps_append,
    FileSystem.readFile_runOps_rewriteOps, FileSystem.readFile_runOps_rewriteOps]

/-- The listing of versions does not depend on other names. -/
theorem listManifestNames_congr {dir : FilePath}
    (h : ∀ name rest, (parseTsFromFilename name).isSome →
      fs'.readFile (dir ++ name :: rest) = fs.readFile (dir ++ name :: rest)) :
    listManifestNames fs' dir = listManifestNames fs dir := by
  have hperm : ((fs'.readDir dir).filter fun name => (parseTsFromFilename name).isSome).Perm
      ((fs.readDir dir).filter fun name => (parseTsFromFilename name).isSome) := by
    refine (List.perm_ext_iff_of_nodup ((FileSystem.nodup_readDir fs' dir).filter _)
      ((FileSystem.nodup_readDir fs dir).filter _)).mpr fun name => ?_
    simp only [List.mem_filter, FileSystem.mem_readDir, and_congr_left_iff]
    intro hname
    exact exists_congr fun rest => by rw [h name rest hname]
  exact ((List.perm_insertionSort _ _).trans
    (hperm.trans (List.perm_insertionSort _ _).symm)).eq_of_pairwise'
      (List.pairwise_insertionSort _ _) (List.pairwise_insertionSort _ _)

/-- The files agree off the segments. -/
def SameVersions (dataDir : FilePath) (fs fs' : FileSystem) : Prop :=
  ∀ q, OwnFile dataDir none q → fs.readFile q = fs'.readFile q

theorem name_ne_segments {name : String} (h : (parseTsFromFilename name).isSome) :
    name ≠ "segments" := by
  rintro rfl
  revert h
  decide

theorem SameVersions.listManifestPaths (h : SameVersions dataDir fs fs') :
    listManifestPaths fs dataDir db br = listManifestPaths fs' dataDir db br := by
  rw [KuzuEventBus.listManifestPaths, KuzuEventBus.listManifestPaths,
    listManifestNames_congr fun name rest hname =>
      h _ (ownFile_of_name_ne (name_ne_segments hname) rest)]

/-- A listed version is read from a file that is no segment. -/
theorem SameVersions.readManifest (h : SameVersions dataDir fs fs') (codec : ManifestCodec)
    {path : FilePath} (hpath : path ∈ KuzuEventBus.listManifestPaths fs' dataDir db br) :
    readManifest codec fs path = readManifest codec fs' path := by
  obtain ⟨name, hname, rfl⟩ := List.mem_map.mp hpath
  rw [listManifestNames, Text.mem_sortNames, List.mem_filter] at hname
  rw [KuzuEventBus.readManifest, KuzuEventBus.readManifest,
    h _ (ownFile_of_name_ne (name_ne_segments hname.2) [])]

theorem SameVersions.latestManifest (h : SameVersions dataDir fs fs') (codec : ManifestCodec) :
    latestManifest codec fs dataDir db br = latestManifest codec fs' dataDir db br := by
  rw [KuzuEventBus.latestManifest, KuzuEventBus.latestManifest, h.listManifestPaths]
  cases hlast : (KuzuEventBus.listManifestPaths fs' dataDir db br).getLast? with
  | none => rfl
  | some path => simp only [h.readManifest codec (List.mem_of_getLast? hlast)]

theorem SameVersions.listSnapshotTimestamps (h : SameVersions dataDir fs fs')
    (codec : ManifestCodec) : FsBackend.listSnapshotTimestamps codec fs dataDir db br =
      FsBackend.listSnapshotTimestamps codec fs' dataDir db br := by
  rw [FsBackend.listSnapshotTimestamps, FsBackend.listSnapshotTimestamps, h.listManifestPaths]
  exact mapM_congr fun path hpath => by rw [h.readManifest codec hpath]

/-- **Creating a branch depends on the versions only, and creates the same version.** -/
theorem SameVersions.createBranch (h : SameVersions dataDir fs fs') (codec : ManifestCodec)
    (db : DatabaseName) (source newBranch : String) (nowMs : Timestamp) (tmpTs : ℕ) :
    (∃ e, Engine.createBranch codec fs dataDir db source newBranch none nowMs tmpTs = .error e ∧
      Engine.createBranch codec fs' dataDir db source newBranch none nowMs tmpTs = .error e) ∨
    ∃ fs₁ fs₁', Engine.createBranch codec fs dataDir db source newBranch none nowMs tmpTs =
        .ok fs₁ ∧
      Engine.createBranch codec fs' dataDir db source newBranch none nowMs tmpTs = .ok fs₁' ∧
      SameVersions dataDir fs₁ fs₁' := by
  unfold Engine.createBranch
  cases BranchName.tryFrom source with
  | error e => exact .inl ⟨e, rfl, rfl⟩
  | ok sourceBr =>
    cases BranchName.tryFrom newBranch with
    | error e => exact .inl ⟨e, rfl, rfl⟩
    | ok newBr =>
      have hlatest : KuzuEventBus.latestManifest codec fs dataDir db sourceBr =
          KuzuEventBus.latestManifest codec fs' dataDir db sourceBr := h.latestManifest codec
      cases hbase : KuzuEventBus.latestManifest codec fs' dataDir db sourceBr with
      | error e =>
        refine .inl ⟨e, ?_, ?_⟩
        · show (KuzuEventBus.latestManifest codec fs dataDir db sourceBr >>= _) = _
          rw [hlatest, hbase]
          rfl
        · show (KuzuEventBus.latestManifest codec fs' dataDir db sourceBr >>= _) = _
          rw [hbase]
          rfl
      | ok base =>
        refine .inr ⟨writeManifest codec fs dataDir db newBr
            (FsBackend.branchManifest newBr nowMs base) tmpTs,
          writeManifest codec fs' dataDir db newBr
            (FsBackend.branchManifest newBr nowMs base) tmpTs, ?_, ?_, ?_⟩
        · show (KuzuEventBus.latestManifest codec fs dataDir db sourceBr >>= _) = _
          rw [hlatest, hbase]
          rfl
        · show (KuzuEventBus.latestManifest codec fs' dataDir db sourceBr >>= _) = _
          rw [hbase]
          rfl
        · intro q hq
          rw [writeManifest, writeManifest, readFile_atomicWriteFile, readFile_atomicWriteFile,
            h q hq]

/-- Creating a branch leaves the segments alone. -/
theorem readFile_createBranch_segments {codec : ManifestCodec} {source newBranch : String}
    {nowMs : Timestamp} {tmpTs : ℕ} {n : String × String} {q : FilePath}
    (hcreate : Engine.createBranch codec fs dataDir db source newBranch none nowMs tmpTs = .ok fs')
    (hq : OwnFile dataDir (some n) q) : fs'.readFile q = fs.readFile q := by
  obtain ⟨sourceBr, -, hcreate⟩ := bind_eq_ok hcreate
  obtain ⟨newBr, -, hcreate⟩ := bind_eq_ok hcreate
  refine FsBackend.readFile_createBranch hcreate fun name heq => ?_
  obtain ⟨d, b, -, -, rfl | rfl⟩ := hq
  · rw [nodesPath_eq] at heq
    simpa using (branchDir_append_eq heq).2.2
  · rw [edgesPath_eq] at heq
    simpa using (branchDir_append_eq heq).2.2

/-- A flush to another branch, or one that is looked at from no branch, is not seen. -/
theorem readFile_flushBranch_of_domain_ne {b : CasysBranch} (hne : b.domain ≠ d) {q : FilePath}
    (hq : OwnFile dataDir d q) (serde : Serde) (store : InMemoryGraphStore) :
    (Engine.flushBranch serde dataDir b.dbName b.branchName fs store).readFile q =
      fs.readFile q := by
  have hpaths : q ≠ edgesPath dataDir b.dbName b.branchName ∧
      q ≠ nodesPath dataDir b.dbName b.branchName := by
    cases d with
    | none => exact ⟨(hq _ _).2, (hq _ _).1⟩
    | some n =>
      obtain ⟨db, br⟩ := n
      obtain ⟨d', b', rfl, rfl, hq⟩ := hq
      have hdiff {xs ys : FilePath}
          (h : branchDir dataDir d' b' ++ xs = branchDir dataDir b.dbName b.branchName ++ ys) :
          False := by
        obtain ⟨rfl, rfl, -⟩ := branchDir_append_eq h
        exact hne rfl
      rcases hq with rfl | rfl
      · rw [nodesPath_eq, nodesPath_eq, edgesPath_eq]
        exact ⟨fun h => hdiff h, fun h => hdiff h⟩
      · rw [edgesPath_eq, nodesPath_eq, edgesPath_eq]
        exact ⟨fun h => hdiff h, fun h => hdiff h⟩
  rw [readFile_flushBranch, if_neg hpaths.1, if_neg hpaths.2]

end Files

/-! ### What a call reads -/

section Reads

variable {α : Type} {n : String × String}

theorem reads_orRuntimeError {R : CasysEngine → CasysEngine → Prop} (context : String)
    (r : Except Fault α) : Reads R (orRuntimeError context r) := .ofExcept _

theorem reads_engineLock {x : PyM α} (hx : Reads (SeenBy own d) x) :
    Reads (SeenBy own d) (withLock .engine x) :=
  reads_withLock (fun _ _ h => h.engine) (fun _ _ h => h.poison _) hx

theorem reads_storeLock {x : PyM α} (hx : Reads (SeenBy own (some n)) x) :
    Reads (SeenBy own (some n)) (withLock (.store (branchKey n.1 n.2)) x) :=
  reads_withLock (fun _ _ h => h.mutex n rfl) (fun _ _ h => h.poison _) hx

theorem reads_readStore :
    Reads (SeenBy own (some n)) (readStore (branchKey n.1 n.2)) :=
  .gets fun _ _ h => h.store n rfl

theorem reads_writeStoreAt (key : String) (store : InMemoryGraphStore) :
    Reads (SeenBy own d) (writeStoreAt key store) :=
  .modify fun _ _ h => h.setStoreAt key store

/-- A computation on the files that have been read. -/
theorem reads_readFiles {f : FileSystem → PyM α}
    (h : ∀ s t, SeenBy own d s t →
      ((f s.data.files).run s).1 = ((f t.data.files).run t).1 ∧
        SeenBy own d ((f s.data.files).run s).2 ((f t.data.files).run t).2) :
    Reads (SeenBy own d) (readFiles >>= f) := h

theorem SeenBy.setFiles (h : SeenBy own d s t) {fs fs' : FileSystem}
    (hfiles : ∀ q, own q → fs.readFile q = fs'.readFile q) :
    SeenBy own d (setFiles fs s) (setFiles fs' t) where
  store := h.store
  mutex := h.mutex
  file := hfiles
  engine := h.engine

theorem reads_createBranch (dbName branchName : String) (clock : Clock) :
    Reads (SeenBy (OwnFile setup.dataDir none) none)
      (createBranch setup dbName branchName clock) := by
  refine reads_engineLock ((reads_orRuntimeError _ _).bind fun db => ?_)
  refine reads_readFiles fun s t h => ?_
  have hversions : SameVersions setup.dataDir s.data.files t.data.files := h.file
  rcases hversions.createBranch setup.codec db "main" branchName clock.nowMs clock.tmpTs with
    ⟨e, hs, ht⟩ | ⟨fs₁, fs₁', hs, ht, hsame⟩
  · rw [hs, ht]
    cases e with
    | error e => exact ⟨rfl, h⟩
    | panic msg => exact ⟨rfl, h⟩
  · rw [hs, ht]
    exact ⟨rfl, h.setFiles hsame⟩

theorem reads_listSnapshots (dbName branchName : String) :
    Reads (SeenBy (OwnFile setup.dataDir none) none)
      (listSnapshots setup dbName branchName) := by
  refine reads_engineLock ((reads_orRuntimeError _ _).bind fun db => ?_)
  refine (reads_orRuntimeError _ _).bind fun branch => reads_readFiles fun s t h => ?_
  have hversions : SameVersions setup.dataDir s.data.files t.data.files := h.file
  rw [hversions.listSnapshotTimestamps setup.codec]
  exact ((reads_orRuntimeError _ _).bind fun ts => .pure _) s t h

theorem reads_openBranch (dbName branchName : String) :
    Reads (SeenBy own (some (dbName, branchName))) (openBranch dbName branchName) :=
  reads_engineLock <| (reads_orRuntimeError _ _).bind fun _ =>
    (reads_orRuntimeError _ _).bind fun _ => reads_readStore.bind fun _ =>
      (reads_writeStoreAt _ _).bind fun _ => .pure _

theorem reads_query (b : CasysBranch) (gql : String)
    (params : Option (List (String × PyValue))) :
    Reads (SeenBy own b.domain) (query setup b gql params) :=
  (Reads.ofExcept _).bind fun _ => reads_storeLock <| reads_engineLock <|
    reads_readStore.bind fun _ => (reads_writeStoreAt _ _).bind fun _ =>
      (reads_orRuntimeError _ _).bind fun _ => .pure _

theorem reads_writeGraph (b : CasysBranch) (context : String)
    (properties : List (String × PyValue))
    (write : InMemoryGraphStore → Properties → Except Fault (ℕ × InMemoryGraphStore)) :
    Reads (SeenBy own b.domain) (writeGraph b context properties write) :=
  reads_storeLock <| (Reads.ofExcept _).bind fun _ => reads_readStore.bind fun _ =>
    (reads_orRuntimeError _ _).bind fun _ => (reads_writeStoreAt _ _).bind fun _ => .pure _

/-- The names of a handle are checked again, and found valid. -/
theorem flush_eq (b : CasysBranch) : flush setup b = withLock .engine (withLock (.store b.key) (do
    let store ← readStore b.key
    let files ← readFiles
    writeFiles (Engine.flushBranch setup.serde setup.dataDir b.dbName b.branchName files store)
    pure .none)) := by
  unfold flush openDatabaseHandle openBranchHandle
  rw [databaseName_tryFrom_asStr, BranchName.tryFrom_asStr]
  simp only [orValueError, orRuntimeError, mapErr, ofExcept, pure_bind,
    databaseName_tryFrom_asStr, BranchName.tryFrom_asStr]

theorem load_eq (b : CasysBranch) : load setup b = withLock .engine (do
    let files ← readFiles
    let loaded ← orRuntimeError "Load error"
      (Engine.loadBranch setup.serde files setup.dataDir b.dbName b.branchName)
    withLock (.store b.key) (do
      writeStoreAt b.key loaded
      pure .none)) := by
  unfold load openDatabaseHandle openBranchHandle
  rw [databaseName_tryFrom_asStr, BranchName.tryFrom_asStr]
  simp only [orValueError, orRuntimeError, mapErr, ofExcept, pure_bind,
    databaseName_tryFrom_asStr, BranchName.tryFrom_asStr]

theorem ownFile_nodesPath (b : CasysBranch) :
    OwnFile setup.dataDir b.domain (nodesPath setup.dataDir b.dbName b.branchName) :=
  ⟨b.dbName, b.branchName, rfl, rfl, .inl rfl⟩

theorem ownFile_edgesPath (b : CasysBranch) :
    OwnFile setup.dataDir b.domain (edgesPath setup.dataDir b.dbName b.branchName) :=
  ⟨b.dbName, b.branchName, rfl, rfl, .inr rfl⟩

theorem reads_flush (b : CasysBranch) : Reads (SeenBy own b.domain) (flush setup b) := by
  rw [flush_eq]
  refine reads_engineLock <| reads_storeLock <| reads_readStore.bind fun store => ?_
  refine reads_readFiles fun s t h => ⟨rfl, h.setFiles fun q hq => ?_⟩
  rw [readFile_flushBranch, readFile_flushBranch, h.file q hq]

theorem reads_load (b : CasysBranch) :
    Reads (SeenBy (OwnFile setup.dataDir b.domain) b.domain) (load setup b) := by
  rw [load_eq]
  refine reads_engineLock (reads_readFiles fun s t h => ?_)
  have hload : Engine.loadBranch setup.serde s.data.files setup.dataDir b.dbName b.branchName =
      Engine.loadBranch setup.serde t.data.files setup.dataDir b.dbName b.branchName :=
    loadFromSegments_congr (h.file _ (ownFile_nodesPath b)) (h.file _ (ownFile_edgesPath b))
  rw [hload]
  have hreads : Reads (SeenBy (OwnFile setup.dataDir b.domain) b.domain)
      (orRuntimeError "Load error"
      (Engine.loadBranch setup.serde t.data.files setup.dataDir b.dbName b.branchName) >>=
        fun loaded => withLock (.store b.key) (do
          writeStoreAt b.key loaded
          pure Reply.none)) :=
    (reads_orRuntimeError _ _).bind fun loaded =>
      reads_storeLock ((reads_writeStoreAt _ _).bind fun _ => .pure _)
  exact hreads s t h

/-- **A call depends on what its domain sees, and changes that alike.** -/
theorem reads_program (setup : Setup) (c : Call) :
    Reads (SeenBy (OwnFile setup.dataDir c.domain) c.domain) (c.program setup) := by
  cases c with
  | openDatabase name => exact reads_engineLock ((reads_orRuntimeError _ _).bind fun _ => .pure _)
  | openBranch dbName branchName => exact reads_openBranch dbName branchName
  | createBranch dbName branchName clock => exact reads_createBranch dbName branchName clock
  | listSnapshots dbName branchName => exact reads_listSnapshots dbName branchName
  | query b gql params => exact reads_query b gql params
  | flush b => exact reads_flush b
  | load b => exact reads_load b
  | addNode b labels properties => exact reads_writeGraph b _ properties _
  | addEdge b fromId toId edgeType properties => exact reads_writeGraph b _ properties _

end Reads

/-! ### What a call leaves alone -/

section Frames

variable {α : Type}

theorem keeps_orRuntimeError {R : CasysEngine → CasysEngine → Prop} [Std.Refl R]
    (context : String) (r : Except Fault α) : Keeps R (orRuntimeError context r) := .ofExcept _

theorem keeps_engineLock {x : PyM α} (hx : Keeps (SameView own d) x) :
    Keeps (SameView own d) (withLock .engine x) :=
  keeps_withLock (fun _ => sameView_poison fun _ _ => nofun) hx

/-- The key of another branch than that of a handle. -/
theorem CasysBranch.key_ne {b : CasysBranch} (hne : b.domain ≠ d) :
    ∀ n ∈ d, branchKey n.1 n.2 ≠ b.key := by
  intro n hn heq
  have hinj := branchKey_inj b.dbName.valid b.branchName.valid heq.symm
  rw [Option.mem_def.mp hn] at hne
  exact hne (congrArg some hinj)

theorem keeps_storeLock {b : CasysBranch} (hne : b.domain ≠ d) {x : PyM α}
    (hx : Keeps (SameView own d) x) :
    Keeps (SameView own d) (withLock (.store b.key) x) := by
  refine keeps_withLock (fun _ => sameView_poison fun n hn heq => ?_) hx
  exact b.key_ne hne n hn (Lock.store.inj heq).symm

theorem keeps_readStore {R : CasysEngine → CasysEngine → Prop} [Std.Refl R] (key : String) :
    Keeps R (readStore key) := .of_run_eq fun _ => rfl

theorem keeps_writeStoreAt {b : CasysBranch} (hne : b.domain ≠ d) (store : InMemoryGraphStore) :
    Keeps (SameView own d) (writeStoreAt b.key store) :=
  .modify fun _ => sameView_setStoreAt (b.key_ne hne)

/-- A computation on the files that have been read. -/
theorem keeps_readFiles {R : CasysEngine → CasysEngine → Prop} {f : FileSystem → PyM α}
    (h : ∀ s, R s ((f s.data.files).run s).2) : Keeps R (readFiles >>= f) := h

theorem keeps_openBranch {dbName branchName : String} (hne : some (dbName, branchName) ≠ d) :
    Keeps (SameView own d) (openBranch dbName branchName) := by
  refine keeps_engineLock ?_
  unfold openDatabaseHandle openBranchHandle
  cases hdb : DatabaseName.tryFrom dbName with
  | error e =>
    cases e with
    | error e => exact .of_run_eq fun _ => rfl
    | panic msg => exact .of_run_eq fun _ => rfl
  | ok db =>
    cases hbr : BranchName.tryFrom branchName with
    | error e =>
      cases e with
      | error e => exact .of_run_eq fun _ => rfl
      | panic msg => exact .of_run_eq fun _ => rfl
    | ok branch =>
      have hkey : (CasysBranch.mk db branch).key = branchKey dbName branchName := by
        rw [CasysBranch.key, databaseName_of_tryFrom hdb, branchName_of_tryFrom hbr]
      have hdomain : (CasysBranch.mk db branch).domain ≠ d := by
        rw [CasysBranch.domain, databaseName_of_tryFrom hdb, branchName_of_tryFrom hbr]
        exact hne
      rw [← hkey]
      exact (keeps_orRuntimeError _ _).bind fun _ => (keeps_orRuntimeError _ _).bind fun _ =>
        (keeps_readStore _).bind fun store => (keeps_writeStoreAt hdomain store).bind fun _ =>
          .pure _

theorem keeps_createBranch (hown : ∀ q, own q → OwnFile setup.dataDir d q)
    {dbName branchName : String} {clock : Clock} (hne : none ≠ d) :
    Keeps (SameView own d) (createBranch setup dbName branchName clock) := by
  obtain ⟨n, rfl⟩ := Option.ne_none_iff_exists'.mp hne.symm
  refine keeps_engineLock ((keeps_orRuntimeError _ _).bind fun db => ?_)
  refine keeps_readFiles fun s => ?_
  cases hcreate : Engine.createBranch setup.codec s.data.files setup.dataDir db "main" branchName
    none clock.nowMs clock.tmpTs with
  | error e =>
    cases e with
    | error e => exact refl s
    | panic msg => exact refl s
  | ok fs =>
    exact sameView_setFiles fun q hq => readFile_createBranch_segments hcreate (hown q hq)

theorem keeps_listSnapshots (setup : Setup) {R : CasysEngine → CasysEngine → Prop}
    [IsPreorder CasysEngine R] (hlock : ∀ s : CasysEngine, R s (s.poison .engine))
    (dbName branchName : String) :
    Keeps R (listSnapshots setup dbName branchName) :=
  keeps_withLock hlock <| (keeps_orRuntimeError _ _).bind fun _ =>
    (keeps_orRuntimeError _ _).bind fun _ => keeps_readFiles fun s =>
      ((keeps_orRuntimeError _ _).bind fun _ => .pure _) s

theorem keeps_query {b : CasysBranch} (hne : b.domain ≠ d) (gql : String)
    (params : Option (List (String × PyValue))) :
    Keeps (SameView own d) (query setup b gql params) :=
  (Keeps.ofExcept _).bind fun _ => keeps_storeLock hne <| keeps_engineLock <|
    (keeps_readStore _).bind fun _ => (keeps_writeStoreAt hne _).bind fun _ =>
      (keeps_orRuntimeError _ _).bind fun _ => .pure _

theorem keeps_writeGraph {b : CasysBranch} (hne : b.domain ≠ d) (context : String)
    (properties : List (String × PyValue))
    (write : InMemoryGraphStore → Properties → Except Fault (ℕ × InMemoryGraphStore)) :
    Keeps (SameView own d) (writeGraph b context properties write) :=
  keeps_storeLock hne <| (Keeps.ofExcept _).bind fun _ => (keeps_readStore _).bind fun _ =>
    (keeps_orRuntimeError _ _).bind fun _ => (keeps_writeStoreAt hne _).bind fun _ => .pure _

theorem keeps_flush (hown : ∀ q, own q → OwnFile setup.dataDir d q) {b : CasysBranch}
    (hne : b.domain ≠ d) :
    Keeps (SameView own d) (flush setup b) := by
  rw [flush_eq]
  refine keeps_engineLock <| keeps_storeLock hne <| (keeps_readStore _).bind fun store => ?_
  exact keeps_readFiles fun s =>
    sameView_setFiles fun q hq => readFile_flushBranch_of_domain_ne hne (hown q hq) _ _

theorem keeps_load {b : CasysBranch} (hne : b.domain ≠ d) :
    Keeps (SameView own d) (load setup b) := by
  rw [load_eq]
  refine keeps_engineLock (keeps_readFiles fun s => ?_)
  have hkeeps : Keeps (SameView own d) (orRuntimeError "Load error"
      (Engine.loadBranch setup.serde s.data.files setup.dataDir b.dbName b.branchName) >>=
        fun loaded => withLock (.store b.key) (do
          writeStoreAt b.key loaded
          pure Reply.none)) :=
    (keeps_orRuntimeError _ _).bind fun loaded =>
      keeps_storeLock hne ((keeps_writeStoreAt hne _).bind fun _ => .pure _)
  exact hkeeps s

/-- **A call leaves what other domains see**, the mutex of the engine apart. -/
theorem keeps_program (setup : Setup) (hown : ∀ q, own q → OwnFile setup.dataDir d q) {c : Call}
    (hne : c.domain ≠ d) :
    Keeps (SameView own d) (c.program setup) := by
  cases c with
  | openDatabase name => exact keeps_engineLock ((keeps_orRuntimeError _ _).bind fun _ => .pure _)
  | openBranch dbName branchName => exact keeps_openBranch hne
  | createBranch dbName branchName clock => exact keeps_createBranch hown hne
  | listSnapshots dbName branchName =>
    exact keeps_listSnapshots setup (fun _ => sameView_poison fun _ _ => nofun) dbName branchName
  | query b gql params => exact keeps_query hne gql params
  | flush b => exact keeps_flush hown hne
  | load b => exact keeps_load hne
  | addNode b labels properties => exact keeps_writeGraph hne _ properties _
  | addEdge b fromId toId edgeType properties => exact keeps_writeGraph hne _ properties _

end Frames

/-! ### Branches do not disturb each other -/

/-- A call on another domain does not poison the mutex of the engine. -/
def KeepsEngine (setup : Setup) (d : Domain) (s : CasysEngine) (c : Call) : Prop :=
  c.domain ≠ d → (step setup s c).2.poisoned .engine = s.poisoned .engine

/-- What a domain sees decides what its calls do, and the calls on others leave it. -/
theorem unwinds (setup : Setup) (d : Domain) : Unwinds (step setup) Call.domain d
    (KeepsEngine setup d) (SeenBy (OwnFile setup.dataDir d) d) where
  answer h hd _ := by
    subst hd
    exact (reads_program setup _ _ _ h).1
  own h hd _ := by
    subst hd
    exact (reads_program setup _ _ _ h).2
  others h hd hcalm :=
    { (keeps_program setup (fun _ hq => hq) hd _).symm.trans h.toSameView with
      engine := (hcalm hd).trans h.engine }

/-- **Branches do not disturb each other**: what the calls on a branch answer in a run is what they
answer without the calls on other branches and about versions, as long as none of these poisons the
engine.  The same holds of the calls about versions. -/
theorem answers_purge (setup : Setup) (d : Domain) (s : CasysEngine) (cs : List Call)
    (hcalm : EachAllowed (step setup) (KeepsEngine setup d) s cs) :
    answersTo (step setup) Call.domain d s cs =
      answersTo (step setup) Call.domain d s (purge Call.domain d cs) :=
  ((unwinds setup d).answersTo_purge ⟨refl s, rfl⟩ hcalm).1

/-- Two branches of a database. -/
def mainHandle : CasysBranch := ⟨testDb, mainBranch⟩

def devHandle : CasysBranch := ⟨testDb, devBranch⟩

/-- The store with one node. -/
def oneNodeStore : InMemoryGraphStore :=
  ((InMemoryGraphStore.new.addNode ["P"] ∅).toOption.map Prod.snd).getD .new

def sampleSetup : Setup where
  codec := .ofManifests []
  serde := .ofDocs [oneNodeStore.nodesJson, oneNodeStore.edgesJson]
  tables := .ascii
  dataDir := []

/-- Calls on the two branches, and a branch that is created. -/
def sampleCalls : List Call :=
  [.openBranch "db" "main", .openBranch "db" "dev", .addNode mainHandle ["P"] [],
    .addNode devHandle ["Q"] [("k", .int 7)], .flush devHandle, .addNode mainHandle ["R"] [],
    .createBranch "db" "new" ⟨1700000000000, by decide, 1⟩, .addEdge mainHandle 1 2 "S" []]

theorem sampleCalls_calm : EachAllowed (step sampleSetup)
    (KeepsEngine sampleSetup mainHandle.domain) (CasysEngine.new ∅) sampleCalls :=
  ⟨fun _ => rfl, fun _ => rfl, fun _ => rfl, fun _ => rfl, fun _ => rfl, fun _ => rfl,
    fun _ => rfl, fun _ => rfl, trivial⟩

theorem answers_purge_sampleCalls :
    answersTo (step sampleSetup) Call.domain mainHandle.domain (CasysEngine.new ∅) sampleCalls =
        answersTo (step sampleSetup) Call.domain mainHandle.domain (CasysEngine.new ∅)
          (purge Call.domain mainHandle.domain sampleCalls) ∧
      answersTo (step sampleSetup) Call.domain mainHandle.domain (CasysEngine.new ∅) sampleCalls =
        [.ok (.branch mainHandle), .ok (.id 1), .ok (.id 2), .ok (.id 1)] :=
  ⟨answers_purge sampleSetup mainHandle.domain (CasysEngine.new ∅) sampleCalls sampleCalls_calm,
    rfl⟩

end KuzuEventBus.Sdk.Bindings
