import KuzuEventBus.Engine.Persistence
import KuzuEventBus.Storage.Backend

/-!
# Branches of the engine

The branch operations of `Engine` over the file backend: `create_branch` copies a
manifest, while `flush_branch` and `load_branch` work on the `segments` directory
of the branch, which no manifest refers to.

## Main definitions

* `Engine.createBranch`, `Engine.flushBranch`, `Engine.loadBranch` — the operations.

## Main results

* `loadBranch_flushBranch_of_ne` — a flush to one branch leaves the others alone.
* `loadBranch_createBranch` — a new branch loads as the empty store.
* `createBranch_contents_iff` — **a new branch has the contents of the branch it was created
  from exactly when these are empty.**
-/

namespace KuzuEventBus

namespace Engine

open InMemoryGraphStore

/-- `Engine::create_branch`. -/
def createBranch (codec : ManifestCodec) (fs : FileSystem) (dataDir : FilePath) (db : DatabaseName)
    (source newBranch : String) (at' : Option Timestamp) (nowMs : Timestamp) (tmpTs : ℕ) :
    Except Fault FileSystem := do
  let sourceBr ← BranchName.tryFrom source
  let newBr ← BranchName.tryFrom newBranch
  FsBackend.createBranch codec fs dataDir db sourceBr newBr at' nowMs tmpTs

/-- `Engine::flush_branch`. -/
def flushBranch (serde : Serde) (dataDir : FilePath) (db : DatabaseName) (branch : BranchName)
    (fs : FileSystem) (store : InMemoryGraphStore) : FileSystem :=
  store.flushToSegments serde fs dataDir db branch

/-- `Engine::load_branch`. -/
def loadBranch (serde : Serde) (fs : FileSystem) (dataDir : FilePath) (db : DatabaseName)
    (branch : BranchName) : Except Fault InMemoryGraphStore :=
  loadFromSegments serde fs dataDir db branch

theorem createBranch_asStr (codec : ManifestCodec) (fs : FileSystem) (dataDir : FilePath)
    (db : DatabaseName) (a b : BranchName) (at' : Option Timestamp) (nowMs : Timestamp)
    (tmpTs : ℕ) : createBranch codec fs dataDir db a.asStr b.asStr at' nowMs tmpTs =
      FsBackend.createBranch codec fs dataDir db a b at' nowMs tmpTs := by
  rw [createBranch, BranchName.tryFrom_asStr, BranchName.tryFrom_asStr]
  rfl

variable {serde : Serde} {codec : ManifestCodec} {fs fs' : FileSystem} {dataDir : FilePath}
  {db : DatabaseName} {a b : BranchName} {s : InMemoryGraphStore}

theorem branchDir_append_inj {xs ys : FilePath}
    (h : branchDir dataDir db a ++ xs = branchDir dataDir db b ++ ys) : a = b := by
  simp only [branchDir, List.append_assoc, List.append_cancel_left_eq, List.cons_append,
    List.nil_append, List.cons.injEq, true_and] at h
  exact BranchName.ext_asStr h.1

/-- A file of another branch is not touched by a flush. -/
theorem readFile_flushBranch_of_ne (hne : a ≠ b) (rest : FilePath) :
    (flushBranch serde dataDir db a fs s).readFile (branchDir dataDir db b ++ rest) =
      fs.readFile (branchDir dataDir db b ++ rest) := by
  apply FileSystem.runOps_agree
  intro op hop heq
  rcases List.mem_append.mp hop with hop | hop
  · rw [FileSystem.path_of_mem_rewriteOps hop, nodesPath, segmentsDir, List.append_assoc] at heq
    exact hne (branchDir_append_inj heq)
  · rw [FileSystem.path_of_mem_rewriteOps hop, edgesPath, segmentsDir, List.append_assoc] at heq
    exact hne (branchDir_append_inj heq)

/-- **A flush to one branch leaves the others alone.** -/
theorem loadBranch_flushBranch_of_ne (hne : a ≠ b) :
    loadBranch serde (flushBranch serde dataDir db a fs s) dataDir db b =
      loadBranch serde fs dataDir db b := by
  apply loadFromSegments_congr
  · rw [nodesPath, segmentsDir, List.append_assoc]
    exact readFile_flushBranch_of_ne hne _
  · rw [edgesPath, segmentsDir, List.append_assoc]
    exact readFile_flushBranch_of_ne hne _

/-- Any number of flushes to one branch leave the others alone. -/
theorem loadBranch_flushes_of_ne (hne : a ≠ b) (ts : List InMemoryGraphStore) :
    ∀ fs : FileSystem, loadBranch serde (ts.foldl (flushBranch serde dataDir db a) fs)
      dataDir db b = loadBranch serde fs dataDir db b := by
  induction ts with
  | nil => intro fs; rfl
  | cons t ts ih =>
    intro fs
    rw [List.foldl_cons, ih, loadBranch_flushBranch_of_ne hne]

/-- A branch without files loads as the empty store. -/
theorem loadBranch_of_no_files
    (hnone : ∀ rest, fs.readFile (branchDir dataDir db b ++ rest) = none) :
    loadBranch serde fs dataDir db b = .ok new := by
  have hnodes : fs.readFile (nodesPath dataDir db b) = none := by
    rw [nodesPath, segmentsDir, List.append_assoc]; exact hnone _
  have hedges : fs.readFile (edgesPath dataDir db b) = none := by
    rw [edgesPath, segmentsDir, List.append_assoc]; exact hnone _
  rw [loadBranch, loadFromSegments, hnodes, hedges]
  rfl

/-- **A new branch loads as the empty store**, whatever the branch it was created from holds. -/
theorem loadBranch_createBranch {at' : Option Timestamp} {nowMs : Timestamp} {tmpTs : ℕ}
    (hnone : ∀ rest, fs.readFile (branchDir dataDir db b ++ rest) = none)
    (hcreate : createBranch codec fs dataDir db a.asStr b.asStr at' nowMs tmpTs = .ok fs') :
    loadBranch serde fs' dataDir db b = .ok new := by
  rw [createBranch_asStr] at hcreate
  have hold : loadBranch serde fs dataDir db b = .ok new := loadBranch_of_no_files hnone
  rw [← hold]
  -- the segment files lie in a directory inside the branch's, the manifest does not
  apply loadFromSegments_congr
  · refine FsBackend.readFile_createBranch hcreate fun name h => ?_
    rw [nodesPath, segmentsDir, List.append_assoc] at h
    simpa using List.append_cancel_left h
  · refine FsBackend.readFile_createBranch hcreate fun name h => ?_
    rw [edgesPath, segmentsDir, List.append_assoc] at h
    simpa using List.append_cancel_left h

/-- **A new branch has the contents of the branch it was created from exactly when these are
empty.**  Later flushes to that branch never change it. -/
theorem createBranch_contents_iff {nowMs : Timestamp} {tmpTs : ℕ}
    (hnone : ∀ rest, (flushBranch serde dataDir db a fs s).readFile
      (branchDir dataDir db b ++ rest) = none)
    (hcreate : createBranch codec (flushBranch serde dataDir db a fs s) dataDir db a.asStr b.asStr
      none nowMs tmpTs = .ok fs') :
    ((∃ u, loadBranch serde fs' dataDir db b = .ok u ∧ SameGraph s u) ∧
        ∀ ts : List InMemoryGraphStore,
          loadBranch serde (ts.foldl (flushBranch serde dataDir db a) fs') dataDir db b =
            loadBranch serde fs' dataDir db b) ↔
      s.nodes = ∅ ∧ s.edges = ∅ := by
  have hne : a ≠ b := by
    rintro rfl
    have hfile : (flushToSegments serde fs dataDir db a s).readFile (nodesPath dataDir db a) =
        some (serde.toVec s.nodesJson) := readFile_flushToSegments_nodes
    rw [nodesPath, segmentsDir, List.append_assoc] at hfile
    have hno := hnone (["segments"] ++ ["nodes.seg"])
    rw [flushBranch, hfile] at hno
    cases hno
  have hload : loadBranch serde fs' dataDir db b = .ok new := loadBranch_createBranch hnone hcreate
  constructor
  · rintro ⟨⟨u, hu, hsame⟩, -⟩
    rw [hload] at hu
    cases hu
    exact ⟨AList.eq_empty_of_lookup fun id => hsame.nodes.symm.lookup_eq_none rfl,
      AList.eq_empty_of_lookup fun id => hsame.edges.symm.lookup_eq_none rfl⟩
  · rintro ⟨hnodes, hedges⟩
    refine ⟨⟨new, hload, ?_, ?_⟩, fun ts => loadBranch_flushes_of_ne hne ts fs'⟩
    · rw [hnodes]; exact fun _ => .none
    · rw [hedges]; exact fun _ => .none

/-- The branches and the JSON text of the sample. -/
def sampleDb : DatabaseName := ⟨"db", by decide⟩

def main : BranchName := ⟨"main", by decide⟩

def dev : BranchName := ⟨"dev", by decide⟩

def sampleSerde : Serde := .ofDocs [sample.nodesJson, sample.edgesJson]

/-- The sample store on the branch `main`. -/
def sampleFiles : FileSystem := flushBranch sampleSerde [] sampleDb main ∅ sample

theorem main_ne_dev : main ≠ dev := fun h => absurd (congrArg BranchName.asStr h) (by decide)

theorem sampleFiles_dev (rest : FilePath) :
    sampleFiles.readFile (branchDir [] sampleDb dev ++ rest) = none :=
  readFile_flushBranch_of_ne main_ne_dev rest

theorem createBranch_sampleFiles :
    ∃ fs', createBranch (.ofManifests []) sampleFiles [] sampleDb "main" "dev" none 1700000000000
      1700000000000 = .ok fs' :=
  ⟨_, (createBranch_asStr _ _ _ _ main dev _ _ _).trans
    (FsBackend.createBranch_of_no_manifests _ _ (by decide +kernel))⟩

/-- A branch `dev` created from the branch `main` with the sample store. -/
theorem createBranch_contents_iff_sample :
    ∃ fs', createBranch (.ofManifests []) sampleFiles [] sampleDb "main" "dev" none 1700000000000
        1700000000000 = .ok fs' ∧
      (((∃ u, loadBranch sampleSerde fs' [] sampleDb dev = .ok u ∧ SameGraph sample u) ∧
          ∀ ts : List InMemoryGraphStore,
            loadBranch sampleSerde (ts.foldl (flushBranch sampleSerde [] sampleDb main) fs') []
                sampleDb dev = loadBranch sampleSerde fs' [] sampleDb dev) ↔
        sample.nodes = ∅ ∧ sample.edges = ∅) := by
  obtain ⟨fs', hcreate⟩ := createBranch_sampleFiles
  exact ⟨fs', hcreate, createBranch_contents_iff (a := main) (b := dev) sampleFiles_dev hcreate⟩

/-- The branch `dev` of the sample loads as the empty store. -/
theorem loadBranch_createBranch_sample :
    ∃ fs', createBranch (.ofManifests []) sampleFiles [] sampleDb "main" "dev" none 1700000000000
        1700000000000 = .ok fs' ∧
      loadBranch sampleSerde fs' [] sampleDb dev = .ok new ∧ ¬ SameGraph sample new := by
  obtain ⟨fs', hcreate⟩ := createBranch_sampleFiles
  refine ⟨fs', hcreate, loadBranch_createBranch (a := main) sampleFiles_dev hcreate, fun h => ?_⟩
  obtain ⟨n, hn, -⟩ := h.nodes.lookup_left (k := 2)
    (x := ⟨2, ["B"], AList.insert "q" (.string "x") ∅⟩) rfl
  cases hn

end Engine

end KuzuEventBus
