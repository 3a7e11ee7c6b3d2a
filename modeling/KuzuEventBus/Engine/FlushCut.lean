import KuzuEventBus.Engine.Persistence

/-!
# Interrupted flushes

`flush_to_segments` rewrites `nodes.seg` and `edges.seg` in place, one after the
other.  What a later load finds after a flush of `t` over a flush of `s` was cut
short depends on the two files only: a file cut inside a write does not parse,
and a cut between the two files leaves the nodes of `t` beside the edges of `s`.

## Main definitions

* `Serde.PrefixFree` — a text cut short does not parse.
* `SegmentsAre` — the two files hold the nodes of one store and the edges of another.

## Main results

* `cutAt_flushOps` — what an interrupted flush leaves.
* `loadFromSegments_cut_iff` — **exactly when a load after an interrupted flush returns the
  old or the new graph.**
-/

namespace KuzuEventBus

/-- No text of `j` cut short parses. -/
def Serde.PrefixFree (serde : Serde) (j : Json) : Prop :=
  ∀ pre, pre <+: serde.toVec j → pre ≠ serde.toVec j → serde.fromSlice pre = none

namespace InMemoryGraphStore

open FileSystem

/-- `nodes.seg` holds the nodes of `x`, and `edges.seg` the edges of `y`. -/
def SegmentsAre (serde : Serde) (fs : FileSystem) (root : FilePath) (db : DatabaseName)
    (branch : BranchName) (x y : InMemoryGraphStore) : Prop :=
  fs.readFile (nodesPath root db branch) = some (serde.toVec x.nodesJson) ∧
    fs.readFile (edgesPath root db branch) = some (serde.toVec y.edgesJson)

/-- The two stores have the same nodes as a segment keeps them. -/
def SameStoredNodes (s t : InMemoryGraphStore) : Prop :=
  s.nodes.Related (fun n n' => SameNode n.stored n'.stored) t.nodes

/-- The two stores have the same edges as a segment keeps them. -/
def SameStoredEdges (s t : InMemoryGraphStore) : Prop :=
  s.edges.Related (fun e e' => SameEdge e.stored e'.stored) t.edges

variable {serde : Serde} {fs fs' : FileSystem} {root : FilePath} {db : DatabaseName}
  {branch : BranchName} {s t u x y : InMemoryGraphStore}

theorem segmentsAre_flushToSegments :
    SegmentsAre serde (flushToSegments serde fs root db branch s) root db branch s s :=
  ⟨readFile_flushToSegments_nodes, readFile_flushToSegments_edges⟩

/-- **What an interrupted flush leaves**: the old files, a prefix of the new nodes beside the
old edges, or the new nodes beside a prefix of the new edges. -/
theorem cutAt_flushOps (h : SegmentsAre serde fs root db branch s s)
    (hcut : CutAt (flushOps serde root db branch t) fs fs') :
    SegmentsAre serde fs' root db branch s s ∨
      (∃ pre, pre <+: serde.toVec t.nodesJson ∧
        fs'.readFile (nodesPath root db branch) = some pre ∧
        fs'.readFile (edgesPath root db branch) = some (serde.toVec s.edgesJson)) ∨
      (fs'.readFile (nodesPath root db branch) = some (serde.toVec t.nodesJson) ∧
        ∃ pre, pre <+: serde.toVec t.edgesJson ∧
          fs'.readFile (edgesPath root db branch) = some pre) := by
  have hne : nodesPath root db branch ≠ edgesPath root db branch := nodesPath_ne_edgesPath
  rcases cutAt_append hcut with hcut | hcut
  · -- the edges are not touched yet
    have hedges : fs'.readFile (edgesPath root db branch) = some (serde.toVec s.edgesJson) := by
      rw [hcut.agree fun op hop => by rw [path_of_mem_rewriteOps hop]; exact hne]
      exact h.2
    rcases hcut.readFile_rewriteOps with hnodes | ⟨pre, hpre, hnodes⟩
    · exact .inl ⟨hnodes.trans h.1, hedges⟩
    · exact .inr (.inl ⟨pre, hpre, hnodes, hedges⟩)
  · -- the nodes are complete
    have hnodes : fs'.readFile (nodesPath root db branch) = some (serde.toVec t.nodesJson) := by
      rw [hcut.agree fun op hop => by rw [path_of_mem_rewriteOps hop]; exact hne.symm,
        readFile_runOps_rewriteOps, if_pos rfl]
    rcases hcut.readFile_rewriteOps with hedges | ⟨pre, hpre, hedges⟩
    · rw [readFile_runOps_rewriteOps, if_neg hne.symm] at hedges
      exact .inr (.inl ⟨_, List.prefix_rfl, hnodes, hedges.trans h.2⟩)
    · exact .inr (.inr ⟨hnodes, pre, hpre, hedges⟩)

/-! ### What a load finds -/

/-- A nodes file that does not parse fails the load. -/
theorem loadFromSegments_nodes_error {data : Bytes}
    (hnodes : fs.readFile (nodesPath root db branch) = some data)
    (hparse : serde.fromSlice data = none) : loadFromSegments serde fs root db branch =
      .error (.error (.storageIo "parse nodes.seg")) := by
  rw [loadFromSegments, hnodes, loadIfExists, loadNodesSegment, hparse]
  rfl

/-- An edges file that does not parse fails the load. -/
theorem loadFromSegments_edges_error {data : Bytes} (hx : x.Keyed)
    (hround : serde.RoundTrips x.nodesJson)
    (hnodes : fs.readFile (nodesPath root db branch) = some (serde.toVec x.nodesJson))
    (hedges : fs.readFile (edgesPath root db branch) = some data)
    (hparse : serde.fromSlice data = none) : loadFromSegments serde fs root db branch =
      .error (.error (.storageIo "parse edges.seg")) := by
  obtain ⟨s₁, hload, -, -, -⟩ := loadNodesSegment_nodesJson hx hround wf_new rfl
  rw [loadFromSegments, hnodes, hedges, loadIfExists, hload]
  change s₁.loadEdgesSegment serde data = _
  rw [loadEdgesSegment, hparse]

/-- Two stores kept as the same nodes have the same nodes as a segment keeps them. -/
theorem sameStoredNodes_of_stored (hs : StoredNodes s.nodes u.nodes)
    (ht : StoredNodes t.nodes u.nodes) : SameStoredNodes s t :=
  AList.Related.trans hs (AList.Related.symm ht) fun _ _ _ h h' => h.trans h'.symm

/-- Two stores kept as the same edges have the same edges as a segment keeps them. -/
theorem sameStoredEdges_of_stored (hs : StoredEdges s.edges u.edges)
    (ht : StoredEdges t.edges u.edges) : SameStoredEdges s t :=
  AList.Related.trans hs (AList.Related.symm ht) fun _ _ _ h h' => h.trans h'.symm

theorem SameStoredNodes.stored (h : SameStoredNodes s t) (ht : StoredNodes t.nodes u.nodes) :
    StoredNodes s.nodes u.nodes :=
  AList.Related.trans h ht fun _ _ _ h h' => h.trans h'

theorem SameStoredEdges.stored (h : SameStoredEdges s t) (ht : StoredEdges t.edges u.edges) :
    StoredEdges s.edges u.edges :=
  AList.Related.trans h ht fun _ _ _ h h' => h.trans h'

/-- A load of the nodes of `x` and the edges of `y` returns one of two graphs when what it
returns is kept as one of them. -/
theorem load_old_or_new (hx : x.Keyed) (hy : y.Keyed)
    (hsegments : SegmentsAre serde fs root db branch x y) (hroundx : serde.RoundTrips x.nodesJson)
    (hroundy : serde.RoundTrips y.edgesJson)
    (hgraph : ∀ u, StoredNodes x.nodes u.nodes → StoredEdges y.edges u.edges →
      StoredAs s u ∨ StoredAs t u) :
    (∃ u, loadFromSegments serde fs root db branch = .ok u) ∧
      ∀ u, loadFromSegments serde fs root db branch = .ok u → StoredAs s u ∨ StoredAs t u := by
  obtain ⟨u, hload, -, hnodes, hedges⟩ :=
    loadFromSegments_docs hx hy hsegments.1 hsegments.2 hroundx hroundy
  refine ⟨⟨u, hload⟩, fun u' hload' => ?_⟩
  rw [hload] at hload'
  cases hload'
  exact hgraph u hnodes hedges

/-- **Exactly when a load after an interrupted flush returns the old or the new graph**: the
flush of `t` over that of `s` was cut before it touched `nodes.seg`, or after the last byte of
`edges.seg`, or between the two files and the stores differ in the nodes only or in the edges
only. -/
theorem loadFromSegments_cut_iff (hs : s.Keyed) (ht : t.Keyed)
    (hround : ∀ j ∈ [s.nodesJson, s.edgesJson, t.nodesJson, t.edgesJson], serde.RoundTrips j)
    (hinit : ∀ j ∈ [t.nodesJson, t.edgesJson], serde.PrefixFree j)
    (hcut : CutAt (flushOps serde root db branch t)
      (flushToSegments serde fs root db branch s) fs') :
    ((∃ u, loadFromSegments serde fs' root db branch = .ok u) ∧
        ∀ u, loadFromSegments serde fs' root db branch = .ok u → StoredAs s u ∨ StoredAs t u) ↔
      SegmentsAre serde fs' root db branch s s ∨ SegmentsAre serde fs' root db branch t t ∨
        SegmentsAre serde fs' root db branch t s ∧ (SameStoredNodes s t ∨ SameStoredEdges s t) := by
  simp only [List.forall_mem_cons, List.not_mem_nil, false_imp_iff, implies_true, and_true]
    at hround hinit
  obtain ⟨hsn, hse, htn, hte⟩ := hround
  obtain ⟨hpn, hpe⟩ := hinit
  constructor
  · rintro ⟨⟨u, hload⟩, hgraph⟩
    rcases cutAt_flushOps segmentsAre_flushToSegments hcut with
      hold | ⟨pre, hpre, hnodes, hedges⟩ | ⟨hnodes, pre, hpre, hedges⟩
    · exact .inl hold
    · by_cases hfull : pre = serde.toVec t.nodesJson
      · -- cut between the files: what was loaded shows which side agrees
        subst hfull
        obtain ⟨u', hload', -, htu, hsu⟩ := loadFromSegments_docs ht hs hnodes hedges htn hse
        refine .inr (.inr ⟨⟨hnodes, hedges⟩, ?_⟩)
        rcases hgraph u' hload' with h | h
        · exact .inl (sameStoredNodes_of_stored h.nodes htu)
        · exact .inr (sameStoredEdges_of_stored hsu h.edges)
      · rw [loadFromSegments_nodes_error hnodes (hpn pre hpre hfull)] at hload
        cases hload
    · by_cases hfull : pre = serde.toVec t.edgesJson
      · subst hfull
        exact .inr (.inl ⟨hnodes, hedges⟩)
      · rw [loadFromSegments_edges_error ht htn hnodes hedges (hpe pre hpre hfull)] at hload
        cases hload
  · rintro (hsegments | hsegments | ⟨hsegments, hsame | hsame⟩)
    · exact load_old_or_new hs hs hsegments hsn hse fun u hn he => .inl ⟨hn, he⟩
    · exact load_old_or_new ht ht hsegments htn hte fun u hn he => .inr ⟨hn, he⟩
    · exact load_old_or_new ht hs hsegments htn hse fun u hn he => .inl ⟨hsame.stored hn, he⟩
    · refine load_old_or_new ht hs hsegments htn hse fun u hn he => .inr ⟨hn, ?_⟩
      exact AList.Related.trans (AList.Related.symm hsame) he fun _ _ _ h h' => h.symm.trans h'

/-- `(1:C)`. -/
def oneNode : InMemoryGraphStore := ((new.applyWrites [.node ["C"] ∅]).toOption).getD new

theorem reachable_oneNode : Reachable oneNode := by
  have h : new.applyWrites [.node ["C"] ∅] = .ok oneNode := rfl
  exact Reachable.new.applyWrites h

/-- JSON text for flushes of `twoNodes` and `oneNode`. -/
def cutSerde : Serde :=
  .ofDocs [twoNodes.nodesJson, twoNodes.edgesJson, oneNode.nodesJson, oneNode.edgesJson]

theorem cutSerde_roundTrips : ∀ j ∈ [twoNodes.nodesJson, twoNodes.edgesJson,
    oneNode.nodesJson, oneNode.edgesJson], cutSerde.RoundTrips j := by
  unfold Serde.RoundTrips
  decide +kernel

theorem cutSerde_prefixFree :
    ∀ j ∈ [oneNode.nodesJson, oneNode.edgesJson], cutSerde.PrefixFree j := by
  have h : ∀ j ∈ [oneNode.nodesJson, oneNode.edgesJson], ∀ pre ∈ (cutSerde.toVec j).inits,
      pre ≠ cutSerde.toVec j → cutSerde.fromSlice pre = none := by
    decide +kernel
  exact fun j hj pre hpre => h j hj pre ((List.mem_inits _ _).mpr hpre)

/-- The flush of `oneNode` over that of `twoNodes`, cut between the two files. -/
theorem loadFromSegments_cut_iff_oneNode :
    let db : DatabaseName := ⟨"db", by decide⟩
    let branch : BranchName := ⟨"main", by decide⟩
    let fs' := runOps (flushToSegments cutSerde ∅ [] db branch twoNodes)
      (rewriteOps (nodesPath [] db branch) (cutSerde.toVec oneNode.nodesJson))
    ((∃ u, loadFromSegments cutSerde fs' [] db branch = .ok u) ∧
        ∀ u, loadFromSegments cutSerde fs' [] db branch = .ok u →
          StoredAs twoNodes u ∨ StoredAs oneNode u) ↔
      SegmentsAre cutSerde fs' [] db branch twoNodes twoNodes ∨
        SegmentsAre cutSerde fs' [] db branch oneNode oneNode ∨
        SegmentsAre cutSerde fs' [] db branch oneNode twoNodes ∧
          (SameStoredNodes twoNodes oneNode ∨ SameStoredEdges twoNodes oneNode) :=
  loadFromSegments_cut_iff reachable_twoNodes.wf.toKeyed reachable_oneNode.wf.toKeyed
    cutSerde_roundTrips cutSerde_prefixFree (.step (.step (.step (.stop _ _))))

/-- Two interruptions of the flush of `oneNode` over that of `twoNodes`.  After the first
`File::create` the load fails; between the two files it returns node 1 of the new store
beside the edge of the old one, whose end is gone. -/
theorem loadFromSegments_cut_neither :
    let db : DatabaseName := ⟨"db", by decide⟩
    let branch : BranchName := ⟨"main", by decide⟩
    let fs := flushToSegments cutSerde ∅ [] db branch twoNodes
    let ops := flushOps cutSerde [] db branch oneNode
    (∃ fs', CutAt ops fs fs' ∧ loadFromSegments cutSerde fs' [] db branch =
      .error (.error (.storageIo "parse nodes.seg"))) ∧
    ∃ fs' u, CutAt ops fs fs' ∧ loadFromSegments cutSerde fs' [] db branch = .ok u ∧
      ¬ SameGraph twoNodes u ∧ ¬ SameGraph oneNode u := by
  intro db branch fs ops
  refine ⟨⟨fs.create (nodesPath [] db branch), .step (.stop _ _),
    loadFromSegments_nodes_error (by rw [readFile_create, if_pos rfl]) (by decide +kernel)⟩, ?_⟩
  let fs' := runOps fs (rewriteOps (nodesPath [] db branch) (cutSerde.toVec oneNode.nodesJson))
  have hnodes : fs'.readFile (nodesPath [] db branch) =
      some (cutSerde.toVec oneNode.nodesJson) := by
    rw [readFile_runOps_rewriteOps, if_pos rfl]
  have hedges : fs'.readFile (edgesPath [] db branch) =
      some (cutSerde.toVec twoNodes.edgesJson) := by
    rw [readFile_runOps_rewriteOps, if_neg nodesPath_ne_edgesPath.symm]
    exact readFile_flushToSegments_edges
  obtain ⟨u, hload, -, hn, he⟩ := loadFromSegments_docs reachable_oneNode.wf.toKeyed
    reachable_twoNodes.wf.toKeyed hnodes hedges
    (cutSerde_roundTrips _ (by simp)) (cutSerde_roundTrips _ (by simp))
  refine ⟨fs', u, .step (.step (.step (.stop _ _))), hload, fun hold => ?_, fun hnew => ?_⟩
  · -- node 2 is gone
    have hnone : u.nodes.lookup 2 = none := hn.lookup_eq_none rfl
    obtain ⟨n, hn2, -⟩ := hold.nodes.lookup_left (k := 2) (x := ⟨2, ["B"], ∅⟩) rfl
    rw [hnone] at hn2
    cases hn2
  · -- the edge is still there
    have hnone : u.edges.lookup 1 = none := hnew.edges.lookup_eq_none rfl
    obtain ⟨e, he1, -⟩ := AList.Related.lookup_left he (k := 1) (x := ⟨1, 1, 2, "R", ∅⟩) rfl
    rw [hnone] at he1
    cases he1

end InMemoryGraphStore

end KuzuEventBus
