import KuzuEventBus.Engine.Persistence

/-!
# Graphs built, flushed and loaded

Runs of the public operations of the store: `add_node` with any labels, `add_edge`
with any ids, and loading a store that was flushed.  The indexes say exactly what
the nodes and edges say in every state of such a run, but what they say is what the
caller passed: a label given twice to one node lists the node twice, and an edge to
a node that is not there is stored and listed at its other end.

## Main definitions

* `GraphStep`, `GraphRun` — the operations, and the stores a sequence of them leads to.
* `labelLists` — the label lists passed to `add_node`.
* `EndsPresent` — an edge is added between nodes of the store.
* `Dual` — the two adjacency indexes agree, and every edge has both its ends.

## Main results

* `GraphRun.wf` — the stores of a run are well formed.
* `scanByLabel_perm_iff` — when the label index is the full scan.
* `graphRun_dual_iff` — when the adjacency indexes are dual.
-/

namespace KuzuEventBus

namespace InMemoryGraphStore

/-! ### Runs -/

/-- An operation on the store: a write, or flushing it and loading what was flushed. -/
inductive GraphStep where
  | write (w : Write)
  | reload

/-- The stores a sequence of operations leads to from the empty one, where each write is
allowed by `allowed` in the state it is made in; a hash map may iterate in another order at
any time. -/
inductive GraphRun (serde : Serde) (allowed : InMemoryGraphStore → Write → Prop) :
    List GraphStep → InMemoryGraphStore → Prop
  | new : GraphRun serde allowed [] new
  | write {steps : List GraphStep} {s s' : InMemoryGraphStore} {w : Write}
      (h : GraphRun serde allowed steps s) (hallowed : allowed s w)
      (hwrite : s.applyWrite w = .ok s') : GraphRun serde allowed (steps ++ [.write w]) s'
  | reload {steps : List GraphStep} {s s' : InMemoryGraphStore} {fs : FileSystem}
      {root : FilePath} {db : DatabaseName} {branch : BranchName}
      (h : GraphRun serde allowed steps s) (hnodes : serde.RoundTrips s.nodesJson)
      (hedges : serde.RoundTrips s.edgesJson)
      (hload : loadFromSegments serde (flushToSegments serde fs root db branch s) root db branch =
        .ok s') : GraphRun serde allowed (steps ++ [.reload]) s'
  | reorder {steps : List GraphStep} {s s' : InMemoryGraphStore}
      (h : GraphRun serde allowed steps s) (hsame : SameStore s s') :
      GraphRun serde allowed steps s'

variable {serde : Serde} {allowed : InMemoryGraphStore → Write → Prop} {steps : List GraphStep}
  {s s' : InMemoryGraphStore}

theorem Wf.applyWrite (h : s.Wf) {w : Write} (hw : s.applyWrite w = .ok s') : s'.Wf := by
  cases w with
  | node labels ps =>
    obtain ⟨⟨id, s₁⟩, hadd, rfl⟩ := map_eq_ok hw
    exact h.addNode hadd
  | edge a b edgeType ps =>
    obtain ⟨⟨id, s₁⟩, hadd, rfl⟩ := map_eq_ok hw
    exact h.addEdge hadd

/-- What is loaded after a flush is well formed, and holds the graph as a segment keeps it. -/
theorem Wf.reload (h : s.Wf) {fs : FileSystem} {root : FilePath} {db : DatabaseName}
    {branch : BranchName} (hnodes : serde.RoundTrips s.nodesJson)
    (hedges : serde.RoundTrips s.edgesJson)
    (hload : loadFromSegments serde (flushToSegments serde fs root db branch s) root db branch =
      .ok s') : s'.Wf ∧ StoredAs s s' := by
  obtain ⟨t, hload', hwf, hstored⟩ := h.toKeyed.load_flush hnodes hedges
  rw [hload] at hload'
  cases hload'
  exact ⟨hwf, hstored⟩

/-- **The stores of a run are well formed**, whatever the caller passes. -/
theorem GraphRun.wf (h : GraphRun serde allowed steps s) : s.Wf := by
  induction h with
  | new => exact wf_new
  | write _ _ hwrite ih => exact ih.applyWrite hwrite
  | reload _ hnodes hedges hload ih => exact (ih.reload hnodes hedges hload).1
  | reorder _ hsame ih => exact ih.sameStore hsame

/-- What a run leads to can be flushed and loaded. -/
theorem GraphRun.exists_reload (h : GraphRun serde allowed steps s)
    (hnodes : serde.RoundTrips s.nodesJson) (hedges : serde.RoundTrips s.edgesJson)
    (fs : FileSystem) (root : FilePath) (db : DatabaseName) (branch : BranchName) :
    ∃ s', loadFromSegments serde (flushToSegments serde fs root db branch s) root db branch =
        .ok s' ∧ GraphRun serde allowed (steps ++ [.reload]) s' := by
  obtain ⟨s', hload, -⟩ : ∃ s', loadFromSegments serde (flushToSegments serde fs root db branch s)
      root db branch = .ok s' ∧ s'.Wf ∧ StoredAs s s' := h.wf.toKeyed.load_flush hnodes hedges
  exact ⟨s', hload, h.reload hnodes hedges hload⟩

/-! ### The label index -/

/-- The label lists passed to `add_node`. -/
def labelLists (steps : List GraphStep) : List (List String) :=
  steps.filterMap fun
    | .write (.node labels _) => some labels
    | _ => none

@[simp] theorem labelLists_append (steps steps' : List GraphStep) :
    labelLists (steps ++ steps') = labelLists steps ++ labelLists steps' :=
  List.filterMap_append

/-- All nodes of a map have labels with the property `P`. -/
def AllLabels (P : List String → Prop) (nodes : HashMap NodeId Node) : Prop :=
  ∀ id n, nodes.lookup id = some n → P n.labels

theorem allLabels_insert {P : List String → Prop} {nodes : HashMap NodeId Node} {n : Node}
    (hfresh : nodes.lookup n.id = none) :
    AllLabels P (nodes.insert n.id n) ↔ AllLabels P nodes ∧ P n.labels := by
  unfold AllLabels
  simp only [AList.lookup_insert_eq]
  constructor
  · intro h
    refine ⟨fun id m hm => h id m ?_, h n.id n (if_pos rfl)⟩
    rw [if_neg]
    · exact hm
    · rintro rfl
      rw [hfresh] at hm
      cases hm
  · rintro ⟨h, hn⟩ id m hm
    split at hm
    · cases hm
      exact hn
    · exact h id m hm

/-- Maps whose nodes have the same labels. -/
theorem allLabels_related {P : List String → Prop} {R : Node → Node → Prop}
    (hR : ∀ n n', R n n' → n.labels = n'.labels) {m m' : HashMap NodeId Node}
    (h : m.Related R m') : AllLabels P m ↔ AllLabels P m' := by
  constructor
  · intro hall id n' hn'
    obtain ⟨n, hn, hsame⟩ := h.lookup_right hn'
    rw [← hR n n' hsame]
    exact hall id n hn
  · intro hall id n hn
    obtain ⟨n', hn', hsame⟩ := h.lookup_left hn
    rw [hR n n' hsame]
    exact hall id n' hn'

/-- **The nodes of a run have the labels that were passed.** -/
theorem GraphRun.allLabels_iff (h : GraphRun serde allowed steps s) (P : List String → Prop) :
    AllLabels P s.nodes ↔ ∀ labels ∈ labelLists steps, P labels := by
  induction h with
  | new =>
    refine iff_of_true (fun id n hn => ?_) (by simp [labelLists])
    cases hn
  | @write steps s s' w h _ hwrite ih =>
    cases w with
    | node labels ps =>
      obtain ⟨⟨id, s₁⟩, hadd, rfl⟩ := map_eq_ok hwrite
      obtain ⟨rfl, -, rfl⟩ := addNode_eq_ok hadd
      have hinsert := allLabels_insert (P := P) (n := ⟨s.nextNodeId, labels, ps⟩)
        h.wf.nextNodeId_fresh
      rw [hinsert, ih, labelLists_append, List.forall_mem_append]
      simp [labelLists]
    | edge a b edgeType ps =>
      obtain ⟨⟨id, s₁⟩, hadd, rfl⟩ := map_eq_ok hwrite
      obtain ⟨rfl, -, rfl⟩ := addEdge_eq_ok hadd
      rw [ih, labelLists_append]
      simp [labelLists]
  | reload h hnodes hedges hload ih =>
    have hlabels := allLabels_related (P := P) (fun _ _ hsame => hsame.labels)
      (h.wf.reload hnodes hedges hload).2.nodes
    rw [← hlabels, ih, labelLists_append]
    simp [labelLists]
  | reorder h hsame ih =>
    rw [← allLabels_related (fun _ _ h => h.labels) hsame.graph.nodes, ih]

/-- The ids of the nodes the index finds are the ids it lists. -/
theorem Wf.map_id_scanByLabel (h : s.Wf) (label : String) :
    (s.scanByLabel label).map Node.id = s.labelIndex.listAt label := by
  rw [scanByLabel, List.map_filterMap]
  have hid : ∀ id ∈ s.labelIndex.listAt label,
      (s.nodes.lookup id).map Node.id = some id := by
    intro id hid
    rw [← List.count_pos_iff, h.label_count, labelCount] at hid
    cases hn : s.nodes.lookup id with
    | none => simp [hn] at hid
    | some n => rw [Option.map_some, h.node_id hn]
  rw [List.filterMap_congr hid, List.filterMap_some]

theorem Wf.nodup_map_id_scanAll (h : s.Wf) : (s.scanAll.map Node.id).Nodup :=
  AList.nodup_values_key fun _ _ hn => h.node_id hn

/-- **The label index is the full scan exactly when no node was given the label twice**: then
and only then does it find the nodes that carry the label, each once. -/
theorem scanByLabel_perm_iff (h : GraphRun serde (fun _ _ => True) steps s) (label : String) :
    (s.scanByLabel label).Perm (s.scanAll.filter fun n => label ∈ n.labels) ↔
      ∀ labels ∈ labelLists steps, labels.count label ≤ 1 := by
  have hwf := h.wf
  rw [← h.allLabels_iff fun labels => labels.count label ≤ 1]
  constructor
  · intro hperm id n hn
    -- the index lists an id as often as the node carries the label
    have hids := (hperm.map Node.id).count_eq id
    rw [hwf.map_id_scanByLabel, hwf.label_count, labelCount, hn] at hids
    have hsub : ((s.scanAll.filter fun n => label ∈ n.labels).map Node.id).Sublist
        (s.scanAll.map Node.id) := List.filter_sublist.map _
    have hle := List.nodup_iff_count_le_one.mp (hsub.nodup hwf.nodup_map_id_scanAll) id
    simpa [← hids] using hle
  · intro hall
    have hnodup : (s.scanByLabel label).Nodup := by
      refine .of_map Node.id ?_
      rw [hwf.map_id_scanByLabel, List.nodup_iff_count_le_one]
      intro id
      rw [hwf.label_count, labelCount]
      cases hn : s.nodes.lookup id with
      | none => simp
      | some n => exact hall id n hn
    rw [List.perm_ext_iff_of_nodup hnodup (hwf.nodup_map_id_scanAll.of_map.filter _)]
    intro n
    rw [hwf.mem_scanByLabel, List.mem_filter, hwf.mem_scanAll, decide_eq_true_eq]

/-- The store of a node with these labels. -/
def labelledNode (labels : List String) : InMemoryGraphStore :=
  ((new.applyWrite (.node labels ∅)).toOption).getD new

theorem graphRun_labelledNode {labels : List String}
    (h : new.applyWrite (.node labels ∅) = .ok (labelledNode labels)) :
    GraphRun serde (fun _ _ => True) [.write (.node labels ∅)] (labelledNode labels) := by
  rw [← List.nil_append [GraphStep.write (.node labels ∅)]]
  exact .write .new trivial h

/-- A node of two labels that is flushed and loaded. -/
theorem scanByLabel_perm_reload :
    ∃ serde s, GraphRun serde (fun _ _ => True) [.write (.node ["A", "B"] ∅), .reload] s ∧
      (s.scanByLabel "A").Perm (s.scanAll.filter fun n => "A" ∈ n.labels) := by
  let serde := Serde.ofDocs
    [(labelledNode ["A", "B"]).nodesJson, (labelledNode ["A", "B"]).edgesJson]
  have hrun : GraphRun serde (fun _ _ => True) [.write (.node ["A", "B"] ∅)]
      (labelledNode ["A", "B"]) := graphRun_labelledNode rfl
  have hnodes : serde.RoundTrips (labelledNode ["A", "B"]).nodesJson := by
    unfold Serde.RoundTrips
    decide +kernel
  have hedges : serde.RoundTrips (labelledNode ["A", "B"]).edgesJson := by
    unfold Serde.RoundTrips
    decide +kernel
  obtain ⟨s, -, hreload⟩ := hrun.exists_reload hnodes hedges ∅ [] ⟨"db", by decide⟩
    ⟨"main", by decide⟩
  exact ⟨serde, s, hreload, (scanByLabel_perm_iff hreload "A").mpr (by decide)⟩

/-- A node that is given the label `A` twice is found twice. -/
theorem scanByLabel_repeated :
    ∃ serde s, GraphRun serde (fun _ _ => True) [.write (.node ["A", "A"] ∅)] s ∧
      (s.scanByLabel "A").map Node.id = [1, 1] ∧ s.scanAll.map Node.id = [1] ∧
      ¬ (s.scanByLabel "A").Perm (s.scanAll.filter fun n => "A" ∈ n.labels) := by
  refine ⟨.ofDocs [], labelledNode ["A", "A"], graphRun_labelledNode rfl, rfl, rfl, fun hperm => ?_⟩
  have hlength := hperm.length_eq
  exact absurd hlength (by decide)

/-! ### The adjacency indexes -/

/-- An edge is added between nodes of the store. -/
def EndsPresent (s : InMemoryGraphStore) : Write → Prop
  | .node _ _ => True
  | .edge a b _ _ => a ∈ s.nodes ∧ b ∈ s.nodes

/-- The neighbours over outgoing edges are those over incoming edges seen from the other end,
each listed once, and every edge has both its ends in the store. -/
structure Dual (s : InMemoryGraphStore) : Prop where
  agree : ∀ a ∈ s.scanAll, ∀ b ∈ s.scanAll, ∀ e edgeType,
    (e, b) ∈ s.getNeighbors a.id edgeType ↔ (e, a) ∈ s.getNeighborsIncoming b.id edgeType
  out_once : ∀ a edgeType, (s.getNeighbors a edgeType).Nodup
  in_once : ∀ a edgeType, (s.getNeighborsIncoming a edgeType).Nodup
  ends : ∀ id e, s.edges.lookup id = some e → e.fromNode ∈ s.nodes ∧ e.toNode ∈ s.nodes

/-- What the loop over an adjacency list finds. -/
theorem Wf.mem_neighborsVia_iff (h : s.Wf) {adjacency : HashMap NodeId (List EdgeId)}
    {own other : Edge → NodeId} (hcount : ∀ a id,
      (adjacency.listAt a).count id = s.endCount own a id)
    {a : NodeId} {edgeType : Option String} {e : Edge} {n : Node} :
    (e, n) ∈ s.neighborsVia (adjacency.listAt a) other edgeType ↔
      s.edges.lookup e.id = some e ∧ own e = a ∧ (∀ t ∈ edgeType, e.edgeType = t) ∧
        s.nodes.lookup (other e) = some n := by
  rw [mem_neighborsVia]
  constructor
  · rintro ⟨id, hid, he, htype, hn⟩
    obtain rfl := h.edge_id he
    exact ⟨he, (mem_adjacency hcount he).mp hid, htype, hn⟩
  · rintro ⟨he, ha, htype, hn⟩
    exact ⟨e.id, (mem_adjacency hcount he).mpr ha, he, htype, hn⟩

theorem Wf.nodup_neighborsVia (h : s.Wf) {adjacency : HashMap NodeId (List EdgeId)}
    {own : Edge → NodeId} (hcount : ∀ a id,
      (adjacency.listAt a).count id = s.endCount own a id)
    (a : NodeId) (other : Edge → NodeId) (edgeType : Option String) :
    (s.neighborsVia (adjacency.listAt a) other edgeType).Nodup := by
  have hids : (adjacency.listAt a).Nodup := by
    rw [List.nodup_iff_count_le_one]
    intro id
    rw [hcount, endCount]
    cases s.edges.lookup id with
    | none => simp
    | some e =>
      rw [Option.map_some, Option.getD_some]
      split <;> simp
  -- an id is found again in the edge it leads to
  have hid {id : EdgeId} {en : Edge × Node} (hen : en ∈ (s.edges.lookup id).bind fun edge =>
      if edgeType.all (edge.edgeType == ·) then
        (s.nodes.lookup (other edge)).map fun node => (edge, node)
      else none) : en.1.id = id := by
    obtain ⟨edge, hedge, hen⟩ := Option.bind_eq_some_iff.mp hen
    split at hen
    · obtain ⟨node, -, rfl⟩ := Option.map_eq_some_iff.mp hen
      exact h.edge_id hedge
    · cases hen
  exact hids.filterMap fun id id' en hen hen' => (hid hen).symm.trans (hid hen')

/-- **The indexes of a well-formed store agree**, whatever edges it holds; it is dual exactly
when no end of an edge is missing. -/
theorem Wf.dual_iff (h : s.Wf) : s.Dual ↔
    ∀ id e, s.edges.lookup id = some e → e.fromNode ∈ s.nodes ∧ e.toNode ∈ s.nodes := by
  refine ⟨Dual.ends, fun hends => ⟨?_, ?_, ?_, hends⟩⟩
  · intro a ha b hb e edgeType
    rw [h.mem_scanAll] at ha hb
    rw [getNeighbors, getNeighborsIncoming, h.mem_neighborsVia_iff h.out_count,
      h.mem_neighborsVia_iff h.in_count]
    constructor
    · rintro ⟨he, hfrom, htype, hto⟩
      refine ⟨he, (h.node_id hto).symm, htype, ?_⟩
      rw [hfrom]
      exact ha
    · rintro ⟨he, hto, htype, hfrom⟩
      refine ⟨he, (h.node_id hfrom).symm, htype, ?_⟩
      rw [hto]
      exact hb
  · intro a edgeType
    exact h.nodup_neighborsVia h.out_count a Edge.toNode edgeType
  · intro a edgeType
    exact h.nodup_neighborsVia h.in_count a Edge.fromNode edgeType

/-- A write leaves a dual store dual exactly when it adds no edge with a missing end. -/
theorem Dual.applyWrite_iff (hwf : s.Wf) (h : s.Dual) {w : Write}
    (hw : s.applyWrite w = .ok s') : s'.Dual ↔ s.EndsPresent w := by
  rw [(hwf.applyWrite hw).dual_iff]
  cases w with
  | node labels ps =>
    obtain ⟨⟨id, s₁⟩, hadd, rfl⟩ := map_eq_ok hw
    obtain ⟨rfl, -, rfl⟩ := addNode_eq_ok hadd
    refine iff_of_true (fun id e he => ?_) trivial
    obtain ⟨hfrom, hto⟩ := h.ends id e he
    exact ⟨(AList.mem_insert _).mpr (.inr hfrom), (AList.mem_insert _).mpr (.inr hto)⟩
  | edge a b edgeType ps =>
    obtain ⟨⟨id, s₁⟩, hadd, rfl⟩ := map_eq_ok hw
    obtain ⟨rfl, -, rfl⟩ := addEdge_eq_ok hadd
    simp only [AList.lookup_insert_eq]
    constructor
    · intro hall
      exact hall s.nextEdgeId _ (if_pos rfl)
    · intro hends id e he
      split at he
      · cases he
        exact hends
      · exact h.ends id e he

/-- Flushing and loading keeps the ends of the edges. -/
theorem Dual.reload (h : s.Dual) (hwf' : s'.Wf) (hstored : StoredAs s s') : s'.Dual := by
  rw [hwf'.dual_iff]
  intro id e' he'
  obtain ⟨e, he, hsame⟩ := hstored.edges.lookup_right he'
  obtain ⟨hfrom, hto⟩ := h.ends id e he
  rw [← hsame.fromNode, ← hsame.toNode, ← hstored.nodes.mem_iff, ← hstored.nodes.mem_iff]
  exact ⟨hfrom, hto⟩

theorem Dual.sameStore (h : s.Dual) (hwf' : s'.Wf) (hsame : SameStore s s') : s'.Dual := by
  rw [hwf'.dual_iff]
  intro id e' he'
  obtain ⟨e, he, hedge⟩ := hsame.graph.edges.lookup_right he'
  obtain ⟨hfrom, hto⟩ := h.ends id e he
  rw [← hedge.fromNode, ← hedge.toNode, ← hsame.graph.nodes.mem_iff,
    ← hsame.graph.nodes.mem_iff]
  exact ⟨hfrom, hto⟩

/-- A run that adds edges only between nodes of the store leaves it dual. -/
theorem GraphRun.dual (h : GraphRun serde EndsPresent steps s) : s.Dual := by
  induction h with
  | new =>
    rw [wf_new.dual_iff]
    intro id e he
    cases he
  | write h hends hwrite ih => exact (ih.applyWrite_iff h.wf hwrite).mpr hends
  | reload h hnodes hedges hload ih =>
    obtain ⟨hwf, hstored⟩ := h.wf.reload hnodes hedges hload
    exact ih.reload hwf hstored
  | reorder h hsame ih => exact ih.sameStore (h.wf.sameStore hsame) hsame

/-- **The adjacency indexes are dual as long as edges are added between nodes of the store**:
every state of a run that does so is dual, and the first write that does not leaves a
store that is not. -/
theorem graphRun_dual_iff (h : GraphRun serde EndsPresent steps s) :
    s.Dual ∧ ∀ w s', s.applyWrite w = .ok s' → (s'.Dual ↔ s.EndsPresent w) :=
  ⟨h.dual, fun _ _ hw => h.dual.applyWrite_iff h.wf hw⟩

/-- Two nodes and an edge between them, flushed and loaded. -/
theorem graphRun_dual_reload :
    ∃ serde s, GraphRun serde EndsPresent
      [.write (.node ["A"] ∅), .write (.node ["B"] ∅), .write (.edge 1 2 "R" ∅), .reload] s ∧
      s.Dual := by
  let serde := Serde.ofDocs [twoNodes.nodesJson, twoNodes.edgesJson]
  have hrun : GraphRun serde EndsPresent ([] ++ [.write (.node ["A"] ∅)] ++
      [.write (.node ["B"] ∅)] ++ [.write (.edge 1 2 "R" ∅)]) twoNodes :=
    .write (.write (.write .new trivial rfl) trivial rfl) ⟨by decide, by decide⟩ rfl
  obtain ⟨s, -, hreload⟩ := hrun.exists_reload (by unfold Serde.RoundTrips; decide +kernel)
    (by unfold Serde.RoundTrips; decide +kernel) ∅ [] ⟨"db", by decide⟩ ⟨"main", by decide⟩
  exact ⟨serde, s, hreload, (graphRun_dual_iff hreload).1⟩

/-- The store of a node, and an edge from it to a node that is not there. -/
def danglingEdge : InMemoryGraphStore :=
  ((new.applyWrites [.node ["A"] ∅, .edge 1 5 "R" ∅]).toOption).getD new

theorem graphRun_dangling :
    ∃ serde, GraphRun serde (fun _ _ => True)
      [.write (.node ["A"] ∅), .write (.edge 1 5 "R" ∅)] danglingEdge ∧ ¬ danglingEdge.Dual := by
  refine ⟨.ofDocs [], ?_, fun h => ?_⟩
  · have hrun : GraphRun (.ofDocs []) (fun _ _ => True) ([] ++ [.write (.node ["A"] ∅)] ++
        [.write (.edge 1 5 "R" ∅)]) danglingEdge :=
      .write (.write .new trivial rfl) trivial rfl
    exact hrun
  · have hend := (h.ends 1 ⟨1, 1, 5, "R", ∅⟩ rfl).2
    exact absurd hend (by decide)

end InMemoryGraphStore

end KuzuEventBus
