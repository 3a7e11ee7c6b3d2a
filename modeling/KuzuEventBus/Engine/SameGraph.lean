import KuzuEventBus.Engine.Index

/-!
# Stores with the same graph

A hash map has no order of its own, so two stores hold the same graph when their
nodes and edges agree up to the iteration order of every map in them.  The
indexes of a well-formed store are determined by its graph up to order, and with
them the answers to every read operation.

## Main definitions

* `SameNode`, `SameEdge`, `SameGraph` — the same graph.
* `SameStore` — the same store, up to the iteration order of its maps.
* `SameIndexes`, `SameAnswers` — the same indexes and the same answers, up to order.

## Main results

* `SameGraph.indexes`, `SameGraph.answers` — **well-formed stores with the same graph have
  the same indexes and give the same answers.**
* `Wf.sameStore` — being well formed does not depend on iteration orders.
-/

namespace KuzuEventBus

/-- Two nodes equal up to the iteration order of their properties. -/
structure SameNode (n n' : Node) : Prop where
  id : n.id = n'.id
  labels : n.labels = n'.labels
  properties : n.properties.SameMap n'.properties

/-- Two edges equal up to the iteration order of their properties. -/
structure SameEdge (e e' : Edge) : Prop where
  id : e.id = e'.id
  fromNode : e.fromNode = e'.fromNode
  toNode : e.toNode = e'.toNode
  edgeType : e.edgeType = e'.edgeType
  properties : e.properties.SameMap e'.properties

theorem SameNode.refl (n : Node) : SameNode n n := ⟨rfl, rfl, .refl _⟩

theorem SameEdge.refl (e : Edge) : SameEdge e e := ⟨rfl, rfl, rfl, rfl, .refl _⟩

theorem SameNode.symm {n n' : Node} (h : SameNode n n') : SameNode n' n :=
  ⟨h.id.symm, h.labels.symm, h.properties.symm⟩

theorem SameEdge.symm {e e' : Edge} (h : SameEdge e e') : SameEdge e' e :=
  ⟨h.id.symm, h.fromNode.symm, h.toNode.symm, h.edgeType.symm, h.properties.symm⟩

theorem SameNode.trans {n n' n'' : Node} (h : SameNode n n') (h' : SameNode n' n'') :
    SameNode n n'' :=
  ⟨h.id.trans h'.id, h.labels.trans h'.labels, h.properties.trans h'.properties⟩

theorem SameEdge.trans {e e' e'' : Edge} (h : SameEdge e e') (h' : SameEdge e' e'') :
    SameEdge e e'' :=
  ⟨h.id.trans h'.id, h.fromNode.trans h'.fromNode, h.toNode.trans h'.toNode,
    h.edgeType.trans h'.edgeType, h.properties.trans h'.properties⟩

namespace InMemoryGraphStore

/-- The same nodes and edges. -/
structure SameGraph (s t : InMemoryGraphStore) : Prop where
  nodes : s.nodes.Related SameNode t.nodes
  edges : s.edges.Related SameEdge t.edges

/-- The same indexes, up to the order of each list. -/
structure SameIndexes (s t : InMemoryGraphStore) : Prop where
  labelIndex : s.labelIndex.Related List.Perm t.labelIndex
  adjacencyOut : s.adjacencyOut.Related List.Perm t.adjacencyOut
  adjacencyIn : s.adjacencyIn.Related List.Perm t.adjacencyIn

/-- The same neighbour, over the same edge. -/
def SameNeighbor (p q : Edge × Node) : Prop := SameEdge p.1 q.1 ∧ SameNode p.2 q.2

/-- The same answers to every read operation, as multisets. -/
structure SameAnswers (s t : InMemoryGraphStore) : Prop where
  scanAll : Multiset.Rel SameNode s.scanAll t.scanAll
  scanByLabel : ∀ label, Multiset.Rel SameNode (s.scanByLabel label) (t.scanByLabel label)
  getNode : ∀ id, Option.Rel SameNode (s.getNode id) (t.getNode id)
  getNeighbors : ∀ id edgeType,
    Multiset.Rel SameNeighbor (s.getNeighbors id edgeType) (t.getNeighbors id edgeType)
  getNeighborsIncoming : ∀ id edgeType, Multiset.Rel SameNeighbor
    (s.getNeighborsIncoming id edgeType) (t.getNeighborsIncoming id edgeType)

/-- The same store, up to the iteration order of its maps. -/
structure SameStore (s t : InMemoryGraphStore) : Prop where
  graph : SameGraph s t
  labelIndex : s.labelIndex.SameMap t.labelIndex
  adjacencyOut : s.adjacencyOut.SameMap t.adjacencyOut
  adjacencyIn : s.adjacencyIn.SameMap t.adjacencyIn
  nextNodeId : s.nextNodeId = t.nextNodeId
  nextEdgeId : s.nextEdgeId = t.nextEdgeId

variable {s t : InMemoryGraphStore}

theorem SameGraph.refl (s : InMemoryGraphStore) : SameGraph s s :=
  ⟨.of_sameMap .refl (.refl _), .of_sameMap .refl (.refl _)⟩

theorem SameStore.refl (s : InMemoryGraphStore) : SameStore s s :=
  ⟨.refl s, .refl _, .refl _, .refl _, rfl, rfl⟩

/-! ### The indexes -/

theorem SameGraph.labelCount_eq (h : SameGraph s t) (label : String) (id : NodeId) :
    s.labelCount label id = t.labelCount label id := by
  unfold labelCount
  cases hs : s.nodes.lookup id with
  | none => rw [h.nodes.lookup_eq_none hs]
  | some n =>
    obtain ⟨n', ht, hsame⟩ := h.nodes.lookup_left hs
    rw [ht, Option.map_some, Option.map_some, hsame.labels]

theorem SameGraph.endCount_eq (h : SameGraph s t) {own : Edge → NodeId}
    (hown : ∀ {e e'}, SameEdge e e' → own e = own e') (a : NodeId) (id : EdgeId) :
    s.endCount own a id = t.endCount own a id := by
  unfold endCount
  cases hs : s.edges.lookup id with
  | none => rw [h.edges.lookup_eq_none hs]
  | some e =>
    obtain ⟨e', ht, hsame⟩ := h.edges.lookup_left hs
    rw [ht, Option.map_some, Option.map_some, hown hsame]

/-- Lists stored under a key are determined up to order by how often they hold each value,
when no key holds the empty list. -/
theorem related_perm_of_count {κ : Type} [DecidableEq κ] {m m' : HashMap κ (List ℕ)}
    (hm : m.NoEmptyList) (hm' : m'.NoEmptyList)
    (hcount : ∀ k id, (m.listAt k).count id = (m'.listAt k).count id) :
    m.Related List.Perm m' := by
  intro k
  have hperm : (m.listAt k).Perm (m'.listAt k) := List.perm_iff_count.mpr (hcount k)
  unfold AList.listAt at hperm
  cases hl : m.lookup k with
  | none =>
    cases hl' : m'.lookup k with
    | none => exact .none
    | some ids =>
      rw [hl, hl'] at hperm
      have hnil : ids = [] := List.nil_perm.mp hperm
      exact absurd (hnil ▸ hl') (hm' k)
  | some ids =>
    cases hl' : m'.lookup k with
    | none =>
      rw [hl, hl'] at hperm
      have hnil : ids = [] := List.perm_nil.mp hperm
      exact absurd (hnil ▸ hl) (hm k)
    | some ids' =>
      rw [hl, hl'] at hperm
      exact .some hperm

/-- **Well-formed stores with the same graph have the same indexes.** -/
theorem SameGraph.indexes (h : SameGraph s t) (hs : s.Wf) (ht : t.Wf) : SameIndexes s t where
  labelIndex := related_perm_of_count hs.label_noEmpty ht.label_noEmpty fun label id => by
    rw [hs.label_count, ht.label_count, h.labelCount_eq]
  adjacencyOut := related_perm_of_count hs.out_noEmpty ht.out_noEmpty fun a id => by
    rw [hs.out_count, ht.out_count, h.endCount_eq SameEdge.fromNode]
  adjacencyIn := related_perm_of_count hs.in_noEmpty ht.in_noEmpty fun a id => by
    rw [hs.in_count, ht.in_count, h.endCount_eq SameEdge.toNode]

/-! ### The answers -/

theorem listAt_perm_of_related {κ : Type} [DecidableEq κ] {m m' : HashMap κ (List ℕ)}
    (h : m.Related List.Perm m') (k : κ) : (m.listAt k).Perm (m'.listAt k) := by
  unfold AList.listAt
  cases hl : m.lookup k with
  | none => rw [h.lookup_eq_none hl]
  | some ids =>
    obtain ⟨ids', hl', hperm⟩ := h.lookup_left hl
    rw [hl']
    exact hperm

/-- Following related adjacency lists finds the same neighbours. -/
theorem SameGraph.neighborsVia (h : SameGraph s t) {ids ids' : List EdgeId} (hids : ids.Perm ids')
    {other : Edge → NodeId} (hother : ∀ {e e'}, SameEdge e e' → other e = other e')
    (edgeType : Option String) : Multiset.Rel SameNeighbor (s.neighborsVia ids other edgeType)
      (t.neighborsVia ids' other edgeType) := by
  refine AList.rel_filterMap_of_perm (fun id => ?_) hids
  cases hs : s.edges.lookup id with
  | none => rw [h.edges.lookup_eq_none hs]; exact .none
  | some e =>
    obtain ⟨e', ht, hsame⟩ := h.edges.lookup_left hs
    rw [ht, Option.bind_some, Option.bind_some, hsame.edgeType, hother hsame]
    split
    · cases hn : s.nodes.lookup (other e') with
      | none => rw [h.nodes.lookup_eq_none hn]; exact .none
      | some n =>
        obtain ⟨n', hn', hsame'⟩ := h.nodes.lookup_left hn
        rw [hn']
        exact .some ⟨hsame, hsame'⟩
    · exact .none

/-- **Well-formed stores with the same graph give the same answers.** -/
theorem SameGraph.answers (h : SameGraph s t) (hs : s.Wf) (ht : t.Wf) : SameAnswers s t where
  scanAll := h.nodes.values_rel
  scanByLabel label := AList.rel_filterMap_of_perm h.nodes
    (listAt_perm_of_related (h.indexes hs ht).labelIndex label)
  getNode := h.nodes
  getNeighbors id edgeType := h.neighborsVia
    (listAt_perm_of_related (h.indexes hs ht).adjacencyOut id) SameEdge.toNode edgeType
  getNeighborsIncoming id edgeType := h.neighborsVia
    (listAt_perm_of_related (h.indexes hs ht).adjacencyIn id) SameEdge.fromNode edgeType

/-! ### Iteration orders -/

/-- **Being well formed does not depend on the iteration orders.** -/
theorem Wf.sameStore (h : s.Wf) (hsame : SameStore s t) : t.Wf where
  node_id := by
    intro id n' hn'
    obtain ⟨n, hn, heq⟩ := hsame.graph.nodes.lookup_right hn'
    rw [← heq.id, h.node_id hn]
  edge_id := by
    intro id e' he'
    obtain ⟨e, he, heq⟩ := hsame.graph.edges.lookup_right he'
    rw [← heq.id, h.edge_id he]
  node_lt := by
    intro id n' hn'
    obtain ⟨n, hn, -⟩ := hsame.graph.nodes.lookup_right hn'
    rw [← hsame.nextNodeId]; exact h.node_lt hn
  edge_lt := by
    intro id e' he'
    obtain ⟨e, he, -⟩ := hsame.graph.edges.lookup_right he'
    rw [← hsame.nextEdgeId]; exact h.edge_lt he
  nextNodeId_lt := hsame.nextNodeId ▸ h.nextNodeId_lt
  nextEdgeId_lt := hsame.nextEdgeId ▸ h.nextEdgeId_lt
  label_count := by
    intro label id
    rw [← hsame.graph.labelCount_eq, ← h.label_count, AList.listAt, AList.listAt,
      hsame.labelIndex label]
  out_count := by
    intro a id
    rw [← hsame.graph.endCount_eq SameEdge.fromNode, ← h.out_count, AList.listAt, AList.listAt,
      hsame.adjacencyOut a]
  in_count := by
    intro a id
    rw [← hsame.graph.endCount_eq SameEdge.toNode, ← h.in_count, AList.listAt, AList.listAt,
      hsame.adjacencyIn a]
  label_noEmpty := fun k => by rw [← hsame.labelIndex k]; exact h.label_noEmpty k
  out_noEmpty := fun k => by rw [← hsame.adjacencyOut k]; exact h.out_noEmpty k
  in_noEmpty := fun k => by rw [← hsame.adjacencyIn k]; exact h.in_noEmpty k

end InMemoryGraphStore

end KuzuEventBus
