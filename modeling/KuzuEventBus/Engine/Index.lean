import KuzuEventBus.Engine.Value

/-!
# The in-memory graph store

`InMemoryGraphStore` of `casys_engine/src/index/mod.rs`: nodes and edges by id, a
label index and two adjacency indexes.  The read operations of this store, the
only one the engine has, never fail, so they return their results plainly.

## Main definitions

* `Node`, `Edge`, `InMemoryGraphStore` — the store.
* `scanAll`, `scanByLabel`, `getNode`, `getNeighbors`, `getNeighborsIncoming` — reading.
* `addNode`, `addEdge` — writing.
* `InMemoryGraphStore.Keyed`, `Wf` — the ids are in order, and the indexes say exactly what
  the nodes and edges say.
* `Reachable`, `applyWrites` — the stores built from the empty one by writing, and a sequence
  of write calls.

## Main results

* `Reachable.wf` — every such store is well formed.
* `mem_scanByLabel` — the index finds the nodes that carry a label.
* `mem_getNeighbors`, `mem_getNeighborsIncoming` — the adjacency lists are the edges.
-/

namespace KuzuEventBus

/-- An edge id, a `u64`. -/
abbrev EdgeId := ℕ

/-- `Node`. -/
structure Node where
  id : NodeId
  labels : List String
  properties : Properties

/-- `Edge`. -/
structure Edge where
  id : EdgeId
  fromNode : NodeId
  toNode : NodeId
  edgeType : String
  properties : Properties

/-- `InMemoryGraphStore`. -/
structure InMemoryGraphStore where
  nodes : HashMap NodeId Node
  edges : HashMap EdgeId Edge
  labelIndex : HashMap String (List NodeId)
  adjacencyOut : HashMap NodeId (List EdgeId)
  adjacencyIn : HashMap NodeId (List EdgeId)
  nextNodeId : NodeId
  nextEdgeId : EdgeId

namespace InMemoryGraphStore

/-- `InMemoryGraphStore::new`. -/
def new : InMemoryGraphStore := ⟨∅, ∅, ∅, ∅, ∅, 1, 1⟩

/-! ### Reading -/

/-- `scan_all`. -/
def scanAll (s : InMemoryGraphStore) : List Node := s.nodes.values

/-- `scan_by_label`. -/
def scanByLabel (s : InMemoryGraphStore) (label : String) : List Node :=
  (s.labelIndex.listAt label).filterMap fun id => s.nodes.lookup id

/-- `get_node`. -/
def getNode (s : InMemoryGraphStore) (id : NodeId) : Option Node := s.nodes.lookup id

/-- The loop of `get_neighbors` and `get_neighbors_incoming` over the edge ids of an
adjacency list; `other` is the end of the edge that is looked up. -/
def neighborsVia (s : InMemoryGraphStore) (ids : List EdgeId) (other : Edge → NodeId)
    (edgeType : Option String) : List (Edge × Node) :=
  ids.filterMap fun id => (s.edges.lookup id).bind fun edge =>
    if edgeType.all (edge.edgeType == ·) then
      (s.nodes.lookup (other edge)).map fun node => (edge, node)
    else none

/-- `get_neighbors`. -/
def getNeighbors (s : InMemoryGraphStore) (id : NodeId) (edgeType : Option String) :
    List (Edge × Node) :=
  s.neighborsVia (s.adjacencyOut.listAt id) Edge.toNode edgeType

/-- `get_neighbors_incoming`. -/
def getNeighborsIncoming (s : InMemoryGraphStore) (id : NodeId) (edgeType : Option String) :
    List (Edge × Node) :=
  s.neighborsVia (s.adjacencyIn.listAt id) Edge.fromNode edgeType

/-! ### Writing -/

/-- `add_node`. -/
def addNode (s : InMemoryGraphStore) (labels : List String) (properties : Properties) :
    Except Fault (NodeId × InMemoryGraphStore) := do
  let id := s.nextNodeId
  let nextNodeId ← checkedAdd s.nextNodeId 1
  pure (id, { s with
    nextNodeId := nextNodeId
    nodes := s.nodes.insert id ⟨id, labels, properties⟩
    labelIndex := s.labelIndex.pushAll labels id })

/-- `add_edge`: the ends are not looked up. -/
def addEdge (s : InMemoryGraphStore) (fromNode toNode : NodeId) (edgeType : String)
    (properties : Properties) : Except Fault (EdgeId × InMemoryGraphStore) := do
  let id := s.nextEdgeId
  let nextEdgeId ← checkedAdd s.nextEdgeId 1
  pure (id, { s with
    nextEdgeId := nextEdgeId
    edges := s.edges.insert id ⟨id, fromNode, toNode, edgeType, properties⟩
    adjacencyOut := s.adjacencyOut.pushTo fromNode id
    adjacencyIn := s.adjacencyIn.pushTo toNode id })

/-- What `add_node` does when it returns. -/
theorem addNode_eq_ok {s s' : InMemoryGraphStore} {labels : List String} {ps : Properties}
    {id : NodeId} (h : s.addNode labels ps = .ok (id, s')) :
    id = s.nextNodeId ∧ s.nextNodeId + 1 < 2 ^ 64 ∧ s' = { s with
      nextNodeId := s.nextNodeId + 1
      nodes := s.nodes.insert s.nextNodeId ⟨s.nextNodeId, labels, ps⟩
      labelIndex := s.labelIndex.pushAll labels s.nextNodeId } := by
  unfold addNode at h
  cases hadd : checkedAdd s.nextNodeId 1 with
  | error e => simp [hadd, bind, Except.bind] at h
  | ok next =>
    obtain ⟨rfl, hlt⟩ := checkedAdd_eq_ok hadd
    simp only [hadd, bind, Except.bind, pure, Except.pure, Except.ok.injEq, Prod.mk.injEq] at h
    exact ⟨h.1.symm, hlt, h.2.symm⟩

/-- What `add_edge` does when it returns. -/
theorem addEdge_eq_ok {s s' : InMemoryGraphStore} {a b : NodeId} {edgeType : String}
    {ps : Properties} {id : EdgeId} (h : s.addEdge a b edgeType ps = .ok (id, s')) :
    id = s.nextEdgeId ∧ s.nextEdgeId + 1 < 2 ^ 64 ∧ s' = { s with
      nextEdgeId := s.nextEdgeId + 1
      edges := s.edges.insert s.nextEdgeId ⟨s.nextEdgeId, a, b, edgeType, ps⟩
      adjacencyOut := s.adjacencyOut.pushTo a s.nextEdgeId
      adjacencyIn := s.adjacencyIn.pushTo b s.nextEdgeId } := by
  unfold addEdge at h
  cases hadd : checkedAdd s.nextEdgeId 1 with
  | error e => simp [hadd, bind, Except.bind] at h
  | ok next =>
    obtain ⟨rfl, hlt⟩ := checkedAdd_eq_ok hadd
    simp only [hadd, bind, Except.bind, pure, Except.pure, Except.ok.injEq, Prod.mk.injEq] at h
    exact ⟨h.1.symm, hlt, h.2.symm⟩

/-! ### The invariant -/

/-- How often the node at `id`, if there is one, carries `label`. -/
def labelCount (s : InMemoryGraphStore) (label : String) (id : NodeId) : ℕ :=
  ((s.nodes.lookup id).map fun n => n.labels.count label).getD 0

/-- How often the edge at `id`, if there is one, has the end `a` at `other`. -/
def endCount (s : InMemoryGraphStore) (other : Edge → NodeId) (a : NodeId) (id : EdgeId) : ℕ :=
  ((s.edges.lookup id).map fun e => if other e = a then 1 else 0).getD 0

/-- Every node and edge is stored under its own id, and new ids are fresh. -/
structure Keyed (s : InMemoryGraphStore) : Prop where
  node_id : ∀ {id n}, s.nodes.lookup id = some n → n.id = id
  edge_id : ∀ {id e}, s.edges.lookup id = some e → e.id = id
  node_lt : ∀ {id n}, s.nodes.lookup id = some n → id < s.nextNodeId
  edge_lt : ∀ {id e}, s.edges.lookup id = some e → id < s.nextEdgeId
  nextNodeId_lt : s.nextNodeId < 2 ^ 64
  nextEdgeId_lt : s.nextEdgeId < 2 ^ 64

/-- Besides, the indexes say exactly what the nodes and edges say. -/
structure Wf (s : InMemoryGraphStore) : Prop extends Keyed s where
  label_count : ∀ label id, (s.labelIndex.listAt label).count id = s.labelCount label id
  out_count : ∀ a id, (s.adjacencyOut.listAt a).count id = s.endCount Edge.fromNode a id
  in_count : ∀ a id, (s.adjacencyIn.listAt a).count id = s.endCount Edge.toNode a id
  label_noEmpty : s.labelIndex.NoEmptyList
  out_noEmpty : s.adjacencyOut.NoEmptyList
  in_noEmpty : s.adjacencyIn.NoEmptyList

theorem wf_new : Wf new where
  node_id := by intro id n h; simp [new] at h
  edge_id := by intro id e h; simp [new] at h
  node_lt := by intro id n h; simp [new] at h
  edge_lt := by intro id e h; simp [new] at h
  nextNodeId_lt := by decide
  nextEdgeId_lt := by decide
  label_count := by intro label id; simp [new, labelCount]
  out_count := by intro a id; simp [new, endCount]
  in_count := by intro a id; simp [new, endCount]
  label_noEmpty := AList.noEmptyList_empty
  out_noEmpty := AList.noEmptyList_empty
  in_noEmpty := AList.noEmptyList_empty

variable {s : InMemoryGraphStore}

/-- The next node id is not in use. -/
theorem Wf.nextNodeId_fresh (h : s.Wf) : s.nodes.lookup s.nextNodeId = none := by
  cases hn : s.nodes.lookup s.nextNodeId with
  | none => rfl
  | some n => exact absurd (h.node_lt hn) (lt_irrefl _)

/-- The next edge id is not in use. -/
theorem Wf.nextEdgeId_fresh (h : s.Wf) : s.edges.lookup s.nextEdgeId = none := by
  cases he : s.edges.lookup s.nextEdgeId with
  | none => rfl
  | some e => exact absurd (h.edge_lt he) (lt_irrefl _)

/-- Storing a node under its own id, below the next one, keeps the ids in order. -/
theorem Keyed.insertNode (h : s.Keyed) {n : Node} {next : NodeId} (hid : n.id < next)
    (hle : s.nextNodeId ≤ next) (hlt : next < 2 ^ 64) (labelIndex : HashMap String (List NodeId)) :
    Keyed { s with
      nextNodeId := next
      nodes := s.nodes.insert n.id n
      labelIndex := labelIndex } := by
  refine { h with node_id := ?_, node_lt := ?_, nextNodeId_lt := hlt }
  · intro id n' hn
    rw [AList.lookup_insert_eq] at hn
    split at hn
    · next heq => cases hn; exact heq.symm
    · exact h.node_id hn
  · intro id n' hn
    rw [AList.lookup_insert_eq] at hn
    split at hn
    · next heq => rw [heq]; exact hid
    · exact lt_of_lt_of_le (h.node_lt hn) hle

/-- A node under a fresh id, entered into the label index, keeps the store well formed. -/
theorem Wf.insertNode (h : s.Wf) {n : Node} {next : NodeId} (hfresh : s.nodes.lookup n.id = none)
    (hid : n.id < next) (hle : s.nextNodeId ≤ next) (hlt : next < 2 ^ 64) :
    Wf { s with
      nextNodeId := next
      nodes := s.nodes.insert n.id n
      labelIndex := s.labelIndex.pushAll n.labels n.id } := by
  refine { h with
    toKeyed := h.toKeyed.insertNode hid hle hlt _
    label_count := ?_
    label_noEmpty := h.label_noEmpty.pushAll }
  intro label id
  rw [AList.count_listAt_pushAll, h.label_count, labelCount, labelCount, AList.lookup_insert_eq]
  by_cases heq : id = n.id
  · rw [if_pos heq, if_pos heq, heq, hfresh]; simp
  · rw [if_neg heq, if_neg heq, Nat.add_zero]

theorem count_pushTo_end {e : Edge} (hfresh : s.edges.lookup e.id = none) (other : Edge → NodeId)
    {adjacency : HashMap NodeId (List EdgeId)}
    (hcount : ∀ a id, (adjacency.listAt a).count id = s.endCount other a id) (a : NodeId)
    (id : EdgeId) : ((adjacency.pushTo (other e) e.id).listAt a).count id =
      endCount { s with edges := s.edges.insert e.id e } other a id := by
  rw [AList.count_listAt_pushTo, hcount, endCount, endCount, AList.lookup_insert_eq]
  by_cases hid : id = e.id
  · rw [if_pos hid, hid, hfresh]
    by_cases ha : other e = a
    · simp [ha]
    · simp [ha, Ne.symm ha]
  · simp [hid]

/-- Storing an edge under its own id, below the next one, keeps the ids in order. -/
theorem Keyed.insertEdge (h : s.Keyed) {e : Edge} {next : EdgeId} (hid : e.id < next)
    (hle : s.nextEdgeId ≤ next) (hlt : next < 2 ^ 64)
    (adjacencyOut adjacencyIn : HashMap NodeId (List EdgeId)) :
    Keyed { s with
      nextEdgeId := next
      edges := s.edges.insert e.id e
      adjacencyOut := adjacencyOut
      adjacencyIn := adjacencyIn } := by
  refine { h with edge_id := ?_, edge_lt := ?_, nextEdgeId_lt := hlt }
  · intro id e' he
    rw [AList.lookup_insert_eq] at he
    split at he
    · next heq => cases he; exact heq.symm
    · exact h.edge_id he
  · intro id e' he
    rw [AList.lookup_insert_eq] at he
    split at he
    · next heq => rw [heq]; exact hid
    · exact lt_of_lt_of_le (h.edge_lt he) hle

/-- An edge under a fresh id, entered into the adjacency indexes, keeps the store well formed. -/
theorem Wf.insertEdge (h : s.Wf) {e : Edge} {next : EdgeId} (hfresh : s.edges.lookup e.id = none)
    (hid : e.id < next) (hle : s.nextEdgeId ≤ next) (hlt : next < 2 ^ 64) :
    Wf { s with
      nextEdgeId := next
      edges := s.edges.insert e.id e
      adjacencyOut := s.adjacencyOut.pushTo e.fromNode e.id
      adjacencyIn := s.adjacencyIn.pushTo e.toNode e.id } :=
  { h with
    toKeyed := h.toKeyed.insertEdge hid hle hlt _ _
    out_count := count_pushTo_end hfresh Edge.fromNode h.out_count
    in_count := count_pushTo_end hfresh Edge.toNode h.in_count
    out_noEmpty := h.out_noEmpty.pushTo _ _
    in_noEmpty := h.in_noEmpty.pushTo _ _ }

/-- `add_node` keeps the store well formed. -/
theorem Wf.addNode (h : s.Wf) {s' : InMemoryGraphStore} {labels : List String} {ps : Properties}
    {id : NodeId} (hadd : s.addNode labels ps = .ok (id, s')) : s'.Wf := by
  obtain ⟨rfl, hlt, rfl⟩ := addNode_eq_ok hadd
  exact h.insertNode (n := ⟨s.nextNodeId, labels, ps⟩) h.nextNodeId_fresh (Nat.lt_succ_self _)
    (Nat.le_succ _) hlt

/-- `add_edge` keeps the store well formed. -/
theorem Wf.addEdge (h : s.Wf) {s' : InMemoryGraphStore} {a b : NodeId} {edgeType : String}
    {ps : Properties} {id : EdgeId} (hadd : s.addEdge a b edgeType ps = .ok (id, s')) : s'.Wf := by
  obtain ⟨rfl, hlt, rfl⟩ := addEdge_eq_ok hadd
  exact h.insertEdge (e := ⟨s.nextEdgeId, a, b, edgeType, ps⟩) h.nextEdgeId_fresh
    (Nat.lt_succ_self _) (Nat.le_succ _) hlt

/-- The stores built from the empty one by `add_node` and `add_edge`. -/
inductive Reachable : InMemoryGraphStore → Prop
  | new : Reachable new
  | addNode {s s' : InMemoryGraphStore} {labels : List String} {ps : Properties} {id : NodeId}
      (h : Reachable s) (hadd : s.addNode labels ps = .ok (id, s')) : Reachable s'
  | addEdge {s s' : InMemoryGraphStore} {a b : NodeId} {edgeType : String} {ps : Properties}
      {id : EdgeId} (h : Reachable s) (hadd : s.addEdge a b edgeType ps = .ok (id, s')) :
      Reachable s'

/-- **Every store built by writing is well formed.** -/
theorem Reachable.wf (h : Reachable s) : s.Wf := by
  induction h with
  | new => exact wf_new
  | addNode _ hadd ih => exact ih.addNode hadd
  | addEdge _ hadd ih => exact ih.addEdge hadd

/-- One call of a write operation. -/
inductive Write where
  | node (labels : List String) (properties : Properties)
  | edge (fromNode toNode : NodeId) (edgeType : String) (properties : Properties)

/-- The store after one call. -/
def applyWrite (s : InMemoryGraphStore) : Write → Except Fault InMemoryGraphStore
  | .node labels properties => (s.addNode labels properties).map Prod.snd
  | .edge a b edgeType properties => (s.addEdge a b edgeType properties).map Prod.snd

/-- The store after a sequence of calls. -/
def applyWrites (s : InMemoryGraphStore) (ws : List Write) : Except Fault InMemoryGraphStore :=
  ws.foldlM applyWrite s

theorem Reachable.applyWrite (h : Reachable s) {s' : InMemoryGraphStore} {w : Write}
    (hw : s.applyWrite w = .ok s') : Reachable s' := by
  cases w with
  | node labels ps =>
    obtain ⟨⟨id, s₁⟩, hadd, rfl⟩ := map_eq_ok hw
    exact h.addNode hadd
  | edge a b edgeType ps =>
    obtain ⟨⟨id, s₁⟩, hadd, rfl⟩ := map_eq_ok hw
    exact h.addEdge hadd

/-- **A sequence of calls leads from a reachable store to a reachable store.** -/
theorem Reachable.applyWrites {ws : List Write} : ∀ {s s' : InMemoryGraphStore}, Reachable s →
    s.applyWrites ws = .ok s' → Reachable s' := by
  induction ws with
  | nil => intro s s' h hs; cases hs; exact h
  | cons w ws ih =>
    intro s s' h hs
    rw [InMemoryGraphStore.applyWrites, List.foldlM_cons] at hs
    obtain ⟨s₁, hw, hs⟩ := bind_eq_ok hs
    exact ih (h.applyWrite hw) hs

/-- `(1:A)-[:R]->(2:B)`. -/
def twoNodes : InMemoryGraphStore :=
  ((new.applyWrites [.node ["A"] ∅, .node ["B"] ∅, .edge 1 2 "R" ∅]).toOption).getD new

theorem reachable_twoNodes : Reachable twoNodes := by
  have h : new.applyWrites [.node ["A"] ∅, .node ["B"] ∅, .edge 1 2 "R" ∅] = .ok twoNodes := rfl
  exact Reachable.new.applyWrites h

/-! ### What reading finds -/

theorem Wf.mem_scanAll (h : s.Wf) {n : Node} : n ∈ s.scanAll ↔ s.nodes.lookup n.id = some n := by
  rw [scanAll, AList.mem_values_iff]
  constructor
  · rintro ⟨id, hn⟩; rw [h.node_id hn]; exact hn
  · intro hn; exact ⟨n.id, hn⟩

/-- **The index finds the nodes that carry a label.** -/
theorem Wf.mem_scanByLabel (h : s.Wf) {label : String} {n : Node} :
    n ∈ s.scanByLabel label ↔ s.nodes.lookup n.id = some n ∧ label ∈ n.labels := by
  rw [scanByLabel, List.mem_filterMap]
  have hindex : ∀ {id n}, s.nodes.lookup id = some n →
      (id ∈ s.labelIndex.listAt label ↔ label ∈ n.labels) := by
    intro id n hn
    rw [← List.count_pos_iff, h.label_count, labelCount, hn]
    exact List.count_pos_iff
  constructor
  · rintro ⟨id, hid, hn⟩
    have hid' := h.node_id hn
    rw [hid']
    exact ⟨hn, (hindex hn).mp hid⟩
  · rintro ⟨hn, hlabel⟩
    exact ⟨n.id, (hindex hn).mpr hlabel, hn⟩

theorem mem_neighborsVia {ids : List EdgeId} {other : Edge → NodeId} {edgeType : Option String}
    {e : Edge} {n : Node} : (e, n) ∈ s.neighborsVia ids other edgeType ↔
      ∃ id ∈ ids, s.edges.lookup id = some e ∧ (∀ t ∈ edgeType, e.edgeType = t) ∧
        s.nodes.lookup (other e) = some n := by
  have hall (e : Edge) : edgeType.all (e.edgeType == ·) = true ↔
    ∀ t ∈ edgeType, e.edgeType = t := by
    cases edgeType <;> simp
  simp only [neighborsVia, List.mem_filterMap, Option.bind_eq_some_iff]
  constructor
  · rintro ⟨id, hid, e', he, hn⟩
    split at hn
    · next hty =>
      obtain ⟨n', hn', heq⟩ := Option.map_eq_some_iff.mp hn
      cases heq
      exact ⟨id, hid, he, (hall e).mp hty, hn'⟩
    · simp at hn
  · rintro ⟨id, hid, he, hty, hn⟩
    exact ⟨id, hid, e, he, by rw [if_pos ((hall e).mpr hty), hn]; rfl⟩

/-- An adjacency list holds the edges with that end. -/
theorem mem_adjacency {adjacency : HashMap NodeId (List EdgeId)} {own : Edge → NodeId}
    (hcount : ∀ a id, (adjacency.listAt a).count id = s.endCount own a id) {a : NodeId}
    {id : EdgeId} {e : Edge} (he : s.edges.lookup id = some e) :
    id ∈ adjacency.listAt a ↔ own e = a := by
  rw [← List.count_pos_iff, hcount, endCount, he]
  by_cases ha : own e = a <;> simp [ha]

/-- **The outgoing neighbours are the edges from the node.** -/
theorem Wf.mem_getNeighbors (h : s.Wf) {a : NodeId} {e : Edge} {n : Node} :
    (e, n) ∈ s.getNeighbors a none ↔ s.edges.lookup e.id = some e ∧ e.fromNode = a ∧
      s.nodes.lookup e.toNode = some n := by
  rw [getNeighbors, mem_neighborsVia]
  constructor
  · rintro ⟨id, hid, he, -, hn⟩
    have hid' := h.edge_id he
    exact ⟨by rw [hid']; exact he, (mem_adjacency h.out_count he).mp hid, hn⟩
  · rintro ⟨he, ha, hn⟩
    exact ⟨e.id, (mem_adjacency h.out_count he).mpr ha, he, by simp, hn⟩

/-- **The incoming neighbours are the edges to the node.** -/
theorem Wf.mem_getNeighborsIncoming (h : s.Wf) {a : NodeId} {e : Edge} {n : Node} :
    (e, n) ∈ s.getNeighborsIncoming a none ↔ s.edges.lookup e.id = some e ∧ e.toNode = a ∧
      s.nodes.lookup e.fromNode = some n := by
  rw [getNeighborsIncoming, mem_neighborsVia]
  constructor
  · rintro ⟨id, hid, he, -, hn⟩
    have hid' := h.edge_id he
    exact ⟨by rw [hid']; exact he, (mem_adjacency h.in_count he).mp hid, hn⟩
  · rintro ⟨he, ha, hn⟩
    exact ⟨e.id, (mem_adjacency h.in_count he).mpr ha, he, by simp, hn⟩

end InMemoryGraphStore

end KuzuEventBus
