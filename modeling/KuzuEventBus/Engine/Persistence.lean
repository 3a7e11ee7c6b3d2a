import KuzuEventBus.Engine.SameGraph
import KuzuEventBus.Storage.Manifest

/-!
# Flushing and loading a graph

`casys_engine/src/index/persistence.rs`: a store is written to two JSON documents
in the branch's `segments` directory, `nodes.seg` and `edges.seg`, both rewritten
in place, and read back by inserting their entries into an empty store, which
rebuilds the indexes.

JSON text is a parameter (`Serde`); the theorems assume of it that the documents
at hand read back as themselves.

## Main definitions

* `Serde` — JSON text.
* `nodesJson`, `edgesJson` — the two documents.
* `flushOps`, `flushToSegments` — flushing, as file operations and as their effect.
* `loadFromSegments` — loading.
* `Node.stored`, `StoredAs` — what a segment keeps of a node and of a graph.

## Main results

* `loadFromSegments_docs` — what loading two documents gives.
* `loadFromSegments_flushToSegments` — **loading after flushing gives the store back.**
-/

namespace KuzuEventBus

/-- JSON text: how values are written and read. -/
structure Serde where
  /-- `serde_json::to_vec`. -/
  toVec : Json → Bytes
  /-- `serde_json::from_slice`. -/
  fromSlice : Bytes → Option Json

/-- Compact text, reading back the text of the given documents. -/
def Serde.ofDocs (docs : List Json) : Serde where
  toVec j := j.text.flatMap String.utf8EncodeChar
  fromSlice bs := docs.find? fun j => j.text.flatMap String.utf8EncodeChar == bs

/-- The text of `j` reads back as `j`. -/
def Serde.RoundTrips (serde : Serde) (j : Json) : Prop :=
  serde.fromSlice (serde.toVec j) = some j

/-! ### Documents -/

/-- `serialize_props`. -/
def serializeProps (props : Properties) : Json := .object (Json.ofMap Value.toJson props)

/-- `deserialize_props`: what is no value of a property is left out. -/
def deserializeProps (json : Json) : Properties :=
  match json.asObject with
  | some fields =>
    (∅ : Properties).insertAll
      (fields.filterMap fun kv => (Value.fromJson kv.2).map fun v => (kv.1, v))
  | none => ∅

/-- The entry of a node in `nodes.seg`. -/
def nodeJson (n : Node) : Json :=
  .object [("id", .number (.posInt n.id)), ("labels", Json.ofStrings n.labels),
    ("properties", serializeProps n.properties)]

/-- The entry of an edge in `edges.seg`. -/
def edgeJson (e : Edge) : Json :=
  .object [("from", .number (.posInt e.fromNode)), ("id", .number (.posInt e.id)),
    ("properties", serializeProps e.properties), ("to", .number (.posInt e.toNode)),
    ("type", .string e.edgeType)]

/-- The node an entry of `nodes.seg` stands for; what is missing takes a default. -/
def decodeNode (json : Json) : Node where
  id := (json.index "id").asU64.getD 0
  labels := (json.index "labels").asStrings.getD []
  properties := deserializeProps (json.index "properties")

/-- The edge an entry of `edges.seg` stands for; what is missing takes a default. -/
def decodeEdge (json : Json) : Edge where
  id := (json.index "id").asU64.getD 0
  fromNode := (json.index "from").asU64.getD 0
  toNode := (json.index "to").asU64.getD 0
  edgeType := (json.index "type").asStr.getD ""
  properties := deserializeProps (json.index "properties")

/-- `catalog::branch_dir(..).join("segments")`. -/
def segmentsDir (root : FilePath) (db : DatabaseName) (branch : BranchName) : FilePath :=
  branchDir root db branch ++ ["segments"]

/-- The path of `nodes.seg`. -/
def nodesPath (root : FilePath) (db : DatabaseName) (branch : BranchName) : FilePath :=
  segmentsDir root db branch ++ ["nodes.seg"]

/-- The path of `edges.seg`. -/
def edgesPath (root : FilePath) (db : DatabaseName) (branch : BranchName) : FilePath :=
  segmentsDir root db branch ++ ["edges.seg"]

namespace InMemoryGraphStore

/-- The document `write_nodes_segment` writes. -/
def nodesJson (s : InMemoryGraphStore) : Json :=
  .object [("count", .number (.posInt s.nodes.values.length)),
    ("nodes", .array (s.nodes.values.map nodeJson))]

/-- The document `write_edges_segment` writes. -/
def edgesJson (s : InMemoryGraphStore) : Json :=
  .object [("count", .number (.posInt s.edges.values.length)),
    ("edges", .array (s.edges.values.map edgeJson))]

/-! ### Flushing -/

/-- The file operations of `flush_to_segments`: `write_nodes_segment`, then
`write_edges_segment`. -/
def flushOps (serde : Serde) (root : FilePath) (db : DatabaseName) (branch : BranchName)
    (s : InMemoryGraphStore) : List FileSystem.Op :=
  FileSystem.rewriteOps (nodesPath root db branch) (serde.toVec s.nodesJson) ++
    FileSystem.rewriteOps (edgesPath root db branch) (serde.toVec s.edgesJson)

/-- `flush_to_segments`. -/
def flushToSegments (serde : Serde) (fs : FileSystem) (root : FilePath) (db : DatabaseName)
    (branch : BranchName) (s : InMemoryGraphStore) : FileSystem :=
  FileSystem.runOps fs (flushOps serde root db branch s)

/-! ### Loading -/

/-- The next id after `id` has been used: past it, and never lower than before. -/
def nextIdAfter (id next : ℕ) : Except Fault ℕ :=
  if id ≥ next then checkedAdd id 1 else .ok next

/-- Insert a node under its own id and enter it into the indexes. -/
def putNode (s : InMemoryGraphStore) (n : Node) : Except Fault InMemoryGraphStore := do
  let nextNodeId ← nextIdAfter n.id s.nextNodeId
  pure { s with
    nextNodeId := nextNodeId
    nodes := s.nodes.insert n.id n
    labelIndex := s.labelIndex.pushAll n.labels n.id }

/-- Insert an edge under its own id and enter it into the indexes. -/
def putEdge (s : InMemoryGraphStore) (e : Edge) : Except Fault InMemoryGraphStore := do
  let nextEdgeId ← nextIdAfter e.id s.nextEdgeId
  pure { s with
    nextEdgeId := nextEdgeId
    edges := s.edges.insert e.id e
    adjacencyOut := s.adjacencyOut.pushTo e.fromNode e.id
    adjacencyIn := s.adjacencyIn.pushTo e.toNode e.id }

/-- `load_nodes_segment`, on the content of the file. -/
def loadNodesSegment (serde : Serde) (s : InMemoryGraphStore) (data : Bytes) :
    Except Fault InMemoryGraphStore :=
  match serde.fromSlice data with
  | none => .error (.error (.storageIo "parse nodes.seg"))
  | some json =>
    match (json.index "nodes").asArray with
    | some items => items.foldlM (fun s item => s.putNode (decodeNode item)) s
    | none => .ok s

/-- `load_edges_segment`, on the content of the file. -/
def loadEdgesSegment (serde : Serde) (s : InMemoryGraphStore) (data : Bytes) :
    Except Fault InMemoryGraphStore :=
  match serde.fromSlice data with
  | none => .error (.error (.storageIo "parse edges.seg"))
  | some json =>
    match (json.index "edges").asArray with
    | some items => items.foldlM (fun s item => s.putEdge (decodeEdge item)) s
    | none => .ok s

/-- Load a file into a store; one that does not exist is skipped. -/
def loadIfExists (s : InMemoryGraphStore)
    (load : InMemoryGraphStore → Bytes → Except Fault InMemoryGraphStore) :
    Option Bytes → Except Fault InMemoryGraphStore
  | some data => load s data
  | none => .ok s

/-- `load_from_segments`. -/
def loadFromSegments (serde : Serde) (fs : FileSystem) (root : FilePath) (db : DatabaseName)
    (branch : BranchName) : Except Fault InMemoryGraphStore := do
  let s ← new.loadIfExists (loadNodesSegment serde) (fs.readFile (nodesPath root db branch))
  s.loadIfExists (loadEdgesSegment serde) (fs.readFile (edgesPath root db branch))

end InMemoryGraphStore

/-! ### What a segment keeps -/

/-- A node as a segment keeps it: its property values are what JSON makes of them. -/
def Node.stored (n : Node) : Node :=
  { n with properties := deserializeProps (serializeProps n.properties) }

/-- An edge as a segment keeps it. -/
def Edge.stored (e : Edge) : Edge :=
  { e with properties := deserializeProps (serializeProps e.properties) }

theorem decodeNode_nodeJson (n : Node) : decodeNode (nodeJson n) = n.stored := by
  simp [decodeNode, nodeJson, Node.stored, Json.index, Json.get, Json.asU64, JsonNumber.asU64,
    Json.asStrings_ofStrings, List.lookup_cons]

theorem decodeEdge_edgeJson (e : Edge) : decodeEdge (edgeJson e) = e.stored := by
  simp [decodeEdge, edgeJson, Edge.stored, Json.index, Json.get, Json.asU64, JsonNumber.asU64,
    Json.asStr, List.lookup_cons]

/-- What a segment keeps of the property `k`. -/
theorem lookup_deserializeProps (ps : Properties) (k : String) :
    (deserializeProps (serializeProps ps)).lookup k =
      (ps.lookup k).bind fun v => Value.fromJson v.toJson := by
  let fields := (Json.ofMap Value.toJson ps).filterMap fun kv =>
    (Value.fromJson kv.2).map fun v => (kv.1, v)
  have hmem {k' : String} {v' : Value} : (k', v') ∈ fields ↔
      ∃ v, ps.lookup k' = some v ∧ Value.fromJson v.toJson = some v' := by
    simp only [fields, List.mem_filterMap, Option.map_eq_some_iff, Prod.mk.injEq, Prod.exists,
      Json.mem_ofMap]
    constructor
    · rintro ⟨k, j, ⟨v, hv, rfl⟩, w, hw, rfl, rfl⟩; exact ⟨v, hv, hw⟩
    · rintro ⟨v, hv, hv'⟩; exact ⟨k', v.toJson, ⟨v, hv, rfl⟩, v', hv', rfl, rfl⟩
  have hkeys : (fields.map Prod.fst).Nodup :=
    AList.nodup_filterMap_keys Value.fromJson (Json.nodup_ofMap_keys Value.toJson ps)
  change ((∅ : Properties).insertAll fields).lookup k = _
  cases hk : (ps.lookup k).bind fun v => Value.fromJson v.toJson with
  | none =>
    rw [AList.lookup_insertAll_of_notMem]
    · rfl
    · rintro ⟨k', v'⟩ hkv rfl
      obtain ⟨v, hv, hv'⟩ := hmem.mp hkv
      rw [hv, Option.bind_some, hv'] at hk
      simp at hk
  | some v' =>
    obtain ⟨v, hv, hv'⟩ := Option.bind_eq_some_iff.mp hk
    exact AList.lookup_insertAll_of_mem _ hkeys (hmem.mpr ⟨v, hv, hv'⟩)

/-- Every property value is one a segment keeps. -/
def Properties.Storable (ps : Properties) : Prop := ∀ k v, ps.lookup k = some v → v.Storable

theorem storable_empty : Properties.Storable ∅ := by
  intro k v h; simp at h

theorem Properties.Storable.insert {ps : Properties} (h : Properties.Storable ps) {k : String}
    {v : Value} (hv : v.Storable) : Properties.Storable (AList.insert k v ps) := by
  intro k' v' hk'
  rw [AList.lookup_insert_eq] at hk'
  split at hk'
  · cases hk'; exact hv
  · exact h k' v' hk'

/-- **Strings, integers, booleans and null are kept as they are.** -/
theorem sameMap_deserializeProps {ps : Properties} (h : Properties.Storable ps) :
    ps.SameMap (deserializeProps (serializeProps ps)) := by
  intro k
  rw [lookup_deserializeProps]
  cases hk : ps.lookup k with
  | none => rfl
  | some v => rw [Option.bind_some, Value.fromJson_toJson (h k v hk)]

theorem sameNode_stored {n : Node} (h : Properties.Storable n.properties) : SameNode n n.stored :=
  ⟨rfl, rfl, sameMap_deserializeProps h⟩

theorem sameEdge_stored {e : Edge} (h : Properties.Storable e.properties) : SameEdge e e.stored :=
  ⟨rfl, rfl, rfl, rfl, sameMap_deserializeProps h⟩

namespace InMemoryGraphStore

/-- The nodes of a map, as a segment keeps them, are those of another. -/
def StoredNodes (m m' : HashMap NodeId Node) : Prop :=
  m.Related (fun n n' => SameNode n.stored n') m'

/-- The edges of a map, as a segment keeps them, are those of another. -/
def StoredEdges (m m' : HashMap EdgeId Edge) : Prop :=
  m.Related (fun e e' => SameEdge e.stored e') m'

/-- `t` holds the graph of `s` as a segment keeps it. -/
structure StoredAs (s t : InMemoryGraphStore) : Prop where
  nodes : StoredNodes s.nodes t.nodes
  edges : StoredEdges s.edges t.edges

/-- Every property value of the graph is one a segment keeps. -/
structure Storable (s : InMemoryGraphStore) : Prop where
  nodes : ∀ id n, s.nodes.lookup id = some n → Properties.Storable n.properties
  edges : ∀ id e, s.edges.lookup id = some e → Properties.Storable e.properties

variable {s t : InMemoryGraphStore}

/-- **What a segment keeps of a storable graph is the graph.** -/
theorem Storable.storedAs_iff (h : s.Storable) : StoredAs s t ↔ SameGraph s t := by
  constructor
  · intro hst
    exact ⟨hst.nodes.mono fun id n _ hn hsame => (sameNode_stored (h.nodes id n hn)).trans hsame,
      hst.edges.mono fun id e _ he hsame => (sameEdge_stored (h.edges id e he)).trans hsame⟩
  · intro hst
    exact ⟨hst.nodes.mono fun id n _ hn hsame =>
        (sameNode_stored (h.nodes id n hn)).symm.trans hsame,
      hst.edges.mono fun id e _ he hsame =>
        (sameEdge_stored (h.edges id e he)).symm.trans hsame⟩

/-! ### Loading the entries -/

theorem nextIdAfter_eq_ok {id next next' : ℕ} (h : nextIdAfter id next = .ok next')
    (hlt : next < 2 ^ 64) : id < next' ∧ next ≤ next' ∧ next' < 2 ^ 64 := by
  unfold nextIdAfter at h
  split at h
  · next hge =>
    obtain ⟨rfl, hlt'⟩ := checkedAdd_eq_ok h
    exact ⟨Nat.lt_succ_self _, Nat.le_succ_of_le hge, hlt'⟩
  · next hge =>
    cases h
    exact ⟨not_le.mp hge, le_rfl, hlt⟩

theorem nextIdAfter_of_lt {id : ℕ} (next : ℕ) (h : id + 1 < 2 ^ 64) :
    ∃ next', nextIdAfter id next = .ok next' := by
  unfold nextIdAfter
  split
  · exact ⟨_, checkedAdd_of_lt h⟩
  · exact ⟨_, rfl⟩

/-- Putting a node keeps the ids in order. -/
theorem Keyed.putNode (h : s.Keyed) {n : Node} {s' : InMemoryGraphStore}
    (hput : s.putNode n = .ok s') : s'.Keyed := by
  obtain ⟨next, hnext, heq⟩ := bind_eq_ok hput
  cases heq
  obtain ⟨hid, hle, hlt⟩ := nextIdAfter_eq_ok hnext h.nextNodeId_lt
  exact h.insertNode hid hle hlt _

/-- Putting an edge keeps the ids in order. -/
theorem Keyed.putEdge (h : s.Keyed) {e : Edge} {s' : InMemoryGraphStore}
    (hput : s.putEdge e = .ok s') : s'.Keyed := by
  obtain ⟨next, hnext, heq⟩ := bind_eq_ok hput
  cases heq
  obtain ⟨hid, hle, hlt⟩ := nextIdAfter_eq_ok hnext h.nextEdgeId_lt
  exact h.insertEdge hid hle hlt _ _

/-- A node with a fresh id can be put, and the store stays well formed. -/
theorem Wf.putNode (h : s.Wf) {n : Node} (hfresh : s.nodes.lookup n.id = none)
    (hlt : n.id + 1 < 2 ^ 64) : ∃ s', s.putNode n = .ok s' ∧ s'.Wf ∧
      s'.nodes = s.nodes.insert n.id n ∧ s'.edges = s.edges := by
  obtain ⟨next, hnext⟩ := nextIdAfter_of_lt s.nextNodeId hlt
  obtain ⟨hid, hle, hlt'⟩ := nextIdAfter_eq_ok hnext h.nextNodeId_lt
  refine ⟨_, ?_, h.insertNode hfresh hid hle hlt', rfl, rfl⟩
  rw [InMemoryGraphStore.putNode, hnext]; rfl

/-- An edge with a fresh id can be put, and the store stays well formed. -/
theorem Wf.putEdge (h : s.Wf) {e : Edge} (hfresh : s.edges.lookup e.id = none)
    (hlt : e.id + 1 < 2 ^ 64) : ∃ s', s.putEdge e = .ok s' ∧ s'.Wf ∧
      s'.nodes = s.nodes ∧ s'.edges = s.edges.insert e.id e := by
  obtain ⟨next, hnext⟩ := nextIdAfter_of_lt s.nextEdgeId hlt
  obtain ⟨hid, hle, hlt'⟩ := nextIdAfter_eq_ok hnext h.nextEdgeId_lt
  refine ⟨_, ?_, h.insertEdge hfresh hid hle hlt', rfl, rfl⟩
  rw [InMemoryGraphStore.putEdge, hnext]; rfl

/-- Nodes with distinct fresh ids can be put one after the other. -/
theorem Wf.putNodes {ns : List Node} : ∀ {s : InMemoryGraphStore}, s.Wf →
    (ns.map Node.id).Nodup → (∀ n ∈ ns, s.nodes.lookup n.id = none ∧ n.id + 1 < 2 ^ 64) →
    ∃ s', ns.foldlM InMemoryGraphStore.putNode s = .ok s' ∧ s'.Wf ∧
      s'.nodes = s.nodes.insertAll (ns.map fun n => (n.id, n)) ∧ s'.edges = s.edges := by
  induction ns with
  | nil => intro s h _ _; exact ⟨s, rfl, h, rfl, rfl⟩
  | cons n ns ih =>
    intro s h hnd hfresh
    rw [List.map_cons, List.nodup_cons] at hnd
    obtain ⟨s₁, hput, hwf, hnodes, hedges⟩ :=
      h.putNode (hfresh n List.mem_cons_self).1 (hfresh n List.mem_cons_self).2
    -- the ids still to come are fresh in `s₁`: they differ from the one just put
    have hfresh' : ∀ n' ∈ ns, s₁.nodes.lookup n'.id = none ∧ n'.id + 1 < 2 ^ 64 := by
      intro n' hn'
      have hne : n'.id ≠ n.id := fun heq => hnd.1 (heq ▸ List.mem_map_of_mem hn')
      rw [hnodes, AList.lookup_insert_ne hne]
      exact hfresh n' (List.mem_cons_of_mem _ hn')
    obtain ⟨s', hput', hwf', hnodes', hedges'⟩ := ih hwf hnd.2 hfresh'
    refine ⟨s', ?_, hwf', ?_, hedges'.trans hedges⟩
    · rw [List.foldlM_cons, hput]; exact hput'
    · rw [hnodes', hnodes]; rfl

/-- Edges with distinct fresh ids can be put one after the other. -/
theorem Wf.putEdges {es : List Edge} : ∀ {s : InMemoryGraphStore}, s.Wf →
    (es.map Edge.id).Nodup → (∀ e ∈ es, s.edges.lookup e.id = none ∧ e.id + 1 < 2 ^ 64) →
    ∃ s', es.foldlM InMemoryGraphStore.putEdge s = .ok s' ∧ s'.Wf ∧
      s'.nodes = s.nodes ∧ s'.edges = s.edges.insertAll (es.map fun e => (e.id, e)) := by
  induction es with
  | nil => intro s h _ _; exact ⟨s, rfl, h, rfl, rfl⟩
  | cons e es ih =>
    intro s h hnd hfresh
    rw [List.map_cons, List.nodup_cons] at hnd
    obtain ⟨s₁, hput, hwf, hnodes, hedges⟩ :=
      h.putEdge (hfresh e List.mem_cons_self).1 (hfresh e List.mem_cons_self).2
    have hfresh' : ∀ e' ∈ es, s₁.edges.lookup e'.id = none ∧ e'.id + 1 < 2 ^ 64 := by
      intro e' he'
      have hne : e'.id ≠ e.id := fun heq => hnd.1 (heq ▸ List.mem_map_of_mem he')
      rw [hedges, AList.lookup_insert_ne hne]
      exact hfresh e' (List.mem_cons_of_mem _ he')
    obtain ⟨s', hput', hwf', hnodes', hedges'⟩ := ih hwf hnd.2 hfresh'
    refine ⟨s', ?_, hwf', hnodes'.trans hnodes, ?_⟩
    · rw [List.foldlM_cons, hput]; exact hput'
    · rw [hedges', hedges]; rfl

/-! ### Loading documents -/

variable {serde : Serde}

/-- Loading the nodes document of a store into one without nodes. -/
theorem loadNodesSegment_nodesJson {x : InMemoryGraphStore} (hx : x.Keyed)
    (hround : serde.RoundTrips x.nodesJson) (h : s.Wf) (hempty : s.nodes = ∅) :
    ∃ s', s.loadNodesSegment serde (serde.toVec x.nodesJson) = .ok s' ∧ s'.Wf ∧
      StoredNodes x.nodes s'.nodes ∧ s'.edges = s.edges := by
  have hitems : (x.nodesJson.index "nodes").asArray = some (x.nodes.values.map nodeJson) := rfl
  have hids : ((x.nodes.values.map Node.stored).map Node.id).Nodup := by
    rw [List.map_map]
    exact AList.nodup_values_key fun _ _ => hx.node_id
  have hfresh : ∀ n ∈ x.nodes.values.map Node.stored,
      s.nodes.lookup n.id = none ∧ n.id + 1 < 2 ^ 64 := by
    intro n hn
    obtain ⟨n₀, hn₀, rfl⟩ := List.mem_map.mp hn
    obtain ⟨id, hid⟩ := AList.mem_values_iff.mp hn₀
    refine ⟨by rw [hempty]; rfl, ?_⟩
    have heq : n₀.id = id := hx.node_id hid
    change n₀.id + 1 < 2 ^ 64
    rw [heq]
    exact lt_of_le_of_lt (hx.node_lt hid) hx.nextNodeId_lt
  obtain ⟨s', hload, hwf, hnodes, hedges⟩ := h.putNodes hids hfresh
  refine ⟨s', ?_, hwf, ?_, hedges⟩
  · rw [loadNodesSegment, hround]
    simp only [hitems, List.foldlM_map, decodeNode_nodeJson]
    rw [List.foldlM_map] at hload
    exact hload
  · rw [hnodes, hempty, List.map_map]
    refine (AList.related_insertAll_values (f := Node.stored) fun _ _ => hx.node_id).mono ?_
    rintro id n _ _ rfl
    exact .refl _

/-- Loading the edges document of a store into one without edges. -/
theorem loadEdgesSegment_edgesJson {y : InMemoryGraphStore} (hy : y.Keyed)
    (hround : serde.RoundTrips y.edgesJson) (h : s.Wf) (hempty : s.edges = ∅) :
    ∃ s', s.loadEdgesSegment serde (serde.toVec y.edgesJson) = .ok s' ∧ s'.Wf ∧
      s'.nodes = s.nodes ∧ StoredEdges y.edges s'.edges := by
  have hitems : (y.edgesJson.index "edges").asArray = some (y.edges.values.map edgeJson) := rfl
  have hids : ((y.edges.values.map Edge.stored).map Edge.id).Nodup := by
    rw [List.map_map]
    exact AList.nodup_values_key fun _ _ => hy.edge_id
  have hfresh : ∀ e ∈ y.edges.values.map Edge.stored,
      s.edges.lookup e.id = none ∧ e.id + 1 < 2 ^ 64 := by
    intro e he
    obtain ⟨e₀, he₀, rfl⟩ := List.mem_map.mp he
    obtain ⟨id, hid⟩ := AList.mem_values_iff.mp he₀
    refine ⟨by rw [hempty]; rfl, ?_⟩
    have heq : e₀.id = id := hy.edge_id hid
    change e₀.id + 1 < 2 ^ 64
    rw [heq]
    exact lt_of_le_of_lt (hy.edge_lt hid) hy.nextEdgeId_lt
  obtain ⟨s', hload, hwf, hnodes, hedges⟩ := h.putEdges hids hfresh
  refine ⟨s', ?_, hwf, hnodes, ?_⟩
  · rw [loadEdgesSegment, hround]
    simp only [hitems, List.foldlM_map, decodeEdge_edgeJson]
    rw [List.foldlM_map] at hload
    exact hload
  · rw [hedges, hempty, List.map_map]
    refine (AList.related_insertAll_values (f := Edge.stored) fun _ _ => hy.edge_id).mono ?_
    rintro id e _ _ rfl
    exact .refl _

variable {fs : FileSystem} {root : FilePath} {db : DatabaseName} {branch : BranchName}

/-- A loop that keeps the ids in order. -/
theorem Keyed.foldlM {α : Type} {f : InMemoryGraphStore → α → Except Fault InMemoryGraphStore}
    (hf : ∀ {s s' : InMemoryGraphStore} {a}, s.Keyed → f s a = .ok s' → s'.Keyed) {l : List α} :
    ∀ {s s' : InMemoryGraphStore}, s.Keyed → l.foldlM f s = .ok s' → s'.Keyed := by
  induction l with
  | nil => intro s s' h hs; cases hs; exact h
  | cons a l ih =>
    intro s s' h hs
    rw [List.foldlM_cons] at hs
    obtain ⟨s₁, hs₁, hs⟩ := bind_eq_ok hs
    exact ih (hf h hs₁) hs

theorem Keyed.loadNodesSegment (h : s.Keyed) {data : Bytes} {s' : InMemoryGraphStore}
    (hload : s.loadNodesSegment serde data = .ok s') : s'.Keyed := by
  unfold InMemoryGraphStore.loadNodesSegment at hload
  split at hload
  · cases hload
  · split at hload
    · exact h.foldlM (fun h hput => h.putNode hput) hload
    · cases hload; exact h

theorem Keyed.loadEdgesSegment (h : s.Keyed) {data : Bytes} {s' : InMemoryGraphStore}
    (hload : s.loadEdgesSegment serde data = .ok s') : s'.Keyed := by
  unfold InMemoryGraphStore.loadEdgesSegment at hload
  split at hload
  · cases hload
  · split at hload
    · exact h.foldlM (fun h hput => h.putEdge hput) hload
    · cases hload; exact h

/-- A segment that may be missing keeps the ids in order if loading it does. -/
theorem Keyed.loadIfExists {load : InMemoryGraphStore → Bytes → Except Fault InMemoryGraphStore}
    {file : Option Bytes} {s' : InMemoryGraphStore} (h : s.Keyed)
    (hkeyed : ∀ {s s' : InMemoryGraphStore} {data}, s.Keyed → load s data = .ok s' → s'.Keyed)
    (hload : s.loadIfExists load file = .ok s') : s'.Keyed := by
  cases file with
  | none => cases hload; exact h
  | some data => exact hkeyed h hload

/-- **Every store that is loaded has its ids in order**, whatever the files hold. -/
theorem keyed_of_loadFromSegments (hload : loadFromSegments serde fs root db branch = .ok s) :
    s.Keyed := by
  obtain ⟨s₁, hnodes, hedges⟩ := bind_eq_ok hload
  have hkeyed : s₁.Keyed :=
    wf_new.toKeyed.loadIfExists (fun h hload => h.loadNodesSegment hload) hnodes
  exact hkeyed.loadIfExists (fun h hload => h.loadEdgesSegment hload) hedges

/-- **What loading two documents gives**: the nodes of the one and the edges of the other. -/
theorem loadFromSegments_docs {x y : InMemoryGraphStore} (hx : x.Keyed) (hy : y.Keyed)
    (hnodes : fs.readFile (nodesPath root db branch) = some (serde.toVec x.nodesJson))
    (hedges : fs.readFile (edgesPath root db branch) = some (serde.toVec y.edgesJson))
    (hroundx : serde.RoundTrips x.nodesJson) (hroundy : serde.RoundTrips y.edgesJson) :
    ∃ s', loadFromSegments serde fs root db branch = .ok s' ∧ s'.Wf ∧
      StoredNodes x.nodes s'.nodes ∧ StoredEdges y.edges s'.edges := by
  obtain ⟨s₁, hload₁, hwf₁, hn₁, he₁⟩ := loadNodesSegment_nodesJson hx hroundx wf_new rfl
  obtain ⟨s', hload', hwf', hn', he'⟩ := loadEdgesSegment_edgesJson hy hroundy hwf₁ he₁
  refine ⟨s', ?_, hwf', hn' ▸ hn₁, he'⟩
  rw [loadFromSegments, hnodes, hedges, loadIfExists, hload₁]
  exact hload'

/-- Loading depends on the two files of the branch only. -/
theorem loadFromSegments_congr {fs' : FileSystem}
    (hnodes : fs'.readFile (nodesPath root db branch) = fs.readFile (nodesPath root db branch))
    (hedges : fs'.readFile (edgesPath root db branch) = fs.readFile (edgesPath root db branch)) :
    loadFromSegments serde fs' root db branch = loadFromSegments serde fs root db branch := by
  rw [loadFromSegments, hnodes, hedges, loadFromSegments]

theorem nodesPath_ne_edgesPath : nodesPath root db branch ≠ edgesPath root db branch := by
  intro h
  have := List.append_cancel_left h
  simp at this

/-- What flushing leaves in `nodes.seg`. -/
theorem readFile_flushToSegments_nodes : (flushToSegments serde fs root db branch s).readFile
    (nodesPath root db branch) = some (serde.toVec s.nodesJson) := by
  rw [flushToSegments, flushOps, FileSystem.runOps_append, FileSystem.readFile_runOps_rewriteOps,
    if_neg nodesPath_ne_edgesPath, FileSystem.readFile_runOps_rewriteOps, if_pos rfl]

/-- What flushing leaves in `edges.seg`. -/
theorem readFile_flushToSegments_edges : (flushToSegments serde fs root db branch s).readFile
    (edgesPath root db branch) = some (serde.toVec s.edgesJson) := by
  rw [flushToSegments, flushOps, FileSystem.runOps_append, FileSystem.readFile_runOps_rewriteOps,
    if_pos rfl]

/-! ### Flushing, then loading -/

/-- The property values of a call are ones a segment keeps. -/
def Write.Storable : Write → Prop
  | .node _ ps | .edge _ _ _ ps => Properties.Storable ps

theorem storable_new : Storable new := by
  refine ⟨?_, ?_⟩
  · intro id n h; simp [new] at h
  · intro id e h; simp [new] at h

theorem Storable.addNode (h : s.Storable) {s' : InMemoryGraphStore} {labels : List String}
    {ps : Properties} {id : NodeId} (hps : Properties.Storable ps)
    (hadd : s.addNode labels ps = .ok (id, s')) : s'.Storable := by
  obtain ⟨rfl, -, rfl⟩ := addNode_eq_ok hadd
  refine { h with nodes := ?_ }
  intro id n hn
  rw [AList.lookup_insert_eq] at hn
  split at hn
  · cases hn; exact hps
  · exact h.nodes id n hn

theorem Storable.addEdge (h : s.Storable) {s' : InMemoryGraphStore} {a b : NodeId}
    {edgeType : String} {ps : Properties} {id : EdgeId} (hps : Properties.Storable ps)
    (hadd : s.addEdge a b edgeType ps = .ok (id, s')) : s'.Storable := by
  obtain ⟨rfl, -, rfl⟩ := addEdge_eq_ok hadd
  refine { h with edges := ?_ }
  intro id e he
  rw [AList.lookup_insert_eq] at he
  split at he
  · cases he; exact hps
  · exact h.edges id e he

/-- Calls with storable property values build a storable store. -/
theorem Storable.applyWrites {ws : List Write} : ∀ {s s' : InMemoryGraphStore}, s.Storable →
    (∀ w ∈ ws, w.Storable) → s.applyWrites ws = .ok s' → s'.Storable := by
  induction ws with
  | nil => intro s s' h _ hs; cases hs; exact h
  | cons w ws ih =>
    intro s s' h hws hs
    rw [InMemoryGraphStore.applyWrites, List.foldlM_cons] at hs
    obtain ⟨s₁, hw, hs⟩ := bind_eq_ok hs
    refine ih ?_ (fun w' hw' => hws w' (List.mem_cons_of_mem _ hw')) hs
    have hstorable := hws w List.mem_cons_self
    cases w with
    | node labels ps =>
      obtain ⟨⟨id, s₂⟩, hadd, rfl⟩ := map_eq_ok hw
      exact h.addNode hstorable hadd
    | edge a b edgeType ps =>
      obtain ⟨⟨id, s₂⟩, hadd, rfl⟩ := map_eq_ok hw
      exact h.addEdge hstorable hadd

/-- Being storable does not depend on the iteration orders. -/
theorem Storable.sameGraph (h : s.Storable) (hst : SameGraph s t) : t.Storable where
  nodes := by
    intro id n' hn' k v hv
    obtain ⟨n, hn, hsame⟩ := hst.nodes.lookup_right hn'
    exact h.nodes id n hn k v ((hsame.properties k).trans hv)
  edges := by
    intro id e' he' k v hv
    obtain ⟨e, he, hsame⟩ := hst.edges.lookup_right he'
    exact h.edges id e he k v ((hsame.properties k).trans hv)

/-- A well-formed store that is flushed is loaded as a segment keeps it. -/
theorem Keyed.load_flush (h : s.Keyed) (hnodes : serde.RoundTrips s.nodesJson)
    (hedges : serde.RoundTrips s.edgesJson) : ∃ s',
      loadFromSegments serde (flushToSegments serde fs root db branch s) root db branch = .ok s' ∧
      s'.Wf ∧ StoredAs s s' := by
  obtain ⟨s', hload, hwf, hn, he⟩ := loadFromSegments_docs h h readFile_flushToSegments_nodes
    readFile_flushToSegments_edges hnodes hedges
  exact ⟨s', hload, hwf, hn, he⟩

/-- **Loading after flushing gives the store back**: for every sequence of calls with
storable property values, and whatever orders the hash maps of the store they build iterate
in. -/
theorem loadFromSegments_flushToSegments {ws : List Write} {s₀ s : InMemoryGraphStore}
    (hws : ∀ w ∈ ws, w.Storable) (hrun : new.applyWrites ws = .ok s₀) (horder : SameStore s₀ s)
    (hnodes : serde.RoundTrips s.nodesJson) (hedges : serde.RoundTrips s.edgesJson) : ∃ s',
      loadFromSegments serde (flushToSegments serde fs root db branch s) root db branch = .ok s' ∧
      SameGraph s s' ∧ SameIndexes s s' ∧ SameAnswers s s' ∧
      (∀ id ∈ s'.nodes, id < s'.nextNodeId) ∧ ∀ id ∈ s'.edges, id < s'.nextEdgeId := by
  have hwf : s.Wf := (Reachable.new.applyWrites hrun).wf.sameStore horder
  have hstorable : s.Storable := (storable_new.applyWrites hws hrun).sameGraph horder.graph
  obtain ⟨s', hload, hwf', hstored⟩ := hwf.toKeyed.load_flush hnodes hedges
  have hsame : SameGraph s s' := hstorable.storedAs_iff.mp hstored
  refine ⟨s', hload, hsame, hsame.indexes hwf hwf', hsame.answers hwf hwf', ?_, ?_⟩
  · intro id hid
    obtain ⟨n, hn⟩ := Option.isSome_iff_exists.mp (AList.lookup_isSome.mpr hid)
    exact hwf'.node_lt hn
  · intro id hid
    obtain ⟨e, he⟩ := Option.isSome_iff_exists.mp (AList.lookup_isSome.mpr hid)
    exact hwf'.edge_lt he

/-- `(1:A:B {k: 7})-[:R {w: null}]->(2:B {q: "x"})`, as calls. -/
def sampleWrites : List Write :=
  [.node ["A", "B"] (AList.insert "k" (.int 7) ∅), .node ["B"] (AList.insert "q" (.string "x") ∅),
    .edge 1 2 "R" (AList.insert "w" .null ∅)]

/-- The store these calls build. -/
def sample : InMemoryGraphStore := ((new.applyWrites sampleWrites).toOption).getD new

theorem sampleWrites_storable : ∀ w ∈ sampleWrites, w.Storable := by
  simp only [sampleWrites, List.forall_mem_cons, Write.Storable, List.not_mem_nil]
  exact ⟨storable_empty.insert trivial, storable_empty.insert trivial,
    storable_empty.insert trivial, by simp⟩

/-- The sample store comes back. -/
theorem loadFromSegments_flushToSegments_sample :
    let serde := Serde.ofDocs [sample.nodesJson, sample.edgesJson]
    let db : DatabaseName := ⟨"db", by decide⟩
    let branch : BranchName := ⟨"main", by decide⟩
    ∃ s', loadFromSegments serde (flushToSegments serde ∅ [] db branch sample) [] db branch =
        .ok s' ∧ SameGraph sample s' ∧ SameIndexes sample s' ∧ SameAnswers sample s' ∧
      (∀ id ∈ s'.nodes, id < s'.nextNodeId) ∧ ∀ id ∈ s'.edges, id < s'.nextEdgeId :=
  loadFromSegments_flushToSegments sampleWrites_storable rfl (.refl sample)
    (by unfold Serde.RoundTrips; decide +kernel) (by unfold Serde.RoundTrips; decide +kernel)

end InMemoryGraphStore

end KuzuEventBus
