import KuzuEventBus.Engine.Persistence

/-!
# Replaying a log

`WalRecord` and `replay_wal` of `casys_engine/src/index/persistence.rs`: a record
carries the id and the arguments of one call of `add_node` or `add_edge`, and
replaying it stores the node or edge under that id again, whatever the store
holds there.  The maps are overwritten; the lists of the three indexes are
appended to.

## Main definitions

* `WalRecord`, `replayWal` — records, and their replay.
* `logWrites` — write calls together with the records that carry them.
* `Recovered` — the stores that writing, loading and replaying lead to.
* `Contains` — the effect of a record is in the store already.
* `AddsNothing` — the record enters nothing that a read operation finds into an index.

## Main results

* `replayWal_logWrites` — **replaying the records of a run gives the store of the run.**
* `replayWal_contained` — what replaying records does to a store that contains them.
* `replayWal_sameLists_iff` — the read operations find the same again if and only if no
  record enters anything into an index.
-/

namespace KuzuEventBus

/-- `WalRecord`. -/
inductive WalRecord where
  | addNode (id : NodeId) (labels : List String) (properties : Properties)
  | addEdge (id : EdgeId) (fromNode toNode : NodeId) (edgeType : String) (properties : Properties)

namespace InMemoryGraphStore

/-- One round of `replay_wal`. -/
def replayRecord (s : InMemoryGraphStore) : WalRecord → Except Fault InMemoryGraphStore
  | .addNode id labels properties => s.putNode ⟨id, labels, properties⟩
  | .addEdge id a b edgeType properties => s.putEdge ⟨id, a, b, edgeType, properties⟩

/-- `replay_wal`. -/
def replayWal (s : InMemoryGraphStore) (records : List WalRecord) :
    Except Fault InMemoryGraphStore :=
  records.foldlM replayRecord s

/-! ### Replay and live execution -/

/-- One call, and the record that carries its id and its arguments. -/
def logWrite (s : InMemoryGraphStore) : Write → Except Fault (WalRecord × InMemoryGraphStore)
  | .node labels properties =>
    (s.addNode labels properties).map fun r => (.addNode r.1 labels properties, r.2)
  | .edge a b edgeType properties =>
    (s.addEdge a b edgeType properties).map fun r => (.addEdge r.1 a b edgeType properties, r.2)

/-- A sequence of calls, and their records in order. -/
def logWrites (s : InMemoryGraphStore) :
    List Write → Except Fault (List WalRecord × InMemoryGraphStore)
  | [] => .ok ([], s)
  | w :: ws => do
    let (record, s) ← s.logWrite w
    let (records, s) ← s.logWrites ws
    pure (record :: records, s)

variable {s s' t : InMemoryGraphStore}

/-- The id `add_node` and `add_edge` take is the next one, and so is the one after it. -/
theorem nextIdAfter_self (next : ℕ) : nextIdAfter next next = checkedAdd next 1 :=
  if_pos le_rfl

/-- **Replaying the record of a call does what the call did.** -/
theorem replayRecord_logWrite {w : Write} {r : WalRecord} (h : s.logWrite w = .ok (r, s')) :
    s.replayRecord r = .ok s' := by
  cases w with
  | node labels ps =>
    obtain ⟨⟨id, s₁⟩, hadd, heq⟩ := map_eq_ok h
    cases heq
    obtain ⟨rfl, hlt, rfl⟩ := addNode_eq_ok hadd
    simp only [replayRecord, putNode, nextIdAfter_self, checkedAdd_of_lt hlt]
    rfl
  | edge a b edgeType ps =>
    obtain ⟨⟨id, s₁⟩, hadd, heq⟩ := map_eq_ok h
    cases heq
    obtain ⟨rfl, hlt, rfl⟩ := addEdge_eq_ok hadd
    simp only [replayRecord, putEdge, nextIdAfter_self, checkedAdd_of_lt hlt]
    rfl

/-- **Replaying the records of a run gives the store of the run**: on the store the run began
with, the same nodes, edges, indexes and next ids. -/
theorem replayWal_logWrites {ws : List Write} : ∀ {s s' : InMemoryGraphStore}
    {records : List WalRecord}, s.logWrites ws = .ok (records, s') →
      s.replayWal records = .ok s' := by
  induction ws with
  | nil => intro s s' records h; cases h; rfl
  | cons w ws ih =>
    intro s s' records h
    obtain ⟨⟨r, s₁⟩, hw, h⟩ := bind_eq_ok h
    obtain ⟨⟨rs, s₂⟩, hws, heq⟩ := bind_eq_ok h
    cases heq
    change s.replayRecord r >>= (fun s => s.replayWal rs) = .ok s'
    rw [replayRecord_logWrite hw]
    exact ih hws

/-- The records of `(1:A)-[:R]->(2:B)`. -/
theorem replayWal_logWrites_twoNodes :
    new.logWrites [.node ["A"] ∅, .node ["B"] ∅, .edge 1 2 "R" ∅] =
        .ok ([.addNode 1 ["A"] ∅, .addNode 2 ["B"] ∅, .addEdge 1 1 2 "R" ∅], twoNodes) ∧
      new.replayWal [.addNode 1 ["A"] ∅, .addNode 2 ["B"] ∅, .addEdge 1 1 2 "R" ∅] =
        .ok twoNodes := by
  have h : new.logWrites [.node ["A"] ∅, .node ["B"] ∅, .edge 1 2 "R" ∅] =
      .ok ([.addNode 1 ["A"] ∅, .addNode 2 ["B"] ∅, .addEdge 1 1 2 "R" ∅], twoNodes) := rfl
  exact ⟨h, replayWal_logWrites h⟩

/-! ### The stores recovery leads to -/

/-- The stores that writing, loading and replaying lead to from the empty one. -/
inductive Recovered (serde : Serde) : InMemoryGraphStore → Prop
  | new : Recovered serde new
  | addNode {s s' : InMemoryGraphStore} {labels : List String} {ps : Properties} {id : NodeId}
      (h : Recovered serde s) (hadd : s.addNode labels ps = .ok (id, s')) : Recovered serde s'
  | addEdge {s s' : InMemoryGraphStore} {a b : NodeId} {edgeType : String} {ps : Properties}
      {id : EdgeId} (h : Recovered serde s) (hadd : s.addEdge a b edgeType ps = .ok (id, s')) :
      Recovered serde s'
  | load {fs : FileSystem} {root : FilePath} {db : DatabaseName} {branch : BranchName}
      {s : InMemoryGraphStore} (hload : loadFromSegments serde fs root db branch = .ok s) :
      Recovered serde s
  | replay {s s' : InMemoryGraphStore} {records : List WalRecord} (h : Recovered serde s)
      (hreplay : s.replayWal records = .ok s') : Recovered serde s'

theorem Reachable.recovered (serde : Serde) (h : Reachable s) : Recovered serde s := by
  induction h with
  | new => exact .new
  | addNode _ hadd ih => exact ih.addNode hadd
  | addEdge _ hadd ih => exact ih.addEdge hadd

theorem Keyed.replayRecord (h : s.Keyed) {r : WalRecord} (hr : s.replayRecord r = .ok s') :
    s'.Keyed := by
  cases r with
  | addNode id labels ps => exact h.putNode hr
  | addEdge id a b edgeType ps => exact h.putEdge hr

/-- **The ids stay in order** through writing, loading and replaying. -/
theorem Recovered.keyed {serde : Serde} (h : Recovered serde s) : s.Keyed := by
  induction h with
  | new => exact wf_new.toKeyed
  | @addNode s s' labels ps id _ hadd ih =>
    obtain ⟨rfl, hlt, rfl⟩ := addNode_eq_ok hadd
    exact ih.insertNode (n := ⟨s.nextNodeId, labels, ps⟩) (Nat.lt_succ_self _) (Nat.le_succ _) hlt _
  | @addEdge s s' a b edgeType ps id _ hadd ih =>
    obtain ⟨rfl, hlt, rfl⟩ := addEdge_eq_ok hadd
    exact ih.insertEdge (e := ⟨s.nextEdgeId, a, b, edgeType, ps⟩) (Nat.lt_succ_self _)
      (Nat.le_succ _) hlt _ _
  | load hload => exact keyed_of_loadFromSegments hload
  | replay _ hreplay ih => exact Keyed.foldlM (fun h hr => h.replayRecord hr) ih hreplay

/-! ### What replaying enters into the indexes -/

/-- What replaying a record appends to the list of a label. -/
def labelEntries (label : String) : WalRecord → List NodeId
  | .addNode id labels _ => List.replicate (labels.count label) id
  | .addEdge .. => []

/-- What replaying a record appends to the adjacency list of `a`, for one of the two ends. -/
def endEntries (own : Edge → NodeId) (a : NodeId) : WalRecord → List EdgeId
  | .addNode .. => []
  | .addEdge id f t edgeType ps => if own ⟨id, f, t, edgeType, ps⟩ = a then [id] else []

/-- The effect of the record is in the store. -/
def Contains (s : InMemoryGraphStore) : WalRecord → Prop
  | .addNode id labels ps => ∃ n, s.nodes.lookup id = some n ∧ SameNode n ⟨id, labels, ps⟩
  | .addEdge id a b edgeType ps =>
    ∃ e, s.edges.lookup id = some e ∧ SameEdge e ⟨id, a, b, edgeType, ps⟩

/-- `t` is `s` after the replay of records whose effects `s` contains: the same graph, and
longer lists in the indexes. -/
structure Appended (s : InMemoryGraphStore) (records : List WalRecord) (t : InMemoryGraphStore) :
    Prop where
  graph : SameGraph s t
  labelIndex : ∀ label,
    t.labelIndex.listAt label = s.labelIndex.listAt label ++ records.flatMap (labelEntries label)
  adjacencyOut : ∀ a, t.adjacencyOut.listAt a =
    s.adjacencyOut.listAt a ++ records.flatMap (endEntries Edge.fromNode a)
  adjacencyIn : ∀ a, t.adjacencyIn.listAt a =
    s.adjacencyIn.listAt a ++ records.flatMap (endEntries Edge.toNode a)

theorem Contains.sameGraph {r : WalRecord} (h : s.Contains r) (hst : SameGraph s t) :
    t.Contains r := by
  cases r with
  | addNode id labels ps =>
    obtain ⟨n, hn, hsame⟩ := h
    obtain ⟨n', hn', hsame'⟩ := hst.nodes.lookup_left hn
    exact ⟨n', hn', hsame'.symm.trans hsame⟩
  | addEdge id a b edgeType ps =>
    obtain ⟨e, he, hsame⟩ := h
    obtain ⟨e', he', hsame'⟩ := hst.edges.lookup_left he
    exact ⟨e', he', hsame'.symm.trans hsame⟩

theorem nextIdAfter_of_used {id next : ℕ} (h : id < next) : nextIdAfter id next = .ok next :=
  if_neg (not_le.mpr h)

theorem putNode_of_used {n : Node} (h : n.id < s.nextNodeId) : s.putNode n = .ok { s with
    nodes := s.nodes.insert n.id n
    labelIndex := s.labelIndex.pushAll n.labels n.id } := by
  simp only [putNode, nextIdAfter_of_used h]
  rfl

theorem putEdge_of_used {e : Edge} (h : e.id < s.nextEdgeId) : s.putEdge e = .ok { s with
    edges := s.edges.insert e.id e
    adjacencyOut := s.adjacencyOut.pushTo e.fromNode e.id
    adjacencyIn := s.adjacencyIn.pushTo e.toNode e.id } := by
  simp only [putEdge, nextIdAfter_of_used h]
  rfl

/-- An adjacency list gets the id when it is the list of the edge's end. -/
theorem listAt_pushTo_end (m : HashMap NodeId (List EdgeId)) (own : Edge → NodeId) (id : EdgeId)
    (a b : NodeId) (edgeType : String) (ps : Properties) (c : NodeId) :
    (m.pushTo (own ⟨id, a, b, edgeType, ps⟩) id).listAt c =
      m.listAt c ++ endEntries own c (.addEdge id a b edgeType ps) := by
  rw [AList.listAt_pushTo]
  by_cases hc : own ⟨id, a, b, edgeType, ps⟩ = c
  · have hentries : endEntries own c (.addEdge id a b edgeType ps) = [id] := if_pos hc
    rw [if_pos hc.symm, hentries, hc]
  · have hentries : endEntries own c (.addEdge id a b edgeType ps) = [] := if_neg hc
    rw [if_neg (Ne.symm hc), hentries, List.append_nil]

/-- **Replaying a record whose effect is there** overwrites the node or edge by itself, and
appends its id to the lists once more. -/
theorem replayRecord_contained (hkeyed : s.Keyed) {r : WalRecord} (h : s.Contains r) :
    ∃ t, s.replayRecord r = .ok t ∧ Appended s [r] t := by
  cases r with
  | addNode id labels ps =>
    obtain ⟨n, hn, hsame⟩ := h
    refine ⟨_, putNode_of_used (hkeyed.node_lt hn), ?_⟩
    refine ⟨⟨AList.related_insert .refl hn hsame, .of_sameMap .refl (.refl _)⟩, ?_, ?_, ?_⟩
    · intro label
      rw [AList.listAt_pushAll, List.flatMap_singleton]
      rfl
    · intro a; exact (List.append_nil _).symm
    · intro a; exact (List.append_nil _).symm
  | addEdge id a b edgeType ps =>
    obtain ⟨e, he, hsame⟩ := h
    refine ⟨_, putEdge_of_used (hkeyed.edge_lt he), ?_⟩
    refine ⟨⟨.of_sameMap .refl (.refl _), AList.related_insert .refl he hsame⟩, ?_, ?_, ?_⟩
    · intro label; exact (List.append_nil _).symm
    · intro c
      rw [List.flatMap_singleton]
      exact listAt_pushTo_end _ Edge.fromNode id a b edgeType ps c
    · intro c
      rw [List.flatMap_singleton]
      exact listAt_pushTo_end _ Edge.toNode id a b edgeType ps c

theorem SameGraph.trans {u : InMemoryGraphStore} (h : SameGraph s t) (h' : SameGraph t u) :
    SameGraph s u :=
  ⟨h.nodes.trans h'.nodes fun _ _ _ => SameNode.trans,
    h.edges.trans h'.edges fun _ _ _ => SameEdge.trans⟩

theorem Appended.trans {u : InMemoryGraphStore} {rs rs' : List WalRecord} (h : Appended s rs t)
    (h' : Appended t rs' u) : Appended s (rs ++ rs') u where
  graph := h.graph.trans h'.graph
  labelIndex label := by
    rw [h'.labelIndex, h.labelIndex, List.flatMap_append, List.append_assoc]
  adjacencyOut a := by
    rw [h'.adjacencyOut, h.adjacencyOut, List.flatMap_append, List.append_assoc]
  adjacencyIn a := by
    rw [h'.adjacencyIn, h.adjacencyIn, List.flatMap_append, List.append_assoc]

/-- **Replaying records whose effects are there** succeeds, keeps the graph and appends their
ids to the lists. -/
theorem replayWal_contained {records : List WalRecord} : ∀ {s : InMemoryGraphStore}, s.Keyed →
    (∀ r ∈ records, s.Contains r) →
      ∃ t, s.replayWal records = .ok t ∧ Appended s records t := by
  induction records with
  | nil =>
    intro s _ _
    refine ⟨s, rfl, .refl s, ?_, ?_, ?_⟩ <;> intro k <;> exact (List.append_nil _).symm
  | cons r rs ih =>
    intro s hkeyed hall
    obtain ⟨t, ht, happ⟩ := replayRecord_contained hkeyed (hall r List.mem_cons_self)
    have hall' : ∀ r' ∈ rs, t.Contains r' :=
      fun r' hr' => (hall r' (List.mem_cons_of_mem r hr')).sameGraph happ.graph
    obtain ⟨u, hu, happ'⟩ := ih (hkeyed.replayRecord ht) hall'
    refine ⟨u, ?_, happ.trans happ'⟩
    change s.replayRecord r >>= (fun s => s.replayWal rs) = .ok u
    rw [ht]
    exact hu

/-! ### What the read operations find -/

/-- The three read operations that go through an index find the same, as multisets. -/
structure SameLists (s t : InMemoryGraphStore) : Prop where
  scanByLabel : ∀ label, Multiset.Rel SameNode (s.scanByLabel label) (t.scanByLabel label)
  getNeighbors : ∀ id edgeType,
    Multiset.Rel SameNeighbor (s.getNeighbors id edgeType) (t.getNeighbors id edgeType)
  getNeighborsIncoming : ∀ id edgeType, Multiset.Rel SameNeighbor
    (s.getNeighborsIncoming id edgeType) (t.getNeighborsIncoming id edgeType)

/-- Replaying the record enters nothing that a read operation finds into an index: a node
without labels, an edge between two nodes that are not there. -/
def AddsNothing (s : InMemoryGraphStore) : WalRecord → Prop
  | .addNode _ labels _ => labels = []
  | .addEdge _ a b _ _ => s.nodes.lookup a = none ∧ s.nodes.lookup b = none

/-- A collection to which more is appended stays the same only if nothing is. -/
theorem rel_append_iff {α β : Type} {R : α → β → Prop} {xs : List α} {ys zs : List β}
    (h : Multiset.Rel R xs ys) : Multiset.Rel R xs (ys ++ zs : List β) ↔ zs = [] := by
  constructor
  · intro h'
    have hys : xs.length = ys.length := Multiset.card_eq_card_of_rel h
    have hzs : xs.length = (ys ++ zs).length := Multiset.card_eq_card_of_rel h'
    rw [List.length_append] at hzs
    exact List.eq_nil_of_length_eq_zero (by omega)
  · rintro rfl
    rw [List.append_nil]
    exact h

theorem neighborsVia_append (ids ids' : List EdgeId) (other : Edge → NodeId)
    (edgeType : Option String) : s.neighborsVia (ids ++ ids') other edgeType =
      s.neighborsVia ids other edgeType ++ s.neighborsVia ids' other edgeType :=
  List.filterMap_append

variable {records : List WalRecord}

/-- What `scan_by_label` finds stays the same if and only if no entry of the label is added. -/
theorem Appended.scanByLabel_iff (h : Appended s records t) (label : String) :
    Multiset.Rel SameNode (s.scanByLabel label) (t.scanByLabel label) ↔
      ∀ r ∈ records, ∀ id ∈ labelEntries label r, s.nodes.lookup id = none := by
  have hold : Multiset.Rel SameNode (s.scanByLabel label)
      ((s.labelIndex.listAt label).filterMap fun id => t.nodes.lookup id) :=
    AList.rel_filterMap_of_perm h.graph.nodes (List.Perm.refl _)
  rw [show t.scanByLabel label = (t.labelIndex.listAt label).filterMap fun id => t.nodes.lookup id
    from rfl, h.labelIndex, List.filterMap_append, rel_append_iff hold, List.filterMap_eq_nil_iff]
  simp only [List.mem_flatMap, forall_exists_index, and_imp]
  constructor
  · intro hnone r hr id hid
    exact h.graph.nodes.symm.lookup_eq_none (hnone id r hr hid)
  · intro hnone id r hr hid
    exact h.graph.nodes.lookup_eq_none (hnone r hr id hid)

/-- What following an adjacency list finds stays the same if and only if the added entries
lead nowhere. -/
theorem Appended.neighborsVia_iff (h : Appended s records t) {ids new : List EdgeId}
    {other : Edge → NodeId} (hother : ∀ {e e'}, SameEdge e e' → other e = other e')
    (edgeType : Option String) :
    Multiset.Rel SameNeighbor (s.neighborsVia ids other edgeType)
      (t.neighborsVia (ids ++ new) other edgeType) ↔ t.neighborsVia new other edgeType = [] := by
  rw [neighborsVia_append]
  exact rel_append_iff (h.graph.neighborsVia (List.Perm.refl ids) hother edgeType)

theorem mem_endEntries {own : Edge → NodeId} {a : NodeId} {r : WalRecord} {id : EdgeId} :
    id ∈ endEntries own a r ↔
      ∃ f g edgeType ps, r = .addEdge id f g edgeType ps ∧ own ⟨id, f, g, edgeType, ps⟩ = a := by
  cases r with
  | addNode id' labels ps =>
    constructor
    · intro h; cases h
    · rintro ⟨f, g, ty, ps, heq, -⟩; cases heq
  | addEdge id' f g ty ps =>
    rw [endEntries]
    constructor
    · intro h
      split at h
      · next hown =>
        rw [List.mem_singleton] at h
        subst h
        exact ⟨f, g, ty, ps, rfl, hown⟩
      · cases h
    · rintro ⟨f', g', ty', ps', heq, hown⟩
      cases heq
      rw [if_pos hown]
      exact List.mem_singleton_self id

/-- The added entries lead nowhere if and only if the ends they lead to are not there. -/
theorem neighborsVia_entries_eq_nil_iff (hall : ∀ r ∈ records, t.Contains r)
    (own : Edge → NodeId) {other : Edge → NodeId}
    (hother : ∀ {e e'}, SameEdge e e' → other e = other e') :
    (∀ a edgeType, t.neighborsVia (records.flatMap (endEntries own a)) other edgeType = []) ↔
      ∀ id f g edgeType ps, .addEdge id f g edgeType ps ∈ records →
        t.nodes.lookup (other ⟨id, f, g, edgeType, ps⟩) = none := by
  constructor
  · intro hnil id f g edgeType ps hr
    obtain ⟨e, he, hsame⟩ := hall _ hr
    cases hn : t.nodes.lookup (other ⟨id, f, g, edgeType, ps⟩) with
    | none => rfl
    | some n =>
      have hmem : (e, n) ∈ t.neighborsVia (records.flatMap
          (endEntries own (own ⟨id, f, g, edgeType, ps⟩))) other none := by
        refine mem_neighborsVia.mpr ⟨id, ?_, he, (fun t ht => by cases ht), ?_⟩
        · exact List.mem_flatMap.mpr ⟨_, hr, mem_endEntries.mpr ⟨f, g, edgeType, ps, rfl, rfl⟩⟩
        · rw [hother hsame]
          exact hn
      rw [hnil] at hmem
      cases hmem
  · intro hnone a edgeType
    rw [List.eq_nil_iff_forall_not_mem]
    rintro ⟨e, n⟩ hmem
    obtain ⟨id, hid, he, -, hn⟩ := mem_neighborsVia.mp hmem
    obtain ⟨r, hr, hr'⟩ := List.mem_flatMap.mp hid
    obtain ⟨f, g, ty, ps, rfl, -⟩ := mem_endEntries.mp hr'
    obtain ⟨e', he', hsame⟩ := hall _ hr
    rw [he] at he'
    cases he'
    rw [hother hsame, hnone id f g ty ps hr] at hn
    cases hn

/-- **The read operations find the same again if and only if no record enters anything into an
index**: each node record has no labels, and each edge record is between nodes not there. -/
theorem replayWal_sameLists_iff {serde : Serde} (hs : Recovered serde s)
    (hall : ∀ r ∈ records, s.Contains r) : ∃ t, s.replayWal records = .ok t ∧
      (SameLists s t ↔ ∀ r ∈ records, s.AddsNothing r) := by
  obtain ⟨t, ht, happ⟩ := replayWal_contained hs.keyed hall
  refine ⟨t, ht, ?_⟩
  have hallT : ∀ r ∈ records, t.Contains r := fun r hr => (hall r hr).sameGraph happ.graph
  have hout : (∀ a edgeType, Multiset.Rel SameNeighbor (s.getNeighbors a edgeType)
      (t.getNeighbors a edgeType)) ↔ ∀ id f g edgeType ps, .addEdge id f g edgeType ps ∈ records →
        t.nodes.lookup g = none := by
    rw [← neighborsVia_entries_eq_nil_iff hallT Edge.fromNode SameEdge.toNode]
    refine forall_congr' fun a => forall_congr' fun edgeType => ?_
    rw [getNeighbors, getNeighbors, happ.adjacencyOut]
    exact happ.neighborsVia_iff SameEdge.toNode edgeType
  have hin : (∀ a edgeType, Multiset.Rel SameNeighbor (s.getNeighborsIncoming a edgeType)
      (t.getNeighborsIncoming a edgeType)) ↔
        ∀ id f g edgeType ps, .addEdge id f g edgeType ps ∈ records →
          t.nodes.lookup f = none := by
    rw [← neighborsVia_entries_eq_nil_iff hallT Edge.toNode SameEdge.fromNode]
    refine forall_congr' fun a => forall_congr' fun edgeType => ?_
    rw [getNeighborsIncoming, getNeighborsIncoming, happ.adjacencyIn]
    exact happ.neighborsVia_iff SameEdge.fromNode edgeType
  constructor
  · intro hsame r hr
    cases r with
    | addNode id labels ps =>
      obtain ⟨n, hn, -⟩ := hall _ hr
      -- a label would be found once more
      change labels = []
      rw [List.eq_nil_iff_forall_not_mem]
      intro label hlabel
      have hentry : id ∈ labelEntries label (.addNode id labels ps) :=
        List.mem_replicate.mpr ⟨(List.count_pos_iff.mpr hlabel).ne', rfl⟩
      have hnone := (happ.scanByLabel_iff label).mp (hsame.scanByLabel label) _ hr id hentry
      rw [hn] at hnone
      cases hnone
    | addEdge id f g edgeType ps =>
      exact ⟨happ.graph.nodes.symm.lookup_eq_none (hin.mp hsame.getNeighborsIncoming _ _ _ _ _ hr),
        happ.graph.nodes.symm.lookup_eq_none (hout.mp hsame.getNeighbors _ _ _ _ _ hr)⟩
  · intro hnothing
    refine ⟨fun label => (happ.scanByLabel_iff label).mpr fun r hr id hid => ?_, hout.mpr ?_,
      hin.mpr ?_⟩
    · cases r with
      | addNode id' labels ps =>
        have hlabels : labels = [] := hnothing _ hr
        rw [hlabels] at hid
        cases hid
      | addEdge id' f g edgeType ps => cases hid
    · intro id f g edgeType ps hr
      exact happ.graph.nodes.lookup_eq_none (hnothing _ hr).2
    · intro id f g edgeType ps hr
      exact happ.graph.nodes.lookup_eq_none (hnothing _ hr).1

theorem contains_twoNodes : ∀ r ∈ [WalRecord.addNode 1 ["A"] ∅, .addEdge 1 1 2 "R" ∅],
    twoNodes.Contains r := by
  intro r hr
  rcases List.mem_pair.mp hr with rfl | rfl
  · exact ⟨⟨1, ["A"], ∅⟩, rfl, .refl _⟩
  · exact ⟨⟨1, 1, 2, "R", ∅⟩, rfl, .refl _⟩

theorem replayWal_sameLists_iff_twoNodes :
    ∃ t, twoNodes.replayWal [.addNode 1 ["A"] ∅, .addEdge 1 1 2 "R" ∅] = .ok t ∧
      (SameLists twoNodes t ↔ ∀ r ∈ [WalRecord.addNode 1 ["A"] ∅, .addEdge 1 1 2 "R" ∅],
        twoNodes.AddsNothing r) :=
  replayWal_sameLists_iff (reachable_twoNodes.recovered (.ofDocs [])) contains_twoNodes

/-- After the replay of records that the store contains, the node is found twice under its label,
and over its edge as well. -/
theorem replayWal_twoNodes_twice :
    ∃ t, twoNodes.replayWal [.addNode 1 ["A"] ∅, .addEdge 1 1 2 "R" ∅] = .ok t ∧
      (twoNodes.scanByLabel "A").length = 1 ∧ (t.scanByLabel "A").length = 2 ∧
      (twoNodes.getNeighbors 1 none).length = 1 ∧ (t.getNeighbors 1 none).length = 2 ∧
      ¬ SameLists twoNodes t := by
  refine ⟨_, rfl, rfl, rfl, rfl, rfl, fun h => ?_⟩
  have hcard := Multiset.card_eq_card_of_rel (h.scanByLabel "A")
  cases hcard

end InMemoryGraphStore

end KuzuEventBus
