import KuzuEventBus.Gql.CreatePaths
import KuzuEventBus.Gql.CreateRuns

/-!
# The graph a CREATE clause builds

A CREATE clause asks for a graph: a node for each new variable and for each node written
without one, and an edge for each edge pattern.  The parser and the executor divide the
work otherwise: a node is made for each single node before the first edge, and an edge
reads its ends from left to right and finds them among these nodes or in the parent
tuple.  What is made is what is asked for exactly when the two lists agree.

## Main definitions

* `writtenNodes`, `writtenEdges` — the nodes and edges of a clause, from left to right.
* `NodeRef`, `askedNodes`, `askedEdges` — the graph a clause asks for.
* `Extended` — a store with new nodes and edges, and nothing else changed.
* `CreateBuilds` — a CREATE builds the graph it asks for.
* `singles`, `links`, `madeEdges` — the graph that is made.
* `CreateFits` — the graph that is made is the one asked for.

## Main results

* `foldl_addCreatePath_eq_singles` — the patterns of a clause.
* `extended_makeRow` — what the patterns make.
* `Extended.unique` — what has been added to a store can be read off.
* `createBuilds_iff` — **when a CREATE builds the graph it asks for**.
-/

namespace KuzuEventBus

open Parsing

/-! ### What is written -/

/-- The nodes of a path, from left to right. -/
def CreatePath.nodes (path : CreatePath) : List NodePattern :=
  path.first :: path.edges.map EdgePattern.toNode

/-- The nodes of a clause, from left to right. -/
def writtenNodes (paths : List CreatePath) : List NodePattern := paths.flatMap CreatePath.nodes

/-- The edges of a clause, from left to right, each with the position of the node on its
left; the node on its right is the next one.  The first node is the `i`-th. -/
def writtenEdges : ℕ → List CreatePath → List (ℕ × EdgePattern)
  | _, [] => []
  | i, path :: paths =>
    path.edges.zipIdx.map (fun ej => (i + ej.2, ej.1)) ++
      writtenEdges (i + path.nodes.length) paths

/-- What a written node stands for: its variable, or itself. -/
inductive NodeRef where
  | var (name : String)
  | anon (position : ℕ)
  deriving DecidableEq

/-- What the nodes stand for. -/
def nodeRefs (nodes : List NodePattern) : List NodeRef :=
  nodes.zipIdx.map fun ni =>
    match ni.1.var with
    | some name => .var name
    | none => .anon ni.2

/-- The node is not bound in the parent tuple. -/
def NodeRef.isNew (parent : Tuple) : NodeRef → Bool
  | .var name => (parent.lookup name).isNone
  | .anon _ => true

/-- The nodes a clause asks for, in the order they are first written. -/
def askedNodes (parent : Tuple) (paths : List CreatePath) : List NodeRef :=
  ((nodeRefs (writtenNodes paths)).filter (·.isNew parent)).eraseDups

/-- A node as the store holds it, without its id. -/
structure NodeSpec where
  labels : List String
  properties : Properties

/-- An edge as the store holds it, without its id; an end may be unknown. -/
structure EdgeSpec where
  fromNode : Option NodeId
  toNode : Option NodeId
  edgeType : Option String
  properties : Properties

/-- What is written for a node: the labels and the properties of the first of its
occurrences that has any. -/
def askedNode (nodes : List NodePattern) (r : NodeRef) : NodeSpec :=
  let occurrences := ((nodes.zip (nodeRefs nodes)).filter (·.2 = r)).map Prod.fst
  ⟨((occurrences.map NodePattern.labels).find? (!·.isEmpty)).getD [],
    literalProperties (((occurrences.map NodePattern.properties).find?
      (!·.toPairs.isEmpty)).getD ∅)⟩

/-- The node the `i`-th written node stands for, when the nodes of `order` have the ids
from `n` on. -/
def denoted (parent : Tuple) (paths : List CreatePath) (order : List NodeRef) (n : NodeId)
    (i : ℕ) : Option NodeId :=
  match (nodeRefs (writtenNodes paths))[i]? with
  | some (.var name) =>
    if (parent.lookup name).isNone then (order.idxOf? (.var name)).map (n + ·)
    else boundNode parent name
  | some (.anon position) => (order.idxOf? (.anon position)).map (n + ·)
  | none => none

/-- The edges a clause asks for: a left edge leads from its right end to its left one. -/
def askedEdges (parent : Tuple) (paths : List CreatePath) (order : List NodeRef) (n : NodeId) :
    List EdgeSpec :=
  (writtenEdges 0 paths).map fun ie =>
    let left := denoted parent paths order n ie.1
    let right := denoted parent paths order n (ie.1 + 1)
    match ie.2.direction with
    | .left => ⟨right, left, ie.2.edgeType, literalProperties ie.2.properties⟩
    | .right | .both => ⟨left, right, ie.2.edgeType, literalProperties ie.2.properties⟩

/-- `store'` is `store` with the nodes and the edges added, under the next ids, and
nothing else changed. -/
structure Extended (store store' : InMemoryGraphStore) (nodes : List NodeSpec)
    (edges : List EdgeSpec) : Prop where
  node_new : ∀ i node, nodes[i]? = some node →
    store'.nodes.lookup (store.nextNodeId + i) =
      some ⟨store.nextNodeId + i, node.labels, node.properties⟩
  node_old : ∀ id, id < store.nextNodeId ∨ store.nextNodeId + nodes.length ≤ id →
    store'.nodes.lookup id = store.nodes.lookup id
  edge_new : ∀ i edge, edges[i]? = some edge → ∃ a b edgeType,
    edge.fromNode = some a ∧ edge.toNode = some b ∧ edge.edgeType = some edgeType ∧
      store'.edges.lookup (store.nextEdgeId + i) =
        some ⟨store.nextEdgeId + i, a, b, edgeType, edge.properties⟩
  edge_old : ∀ id, id < store.nextEdgeId ∨ store.nextEdgeId + edges.length ≤ id →
    store'.edges.lookup id = store.edges.lookup id

/-- A CREATE with the patterns of `paths` builds the graph the paths ask for: the nodes
and the edges get the next ids in some order. -/
def CreateBuilds (patterns : List Pattern) (paths : List CreatePath)
    (store : InMemoryGraphStore) (parent : Tuple) : Prop :=
  ∃ rows store' order edges,
    runExec (executeCreate patterns parent) (some store) = (.ok rows, some store') ∧
    order.Perm (askedNodes parent paths) ∧
    edges.Perm (askedEdges parent paths order store.nextNodeId) ∧
    Extended store store' (order.map (askedNode (writtenNodes paths))) edges

/-! ### What is made -/

/-- The single nodes before the first edge. -/
def singles (paths : List CreatePath) : List NodePattern :=
  (paths.takeWhile (·.edges.isEmpty)).map CreatePath.first

/-- The edges of a clause. -/
def links (paths : List CreatePath) : List EdgePattern := paths.flatMap CreatePath.edges

/-- The node that is made for a node pattern. -/
def madeNode (node : NodePattern) : NodeSpec := ⟨node.labels, literalProperties node.properties⟩

/-- The variables of node patterns that get the ids from `n` on: the last one counts. -/
def nodeIds (vars : HashMap String NodeId) (n : NodeId) : List NodePattern → HashMap String NodeId
  | [] => vars
  | node :: nodes =>
    nodeIds (match node.var with
      | some name => vars.insert name n
      | none => vars) (n + 1) nodes

/-- The edge that is made for an edge pattern. -/
def madeEdge (vars : HashMap String NodeId) (parent : Tuple) (edge : EdgePattern) : EdgeSpec :=
  ⟨endNode vars parent edge.fromNode, endNode vars parent edge.toNode, edge.edgeType,
    literalProperties edge.properties⟩

/-- Every edge has a type. -/
def EdgesTyped (paths : List CreatePath) : Prop := ∀ edge ∈ links paths, edge.edgeType.isSome

/-- A variable has its labels, and its properties, in one place at most. -/
def OneBlock (paths : List CreatePath) : Prop :=
  ∀ name, ((writtenNodes paths).filter fun node =>
      node.var = some name && !node.labels.isEmpty).length ≤ 1 ∧
    ((writtenNodes paths).filter fun node =>
      node.var = some name && !node.properties.toPairs.isEmpty).length ≤ 1

/-- The graph that is made is the one asked for: the ends of every edge are variables, of
single nodes before the first edge or of nodes of the parent tuple; the ids do not run
out; and, in some order, the nodes asked for are these single nodes and the edges asked
for are the edges as they are made. -/
structure CreateFits (paths : List CreatePath) (store : InMemoryGraphStore) (parent : Tuple) :
    Prop where
  ends : ∀ edge ∈ links paths,
    EndKnown parent ((singles paths).map .node) edge.fromNode ∧
      EndKnown parent ((singles paths).map .node) edge.toNode
  nodeRoom : store.nextNodeId + (singles paths).length < 2 ^ 64
  edgeRoom : store.nextEdgeId + (links paths).length < 2 ^ 64
  graph : ∃ order, order.Perm (askedNodes parent paths) ∧
    order.map (askedNode (writtenNodes paths)) = (singles paths).map madeNode ∧
    ((links paths).map (madeEdge (nodeIds ∅ store.nextNodeId (singles paths)) parent)).Perm
      (askedEdges parent paths order store.nextNodeId)

/-! ### The patterns of a clause -/

theorem links_cons (path : CreatePath) (paths : List CreatePath) :
    links (path :: paths) = path.edges ++ links paths := List.flatMap_cons

theorem endsWithEdge_map_node (nodes : List NodePattern) :
    endsWithEdge (nodes.map Pattern.node) = false := by
  unfold endsWithEdge
  rw [List.getLast?_map]
  cases nodes.getLast? <;> rfl

/-- After an edge the loop collects edges only. -/
theorem foldl_addCreatePath_of_endsWithEdge (paths : List CreatePath) :
    ∀ {patterns : List Pattern}, endsWithEdge patterns = true →
      paths.foldl addCreatePath patterns = patterns ++ (links paths).map .edge := by
  induction paths with
  | nil => intro patterns _; simp [links]
  | cons path paths ih =>
    intro patterns hend
    have hadd : addCreatePath patterns path = patterns ++ path.edges.map .edge := by
      rw [addCreatePath_eq]
      by_cases hnil : path.edges = []
      · simp [hnil, hend]
      · simp [hnil, CreatePath.patterns]
    rw [List.foldl_cons, ih, hadd, links_cons, List.map_append, List.append_assoc]
    exact (endsWithEdge_addCreatePath patterns path).mpr (.inl hend)

/-- **The patterns of a clause**: the single nodes before the first edge, then the edges. -/
theorem foldl_addCreatePath_eq_singles (paths : List CreatePath) : ∀ nodes : List NodePattern,
    paths.foldl addCreatePath (nodes.map .node) =
      (nodes ++ singles paths).map .node ++ (links paths).map .edge := by
  induction paths with
  | nil => intro nodes; simp [singles, links]
  | cons path paths ih =>
    intro nodes
    rw [List.foldl_cons]
    by_cases hnil : path.edges = []
    · have hadd : addCreatePath (nodes.map .node) path = (nodes ++ [path.first]).map .node := by
        rw [addCreatePath_eq, endsWithEdge_map_node]
        simp [hnil, CreatePath.patterns]
      have hsingles : singles (path :: paths) = path.first :: singles paths := by
        simp [singles, hnil]
      rw [hadd, ih, hsingles, links_cons, hnil, List.append_assoc]
      rfl
    · have hadd : addCreatePath (nodes.map .node) path =
          nodes.map .node ++ path.edges.map .edge := by
        rw [addCreatePath_eq]
        simp [hnil, CreatePath.patterns]
      have hend : endsWithEdge (addCreatePath (nodes.map Pattern.node) path) = true :=
        (endsWithEdge_addCreatePath _ path).mpr (.inr hnil)
      have hsingles : singles (path :: paths) = [] := by simp [singles, hnil]
      rw [foldl_addCreatePath_of_endsWithEdge paths hend, hadd, hsingles, List.append_nil,
        links_cons, List.map_append, List.append_assoc]

theorem nodeCount_map_node (nodes : List NodePattern) :
    nodeCount (nodes.map .node) = nodes.length := by
  induction nodes with
  | nil => rfl
  | cons node nodes ih => rw [List.map_cons, nodeCount_node, ih, List.length_cons]

theorem nodeCount_map_edge (edges : List EdgePattern) : nodeCount (edges.map .edge) = 0 := by
  induction edges with
  | nil => rfl
  | cons edge edges ih => rw [List.map_cons, nodeCount_edge, ih]

theorem edgeCount_map_node (nodes : List NodePattern) : edgeCount (nodes.map .node) = 0 := by
  induction nodes with
  | nil => rfl
  | cons node nodes ih => rw [List.map_cons, edgeCount_node, ih]

theorem edgeCount_map_edge (edges : List EdgePattern) :
    edgeCount (edges.map .edge) = edges.length := by
  induction edges with
  | nil => rfl
  | cons edge edges ih => rw [List.map_cons, edgeCount_edge, ih, List.length_cons]

theorem hasRoom_paths_iff {store : InMemoryGraphStore} {nodes : List NodePattern}
    {edges : List EdgePattern} :
    HasRoom store (nodes.map .node ++ edges.map .edge) ↔
      store.nextNodeId + nodes.length < 2 ^ 64 ∧ store.nextEdgeId + edges.length < 2 ^ 64 := by
  constructor
  · rintro ⟨hn, he⟩
    rw [nodeCount_append, nodeCount_map_node, nodeCount_map_edge, Nat.add_zero] at hn
    rw [edgeCount_append, edgeCount_map_node, edgeCount_map_edge, Nat.zero_add] at he
    exact ⟨hn, he⟩
  · rintro ⟨hn, he⟩
    constructor
    · rwa [nodeCount_append, nodeCount_map_node, nodeCount_map_edge, Nat.add_zero]
    · rwa [edgeCount_append, edgeCount_map_node, edgeCount_map_edge, Nat.zero_add]

/-- Nodes can always be made. -/
theorem makes_nodes_append_iff {parent : Tuple} {ps : List Pattern} (nodes : List NodePattern) :
    ∀ {earlier : List Pattern}, Makes parent earlier (nodes.map .node ++ ps) ↔
      Makes parent (earlier ++ nodes.map .node) ps := by
  induction nodes with
  | nil => intro earlier; simp
  | cons node nodes ih =>
    intro earlier
    show (True ∧ Makes parent (earlier ++ [.node node]) (nodes.map .node ++ ps)) ↔ _
    rw [true_and, ih, List.map_cons, List.append_assoc]
    rfl

theorem endKnown_append_edge {parent : Tuple} {earlier : List Pattern} {edge : EdgePattern}
    {node : NodePattern} :
    EndKnown parent (earlier ++ [.edge edge]) node ↔ EndKnown parent earlier node := by
  simp [EndKnown]

/-- Edges can be made when all their ends are known before. -/
theorem makes_edges_iff {parent : Tuple} (edges : List EdgePattern) :
    ∀ {earlier : List Pattern}, Makes parent earlier (edges.map .edge) ↔
      ∀ edge ∈ edges, Makeable parent earlier (.edge edge) := by
  induction edges with
  | nil => intro earlier; simp [Makes]
  | cons edge edges ih =>
    intro earlier
    rw [List.map_cons, Makes, ih, List.forall_mem_cons]
    simp only [Makeable, endKnown_append_edge]

/-! ### What the patterns of a clause make -/

theorem Extended.refl (store : InMemoryGraphStore) : Extended store store [] [] where
  node_new := by simp
  node_old _ _ := rfl
  edge_new := by simp
  edge_old _ _ := rfl

/-- One more node. -/
theorem Extended.withNode {s t : InMemoryGraphStore} {nodes : List NodeSpec}
    {edges : List EdgeSpec} (h : Extended s t nodes edges)
    (hnext : t.nextNodeId = s.nextNodeId + nodes.length) (labels : List String)
    (properties : Properties) :
    Extended s (t.withNode labels properties) (nodes ++ [⟨labels, properties⟩]) edges where
  node_new := by
    intro i node hi
    rw [InMemoryGraphStore.withNode, AList.lookup_insert_eq, hnext]
    rcases lt_trichotomy i nodes.length with hlt | rfl | hgt
    · rw [List.getElem?_append_left hlt] at hi
      rw [if_neg fun heq => hlt.ne (Nat.add_left_cancel heq)]
      exact h.node_new i node hi
    · rw [List.getElem?_concat_length] at hi
      cases hi
      rw [if_pos rfl]
    · rw [List.getElem?_eq_none (by rw [List.length_append]; exact hgt)] at hi
      cases hi
  node_old := by
    intro id hid
    rw [List.length_append, List.length_singleton] at hid
    rw [InMemoryGraphStore.withNode, AList.lookup_insert_eq, hnext, if_neg, h.node_old]
    · exact hid.imp_right fun hle => (Nat.le_succ _).trans hle
    · rintro rfl
      rcases hid with hlt | hle
      · exact absurd hlt (not_lt_of_ge (Nat.le_add_right _ _))
      · exact absurd hle (Nat.not_succ_le_self _)
  edge_new := h.edge_new
  edge_old := h.edge_old

/-- One more edge. -/
theorem Extended.withEdge {s t : InMemoryGraphStore} {nodes : List NodeSpec}
    {edges : List EdgeSpec} (h : Extended s t nodes edges)
    (hnext : t.nextEdgeId = s.nextEdgeId + edges.length) (a b : NodeId) (edgeType : String)
    (properties : Properties) :
    Extended s (t.withEdge a b edgeType properties) nodes
      (edges ++ [⟨some a, some b, some edgeType, properties⟩]) where
  node_new := h.node_new
  node_old := h.node_old
  edge_new := by
    intro i edge hi
    rw [InMemoryGraphStore.withEdge, AList.lookup_insert_eq, hnext]
    rcases lt_trichotomy i edges.length with hlt | rfl | hgt
    · rw [List.getElem?_append_left hlt] at hi
      rw [if_neg fun heq => hlt.ne (Nat.add_left_cancel heq)]
      exact h.edge_new i edge hi
    · rw [List.getElem?_concat_length] at hi
      cases hi
      rw [if_pos rfl]
      exact ⟨a, b, edgeType, rfl, rfl, rfl, rfl⟩
    · rw [List.getElem?_eq_none (by rw [List.length_append]; exact hgt)] at hi
      cases hi
  edge_old := by
    intro id hid
    rw [List.length_append, List.length_singleton] at hid
    rw [InMemoryGraphStore.withEdge, AList.lookup_insert_eq, hnext, if_neg, h.edge_old]
    · exact hid.imp_right fun hle => (Nat.le_succ _).trans hle
    · rintro rfl
      rcases hid with hlt | hle
      · exact absurd hlt (not_lt_of_ge (Nat.le_add_right _ _))
      · exact absurd hle (Nat.not_succ_le_self _)

/-- The state after node patterns. -/
theorem extended_makeNodes (parent : Tuple) {s : InMemoryGraphStore} {edges : List EdgeSpec}
    (patterns : List NodePattern) :
    ∀ {st : CreateState} {t : InMemoryGraphStore} {nodes : List NodeSpec},
      Extended s t nodes edges → t.nextNodeId = s.nextNodeId + nodes.length →
      Extended s (makeAll parent (st, t) (patterns.map .node)).2
          (nodes ++ patterns.map madeNode) edges ∧
        (makeAll parent (st, t) (patterns.map .node)).1.createdVars =
          nodeIds st.createdVars t.nextNodeId patterns := by
  induction patterns with
  | nil =>
    intro st t nodes h hnext
    rw [List.map_nil, List.map_nil, List.append_nil]
    exact ⟨h, rfl⟩
  | cons node patterns ih =>
    intro st t nodes h hnext
    have hnext' : (t.withNode node.labels (literalProperties node.properties)).nextNodeId =
        s.nextNodeId + (nodes ++ [madeNode node]).length := by
      rw [List.length_append, ← Nat.add_assoc, ← hnext]
      rfl
    rw [List.map_cons, makeAll_cons, makePattern, List.map_cons, List.append_cons]
    obtain ⟨hext, hvars⟩ := ih (h.withNode hnext node.labels (literalProperties node.properties))
      hnext'
    refine ⟨hext, hvars.trans ?_⟩
    cases hvar : node.var <;> simp only [nodeIds, hvar] <;> rfl

/-- The store after edge patterns whose ends are known. -/
theorem extended_makeEdges (parent : Tuple) {s : InMemoryGraphStore} {nodes : List NodeSpec}
    (patterns : List EdgePattern) :
    ∀ {st : CreateState} {t : InMemoryGraphStore} {edges : List EdgeSpec},
      Extended s t nodes edges → t.nextEdgeId = s.nextEdgeId + edges.length →
      (∀ edge ∈ patterns, edge.edgeType.isSome ∧
        (endNode st.createdVars parent edge.fromNode).isSome ∧
        (endNode st.createdVars parent edge.toNode).isSome) →
      Extended s (makeAll parent (st, t) (patterns.map .edge)).2 nodes
        (edges ++ patterns.map (madeEdge st.createdVars parent)) := by
  induction patterns with
  | nil =>
    intro st t edges h _ _
    rw [List.map_nil, List.map_nil, List.append_nil]
    exact h
  | cons edge patterns ih =>
    intro st t edges h hnext hknown
    obtain ⟨⟨htype, hfrom, hto⟩, hrest⟩ := List.forall_mem_cons.mp hknown
    obtain ⟨edgeType, htype⟩ := Option.isSome_iff_exists.mp htype
    obtain ⟨a, ha⟩ := Option.isSome_iff_exists.mp hfrom
    obtain ⟨b, hb⟩ := Option.isSome_iff_exists.mp hto
    have hmade : madeEdge st.createdVars parent edge =
        ⟨some a, some b, some edgeType, literalProperties edge.properties⟩ := by
      rw [madeEdge, ha, hb, htype]
    have hvars : ∀ p, (makePattern parent (st, t) (.edge p)).1.createdVars = st.createdVars := by
      intro p
      rw [makePattern]
      cases p.var <;> rfl
    have hstore : (makePattern parent (st, t) (.edge edge)).2 =
        t.withEdge a b edgeType (literalProperties edge.properties) := by
      rw [makePattern, ha, hb, htype]
      rfl
    have hstep := h.withEdge hnext a b edgeType (literalProperties edge.properties)
    rw [← hstore, ← hmade] at hstep
    have hnext' : (makePattern parent (st, t) (.edge edge)).2.nextEdgeId =
        s.nextEdgeId + (edges ++ [madeEdge st.createdVars parent edge]).length := by
      rw [List.length_append, ← Nat.add_assoc, ← hnext]
      rfl
    rw [List.map_cons, makeAll_cons, List.map_cons, List.append_cons]
    have hfinal := @ih (makePattern parent (st, t) (.edge edge)).1 _ _ hstep hnext'
    rw [hvars] at hfinal
    exact hfinal hrest

/-- **What the patterns of a clause make**: the single nodes before the first edge, and the
edges as they are read from left to right. -/
theorem extended_makeRow {parent : Tuple} {store : InMemoryGraphStore} {paths : List CreatePath}
    (htyped : EdgesTyped paths) (hends : ∀ edge ∈ links paths,
      EndKnown parent ((singles paths).map .node) edge.fromNode ∧
        EndKnown parent ((singles paths).map .node) edge.toNode) :
    Extended store (makeRow ((singles paths).map .node ++ (links paths).map .edge) store parent)
      ((singles paths).map madeNode)
      ((links paths).map (madeEdge (nodeIds ∅ store.nextNodeId (singles paths)) parent)) := by
  obtain ⟨hnodes, hvars⟩ := @extended_makeNodes parent store [] (singles paths) ⟨∅, parent⟩ store
    [] (Extended.refl store) rfl
  have hadv := advanced_makeAll parent ((singles paths).map .node) (⟨∅, parent⟩, store)
  have hnext : (makeAll parent (⟨∅, parent⟩, store) ((singles paths).map .node)).2.nextEdgeId =
      store.nextEdgeId + ([] : List EdgeSpec).length := by
    rw [hadv.nextEdgeId, edgeCount_map_node]
    rfl
  have hknows := @Knows.makeAll parent ((singles paths).map .node) [] (⟨∅, parent⟩, store)
    (knows_nil parent)
  have hedges := @extended_makeEdges parent store _ (links paths)
    (makeAll parent (⟨∅, parent⟩, store) ((singles paths).map .node)).1 _ _ hnodes hnext
    fun edge hedge => ⟨htyped edge hedge,
      (hknows.endNode_isSome parent _).mpr (hends edge hedge).1,
      (hknows.endNode_isSome parent _).mpr (hends edge hedge).2⟩
  rw [hvars] at hedges
  rw [makeRow, makeAll_append]
  exact hedges

/-- **What has been added to a store can be read off.** -/
theorem Extended.unique {s t : InMemoryGraphStore} (hkeyed : s.Keyed)
    {nodes nodes' : List NodeSpec} {edges edges' : List EdgeSpec} (h : Extended s t nodes edges)
    (h' : Extended s t nodes' edges') : nodes = nodes' ∧ edges = edges' := by
  constructor
  · apply List.ext_getElem?
    intro i
    cases hi : nodes[i]? with
    | none =>
      cases hi' : nodes'[i]? with
      | none => rfl
      | some node =>
        -- past the new nodes an id has the node it had before, and it had none
        have hold := h.node_old (s.nextNodeId + i)
          (.inr (Nat.add_le_add_left (List.getElem?_eq_none_iff.mp hi) _))
        rw [h'.node_new i node hi'] at hold
        exact absurd (hkeyed.node_lt hold.symm) (not_lt_of_ge (Nat.le_add_right _ _))
    | some node =>
      have hnew := h.node_new i node hi
      cases hi' : nodes'[i]? with
      | none =>
        rw [h'.node_old (s.nextNodeId + i)
          (.inr (Nat.add_le_add_left (List.getElem?_eq_none_iff.mp hi') _))] at hnew
        exact absurd (hkeyed.node_lt hnew) (not_lt_of_ge (Nat.le_add_right _ _))
      | some node' =>
        rw [h'.node_new i node' hi'] at hnew
        obtain ⟨labels, properties⟩ := node
        obtain ⟨labels', properties'⟩ := node'
        cases hnew
        rfl
  · apply List.ext_getElem?
    intro i
    cases hi : edges[i]? with
    | none =>
      cases hi' : edges'[i]? with
      | none => rfl
      | some edge =>
        obtain ⟨a, b, edgeType, -, -, -, hnew⟩ := h'.edge_new i edge hi'
        rw [h.edge_old (s.nextEdgeId + i)
          (.inr (Nat.add_le_add_left (List.getElem?_eq_none_iff.mp hi) _))] at hnew
        exact absurd (hkeyed.edge_lt hnew) (not_lt_of_ge (Nat.le_add_right _ _))
    | some edge =>
      obtain ⟨a, b, edgeType, ha, hb, htype, hnew⟩ := h.edge_new i edge hi
      cases hi' : edges'[i]? with
      | none =>
        rw [h'.edge_old (s.nextEdgeId + i)
          (.inr (Nat.add_le_add_left (List.getElem?_eq_none_iff.mp hi') _))] at hnew
        exact absurd (hkeyed.edge_lt hnew) (not_lt_of_ge (Nat.le_add_right _ _))
      | some edge' =>
        obtain ⟨a', b', edgeType', ha', hb', htype', hnew'⟩ := h'.edge_new i edge' hi'
        rw [hnew'] at hnew
        obtain ⟨fromNode, toNode, type, properties⟩ := edge
        obtain ⟨fromNode', toNode', type', properties'⟩ := edge'
        cases hnew
        simp only at ha hb htype ha' hb' htype'
        rw [ha, hb, htype, ha', hb', htype']

/-- **A CREATE builds the graph it asks for if and only if the graph that is made is that
one.** -/
theorem createBuilds_iff_fits {store : InMemoryGraphStore} (hkeyed : store.Keyed)
    {parent : Tuple} {paths : List CreatePath} (htyped : EdgesTyped paths) :
    CreateBuilds ((singles paths).map .node ++ (links paths).map .edge) paths store parent ↔
      CreateFits paths store parent := by
  have hids : HasRoom store [] := ⟨hkeyed.nextNodeId_lt, hkeyed.nextEdgeId_lt⟩
  have hmakes : Makes parent [] ((singles paths).map .node ++ (links paths).map .edge) ↔
      ∀ edge ∈ links paths, EndKnown parent ((singles paths).map .node) edge.fromNode ∧
        EndKnown parent ((singles paths).map .node) edge.toNode := by
    rw [makes_nodes_append_iff, makes_edges_iff]
    exact forall₂_congr fun edge hedge => and_iff_right (htyped edge hedge)
  constructor
  · rintro ⟨rows, store', order, edges, hrun, horder, hedges, hext⟩
    obtain ⟨⟨hall, hroom⟩, -, rfl⟩ := (runExec_executeCreate_eq_ok_iff hids).mp hrun
    have hends := hmakes.mp hall
    obtain ⟨hn, he⟩ := hasRoom_paths_iff.mp hroom
    obtain ⟨hnodes, rfl⟩ := hext.unique hkeyed (extended_makeRow htyped hends)
    exact ⟨hends, hn, he, order, horder, hnodes, hedges⟩
  · rintro ⟨hends, hn, he, order, horder, hnodes, hedges⟩
    refine ⟨_, _, order, _, (runExec_executeCreate_eq_ok_iff hids).mpr
      ⟨⟨hmakes.mpr hends, hasRoom_paths_iff.mpr ⟨hn, he⟩⟩, rfl, rfl⟩, horder, hedges, ?_⟩
    rw [hnodes]
    exact extended_makeRow htyped hends

/-- **When a CREATE builds the graph it asks for.**  The text of a clause is made of paths;
however it is read as paths whose edges have types, the clause builds their graph from a
parent tuple exactly when `CreateFits` holds of them. -/
theorem createBuilds_iff (ts rest : List Token) (c : CreateClause)
    (h : parseCreate ts = .ok (c, rest)) :
    ∃ xs, ts = xs ++ rest ∧ (∃ paths, createPathsPhrase xs paths) ∧
      ∀ paths, createPathsPhrase xs paths → EdgesTyped paths → OneBlock paths →
        ∀ store : InMemoryGraphStore, store.Keyed → ∀ parent,
          (CreateBuilds c.patterns paths store parent ↔ CreateFits paths store parent) := by
  obtain ⟨xs, hxs, hpaths, hpatterns⟩ := parseCreate_patterns h
  refine ⟨xs, hxs, hpaths, fun paths hphrase htyped _ store hkeyed parent => ?_⟩
  have heq : c.patterns = (singles paths).map .node ++ (links paths).map .edge :=
    (hpatterns paths hphrase).trans (foldl_addCreatePath_eq_singles paths [])
  rw [heq]
  exact createBuilds_iff_fits hkeyed htyped

/-! ### Two clauses -/

/-- Nodes without labels and properties. -/
theorem oneBlock_of_bare {paths : List CreatePath} (h : ∀ node ∈ writtenNodes paths,
    node.labels.isEmpty = true ∧ node.properties.toPairs.isEmpty = true) : OneBlock paths := by
  intro name
  constructor
  · rw [List.filter_eq_nil_iff.mpr]
    · exact Nat.zero_le 1
    · intro node hnode
      simp [(h node hnode).1]
  · rw [List.filter_eq_nil_iff.mpr]
    · exact Nat.zero_le 1
    · intro node hnode
      simp [(h node hnode).2]

/-- The edge of `(a)-[:R]->(b)`. -/
def knowsEdge (a b : String) : EdgePattern :=
  ⟨none, some "R", .right, ∅, ⟨some a, [], ∅⟩, ⟨some b, [], ∅⟩, none⟩

/-- The tokens of `(name)`. -/
def nodeTokens (name : String) : List Token := [.leftParen, .ident name, .rightParen]

/-- The tokens of `(a)-[:R]->(b)`. -/
def knowsTokens (a b : String) : List Token :=
  nodeTokens a ++ [.minus, .leftBracket, .colon, .ident "R", .rightBracket, .arrow] ++ nodeTokens b

theorem createPathPhrase_node (name : String) :
    createPathPhrase (nodeTokens name) ⟨⟨some name, [], ∅⟩, []⟩ :=
  ⟨_, [], _, rfl, nodePhrase_ident name, [], [], _, rfl, .stop _, rfl, rfl⟩

theorem createPathPhrase_knows (a b : String) :
    createPathPhrase (knowsTokens a b) ⟨⟨some a, [], ∅⟩, [knowsEdge a b]⟩ := by
  have htype : edgeTypePhrase [.colon, .ident "R"] (some "R") :=
    .inl ⟨[_], _, (), rfl, rfl, [_], _, "R", rfl, ⟨.ident "R", rfl, rfl⟩, [], [], ["R"], rfl,
      .stop _, rfl, rfl⟩
  have hbody : edgeBodyPhrase [.leftBracket, .colon, .ident "R", .rightBracket]
      ⟨none, some "R", ∅, none⟩ :=
    .inl ⟨[.leftBracket], _, (), rfl, rfl, [], _, none, rfl, .inl ⟨rfl, rfl⟩,
      [.colon, .ident "R"], _, some "R", rfl, htype, [], _, none, rfl, .none,
      [], _, ∅, rfl, .inr ⟨rfl, rfl⟩, [.rightBracket], _, (), rfl, rfl, [], _, none, rfl, .none,
      [], _, none, rfl, ⟨[], [], (), rfl, ⟨rfl, .inl rfl⟩, rfl, rfl⟩, rfl, rfl⟩
  have hedge : edgePhrase ⟨some a, [], ∅⟩ ([.minus, .leftBracket, .colon, .ident "R",
      .rightBracket, .arrow] ++ nodeTokens b) (knowsEdge a b) :=
    ⟨[.minus], _, .both, rfl, .inr ⟨[_], [], (), rfl, rfl, rfl, rfl⟩,
      [.leftBracket, .colon, .ident "R", .rightBracket], _, _, rfl, hbody,
      [.arrow], _, .right, rfl, .inl ⟨[_], [], (), rfl, rfl, rfl, rfl⟩,
      nodeTokens b, [], _, rfl, nodePhrase_ident b, rfl, rfl⟩
  have hstep : createEdgePhrase (⟨some a, [], ∅⟩, []) ([.minus, .leftBracket, .colon,
      .ident "R", .rightBracket, .arrow] ++ nodeTokens b) (⟨some b, [], ∅⟩, [knowsEdge a b]) :=
    ⟨_, [], _, (List.append_nil _).symm, hedge, rfl, rfl⟩
  exact ⟨nodeTokens a, _, _, rfl, nodePhrase_ident a, _, [], _, (List.append_nil _).symm,
    .step hstep (.stop _), rfl, rfl⟩

/-- One more item of a list, the last one. -/
theorem commaLoop_last {α : Type} {item : GqlPhrase α} {xs : List Token} {a : α} (h : item xs a)
    (items : List α) : Phrase.loop (fun items => do
        Phrase.token Token.comma
        let a ← item
        pure (items ++ [a])) items (.comma :: xs) (items ++ [a]) := by
  have hstep : (Phrase.token Token.comma >>= fun _ => item >>= fun a => pure (items ++ [a]))
      (.comma :: xs) (items ++ [a]) :=
    ⟨[_], _, (), rfl, rfl, xs, [], a, (List.append_nil _).symm, h, rfl, rfl⟩
  simpa using Phrase.loop.step hstep (.stop _)

/-- `CREATE (a), (b), (a)-[:R]->(b)` builds its graph. -/
theorem createBuilds_nodes_first :
    ∃ c, parseCreate (.createKw :: nodeTokens "a" ++ .comma :: nodeTokens "b" ++
        .comma :: knowsTokens "a" "b") = .ok (c, []) ∧
      CreateBuilds c.patterns [⟨⟨some "a", [], ∅⟩, []⟩, ⟨⟨some "b", [], ∅⟩, []⟩,
        ⟨⟨some "a", [], ∅⟩, [knowsEdge "a" "b"]⟩] .new ∅ := by
  cases h : parseCreate (.createKw :: nodeTokens "a" ++ .comma :: nodeTokens "b" ++
      .comma :: knowsTokens "a" "b") with
  | error e => cases h
  | ok r =>
    obtain ⟨c, rest⟩ := r
    have hrest : rest = [] := by cases h; rfl
    subst hrest
    refine ⟨c, rfl, ?_⟩
    obtain ⟨xs, hxs, -, hall⟩ := createBuilds_iff _ [] c h
    rw [List.append_nil] at hxs
    subst hxs
    have hphrase : createPathsPhrase (.createKw :: nodeTokens "a" ++ .comma :: nodeTokens "b" ++
        .comma :: knowsTokens "a" "b") [⟨⟨some "a", [], ∅⟩, []⟩, ⟨⟨some "b", [], ∅⟩, []⟩,
          ⟨⟨some "a", [], ∅⟩, [knowsEdge "a" "b"]⟩] :=
      ⟨[_], _, (), rfl, rfl, nodeTokens "a", .comma :: nodeTokens "b" ++
        .comma :: knowsTokens "a" "b", _, rfl, createPathPhrase_node "a",
        (commaLoop_last (createPathPhrase_node "b") _).append
          (commaLoop_last (createPathPhrase_knows "a" "b") _)⟩
    refine (hall _ hphrase ?_ ?_ .new InMemoryGraphStore.wf_new.toKeyed ∅).mpr ?_
    · intro edge hedge
      obtain rfl : edge = knowsEdge "a" "b" := List.mem_singleton.mp hedge
      rfl
    · exact oneBlock_of_bare (by decide)
    · refine ⟨?_, by decide, by decide, [.var "a", .var "b"], .of_eq rfl, rfl, .of_eq rfl⟩
      intro edge hedge
      obtain rfl : edge = knowsEdge "a" "b" := List.mem_singleton.mp hedge
      exact ⟨⟨"a", rfl, .inl ⟨_, List.mem_cons_self, rfl⟩⟩,
        ⟨"b", rfl, .inl ⟨⟨some "b", [], ∅⟩, .tail _ List.mem_cons_self, rfl⟩⟩⟩

/-- `CREATE (a)-[:R]->(b)` fails: no node is made for `a`. -/
theorem create_builds_nothing :
    ¬ ∀ (ts rest xs : List Token) (c : CreateClause), parseCreate ts = .ok (c, rest) →
      ts = xs ++ rest → ∀ paths, createPathsPhrase xs paths → EdgesTyped paths → OneBlock paths →
        ∀ store : InMemoryGraphStore, store.Keyed → ∀ parent,
          CreateBuilds c.patterns paths store parent := by
  intro hall
  have hparse : parseCreate (.createKw :: knowsTokens "a" "b") =
      .ok (⟨[.edge (knowsEdge "a" "b")]⟩, []) := rfl
  have hphrase : createPathsPhrase (.createKw :: knowsTokens "a" "b")
      [⟨⟨some "a", [], ∅⟩, [knowsEdge "a" "b"]⟩] :=
    ⟨[_], _, (), rfl, rfl, _, [], _, (List.append_nil _).symm, createPathPhrase_knows "a" "b",
      .stop _⟩
  have htyped : EdgesTyped [⟨⟨some "a", [], ∅⟩, [knowsEdge "a" "b"]⟩] := by
    intro edge hedge
    obtain rfl : edge = knowsEdge "a" "b" := List.mem_singleton.mp hedge
    rfl
  have hblock : OneBlock [⟨⟨some "a", [], ∅⟩, [knowsEdge "a" "b"]⟩] :=
    oneBlock_of_bare (by decide)
  obtain ⟨rows, store', order, edges, hrun, -⟩ := hall _ [] _ _ hparse (List.append_nil _).symm
    _ hphrase htyped hblock .new InMemoryGraphStore.wf_new.toKeyed ∅
  cases hrun

end KuzuEventBus
