import KuzuEventBus.Gql.Executor

/-!
# Runs of CREATE

A CREATE makes its patterns one after the other, row by row.  A pattern is made when the
ends of its edge are known and its edge has a type; it fails otherwise, and the call
panics where the ids of nodes or edges run out.  Whether a pattern can be made, and which
ids are handed out, does not depend on the contents of the store, so a run is described
by the patterns before its first failure.

## Main definitions

* `withNode`, `withEdge` — a store after `add_node` and `add_edge`.
* `Makeable`, `Makes` — a pattern, and patterns in a row, that can be made.
* `makePattern`, `makeAll`, `makeRows` — what patterns that can be made do.
* `HasRoom` — the ids do not run out.
* `createdRow`, `createdRows` — the tuples a CREATE returns.
* `FailsAt` — where a run over rows fails.

## Main results

* `runExec_makeAll`, `runExec_makeRows` — a run without a failure.
* `runExec_failsAt` — a run with one.
* `runExec_overflow` — **a run panics when the ids run out before it ends or fails**.
* `makes_or_failsAt` — every run ends or fails.
-/

namespace KuzuEventBus

/-! ### Writing -/

namespace InMemoryGraphStore

/-- The store after `add_node`. -/
def withNode (s : InMemoryGraphStore) (labels : List String) (properties : Properties) :
    InMemoryGraphStore :=
  { s with
    nextNodeId := s.nextNodeId + 1
    nodes := s.nodes.insert s.nextNodeId ⟨s.nextNodeId, labels, properties⟩
    labelIndex := s.labelIndex.pushAll labels s.nextNodeId }

/-- The store after `add_edge`. -/
def withEdge (s : InMemoryGraphStore) (a b : NodeId) (edgeType : String)
    (properties : Properties) : InMemoryGraphStore :=
  { s with
    nextEdgeId := s.nextEdgeId + 1
    edges := s.edges.insert s.nextEdgeId ⟨s.nextEdgeId, a, b, edgeType, properties⟩
    adjacencyOut := s.adjacencyOut.pushTo a s.nextEdgeId
    adjacencyIn := s.adjacencyIn.pushTo b s.nextEdgeId }

theorem addNode_of_lt {s : InMemoryGraphStore} (h : s.nextNodeId + 1 < 2 ^ 64)
    (labels : List String) (properties : Properties) :
    s.addNode labels properties = .ok (s.nextNodeId, s.withNode labels properties) := by
  rw [addNode, checkedAdd_of_lt h]
  rfl

theorem addEdge_of_lt {s : InMemoryGraphStore} (h : s.nextEdgeId + 1 < 2 ^ 64) (a b : NodeId)
    (edgeType : String) (properties : Properties) :
    s.addEdge a b edgeType properties =
      .ok (s.nextEdgeId, s.withEdge a b edgeType properties) := by
  rw [addEdge, checkedAdd_of_lt h]
  rfl

theorem addNode_overflow {s : InMemoryGraphStore} (h : ¬ s.nextNodeId + 1 < 2 ^ 64)
    (labels : List String) (properties : Properties) :
    s.addNode labels properties = .error (.panic "attempt to add with overflow") := by
  rw [addNode, checkedAdd, if_neg h]
  rfl

theorem addEdge_overflow {s : InMemoryGraphStore} (h : ¬ s.nextEdgeId + 1 < 2 ^ 64)
    (a b : NodeId) (edgeType : String) (properties : Properties) :
    s.addEdge a b edgeType properties = .error (.panic "attempt to add with overflow") := by
  rw [addEdge, checkedAdd, if_neg h]
  rfl

/-- What was there stays, and every id that has been handed out is in use. -/
structure Grown (s t : InMemoryGraphStore) : Prop where
  nextNodeId_le : s.nextNodeId ≤ t.nextNodeId
  nextEdgeId_le : s.nextEdgeId ≤ t.nextEdgeId
  node_isSome : ∀ id, (s.nodes.lookup id).isSome ∨ s.nextNodeId ≤ id ∧ id < t.nextNodeId →
    (t.nodes.lookup id).isSome
  edge_isSome : ∀ id, (s.edges.lookup id).isSome ∨ s.nextEdgeId ≤ id ∧ id < t.nextEdgeId →
    (t.edges.lookup id).isSome

theorem Grown.refl (s : InMemoryGraphStore) : Grown s s where
  nextNodeId_le := le_rfl
  nextEdgeId_le := le_rfl
  node_isSome _ h := h.resolve_right fun hid => absurd hid.2 (not_lt_of_ge hid.1)
  edge_isSome _ h := h.resolve_right fun hid => absurd hid.2 (not_lt_of_ge hid.1)

theorem Grown.trans {s t u : InMemoryGraphStore} (h : Grown s t) (h' : Grown t u) :
    Grown s u where
  nextNodeId_le := h.nextNodeId_le.trans h'.nextNodeId_le
  nextEdgeId_le := h.nextEdgeId_le.trans h'.nextEdgeId_le
  node_isSome id hid := by
    apply h'.node_isSome
    by_cases hlt : id < t.nextNodeId
    · exact .inl (h.node_isSome id (hid.imp_right fun hid => ⟨hid.1, hlt⟩))
    · rcases hid with hid | hid
      · exact .inl (h.node_isSome id (.inl hid))
      · exact .inr ⟨le_of_not_gt hlt, hid.2⟩
  edge_isSome id hid := by
    apply h'.edge_isSome
    by_cases hlt : id < t.nextEdgeId
    · exact .inl (h.edge_isSome id (hid.imp_right fun hid => ⟨hid.1, hlt⟩))
    · rcases hid with hid | hid
      · exact .inl (h.edge_isSome id (.inl hid))
      · exact .inr ⟨le_of_not_gt hlt, hid.2⟩

theorem grown_withNode (s : InMemoryGraphStore) (labels : List String) (properties : Properties) :
    Grown s (s.withNode labels properties) where
  nextNodeId_le := Nat.le_succ _
  nextEdgeId_le := le_rfl
  node_isSome id h := by
    rw [withNode, AList.lookup_insert_eq]
    split
    · rfl
    · next hne =>
      rcases h with h | ⟨hle, hlt⟩
      · exact h
      · exact absurd (Nat.le_antisymm (Nat.le_of_lt_succ hlt) hle) hne
  edge_isSome _ h := h.resolve_right fun hid => absurd hid.2 (not_lt_of_ge hid.1)

theorem grown_withEdge (s : InMemoryGraphStore) (a b : NodeId) (edgeType : String)
    (properties : Properties) : Grown s (s.withEdge a b edgeType properties) where
  nextNodeId_le := le_rfl
  nextEdgeId_le := Nat.le_succ _
  node_isSome _ h := h.resolve_right fun hid => absurd hid.2 (not_lt_of_ge hid.1)
  edge_isSome id h := by
    rw [withEdge, AList.lookup_insert_eq]
    split
    · rfl
    · next hne =>
      rcases h with h | ⟨hle, hlt⟩
      · exact h
      · exact absurd (Nat.le_antisymm (Nat.le_of_lt_succ hlt) hle) hne

end InMemoryGraphStore

open InMemoryGraphStore (Grown)

/-- A write operation that returns. -/
theorem runExec_writeStore_of_ok {α : Type}
    {f : InMemoryGraphStore → Except Fault (α × InMemoryGraphStore)}
    {store store' : InMemoryGraphStore} {a : α} (h : f store = .ok (a, store')) :
    runExec (writeStore f) (some store) = (.ok a, some store') := by
  rw [runExec_writeStore, h]

/-- A write operation that fails. -/
theorem runExec_writeStore_of_error {α : Type}
    {f : InMemoryGraphStore → Except Fault (α × InMemoryGraphStore)}
    {store : InMemoryGraphStore} {e : Fault} (h : f store = .error e) :
    runExec (writeStore f) (some store) = (.error e, some store) := by
  rw [runExec_writeStore, h]

/-- A sequence that starts with a value that is known. -/
theorem runExec_known_bind {α β : Type} (a : α) (f : α → Exec β)
    (write : Option InMemoryGraphStore) :
    runExec (readOnly (fun _ => .ok a) >>= f) write = runExec (f a) write :=
  runExec_bind_ok rfl

/-! ### Counting patterns -/

/-- The pattern is a node. -/
def Pattern.isNode : Pattern → Bool
  | .node _ => true
  | .edge _ => false

/-- How many nodes the patterns make. -/
def nodeCount (ps : List Pattern) : ℕ := ps.countP Pattern.isNode

/-- How many edges the patterns make. -/
def edgeCount (ps : List Pattern) : ℕ := ps.countP (!·.isNode)

@[simp] theorem nodeCount_nil : nodeCount [] = 0 := rfl

@[simp] theorem edgeCount_nil : edgeCount [] = 0 := rfl

@[simp] theorem nodeCount_node (node : NodePattern) (ps : List Pattern) :
    nodeCount (.node node :: ps) = nodeCount ps + 1 := List.countP_cons_of_pos rfl

@[simp] theorem nodeCount_edge (edge : EdgePattern) (ps : List Pattern) :
    nodeCount (.edge edge :: ps) = nodeCount ps :=
  List.countP_cons_of_neg (by simp [Pattern.isNode])

@[simp] theorem edgeCount_node (node : NodePattern) (ps : List Pattern) :
    edgeCount (.node node :: ps) = edgeCount ps :=
  List.countP_cons_of_neg (by simp [Pattern.isNode])

@[simp] theorem edgeCount_edge (edge : EdgePattern) (ps : List Pattern) :
    edgeCount (.edge edge :: ps) = edgeCount ps + 1 := List.countP_cons_of_pos rfl

@[simp] theorem nodeCount_append (ps qs : List Pattern) :
    nodeCount (ps ++ qs) = nodeCount ps + nodeCount qs := List.countP_append

@[simp] theorem edgeCount_append (ps qs : List Pattern) :
    edgeCount (ps ++ qs) = edgeCount ps + edgeCount qs := List.countP_append

theorem nodeCount_add_edgeCount (ps : List Pattern) : nodeCount ps + edgeCount ps = ps.length := by
  induction ps with
  | nil => rfl
  | cons p ps ih =>
    cases p with
    | node node => rw [nodeCount_node, edgeCount_node, List.length_cons, ← ih]; omega
    | edge edge => rw [nodeCount_edge, edgeCount_edge, List.length_cons, ← ih]; omega

/-- The ids of the store do not run out while the patterns are made. -/
structure HasRoom (store : InMemoryGraphStore) (ps : List Pattern) : Prop where
  nodes : store.nextNodeId + nodeCount ps < 2 ^ 64
  edges : store.nextEdgeId + edgeCount ps < 2 ^ 64

theorem HasRoom.nil {store : InMemoryGraphStore} {ps : List Pattern} (h : HasRoom store ps) :
    HasRoom store [] :=
  ⟨lt_of_le_of_lt (Nat.le_add_right _ _) h.nodes, lt_of_le_of_lt (Nat.le_add_right _ _) h.edges⟩

/-! ### Patterns that can be made -/

/-- An end of an edge is a variable, of an earlier node pattern or of a node of the parent. -/
def EndKnown (parent : Tuple) (earlier : List Pattern) (node : NodePattern) : Prop :=
  ∃ var, node.var = some var ∧
    ((∃ made, .node made ∈ earlier ∧ made.var = some var) ∨ (boundNode parent var).isSome)

/-- The pattern can be made after the patterns `earlier`. -/
def Makeable (parent : Tuple) (earlier : List Pattern) : Pattern → Prop
  | .node _ => True
  | .edge edge => edge.edgeType.isSome ∧ EndKnown parent earlier edge.fromNode ∧
      EndKnown parent earlier edge.toNode

/-- The patterns can be made one after the other, after the patterns `earlier`. -/
def Makes (parent : Tuple) : List Pattern → List Pattern → Prop
  | _, [] => True
  | earlier, p :: ps => Makeable parent earlier p ∧ Makes parent (earlier ++ [p]) ps

/-- The node an end of an edge stands for. -/
def endNode (vars : HashMap String NodeId) (parent : Tuple) (node : NodePattern) :
    Option NodeId :=
  node.var.bind fun var => (vars.lookup var).or (boundNode parent var)

theorem createEnd_of_some {vars : HashMap String NodeId} {parent : Tuple} {node : NodePattern}
    {id : NodeId} (h : endNode vars parent node = some id) (side : String) :
    createEnd vars parent side node = .ok id := by
  unfold endNode at h
  unfold createEnd
  cases hvar : node.var with
  | none => simp [hvar] at h
  | some var =>
    simp only [hvar, Option.bind_some] at h
    simp only [h]

theorem createEnd_of_none {vars : HashMap String NodeId} {parent : Tuple} {node : NodePattern}
    (h : endNode vars parent node = none) (side : String) :
    ∃ e, createEnd vars parent side node = .error (.error e) := by
  unfold endNode at h
  unfold createEnd
  cases hvar : node.var with
  | none => exact ⟨_, rfl⟩
  | some var =>
    simp only [hvar, Option.bind_some] at h
    simp only [h]
    exact ⟨_, rfl⟩

/-- What a pattern that can be made does to the state of the CREATE and to the store. -/
def makePattern (parent : Tuple) (s : CreateState × InMemoryGraphStore) :
    Pattern → CreateState × InMemoryGraphStore
  | .node node =>
    (match node.var with
      | some var => ⟨s.1.createdVars.insert var s.2.nextNodeId,
          s.1.resultTuple.insert var (.nodeId s.2.nextNodeId)⟩
      | none => s.1,
      s.2.withNode node.labels (literalProperties node.properties))
  | .edge edge =>
    (match edge.var with
      | some var => { s.1 with
          resultTuple := s.1.resultTuple.insert var (.int (Int64.ofNat s.2.nextEdgeId)) }
      | none => s.1,
      s.2.withEdge ((endNode s.1.createdVars parent edge.fromNode).getD 0)
        ((endNode s.1.createdVars parent edge.toNode).getD 0) (edge.edgeType.getD "")
        (literalProperties edge.properties))

/-- What patterns that can be made do. -/
def makeAll (parent : Tuple) (s : CreateState × InMemoryGraphStore) (ps : List Pattern) :
    CreateState × InMemoryGraphStore :=
  ps.foldl (makePattern parent) s

/-- The variables of the state are those of the node patterns `earlier`. -/
def Knows (earlier : List Pattern) (st : CreateState) : Prop :=
  ∀ var, (st.createdVars.lookup var).isSome ↔ ∃ node, .node node ∈ earlier ∧ node.var = some var

theorem knows_nil (parent : Tuple) : Knows [] ⟨∅, parent⟩ := by
  intro var
  simp

theorem Knows.endNode_isSome {earlier : List Pattern} {st : CreateState} (h : Knows earlier st)
    (parent : Tuple) (node : NodePattern) :
    (endNode st.createdVars parent node).isSome ↔ EndKnown parent earlier node := by
  unfold endNode EndKnown
  cases node.var with
  | none => simp
  | some var => simp [h var]

theorem Knows.makePattern {earlier : List Pattern} {st : CreateState} (h : Knows earlier st)
    (parent : Tuple) (store : InMemoryGraphStore) (p : Pattern) :
    Knows (earlier ++ [p]) (makePattern parent (st, store) p).1 := by
  intro var
  cases p with
  | edge edge =>
    rw [KuzuEventBus.makePattern]
    cases edge.var <;> simp [h var]
  | node node =>
    rw [KuzuEventBus.makePattern]
    cases hvar : node.var with
    | none =>
      simp only [h var, List.mem_append, List.mem_singleton, Pattern.node.injEq]
      constructor
      · rintro ⟨made, hmem, hmade⟩
        exact ⟨made, .inl hmem, hmade⟩
      · rintro ⟨made, hmem | rfl, hmade⟩
        · exact ⟨made, hmem, hmade⟩
        · rw [hvar] at hmade
          cases hmade
    | some v =>
      simp only [AList.lookup_insert_eq, List.mem_append, List.mem_singleton, Pattern.node.injEq]
      split
      · next heq =>
        subst heq
        exact iff_of_true rfl ⟨node, .inr rfl, hvar⟩
      · next hne =>
        rw [h var]
        constructor
        · rintro ⟨made, hmem, hmade⟩
          exact ⟨made, .inl hmem, hmade⟩
        · rintro ⟨made, hmem | rfl, hmade⟩
          · exact ⟨made, hmem, hmade⟩
          · exact absurd (Option.some.inj (hmade.symm.trans hvar)) hne

/-! ### One pattern -/

/-- **A pattern that can be made is made** while there is room. -/
theorem runExec_makePattern {earlier : List Pattern} {st : CreateState} (h : Knows earlier st)
    {parent : Tuple} {store : InMemoryGraphStore} {p : Pattern} (hp : Makeable parent earlier p)
    (hroom : HasRoom store [p]) :
    runExec (createPattern parent st p) (some store) =
      (.ok (makePattern parent (st, store) p).1, some (makePattern parent (st, store) p).2) := by
  cases p with
  | node node =>
    have hadd := InMemoryGraphStore.addNode_of_lt (by simpa using hroom.nodes) node.labels
      (literalProperties node.properties)
    rw [createPattern, runExec_bind_ok (runExec_writeStore_of_ok hadd), makePattern]
    cases node.var <;> rfl
  | edge edge =>
    obtain ⟨htype, hfrom, hto⟩ := hp
    obtain ⟨a, ha⟩ := Option.isSome_iff_exists.mp ((h.endNode_isSome parent _).mpr hfrom)
    obtain ⟨b, hb⟩ := Option.isSome_iff_exists.mp ((h.endNode_isSome parent _).mpr hto)
    obtain ⟨edgeType, ht⟩ := Option.isSome_iff_exists.mp htype
    have hadd := InMemoryGraphStore.addEdge_of_lt (by simpa using hroom.edges) a b edgeType
      (literalProperties edge.properties)
    rw [createPattern, createEnd_of_some ha, createEnd_of_some hb, makePattern, ha, hb, ht,
      runExec_known_bind, runExec_known_bind,
      runExec_bind_ok (runExec_writeStore_of_ok hadd)]
    cases edge.var <;> rfl

/-- A pattern that can be made is not made without room. -/
theorem runExec_createPattern_overflow {earlier : List Pattern} {st : CreateState}
    (h : Knows earlier st) {parent : Tuple} {store : InMemoryGraphStore} {p : Pattern}
    (hp : Makeable parent earlier p) (hids : HasRoom store []) (hroom : ¬ HasRoom store [p]) :
    runExec (createPattern parent st p) (some store) =
      (.error (.panic "attempt to add with overflow"), some store) := by
  cases p with
  | node node =>
    have hadd := InMemoryGraphStore.addNode_overflow
      (fun hlt => hroom ⟨by simpa using hlt, by simpa using hids.edges⟩) node.labels
      (literalProperties node.properties)
    rw [createPattern, runExec_bind, runExec_writeStore_of_error hadd]
  | edge edge =>
    obtain ⟨htype, hfrom, hto⟩ := hp
    obtain ⟨a, ha⟩ := Option.isSome_iff_exists.mp ((h.endNode_isSome parent _).mpr hfrom)
    obtain ⟨b, hb⟩ := Option.isSome_iff_exists.mp ((h.endNode_isSome parent _).mpr hto)
    obtain ⟨edgeType, ht⟩ := Option.isSome_iff_exists.mp htype
    have hadd := InMemoryGraphStore.addEdge_overflow
      (fun hlt => hroom ⟨by simpa using hids.nodes, by simpa using hlt⟩) a b edgeType
      (literalProperties edge.properties)
    rw [createPattern, createEnd_of_some ha, createEnd_of_some hb, ht,
      runExec_known_bind, runExec_known_bind,
      runExec_bind, runExec_writeStore_of_error hadd]

/-- **A pattern that cannot be made fails**, and the store stays as it is. -/
theorem runExec_createPattern_error {earlier : List Pattern} {st : CreateState}
    (h : Knows earlier st) {parent : Tuple} (store : InMemoryGraphStore) {p : Pattern}
    (hp : ¬ Makeable parent earlier p) :
    ∃ e, runExec (createPattern parent st p) (some store) = (.error (.error e), some store) := by
  cases p with
  | node node => exact absurd trivial hp
  | edge edge =>
    rw [createPattern]
    -- the ends are looked up first, the type last
    cases ha : endNode st.createdVars parent edge.fromNode with
    | none =>
      obtain ⟨e, he⟩ := createEnd_of_none ha "from_node"
      exact ⟨e, by rw [he, runExec_bind, runExec_readOnly]⟩
    | some a =>
      rw [createEnd_of_some ha, runExec_known_bind]
      cases hb : endNode st.createdVars parent edge.toNode with
      | none =>
        obtain ⟨e, he⟩ := createEnd_of_none hb "to_node"
        exact ⟨e, by rw [he, runExec_bind, runExec_readOnly]⟩
      | some b =>
        rw [createEnd_of_some hb, runExec_known_bind]
        cases ht : edge.edgeType with
        | none => exact ⟨_, rfl⟩
        | some edgeType =>
          have hfrom := (h.endNode_isSome parent edge.fromNode).mp (by rw [ha]; rfl)
          have hto := (h.endNode_isSome parent edge.toNode).mp (by rw [hb]; rfl)
          exact absurd ⟨by rw [ht]; rfl, hfrom, hto⟩ hp

/-! ### The patterns of a row -/

theorem makeAll_cons (parent : Tuple) (s : CreateState × InMemoryGraphStore) (p : Pattern)
    (ps : List Pattern) :
    makeAll parent s (p :: ps) = makeAll parent (makePattern parent s p) ps := rfl

theorem makeAll_append (parent : Tuple) (s : CreateState × InMemoryGraphStore)
    (ps qs : List Pattern) :
    makeAll parent s (ps ++ qs) = makeAll parent (makeAll parent s ps) qs := List.foldl_append

/-- The store after a part of a run that makes the patterns `ps`. -/
structure Advanced (store : InMemoryGraphStore) (ps : List Pattern)
    (store' : InMemoryGraphStore) : Prop where
  grown : Grown store store'
  nextNodeId : store'.nextNodeId = store.nextNodeId + nodeCount ps
  nextEdgeId : store'.nextEdgeId = store.nextEdgeId + edgeCount ps
  eq_of_nil : ps = [] → store' = store

theorem Advanced.refl (store : InMemoryGraphStore) : Advanced store [] store :=
  ⟨Grown.refl store, rfl, rfl, fun _ => rfl⟩

theorem Advanced.trans {s t u : InMemoryGraphStore} {ps qs : List Pattern}
    (h : Advanced s ps t) (h' : Advanced t qs u) : Advanced s (ps ++ qs) u where
  grown := h.grown.trans h'.grown
  nextNodeId := by rw [h'.nextNodeId, h.nextNodeId, nodeCount_append, Nat.add_assoc]
  nextEdgeId := by rw [h'.nextEdgeId, h.nextEdgeId, edgeCount_append, Nat.add_assoc]
  eq_of_nil hnil := by
    obtain ⟨hps, hqs⟩ := List.append_eq_nil_iff.mp hnil
    rw [h'.eq_of_nil hqs, h.eq_of_nil hps]

/-- There is room for patterns in a row when there is for the first ones and, after them,
for the others. -/
theorem Advanced.hasRoom_append {store store' : InMemoryGraphStore} {ps qs : List Pattern}
    (h : Advanced store ps store') : HasRoom store (ps ++ qs) ↔ HasRoom store' qs := by
  constructor
  · intro hroom
    constructor
    · rw [h.nextNodeId, Nat.add_assoc, ← nodeCount_append]
      exact hroom.nodes
    · rw [h.nextEdgeId, Nat.add_assoc, ← edgeCount_append]
      exact hroom.edges
  · intro hroom
    constructor
    · rw [nodeCount_append, ← Nat.add_assoc, ← h.nextNodeId]
      exact hroom.nodes
    · rw [edgeCount_append, ← Nat.add_assoc, ← h.nextEdgeId]
      exact hroom.edges

theorem advanced_makePattern (parent : Tuple) (s : CreateState × InMemoryGraphStore)
    (p : Pattern) : Advanced s.2 [p] (makePattern parent s p).2 := by
  cases p with
  | node node => exact ⟨InMemoryGraphStore.grown_withNode _ _ _, rfl, rfl, by simp⟩
  | edge edge => exact ⟨InMemoryGraphStore.grown_withEdge _ _ _ _ _, rfl, rfl, by simp⟩

theorem advanced_makeAll (parent : Tuple) (ps : List Pattern) :
    ∀ s : CreateState × InMemoryGraphStore, Advanced s.2 ps (makeAll parent s ps).2 := by
  induction ps with
  | nil => exact fun s => Advanced.refl s.2
  | cons p ps ih => exact fun s => (advanced_makePattern parent s p).trans (ih _)

theorem HasRoom.left {store : InMemoryGraphStore} {ps qs : List Pattern}
    (h : HasRoom store (ps ++ qs)) : HasRoom store ps := by
  obtain ⟨hn, he⟩ := h
  rw [nodeCount_append, ← Nat.add_assoc] at hn
  rw [edgeCount_append, ← Nat.add_assoc] at he
  exact ⟨lt_of_le_of_lt (Nat.le_add_right _ _) hn, lt_of_le_of_lt (Nat.le_add_right _ _) he⟩

/-- Patterns that can be made are made while there is room. -/
theorem runExec_makeAll {parent : Tuple} {ps : List Pattern} :
    ∀ {earlier : List Pattern} {st : CreateState} {store : InMemoryGraphStore},
      Knows earlier st → Makes parent earlier ps → HasRoom store ps →
      runExec (ps.foldlM (createPattern parent) st) (some store) =
        (.ok (makeAll parent (st, store) ps).1, some (makeAll parent (st, store) ps).2) := by
  induction ps with
  | nil => intro earlier st store _ _ _; rfl
  | cons p ps ih =>
    intro earlier st store hst hmakes hroom
    have hfirst : HasRoom store [p] := @HasRoom.left store [p] ps hroom
    rw [List.foldlM_cons, runExec_bind_ok (runExec_makePattern hst hmakes.1 hfirst)]
    exact ih (hst.makePattern parent store p) hmakes.2
      ((advanced_makePattern parent (st, store) p).hasRoom_append.mp hroom)

/-- Patterns that can be made end in a panic without room. -/
theorem runExec_makeAll_overflow {parent : Tuple} {ps : List Pattern} :
    ∀ {earlier : List Pattern} {st : CreateState} {store : InMemoryGraphStore},
      Knows earlier st → Makes parent earlier ps → HasRoom store [] → ¬ HasRoom store ps →
      ∃ msg store', runExec (ps.foldlM (createPattern parent) st) (some store) =
        (.error (.panic msg), store') := by
  induction ps with
  | nil => intro earlier st store _ _ hids hroom; exact absurd hids hroom
  | cons p ps ih =>
    intro earlier st store hst hmakes hids hroom
    rw [List.foldlM_cons]
    by_cases hfirst : HasRoom store [p]
    · rw [runExec_bind_ok (runExec_makePattern hst hmakes.1 hfirst)]
      have hadv := advanced_makePattern parent (st, store) p
      apply ih (hst.makePattern parent store p) hmakes.2
      · exact hadv.hasRoom_append.mp hfirst
      · exact fun h => hroom (hadv.hasRoom_append.mpr h)
    · rw [runExec_bind, runExec_createPattern_overflow hst hmakes.1 hids hfirst]
      exact ⟨_, _, rfl⟩

/-- The tuple a CREATE returns for a row, the next ids being `n` and `e`. -/
def createdRow : Tuple → NodeId → EdgeId → List Pattern → Tuple
  | row, _, _, [] => row
  | row, n, e, .node node :: ps =>
    createdRow (match node.var with
      | some var => row.insert var (.nodeId n)
      | none => row) (n + 1) e ps
  | row, n, e, .edge edge :: ps =>
    createdRow (match edge.var with
      | some var => row.insert var (.int (Int64.ofNat e))
      | none => row) n (e + 1) ps

theorem makeAll_resultTuple (parent : Tuple) (ps : List Pattern) :
    ∀ s : CreateState × InMemoryGraphStore, (makeAll parent s ps).1.resultTuple =
      createdRow s.1.resultTuple s.2.nextNodeId s.2.nextEdgeId ps := by
  induction ps with
  | nil => intro s; rfl
  | cons p ps ih =>
    intro s
    rw [makeAll_cons, ih]
    cases p with
    | node node => rw [makePattern, createdRow]; cases node.var <;> rfl
    | edge edge => rw [makePattern, createdRow]; cases edge.var <;> rfl

/-! ### The rows -/

/-- The store after the patterns of a row. -/
def makeRow (patterns : List Pattern) (store : InMemoryGraphStore) (row : Tuple) :
    InMemoryGraphStore :=
  (makeAll row (⟨∅, row⟩, store) patterns).2

/-- The store after the patterns of all rows. -/
def makeRows (patterns : List Pattern) (store : InMemoryGraphStore) (rows : List Tuple) :
    InMemoryGraphStore :=
  rows.foldl (makeRow patterns) store

/-- The patterns, once for each row. -/
def forRows (patterns : List Pattern) (rows : List Tuple) : List Pattern :=
  rows.flatMap fun _ => patterns

/-- The tuples a CREATE returns, the next ids being `n` and `e`. -/
def createdRows (patterns : List Pattern) : NodeId → EdgeId → List Tuple → List Tuple
  | _, _, [] => []
  | n, e, row :: rows =>
    createdRow row n e patterns ::
      createdRows patterns (n + nodeCount patterns) (e + edgeCount patterns) rows

/-- A run over `rows` fails after the rows `done` and, for the next row, the patterns
`earlier`. -/
def FailsAt (patterns : List Pattern) (rows done : List Tuple) (earlier : List Pattern) : Prop :=
  ∃ row rest p later, rows = done ++ row :: rest ∧ patterns = earlier ++ p :: later ∧
    (∀ r ∈ done, Makes r [] patterns) ∧ Makes row [] earlier ∧ ¬ Makeable row earlier p

theorem runExec_executeCreate (patterns : List Pattern) (parent : Tuple)
    (store : InMemoryGraphStore) :
    runExec (executeCreate patterns parent) (some store) =
      runExec (patterns.foldlM (createPattern parent) ⟨∅, parent⟩ >>=
        fun st => pure [st.resultTuple]) (some store) := rfl

theorem advanced_makeRow (patterns : List Pattern) (store : InMemoryGraphStore) (row : Tuple) :
    Advanced store patterns (makeRow patterns store row) :=
  advanced_makeAll row patterns (⟨∅, row⟩, store)

theorem forRows_cons (patterns : List Pattern) (row : Tuple) (rows : List Tuple) :
    forRows patterns (row :: rows) = patterns ++ forRows patterns rows := List.flatMap_cons

theorem advanced_makeRows (patterns : List Pattern) (rows : List Tuple) :
    ∀ store, Advanced store (forRows patterns rows) (makeRows patterns store rows) := by
  induction rows with
  | nil => exact Advanced.refl
  | cons row rows ih =>
    intro store
    rw [forRows_cons]
    exact (advanced_makeRow patterns store row).trans (ih _)

/-- A row whose patterns can be made. -/
theorem runExec_makeRow {patterns : List Pattern} {row : Tuple} {store : InMemoryGraphStore}
    (hmakes : Makes row [] patterns) (hroom : HasRoom store patterns) :
    runExec (executeCreate patterns row) (some store) =
      (.ok [createdRow row store.nextNodeId store.nextEdgeId patterns],
        some (makeRow patterns store row)) := by
  rw [runExec_executeCreate, runExec_bind_ok (runExec_makeAll (knows_nil row) hmakes hroom),
    runExec_pure, makeAll_resultTuple]
  rfl

/-- **Rows whose patterns can be made** are extended one by one. -/
theorem runExec_makeRows {patterns : List Pattern} {rows : List Tuple} :
    ∀ {store : InMemoryGraphStore}, (∀ row ∈ rows, Makes row [] patterns) →
      HasRoom store (forRows patterns rows) →
      runExec (rows.mapM (executeCreate patterns)) (some store) =
        (.ok ((createdRows patterns store.nextNodeId store.nextEdgeId rows).map ([·])),
          some (makeRows patterns store rows)) := by
  induction rows with
  | nil => intro store _ _; rfl
  | cons row rows ih =>
    intro store hmakes hroom
    rw [forRows_cons] at hroom
    have hadv := advanced_makeRow patterns store row
    rw [List.mapM_cons, runExec_bind_ok (runExec_makeRow (hmakes row List.mem_cons_self)
      hroom.left), runExec_bind_ok (ih (fun r hr => hmakes r (List.mem_cons_of_mem _ hr))
      (hadv.hasRoom_append.mp hroom)), hadv.nextNodeId, hadv.nextEdgeId]
    rfl

/-- A run over rows panics when the ids run out. -/
theorem runExec_makeRows_overflow {patterns : List Pattern} {rows : List Tuple} :
    ∀ {store : InMemoryGraphStore}, (∀ row ∈ rows, Makes row [] patterns) →
      HasRoom store [] → ¬ HasRoom store (forRows patterns rows) →
      ∃ msg store', runExec (rows.mapM (executeCreate patterns)) (some store) =
        (.error (.panic msg), store') := by
  induction rows with
  | nil => intro store _ hids hroom; exact absurd hids hroom
  | cons row rows ih =>
    intro store hmakes hids hroom
    rw [forRows_cons] at hroom
    rw [List.mapM_cons]
    have hrow := hmakes row List.mem_cons_self
    have hadv := advanced_makeRow patterns store row
    by_cases hfirst : HasRoom store patterns
    · rw [runExec_bind_ok (runExec_makeRow hrow hfirst)]
      obtain ⟨msg, store', hrest⟩ := ih (fun r hr => hmakes r (List.mem_cons_of_mem _ hr))
        (hadv.hasRoom_append.mp (by rwa [List.append_nil]))
        fun h => hroom (hadv.hasRoom_append.mpr h)
      rw [runExec_bind, hrest]
      exact ⟨_, _, rfl⟩
    · obtain ⟨msg, store', hfold⟩ := runExec_makeAll_overflow (knows_nil row) hrow hids hfirst
      rw [runExec_bind, runExec_executeCreate, runExec_bind, hfold]
      exact ⟨_, _, rfl⟩

/-- What a run does up to the row it fails at. -/
theorem runExec_mapM_split {patterns : List Pattern} {done rest : List Tuple} {row : Tuple}
    {store : InMemoryGraphStore} (hdone : ∀ r ∈ done, Makes r [] patterns)
    (hroom : HasRoom store (forRows patterns done)) {e : Fault}
    {store' : Option InMemoryGraphStore}
    (hrow : runExec (executeCreate patterns row) (some (makeRows patterns store done)) =
      (.error e, store')) :
    runExec ((done ++ row :: rest).mapM (executeCreate patterns)) (some store) =
      (.error e, store') := by
  rw [List.mapM_append, runExec_bind_ok (runExec_makeRows hdone hroom), List.mapM_cons,
    runExec_bind, runExec_bind, hrow]

/-- What a row does up to the pattern it fails at. -/
theorem runExec_executeCreate_split {earlier later : List Pattern} {p : Pattern} {row : Tuple}
    {store : InMemoryGraphStore} (hmakes : Makes row [] earlier) (hroom : HasRoom store earlier)
    {e : Fault} {store' : Option InMemoryGraphStore}
    (hp : runExec (createPattern row (makeAll row (⟨∅, row⟩, store) earlier).1 p)
      (some (makeAll row (⟨∅, row⟩, store) earlier).2) = (.error e, store')) :
    runExec (executeCreate (earlier ++ p :: later) row) (some store) = (.error e, store') := by
  rw [runExec_executeCreate, List.foldlM_append, runExec_bind,
    runExec_bind_ok (runExec_makeAll (knows_nil row) hmakes hroom), List.foldlM_cons,
    runExec_bind, hp]

theorem Knows.makeAll {parent : Tuple} {ps : List Pattern} :
    ∀ {earlier : List Pattern} {s : CreateState × InMemoryGraphStore}, Knows earlier s.1 →
      Knows (earlier ++ ps) (makeAll parent s ps).1 := by
  induction ps with
  | nil => intro earlier s h; rwa [List.append_nil]
  | cons p ps ih =>
    intro earlier s h
    rw [makeAll_cons, List.append_cons]
    exact ih (h.makePattern parent s.2 p)

/-- **A run that fails keeps what was made before**: the rows `done`, and the patterns
`earlier` of the next one. -/
theorem runExec_failsAt {patterns : List Pattern} {rows done : List Tuple}
    {earlier : List Pattern} {store : InMemoryGraphStore}
    (h : FailsAt patterns rows done earlier)
    (hroom : HasRoom store (forRows patterns done ++ earlier)) :
    ∃ e store', runExec (rows.mapM (executeCreate patterns)) (some store) =
        (.error (.error e), some store') ∧
      Advanced store (forRows patterns done ++ earlier) store' := by
  obtain ⟨row, rest, p, later, rfl, rfl, hdone, hmakes, hp⟩ := h
  have hrows := advanced_makeRows (earlier ++ p :: later) done store
  have hknows := @Knows.makeAll row earlier []
    (⟨∅, row⟩, makeRows (earlier ++ p :: later) store done) (knows_nil row)
  obtain ⟨e, he⟩ := runExec_createPattern_error hknows
    (makeAll row (⟨∅, row⟩, makeRows (earlier ++ p :: later) store done) earlier).2 hp
  exact ⟨e, _, runExec_mapM_split hdone hroom.left
    (runExec_executeCreate_split hmakes (hrows.hasRoom_append.mp hroom) he),
    hrows.trans (advanced_makeAll row earlier (⟨∅, row⟩, _))⟩

/-- A run that would fail panics when the ids run out before. -/
theorem runExec_failsAt_overflow {patterns : List Pattern} {rows done : List Tuple}
    {earlier : List Pattern} {store : InMemoryGraphStore}
    (h : FailsAt patterns rows done earlier) (hids : HasRoom store [])
    (hroom : ¬ HasRoom store (forRows patterns done ++ earlier)) :
    ∃ msg store', runExec (rows.mapM (executeCreate patterns)) (some store) =
      (.error (.panic msg), store') := by
  obtain ⟨row, rest, p, later, rfl, rfl, hdone, hmakes, -⟩ := h
  have hrows := advanced_makeRows (earlier ++ p :: later) done store
  by_cases hfirst : HasRoom store (forRows (earlier ++ p :: later) done)
  · have hids' := hrows.hasRoom_append.mp (by rwa [List.append_nil])
    obtain ⟨msg, store', hfold⟩ := runExec_makeAll_overflow (knows_nil row) hmakes hids'
      fun hlast => hroom (hrows.hasRoom_append.mpr hlast)
    refine ⟨msg, store', runExec_mapM_split hdone hfirst ?_⟩
    rw [runExec_executeCreate, List.foldlM_append, runExec_bind, runExec_bind, hfold]
  · obtain ⟨msg, store', hrun⟩ := runExec_makeRows_overflow hdone hids hfirst
    refine ⟨msg, store', ?_⟩
    rw [List.mapM_append, runExec_bind, hrun]

/-- Patterns can be made, or one of them is the first that cannot. -/
theorem makes_or_exists (row : Tuple) (ps : List Pattern) : ∀ before : List Pattern,
    Makes row before ps ∨ ∃ earlier p later, ps = earlier ++ p :: later ∧
      Makes row before earlier ∧ ¬ Makeable row (before ++ earlier) p := by
  induction ps with
  | nil => exact fun before => .inl trivial
  | cons p ps ih =>
    intro before
    by_cases hp : Makeable row before p
    · rcases ih (before ++ [p]) with hps | ⟨earlier, q, later, rfl, hmakes, hq⟩
      · exact .inl ⟨hp, hps⟩
      · refine .inr ⟨p :: earlier, q, later, rfl, ⟨hp, hmakes⟩, ?_⟩
        rwa [List.append_cons]
    · exact .inr ⟨[], p, ps, rfl, trivial, by rwa [List.append_nil]⟩

/-- **A run over rows makes all patterns, or there is a first one that it cannot make.** -/
theorem makes_or_failsAt (patterns : List Pattern) (rows : List Tuple) :
    (∀ row ∈ rows, Makes row [] patterns) ∨ ∃ done earlier, FailsAt patterns rows done earlier := by
  induction rows with
  | nil => left; simp
  | cons row rows ih =>
    rcases makes_or_exists row patterns [] with hrow | ⟨earlier, p, later, heq, hmakes, hp⟩
    · rcases ih with hrows | ⟨done, earlier, row', rest, p, later, rfl, heq, hdone, hmakes, hp⟩
      · exact .inl (List.forall_mem_cons.mpr ⟨hrow, hrows⟩)
      · exact .inr ⟨row :: done, earlier, row', rest, p, later, rfl, heq,
          List.forall_mem_cons.mpr ⟨hrow, hdone⟩, hmakes, hp⟩
    · exact .inr ⟨[], earlier, row, rows, p, later, rfl, heq, by simp, hmakes, hp⟩

/-- **A CREATE returns if and only if its patterns can be made and there is room.** -/
theorem runExec_executeCreate_eq_ok_iff {patterns : List Pattern} {parent : Tuple}
    {store : InMemoryGraphStore} (hids : HasRoom store []) {rows : List Tuple}
    {store' : InMemoryGraphStore} :
    runExec (executeCreate patterns parent) (some store) = (.ok rows, some store') ↔
      (Makes parent [] patterns ∧ HasRoom store patterns) ∧
        rows = [createdRow parent store.nextNodeId store.nextEdgeId patterns] ∧
        store' = makeRow patterns store parent := by
  constructor
  · intro hrun
    have hfits : Makes parent [] patterns ∧ HasRoom store patterns := by
      rcases makes_or_exists parent patterns [] with hmakes | ⟨earlier, p, later, rfl, hmakes, hp⟩
      · refine ⟨hmakes, ?_⟩
        by_contra hroom
        obtain ⟨msg, write, hfold⟩ :=
          runExec_makeAll_overflow (knows_nil parent) hmakes hids hroom
        rw [runExec_executeCreate, runExec_bind, hfold] at hrun
        cases hrun
      · exfalso
        by_cases hroom : HasRoom store earlier
        · have hknows := @Knows.makeAll parent earlier [] (⟨∅, parent⟩, store) (knows_nil parent)
          obtain ⟨e, he⟩ := runExec_createPattern_error hknows
            (makeAll parent (⟨∅, parent⟩, store) earlier).2 hp
          rw [runExec_executeCreate_split hmakes hroom he] at hrun
          cases hrun
        · obtain ⟨msg, write, hfold⟩ :=
            runExec_makeAll_overflow (knows_nil parent) hmakes hids hroom
          rw [runExec_executeCreate, List.foldlM_append, runExec_bind, runExec_bind, hfold] at hrun
          cases hrun
    rw [runExec_makeRow hfits.1 hfits.2] at hrun
    simp only [Prod.mk.injEq, Except.ok.injEq, Option.some.injEq] at hrun
    exact ⟨hfits, hrun.1.symm, hrun.2.symm⟩
  · rintro ⟨⟨hmakes, hroom⟩, rfl, rfl⟩
    exact runExec_makeRow hmakes hroom

end KuzuEventBus
