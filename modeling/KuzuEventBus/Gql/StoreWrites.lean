import KuzuEventBus.Gql.OnStore
import KuzuEventBus.Lib.Mutexes

/-!
# What a query does to the store

Whatever the text of a query is and however it ends, the store after it is the store before with
some calls of `add_node` and `add_edge`: a query that fails in its CREATE clause leaves those it has
made, and one without a CREATE clause makes none.  So an invariant that the two calls keep holds
after every query, and what is in the store stays there as it is.

## Main definitions

* `WrittenFrom s t` — `t` is `s` after a sequence of calls.
* `GrowsTo s t` — all nodes and edges of `s` are in `t` as they are.

## Main results

* `keeps_executeNodeWith` — an operator changes the write handle by calls only.
* `executeGqlOnStore_writtenFrom` — a query changes the store by calls only.
* `executeGqlOnStore_extends` — **no query changes or removes anything, and the store stays well
  formed.**
-/

namespace KuzuEventBus

open EffectM

namespace InMemoryGraphStore

variable {s t u : InMemoryGraphStore}

theorem applyWrites_append (s : InMemoryGraphStore) (ws ws' : List Write) :
    s.applyWrites (ws ++ ws') = s.applyWrites ws >>= fun t => t.applyWrites ws' :=
  List.foldlM_append

/-- `t` is `s` after a sequence of calls. -/
def WrittenFrom (s t : InMemoryGraphStore) : Prop := ∃ ws, s.applyWrites ws = .ok t

theorem WrittenFrom.refl (s : InMemoryGraphStore) : WrittenFrom s s := ⟨[], rfl⟩

theorem WrittenFrom.trans (h : WrittenFrom s t) (h' : WrittenFrom t u) : WrittenFrom s u := by
  obtain ⟨ws, hws⟩ := h
  obtain ⟨ws', hws'⟩ := h'
  refine ⟨ws ++ ws', ?_⟩
  rw [applyWrites_append, hws]
  exact hws'

theorem writtenFrom_addNode {labels : List String} {ps : Properties} {id : NodeId}
    (h : s.addNode labels ps = .ok (id, t)) : WrittenFrom s t := by
  refine ⟨[.node labels ps], ?_⟩
  rw [applyWrites, List.foldlM_cons, applyWrite, h]
  rfl

theorem writtenFrom_addEdge {a b : NodeId} {edgeType : String} {ps : Properties} {id : EdgeId}
    (h : s.addEdge a b edgeType ps = .ok (id, t)) : WrittenFrom s t := by
  refine ⟨[.edge a b edgeType ps], ?_⟩
  rw [applyWrites, List.foldlM_cons, applyWrite, h]
  rfl

/-- **The rule of invariants**: what the two calls keep is kept. -/
theorem WrittenFrom.induction {P : InMemoryGraphStore → Prop} (h : WrittenFrom s t)
    (hnode : ∀ {s s' labels ps id}, P s → s.addNode labels ps = .ok (id, s') → P s')
    (hedge : ∀ {s s' a b ty ps id}, P s → s.addEdge a b ty ps = .ok (id, s') → P s')
    (hs : P s) : P t := by
  obtain ⟨ws, hws⟩ := h
  induction ws generalizing s with
  | nil => cases hws; exact hs
  | cons w ws ih =>
    rw [applyWrites, List.foldlM_cons] at hws
    obtain ⟨s₁, hw, hws⟩ := bind_eq_ok hws
    refine ih ?_ hws
    cases w with
    | node labels ps =>
      obtain ⟨⟨id, s₂⟩, hadd, rfl⟩ := map_eq_ok hw
      exact hnode hs hadd
    | edge a b edgeType ps =>
      obtain ⟨⟨id, s₂⟩, hadd, rfl⟩ := map_eq_ok hw
      exact hedge hs hadd

/-- All nodes and edges are still there, as they were, and no id is given twice. -/
structure GrowsTo (s t : InMemoryGraphStore) : Prop where
  node : ∀ {id n}, s.nodes.lookup id = some n → t.nodes.lookup id = some n
  edge : ∀ {id e}, s.edges.lookup id = some e → t.edges.lookup id = some e
  newNode : ∀ {id n}, t.nodes.lookup id = some n → s.nodes.lookup id = none → s.nextNodeId ≤ id
  newEdge : ∀ {id e}, t.edges.lookup id = some e → s.edges.lookup id = none → s.nextEdgeId ≤ id
  nextNodeId_le : s.nextNodeId ≤ t.nextNodeId
  nextEdgeId_le : s.nextEdgeId ≤ t.nextEdgeId

theorem GrowsTo.refl (s : InMemoryGraphStore) : GrowsTo s s where
  node h := h
  edge h := h
  newNode h hnone := by rw [hnone] at h; simp at h
  newEdge h hnone := by rw [hnone] at h; simp at h
  nextNodeId_le := le_rfl
  nextEdgeId_le := le_rfl

theorem GrowsTo.addNode (h : GrowsTo s t) (ht : t.Wf) {labels : List String} {ps : Properties}
    {id : NodeId} (hadd : t.addNode labels ps = .ok (id, u)) : GrowsTo s u := by
  obtain ⟨rfl, -, rfl⟩ := addNode_eq_ok hadd
  refine { h with node := ?_, newNode := ?_, nextNodeId_le := Nat.le_succ_of_le h.nextNodeId_le }
  · intro id n hn
    have hold := h.node hn
    have hne : id ≠ t.nextNodeId := Nat.ne_of_lt (ht.node_lt hold)
    rw [AList.lookup_insert_ne hne]
    exact hold
  · intro id n hn hnone
    rw [AList.lookup_insert_eq] at hn
    split at hn
    · next heq => rw [heq]; exact h.nextNodeId_le
    · exact h.newNode hn hnone

theorem GrowsTo.addEdge (h : GrowsTo s t) (ht : t.Wf) {a b : NodeId} {edgeType : String}
    {ps : Properties} {id : EdgeId} (hadd : t.addEdge a b edgeType ps = .ok (id, u)) :
    GrowsTo s u := by
  obtain ⟨rfl, -, rfl⟩ := addEdge_eq_ok hadd
  refine { h with edge := ?_, newEdge := ?_, nextEdgeId_le := Nat.le_succ_of_le h.nextEdgeId_le }
  · intro id e he
    have hold := h.edge he
    have hne : id ≠ t.nextEdgeId := Nat.ne_of_lt (ht.edge_lt hold)
    rw [AList.lookup_insert_ne hne]
    exact hold
  · intro id e he hnone
    rw [AList.lookup_insert_eq] at he
    split at he
    · next heq => rw [heq]; exact h.nextEdgeId_le
    · exact h.newEdge he hnone

/-- Calls only add to a well-formed store. -/
theorem WrittenFrom.extends (h : WrittenFrom s t) (hs : s.Wf) : t.Wf ∧ GrowsTo s t :=
  h.induction (P := fun t => t.Wf ∧ GrowsTo s t)
    (fun ht hadd => ⟨ht.1.addNode hadd, ht.2.addNode ht.1 hadd⟩)
    (fun ht hadd => ⟨ht.1.addEdge hadd, ht.2.addEdge ht.1 hadd⟩) ⟨hs, .refl s⟩

end InMemoryGraphStore

open InMemoryGraphStore

/-! ### Operators -/

/-- What the calls of an operator do to the write handle. -/
def HandleWritten : Option InMemoryGraphStore → Option InMemoryGraphStore → Prop
  | none, none => True
  | some s, some t => WrittenFrom s t
  | _, _ => False

instance : Std.Refl HandleWritten where
  refl
    | none => trivial
    | some s => .refl s

instance : IsTrans (Option InMemoryGraphStore) HandleWritten where
  trans
    | none, none, none, _, _ => trivial
    | some _, some _, some _, h, h' => h.trans h'

theorem keeps_readOnly {α : Type} (f : Option InMemoryGraphStore → Except Fault α) :
    Keeps HandleWritten (readOnly f) :=
  .of_run_eq fun _ => rfl

theorem keeps_writeStore {α : Type}
    {f : InMemoryGraphStore → Except Fault (α × InMemoryGraphStore)}
    (hf : ∀ {s a t}, f s = .ok (a, t) → WrittenFrom s t) :
    Keeps HandleWritten (writeStore f) := by
  intro write
  cases write with
  | none => exact Std.Refl.refl (none : Option InMemoryGraphStore)
  | some s =>
    show HandleWritten (some s) (runExec (writeStore f) (some s)).2
    rw [runExec_writeStore]
    cases hs : f s with
    | error e => exact .refl s
    | ok r => exact hf hs

theorem keeps_createPattern (parent : Tuple) (st : CreateState) (p : Pattern) :
    Keeps HandleWritten (createPattern parent st p) := by
  cases p with
  | node node =>
    refine (keeps_writeStore writtenFrom_addNode).bind fun id => ?_
    cases node.var with
    | none => exact .pure st
    | some var => exact .pure _
  | edge edge =>
    refine (keeps_readOnly _).bind fun fromId => (keeps_readOnly _).bind fun toId => ?_
    cases edge.edgeType with
    | none => exact .throw _
    | some edgeType =>
      refine (keeps_writeStore writtenFrom_addEdge).bind fun id => ?_
      cases edge.var with
      | none => exact .pure st
      | some var => exact .pure _

theorem keeps_executeCreate (patterns : List Pattern) (parent : Tuple) :
    Keeps HandleWritten (executeCreate patterns parent) := by
  refine Keeps.get.bind fun write => ?_
  cases write with
  | none => exact .throw _
  | some s =>
    exact (Keeps.foldlM (fun st p _ => keeps_createPattern parent st p) _).bind fun st => .pure _

/-- **An operator changes the write handle by calls only.** -/
theorem keeps_executeNodeWith
    {ev : Executor → Tuple → Option InMemoryGraphStore → Expr → Except Fault Value} {ex : Executor}
    (parent : Tuple) (node : PlanNode) :
    Keeps HandleWritten (executeNodeWith ev ex parent node) := by
  induction node with
  | create patterns => exact keeps_executeCreate patterns parent
  | matchCreate input patterns ih =>
    refine ih.bind fun tuples => Keeps.get.bind fun write => ?_
    cases write with
    | none => exact .throw _
    | some s =>
      exact (Keeps.mapM fun row _ => keeps_executeCreate patterns row).bind fun ts => .pure _
  | cartesianProduct left right ihl ihr =>
    exact ihl.bind fun ls => ihr.bind fun rs => .pure _
  | labelScan var label => exact keeps_readOnly _
  | fullScan var => exact keeps_readOnly _
  | filter input predicate ih => exact ih.bind fun ts => keeps_readOnly _
  | project input items ih => exact ih.bind fun ts => keeps_readOnly _
  | aggregate input groupBy aggregates ih => exact ih.bind fun ts => keeps_readOnly _
  | orderBy input items ih => exact ih.bind fun ts => keeps_readOnly _
  | limit input count ih => exact ih.bind fun ts => .pure _
  | expand input fromVar edgeVar toVar edgeType direction depth ih =>
    exact ih.bind fun ts => keeps_readOnly _

/-! ### Queries -/

/-- A query changes the store by calls only. -/
theorem executeQueryOnStore_writtenFrom (store : InMemoryGraphStore)
    (params : Option (HashMap String Json)) (query : Query) :
    WrittenFrom store (executeQueryOnStore store params query).2 := by
  unfold executeQueryOnStore
  cases plan query with
  | error e => exact .refl store
  | ok p =>
    simp only
    split
    · have hkeeps : Keeps HandleWritten (execute ⟨none, paramValues params⟩ p) :=
        (keeps_executeNodeWith ∅ p.root).bind fun ts => .pure _
      have hwrite := hkeeps (some store)
      change HandleWritten (some store)
        (runExec (execute ⟨none, paramValues params⟩ p) (some store)).2 at hwrite
      cases hrun : runExec (execute ⟨none, paramValues params⟩ p) (some store) with
      | mk result write =>
        rw [hrun] at hwrite
        cases write with
        | none => exact hwrite.elim
        | some t => exact hwrite
    · exact .refl store

theorem executeGqlOnStore_writtenFrom (tables : CharTables) (store : InMemoryGraphStore)
    (gql : String) (params : Option (HashMap String Json)) :
    WrittenFrom store (executeGqlOnStore tables store gql params).2 := by
  unfold executeGqlOnStore
  cases parse tables gql with
  | error e => exact .refl store
  | ok query => exact executeQueryOnStore_writtenFrom store params query

/-- **No query changes or removes anything, and the store stays well formed**, whether it returns,
fails or panics; without a CREATE clause it leaves the store as it is. -/
theorem executeGqlOnStore_extends {tables : CharTables} {store : InMemoryGraphStore}
    (h : store.Wf) (gql : String) (params : Option (HashMap String Json)) :
    (executeGqlOnStore tables store gql params).2.Wf ∧
      GrowsTo store (executeGqlOnStore tables store gql params).2 ∧
      ((∀ query, parse tables gql = .ok query → query.createClause = none) →
        (executeGqlOnStore tables store gql params).2 = store) := by
  obtain ⟨hwf, hext⟩ := (executeGqlOnStore_writtenFrom tables store gql params).extends h
  refine ⟨hwf, hext, fun hread => ?_⟩
  unfold executeGqlOnStore
  cases hparse : parse tables gql with
  | error e => rfl
  | ok query =>
    simp only [executeQueryOnStore]
    cases plan query with
    | error e => rfl
    | ok p => simp [hread query hparse]

/-- A CREATE that fails at its second pattern, on `(1:A)-[:R]->(2:B)`. -/
theorem executeGqlOnStore_extends_twoNodes :
    twoNodes.Wf ∧
      ((executeGqlOnStore .ascii twoNodes "CREATE (a:A), (b)-[:R]->(a)" none).2.Wf ∧
        GrowsTo twoNodes
          (executeGqlOnStore .ascii twoNodes "CREATE (a:A), (b)-[:R]->(a)" none).2 ∧
        ((∀ query, parse .ascii "CREATE (a:A), (b)-[:R]->(a)" = .ok query →
            query.createClause = none) →
          (executeGqlOnStore .ascii twoNodes "CREATE (a:A), (b)-[:R]->(a)" none).2 = twoNodes)) :=
  ⟨reachable_twoNodes.wf, executeGqlOnStore_extends reachable_twoNodes.wf _ _⟩

end KuzuEventBus
