import KuzuEventBus.Engine.GraphRuns
import KuzuEventBus.Gql.Projection
import KuzuEventBus.Gql.WhereAlgebra
import KuzuEventBus.Gql.WithSubst
import KuzuEventBus.Sdk.Bindings
import KuzuEventBus.Sdk.RelationQueries

/-!
# Rows along a relation

What the engine answers to the text of a relation of an entity: once for each time the labels of its
node name that of its class, a row for each target of the hop or of the search from the node.  The
label of the target is not looked at.

## Main definitions

* `LeadsTo` — the targets of a relation: over the edges of the store, or by its walks.
* `RelationDescriptor.spec` — the Expand of the text.
* `RelationDescriptor.rowOf` — the row of a target.
* `RelationDescriptor.Answered` — what the engine is to answer.

## Main results

* `sourceTuples_query` — the tuples that reach RETURN.
* `leadsTo_expandTargets` — the targets are what the engine draws from.
* `answered_gql` — **what the engine answers.**
-/

namespace KuzuEventBus

/-- A label finds a node once for each time its labels name it. -/
theorem InMemoryGraphStore.Wf.filter_scanByLabel {s : InMemoryGraphStore} (h : s.Wf)
    {label : String} {id : NodeId} {n : Node} (hn : s.getNode id = some n) :
    (s.scanByLabel label).filter (·.id = id) = List.replicate (n.labels.count label) n := by
  have hcount : (s.labelIndex.listAt label).count id = n.labels.count label := by
    have hnode : s.nodes.lookup id = some n := hn
    rw [h.label_count, labelCount, hnode]
    rfl
  have hid : n.id = id := h.node_id hn
  unfold scanByLabel
  rw [← hcount]
  induction s.labelIndex.listAt label with
  | nil => rfl
  | cons i is ih =>
    have hnode : s.nodes.lookup id = some n := hn
    by_cases hi : i = id
    · rw [hi, List.count_cons_self, List.replicate_succ, List.filterMap_cons, hnode]
      simp only [List.filter_cons, hid, decide_true, if_true, ih]
    · rw [List.count_cons_of_ne hi, ← ih, List.filterMap_cons]
      cases hlookup : s.nodes.lookup i with
      | none => rfl
      | some m =>
        have hm : m.id ≠ id := by
          rw [h.node_id hlookup]
          exact hi
        simp [hm]

/-- A filter that looks at what a part is made of. -/
theorem filter_flatMap_of {α β : Type} {f : α → List β} {p : β → Bool} {q : α → Bool} {l : List α}
    (h : ∀ a ∈ l, ∀ b ∈ f a, p b = q a) :
    (l.flatMap f).filter p = (l.filter q).flatMap f := by
  induction l with
  | nil => rfl
  | cons a l ih =>
    have hrest := ih fun a' ha' => h a' (List.mem_cons_of_mem a ha')
    have hfirst := h a List.mem_cons_self
    rw [List.flatMap_cons, List.filter_append, hrest, List.filter_cons]
    cases hq : q a with
    | true =>
      rw [List.filter_eq_self.mpr fun b hb => by rw [hfirst b hb, hq], if_pos rfl,
        List.flatMap_cons]
    | false =>
      rw [List.filter_eq_nil_iff.mpr fun b hb => by simp [hfirst b hb, hq], List.nil_append,
        if_neg Bool.false_ne_true]

/-- The property keys of a variable hold the properties, over what was there before. -/
theorem lookup_insertAll_propBindings (tuple : Tuple) (var : String) (ps : Properties)
    (key : String) : (tuple.insertAll (propBindings var ps)).lookup (propKey var key) =
      (ps.lookup key).or (tuple.lookup (propKey var key)) := by
  have hbindings : propBindings var ps =
      ps.toPairs.filterMap fun kv => (some (propKey var kv.1)).map fun k => (k, kv.2) :=
    (congrFun List.filterMap_eq_map' _).symm
  rw [hbindings]
  refine AList.lookup_insertAll_filterMap (f := fun k => some (propKey var k)) ?_ tuple ps rfl
  intro k k' x hk hk'
  exact propKey_injective var (Option.some.inj (hk.trans hk'.symm))

/-- Ids below `2 ^ 64` differ as `i64`, too. -/
theorem int64_ofNat_inj {a b : ℕ} (ha : a < 2 ^ 64) (hb : b < 2 ^ 64)
    (h : Int64.ofNat a = Int64.ofNat b) : a = b := by
  have hnat := congrArg (fun i => i.toUInt64.toNat) h
  simp only [Int64.toUInt64_ofNat', UInt64.toNat_ofNat'] at hnat
  rwa [Nat.mod_eq_of_lt ha, Nat.mod_eq_of_lt hb] at hnat

end KuzuEventBus

namespace KuzuEventBus.Sdk.Orm

open Bindings Dsl InMemoryGraphStore Walks

/-! ### Targets -/

/-- The edges of the types at a node, each once, with the nodes at their other ends. -/
structure Hops (store : InMemoryGraphStore) (types : List String) (id : NodeId)
    (own other : Edge → NodeId) (hops : List (Edge × Node)) : Prop where
  nodup : hops.Nodup
  mem : ∀ e m, (e, m) ∈ hops ↔
    e ∈ store.edges.values ∧ e.edgeType ∈ types ∧ own e = id ∧ store.getNode (other e) = some m

/-- The hops in a direction: without one, an edge from the node to itself is there twice. -/
inductive HopsAlong (store : InMemoryGraphStore) (types : List String) (id : NodeId) :
    RelationDirection → List (Edge × Node) → Prop
  | to_ {out : List (Edge × Node)} (hout : Hops store types id Edge.fromNode Edge.toNode out) :
    HopsAlong store types id .to_ out
  | from_ {into : List (Edge × Node)} (hinto : Hops store types id Edge.toNode Edge.fromNode into) :
    HopsAlong store types id .from_ into
  | both {out into : List (Edge × Node)}
    (hout : Hops store types id Edge.fromNode Edge.toNode out)
    (hinto : Hops store types id Edge.toNode Edge.fromNode into) :
    HopsAlong store types id .both (out ++ into)

/-- A hop to a node that is there. -/
def HopTo (store : InMemoryGraphStore) (types : List String) (direction : Direction)
    (a b : NodeId) : Prop :=
  Hop store types direction a b ∧ (store.getNode b).isSome

/-- The other nodes whose distance from a node is in range, each once. -/
structure InRange (store : InMemoryGraphStore) (d : RelationDescriptor) (id : NodeId)
    (nodes : List Node) : Prop where
  nodup : (nodes.map Node.id).Nodup
  mem : ∀ m, m ∈ nodes ↔ store.getNode m.id = some m ∧ m.id ≠ id ∧
    ∃ k, d.dmin.toNat ≤ k ∧ k ≤ d.dmax.toNat ∧
      Shortest (HopTo store d.types d.edgeDirection) k id m.id

/-- The targets of a relation from a node. -/
inductive LeadsTo (store : InMemoryGraphStore) (d : RelationDescriptor) (id : NodeId) :
    List (Option Edge × Node) → Prop
  | hop {hops : List (Edge × Node)} (hsingle : d.SingleHop)
    (hhops : HopsAlong store d.types id d.direction hops) :
    LeadsTo store d id (hops.map fun hop => (some hop.1, hop.2))
  | walk {nodes : List Node} (hsingle : ¬ d.SingleHop) (hrange : InRange store d id nodes) :
    LeadsTo store d id (nodes.map fun m => (none, m))

section
variable {store : InMemoryGraphStore} {d : RelationDescriptor} {id : NodeId}

/-- What the loop over an adjacency list finds along the types. -/
theorem Hops.neighborsVia (hwf : store.Wf) {adjacency : HashMap NodeId (List EdgeId)}
    {own : Edge → NodeId} (other : Edge → NodeId)
    (hcount : ∀ a id, (adjacency.listAt a).count id = store.endCount own a id)
    {types : List String} (htypes : types ≠ []) (id : NodeId) :
    Hops store types id own other ((store.neighborsVia (adjacency.listAt id) other none).filter
      fun en => types.isEmpty || en.1.edgeType ∈ types) where
  nodup := (hwf.nodup_neighborsVia hcount id other none).filter _
  mem e m := by
    have hedge : store.edges.lookup e.id = some e ↔ e ∈ store.edges.values := by
      rw [AList.mem_values_iff]
      constructor
      · exact fun he => ⟨e.id, he⟩
      · rintro ⟨i, hi⟩
        rw [hwf.edge_id hi]
        exact hi
    have hempty : types.isEmpty = false := by simpa using htypes
    rw [List.mem_filter, hwf.mem_neighborsVia_iff hcount, hempty, Bool.false_or,
      decide_eq_true_iff, hedge]
    constructor
    · rintro ⟨⟨he, hown, -, hm⟩, htype⟩
      exact ⟨he, htype, hown, hm⟩
    · rintro ⟨he, htype, hown, hm⟩
      exact ⟨⟨he, hown, by simp, hm⟩, htype⟩

/-- The hops of an Expand are those in its direction. -/
theorem hopsAlong_allowedNeighbors (hwf : store.Wf) (d : RelationDescriptor) (id : NodeId) :
    HopsAlong store d.types id d.direction
      (allowedNeighbors store id d.edgeDirection d.types) := by
  have hout := Hops.neighborsVia hwf Edge.toNode hwf.out_count d.types_ne_nil id
  have hinto := Hops.neighborsVia hwf Edge.fromNode hwf.in_count d.types_ne_nil id
  unfold RelationDescriptor.edgeDirection
  cases d.direction with
  | to_ => exact .to_ hout
  | from_ => exact .from_ hinto
  | both =>
    rw [allowedNeighbors, directedNeighbors, List.filter_append]
    exact .both hout hinto

/-- The search finds the nodes in range. -/
theorem inRange_traverseVariableLength (hwf : store.Wf) (d : RelationDescriptor) (id : NodeId) :
    InRange store d id (traverseVariableLength store id d.types d.edgeDirection d.dmin.toNat
      d.dmax.toNat) := by
  obtain ⟨hnodup, hids⟩ := mem_traverseVariableLength store id d.types d.edgeDirection
    d.dmin.toNat d.dmax.toNat
  have hhop : (fun x y => y ∈ nextIds store d.types d.edgeDirection x) =
      HopTo store d.types d.edgeDirection := by
    funext x y
    exact propext (mem_nextIds hwf)
  rw [hhop] at hids
  have hnode {m : Node} (hm : m ∈ traverseVariableLength store id d.types d.edgeDirection
      d.dmin.toNat d.dmax.toNat) : store.getNode m.id = some m :=
    hwf.mem_scanAll.mp (mem_traverseLoop (by simp) m hm)
  refine ⟨hnodup, fun m => ⟨fun hm => ?_, ?_⟩⟩
  · exact ⟨hnode hm, (hids m.id).mp (List.mem_map_of_mem hm)⟩
  · rintro ⟨hm, hrange⟩
    -- the id is that of a node that is found, and of no other
    obtain ⟨m', hm', hid⟩ := List.mem_map.mp ((hids m.id).mpr hrange)
    have hsame := hnode hm'
    rw [hid, hm] at hsame
    rw [Option.some.inj hsame]
    exact hm'

/-- The Expand of the edge pattern. -/
def RelationDescriptor.spec (d : RelationDescriptor) : ExpandSpec :=
  ⟨"p", some "r", "t", typesText d.types, d.edgeDirection, d.depth⟩

/-- **The targets are what the engine draws from.** -/
theorem leadsTo_expandTargets {tables : CharTables} {label : String} (htables : tables.Standard)
    (hd : d.Writable tables label) (hwf : store.Wf) (id : NodeId) :
    LeadsTo store d id (expandTargets store d.spec id) := by
  have htypes {keepEmpty : Bool} : unionTypes keepEmpty d.spec.edgeType = d.types :=
    unionTypes_typesText fun t ht => (hd.types t ht).typeName htables
  by_cases hsingle : d.SingleHop
  · have hdepth : d.spec.depth = none := if_pos hsingle
    rw [expandTargets, hdepth]
    dsimp only
    rw [htypes]
    exact .hop hsingle (hopsAlong_allowedNeighbors hwf d id)
  · have hdepth : d.spec.depth = some ⟨d.dmin.toNat, d.dmax.toNat⟩ := if_neg hsingle
    rw [expandTargets_traverse hdepth, htypes]
    exact .walk hsingle (inRange_traverseVariableLength hwf d id)

end

namespace RelationDescriptor

variable (d : RelationDescriptor)

/-- The plan of the MATCH clause: the ends of a path of at least one hop differ. -/
def plan (label : String) : PlanNode :=
  let expand := PlanNode.expand (.labelScan "p" label) "p" (some "r") "t" (typesText d.types)
    d.edgeDirection d.depth
  match d.depth with
  | some depth => if depth.min ≥ 1 then .filter expand (endsDiffer "p" "t") else expand
  | none => expand

/-- The tuple of a target. -/
def tupleOf (n : Node) (target : Option Edge × Node) : Tuple :=
  extendTuple d.spec (nodeTuple "p" n) target

/-- What `r.edge_type` is: a property of that name hides the type. -/
def edgeTypeOf (e : Edge) : Value := (e.properties.lookup "edge_type").getD (.string e.edgeType)

/-- The row of a target; there is no edge at the end of a longer path. -/
def rowOf (target : Option Edge × Node) : List Json :=
  [(target.1.elim Value.null fun e => .int (Int64.ofNat e.id)).toJson,
    (target.1.elim Value.null edgeTypeOf).toJson, (Value.nodeId target.2.id).toJson]

section
variable {d} {tables : CharTables} {label : String} {store : InMemoryGraphStore}
  {params : Option (HashMap String Json)} {id : ℕ} {n : Node}

theorem planMatch_patterns : planMatch ⟨d.patterns label⟩ = .ok (d.plan label) := by
  unfold patterns plan
  cases hdepth : d.depth with
  | none => rfl
  | some depth => rfl

theorem boundNode_nodeTuple (n : Node) : boundNode (nodeTuple "p" n) "p" = some n.id :=
  boundNode_eq_some.mpr (lookup_bindNode_self _ _ _ _)

/-- The variables are told apart. -/
theorem plain_vars : Plain "p" ∧ Plain "t" ∧ Plain "r" := by
  unfold Plain
  decide

theorem expandTuple_nodeTuple (n : Node) : expandTuple store d.spec (nodeTuple "p" n) =
    (expandTargets store d.spec n.id).map (d.tupleOf n) := by
  have hto : boundNode (nodeTuple "p" n) "t" = none := by
    unfold boundNode nodeTuple
    rw [lookup_bindNode_frame plain_vars.2.1 plain_vars.1 (by decide) (.inl rfl)]
    rfl
  have hfrom : boundNode (nodeTuple "p" n) d.spec.fromVar = some n.id := boundNode_nodeTuple n
  have hto' : boundNode (nodeTuple "p" n) d.spec.toVar = none := hto
  rw [expandTuple, hfrom]
  simp only
  rw [hto', List.filter_eq_self.mpr]
  · rfl
  · intro target _
    rfl

/-- A key of neither the target nor the edge. -/
theorem lookup_tupleOf_of_ne {key : String} (ht : key ≠ "t") (hr : key ≠ "r")
    (htkey : ∀ k, key ≠ propKey "t" k) (hrkey : ∀ k, key ≠ propKey "r" k)
    (target : Option Edge × Node) :
    (d.tupleOf n target).lookup key = (nodeTuple "p" n).lookup key := by
  obtain ⟨edge, m⟩ := target
  cases edge with
  | none => exact lookup_bindNode_of_ne ht htkey
  | some e =>
    refine (lookup_insertAll_edgeBindings_of_ne hr hrkey).trans ?_
    exact lookup_bindNode_of_ne ht htkey

theorem lookup_tupleOf_p (target : Option Edge × Node) :
    (d.tupleOf n target).lookup "p" = some (.nodeId n.id) := by
  rw [lookup_tupleOf_of_ne (by decide) (by decide) (plain_vars.1.ne_propKey "t")
    (plain_vars.1.ne_propKey "r")]
  exact lookup_bindNode_self _ _ _ _

theorem lookup_tupleOf_t (target : Option Edge × Node) :
    (d.tupleOf n target).lookup "t" = some (.nodeId target.2.id) := by
  obtain ⟨edge, m⟩ := target
  cases edge with
  | none => exact lookup_bindNode_self _ _ _ _
  | some e =>
    refine (lookup_insertAll_edgeBindings_of_ne (by decide)
      (plain_vars.2.1.ne_propKey "r")).trans ?_
    exact lookup_bindNode_self _ _ _ _

theorem lookup_tupleOf_r (target : Option Edge × Node) :
    (d.tupleOf n target).lookup "r" = target.1.map fun e => .int (Int64.ofNat e.id) := by
  obtain ⟨edge, m⟩ := target
  cases edge with
  | none =>
    have hr := plain_vars.2.2
    refine (lookup_bindNode_of_ne (by decide) (hr.ne_propKey "t")).trans ?_
    refine (lookup_bindNode_of_ne (by decide) (hr.ne_propKey "p")).trans ?_
    rfl
  | some e => exact lookup_insertAll_edgeBindings_self _ _ _

theorem lookup_tupleOf_edgeType (target : Option Edge × Node) :
    (d.tupleOf n target).lookup (propKey "r" "edge_type") = target.1.map edgeTypeOf := by
  obtain ⟨edge, m⟩ := target
  cases edge with
  | none =>
    have hne (var k : String) (hvar : var.toList = ['p'] ∨ var.toList = ['t']) :
        propKey "r" "edge_type" ≠ propKey var k := by
      intro heq
      have hlist := congrArg String.toList heq
      rw [propKey, propKey, String.toList_append, String.toList_append, String.toList_append,
        String.toList_append] at hlist
      rcases hvar with hvar | hvar <;> rw [hvar] at hlist <;> cases hlist
    refine (lookup_bindNode_of_ne (by decide) fun k => hne "t" k (.inr rfl)).trans ?_
    refine (lookup_bindNode_of_ne (by decide) fun k => hne "p" k (.inl rfl)).trans ?_
    rfl
  | some e =>
    show ((AList.insertAll _ (edgeBindings "r" e)).lookup _) = _
    rw [edgeBindings, AList.insertAll_cons, AList.insertAll_cons, lookup_insertAll_propBindings]
    have hkey : propKey "r" "edge_type" = "r" ++ ".edge_type" := by decide
    rw [hkey, AList.lookup_insert, Option.map_some, edgeTypeOf]
    cases e.properties.lookup "edge_type" <;> rfl

/-! ### The plan -/

/-- The tuples of the plan: for each node of the label, those of its targets. -/
theorem readNode_plan (hwf : store.Wf) :
    readNode (readExecutor store params).eval (some store) ∅ (d.plan label) =
      .ok ((store.scanByLabel label).flatMap fun n =>
        (expandTargets store d.spec n.id).map (d.tupleOf n)) := by
  have hexpand : readNode (readExecutor store params).eval (some store) ∅
      (.expand (.labelScan "p" label) "p" (some "r") "t" (typesText d.types) d.edgeDirection
        d.depth) = .ok ((store.scanByLabel label).flatMap fun n =>
          (expandTargets store d.spec n.id).map (d.tupleOf n)) := by
    show Except.ok (((store.scanByLabel label).map (nodeTuple "p")).flatMap
      (expandTuple store d.spec)) = _
    rw [List.flatMap_map]
    simp only [expandTuple_nodeTuple]
  unfold plan
  cases hdepth : d.depth with
  | none =>
    rw [hdepth] at hexpand
    exact hexpand
  | some depth =>
    rw [hdepth] at hexpand
    dsimp only
    split
    · rw [readNode, hexpand]
      apply filterE_eq_self
      intro row hrow
      obtain ⟨n, hn, hrow⟩ := List.mem_flatMap.mp hrow
      obtain ⟨target, htarget, rfl⟩ := List.mem_map.mp hrow
      have hspec : d.spec.depth = some depth := hdepth
      rw [expandTargets_traverse hspec] at htarget
      obtain ⟨m, hm, rfl⟩ := List.mem_map.mp htarget
      have hv : boundNode (d.tupleOf n (none, m)) "p" = some n.id :=
        boundNode_eq_some.mpr (lookup_tupleOf_p _)
      have hw : boundNode (d.tupleOf n (none, m)) "t" = some m.id :=
        boundNode_eq_some.mpr (lookup_tupleOf_t _)
      exact accepts_endsDiffer_traverse hwf hv hw (hwf.mem_scanByLabel.mp hn).1 hm
    · exact hexpand

/-! ### WHERE -/

/-- The condition is true on the tuples of the node with the id. -/
theorem eval_baseCondition (hwf : store.Wf) (hid : id < 2 ^ 64)
    (hparam : (paramValues params).lookup "base_id" = some (.int (Int64.ofNat id)))
    (hn : store.getNode n.id = some n) (target : Option Edge × Node) :
    (readExecutor store params).eval baseCondition (d.tupleOf n target) =
      .ok (.bool (decide (n.id = id))) := by
  have hcall : (readExecutor store params).eval (.functionCall "ID" [.ident "p"])
      (d.tupleOf n target) = .ok (.int (Int64.ofNat n.id)) := by
    rw [eval_call, if_pos (by decide), eval_ident, lookup_tupleOf_p]
    rfl
  have hvalue : (readExecutor store params).eval (.parameter "base_id") (d.tupleOf n target) =
      .ok (.int (Int64.ofNat id)) := by
    have hlookup : (readExecutor store params).parameters.lookup "base_id" =
        some (.int (Int64.ofNat id)) := hparam
    unfold Executor.eval evalExpr
    rw [evalExprWith, hlookup]
  have hnlt : n.id < 2 ^ 64 := (hwf.node_lt hn).trans hwf.nextNodeId_lt
  rw [baseCondition, eval_binaryOp, hcall, hvalue]
  show evalIntOp _ .eq _ = _
  have hiff : Int64.ofNat n.id = Int64.ofNat id ↔ n.id = id :=
    ⟨int64_ofNat_inj hnlt hid, fun h => by rw [h]⟩
  simp [evalIntOp, hiff]

/-- **The tuples that reach RETURN** are those of the targets of the node, once for each time its
labels name that of the class. -/
theorem sourceTuples_query (hwf : store.Wf) (hid : id < 2 ^ 64)
    (hparam : (paramValues params).lookup "base_id" = some (.int (Int64.ofNat id)))
    (hn : store.getNode id = some n) :
    sourceTuples (readExecutor store params) (d.query label) =
      .ok ((List.replicate (n.labels.count label) (expandTargets store d.spec id)).flatten.map
        (d.tupleOf n)) := by
  have hnid : n.id = id := hwf.node_id hn
  have hsource : planSource (d.query label) = .ok (d.plan label) := planMatch_patterns
  have heval : ∀ m ∈ store.scanByLabel label, ∀ target,
      (readExecutor store params).eval baseCondition (d.tupleOf m target) =
        .ok (.bool (decide (m.id = id))) := fun m hm target =>
    eval_baseCondition hwf hid hparam (hwf.mem_scanByLabel.mp hm).1 target
  rw [sourceTuples, hsource]
  show readNode _ _ ∅ (planPipeline (d.query label) _) = _
  rw [readNode_planPipeline, show (readExecutor store params).read = some store from rfl,
    readNode_plan hwf]
  show keptBy (readExecutor store params) baseCondition _ = _
  rw [keptBy_of_noPanic, trueOn]
  · have hfilter := filter_flatMap_of
      (f := fun m => (expandTargets store d.spec m.id).map (d.tupleOf m))
      (p := fun t => decide ((readExecutor store params).eval baseCondition t = .ok (.bool true)))
      (q := fun m : Node => decide (m.id = id)) (l := store.scanByLabel label) (by
        intro m hm t ht
        obtain ⟨target, -, rfl⟩ := List.mem_map.mp ht
        simp [heval m hm target])
    rw [hfilter, hwf.filter_scanByLabel hn, List.flatMap_replicate, ← hnid]
    simp [List.map_flatten, List.map_replicate]
  · intro t ht
    obtain ⟨m, hm, ht⟩ := List.mem_flatMap.mp ht
    obtain ⟨target, -, rfl⟩ := List.mem_map.mp ht
    rw [heval m hm target]
    exact .ok _

/-! ### RETURN -/

/-- The cells of a tuple. -/
theorem projectedRow_tupleOf (target : Option Edge × Node) :
    projectedRow (readExecutor store params).eval items (d.tupleOf n target) = rowOf target := by
  have hnames : NamesAgree (readExecutor store params).eval items (d.tupleOf n target) := by
    intro item hitem item' hitem' hname
    have hsame : item = item' := by
      simp only [items, List.mem_cons, List.not_mem_nil, or_false] at hitem hitem'
      rcases hitem with rfl | rfl | rfl <;> rcases hitem' with rfl | rfl | rfl
      all_goals first | rfl | exact absurd hname (by decide)
    rw [hsame]
  rw [projectedRow_eq_iff.mpr hnames]
  have hr : cell (readExecutor store params).eval (.ident "r") (d.tupleOf n target) =
      (target.1.elim Value.null fun e => .int (Int64.ofNat e.id)).toJson := by
    rw [cell, eval_ident, lookup_tupleOf_r]
    cases target.1 <;> rfl
  have htype : cell (readExecutor store params).eval (.property "r" "edge_type")
      (d.tupleOf n target) = (target.1.elim Value.null edgeTypeOf).toJson := by
    rw [cell, eval_property, lookup_tupleOf_edgeType]
    cases target.1 <;> rfl
  have ht : cell (readExecutor store params).eval (.ident "t") (d.tupleOf n target) =
      (Value.nodeId target.2.id).toJson := by
    rw [cell, eval_ident, lookup_tupleOf_t]
    rfl
  simp only [items, List.map_cons, List.map_nil, hr, htype, ht, rowOf]

/-- No item panics. -/
theorem noPanic_items (target : Option Edge × Node) : ∀ item ∈ items,
    NoPanic ((readExecutor store params).eval item.expr (d.tupleOf n target)) := by
  have hident (var : String) :
      NoPanic ((readExecutor store params).eval (.ident var) (d.tupleOf n target)) := by
    rw [eval_ident]
    cases (d.tupleOf n target).lookup var with
    | none => intro m h; cases h
    | some v => exact .ok v
  intro item hitem
  simp only [items, List.mem_cons, List.not_mem_nil, or_false] at hitem
  rcases hitem with rfl | rfl | rfl
  · exact hident "r"
  · rw [eval_property]
    cases (d.tupleOf n target).lookup (propKey "r" "edge_type") with
    | none => intro m h; cases h
    | some v => exact .ok v
  · exact hident "t"

/-- For each time the labels of the node name that of the class, a row for each target. -/
theorem executeGqlOnStore_gql (h : tables.Standard) (hd : d.Writable tables label)
    (hdir : d.direction ≠ .from_) (hwf : store.Wf) (hid : id < 2 ^ 64)
    (hparam : (paramValues params).lookup "base_id" = some (.int (Int64.ofNat id)))
    (hn : store.getNode id = some n) :
    executeGqlOnStore tables store (String.ofList (d.gql label)) params =
      (.ok ⟨[⟨"r", "any"⟩, ⟨"r.edge_type", "any"⟩, ⟨"t", "any"⟩],
        ((List.replicate (n.labels.count label) (expandTargets store d.spec id)).flatten).map
          rowOf⟩, store) := by
  let ev := (readExecutor store params).eval
  let targets := (List.replicate (n.labels.count label) (expandTargets store d.spec id)).flatten
  have hsource : sourceTuples (readExecutor store params) (d.query label) =
      .ok (targets.map (d.tupleOf n)) := sourceTuples_query hwf hid hparam hn
  have hrows : returnTuples ev ⟨items⟩ (targets.map (d.tupleOf n)) =
      .ok ((targets.map (d.tupleOf n)).map (projected ev items)) := by
    have hno : items.any (hasAggregate ·.expr) = false := rfl
    rw [returnTuples, hno, if_neg Bool.false_ne_true]
    refine mapM_projectTuple_eq_ok_iff.mpr ⟨?_, rfl⟩
    intro t ht item hitem
    obtain ⟨target, -, rfl⟩ := List.mem_map.mp ht
    exact noPanic_items target item hitem
  have hall : (toQueryResult (some (items.map itemName))
      ((targets.map (d.tupleOf n)).map (projected ev items))).rows =
        (targets.map (d.tupleOf n)).map (projectedRow ev items) := toQueryResult_projected
  have hmap : (targets.map (d.tupleOf n)).map (projectedRow ev items) = targets.map rowOf := by
    rw [List.map_map]
    exact List.map_congr_left fun target _ => projectedRow_tupleOf target
  rw [hmap] at hall
  rw [executeGqlOnStore, parse_gql h hd hdir]
  show executeQueryOnStore store params (d.query label) = _
  rw [executeQueryOnStore_eq rfl rfl hsource, hrows]
  show (Except.ok (toQueryResult (some (items.map itemName)) _), store) = _
  rw [show targets.map rowOf = _ from hall.symm]
  rfl

/-- The parameter of the texts. -/
theorem pyToParams_baseId {id : ℕ} (hid : id < 2 ^ 63) :
    ∃ json, pyToParams (some [("base_id", .int id)]) = .ok json ∧
      (paramValues json).lookup "base_id" = some (.int (Int64.ofNat id)) := by
  let j : Json := .number (.ofInt64 (Int64.ofInt id))
  have hjson : pyToJson (.int id) = .ok j := by
    rw [pyToJson, if_pos]
    unfold IsI64
    omega
  have hvalue : Value.fromJson j = some (.int (Int64.ofNat id)) :=
    Value.fromJson_toJson (v := .int (Int64.ofInt id)) trivial
  refine ⟨some ((∅ : HashMap String Json).insertAll [("base_id", j)]), ?_, ?_⟩
  · show (pyToJsonEntries [("base_id", .int id)] >>= _) = _
    rw [pyToJsonEntries, hjson, pyToJsonEntries]
    rfl
  · show ((∅ : HashMap String Value).insertAll ([("base_id", j)].filterMap _)).lookup _ = _
    rw [List.filterMap_cons, hvalue]
    rfl

/-- The text of a relation from entities is an error.  That of any other is answered with a row for
each target, once for each time the labels of the node name that of the class.  The graph stays as
it is. -/
def Answered (tables : CharTables) (store : InMemoryGraphStore) (d : RelationDescriptor)
    (label : String) (n : Node) (params : Option (HashMap String Json)) : Prop :=
  let answer := executeGqlOnStore tables store (String.ofList (d.gql label)) params
  answer.2 = store ∧ if d.direction = .from_ then ∃ e, answer.1 = .error e
    else ∃ targets, LeadsTo store d n.id targets ∧
      answer.1 = .ok ⟨[⟨"r", "any"⟩, ⟨"r.edge_type", "any"⟩, ⟨"t", "any"⟩],
        (List.replicate (n.labels.count label) targets).flatten.map rowOf⟩

/-- **What the engine answers** to the text of a relation, with the id of a node as Python gives
it. -/
theorem answered_gql (h : tables.Standard) (hd : d.Writable tables label) (hwf : store.Wf)
    (hn : store.getNode id = some n) (hid : id < 2 ^ 63)
    (hparams : pyToParams (some [("base_id", .int id)]) = .ok params) :
    d.Answered tables store label n params := by
  unfold Answered
  dsimp only
  by_cases hdir : d.direction = .from_
  · obtain ⟨e, he⟩ := parse_gql_from h hd hdir
    have hanswer : executeGqlOnStore tables store (String.ofList (d.gql label)) params =
        (.error e, store) := by
      rw [executeGqlOnStore, he]
    rw [hanswer, if_pos hdir]
    exact ⟨rfl, e, rfl⟩
  · obtain ⟨json, hjson, hparam⟩ := pyToParams_baseId hid
    obtain rfl := Except.ok.inj (hparams.symm.trans hjson)
    rw [executeGqlOnStore_gql h hd hdir hwf (hid.trans (by decide)) hparam hn, if_neg hdir,
      hwf.node_id hn]
    exact ⟨rfl, _, leadsTo_expandTargets h hd hwf id, rfl⟩

end

/-- The nodes one reaches over at most three hops. -/
def reach : RelationDescriptor := ⟨["R", "S"], "REACH", "B", .to_, some 1, some 3, none⟩

theorem answered_reach : ∃ params, pyToParams (some [("base_id", .int 1)]) = .ok params ∧
    reach.Answered .ascii twoNodes "A" ⟨1, ["A"], ∅⟩ params := by
  obtain ⟨params, hparams, -⟩ := @pyToParams_baseId 1 (by decide)
  refine ⟨params, hparams, answered_gql CharTables.ascii_standard ?_ reachable_twoNodes.wf rfl
    (by decide) hparams⟩
  exact ⟨by decide, by decide, by decide, by decide⟩

end RelationDescriptor

end KuzuEventBus.Sdk.Orm
