import KuzuEventBus.Engine.SameGraph
import KuzuEventBus.Gql.OnStore
import KuzuEventBus.Gql.OrderBy
import KuzuEventBus.Gql.QueryParameters
import KuzuEventBus.Gql.WalkEnds
import KuzuEventBus.Lib.Reordering

/-!
# The order of rows

The maps of a store have no order of their own: two stores with the same graph may scan their nodes
and list their neighbours in different orders.  A read query without aggregates and without LIMIT
does not see it: its rows are the same, in another order.  Which one of several panics comes first
can differ.

## Main definitions

* `SameFault` — the same error, or two panics.
* `SameReader` — what an executor reads: stores with the same graph, or none.
* `QueryOf.OrderFree` — no aggregate, no LIMIT and ORDER BY by names only, in every `EXISTS`, too.
* `SameTable` — the same columns and the same rows, in another order.

## Main results

* `alike_evalExprWith` — evaluation ends alike on tuples that are the same map.
* `alike_readNode` — the operators keep the rows.
* `executeQueryOnStore_orderFree` — **stores with the same graph answer alike**.
-/

namespace KuzuEventBus

open Comparators InMemoryGraphStore Reordering

/-! ### Tuples -/

/-- The same error, or two panics. -/
def SameFault : Fault → Fault → Prop
  | .error e, .error e' => e = e'
  | .panic _, .panic _ => True
  | _, _ => False

theorem SameFault.refl (f : Fault) : SameFault f f := by
  cases f with
  | error e => rfl
  | panic msg => trivial

theorem SameFault.trans (f f' f'' : Fault) (h : SameFault f f') (h' : SameFault f' f'') :
    SameFault f f'' := by
  cases f <;> cases f' <;> cases f'' <;> simp_all [SameFault]

/-- Two results with related values, or the same fault. -/
abbrev SameResult {α β : Type} (R : α → β → Prop) : Except Fault α → Except Fault β → Prop :=
  Alike SameFault R

/-- The same tuples, in another order. -/
abbrev SameTuples (ts ts' : List Tuple) : Prop := Rearranged AList.SameMap ts ts'

theorem nodup_propBindings (var : String) (ps : Properties) :
    ((propBindings var ps).map Prod.fst).Nodup := by
  have hnodup := ps.nodup_toPairs_keys.map (propKey_injective var)
  rw [List.map_map] at hnodup
  rw [propBindings, List.map_map]
  exact hnodup

theorem sameMap_bindNode {t t' : Tuple} (h : t.SameMap t') (var : String) (id : NodeId)
    {ps ps' : Properties} (hps : ps.SameMap ps') :
    (bindNode t var id ps).SameMap (bindNode t' var id ps') :=
  (h.insert var (.nodeId id)).insertAll (hps.toPairs_perm.map _) (nodup_propBindings var ps)

theorem sameMap_bindEdge {t t' : Tuple} (h : t.SameMap t') (var : Option String) {e e' : Edge}
    (he : SameEdge e e') : (bindEdge t var e).SameMap (bindEdge t' var e') := by
  cases var with
  | none => exact h
  | some var =>
    simp only [bindEdge, edgeBindings, AList.insertAll_cons, he.id, he.edgeType]
    exact ((h.insert _ _).insert _ _).insertAll (he.properties.toPairs_perm.map _)
      (nodup_propBindings var e.properties)

theorem boundNode_congr {t t' : Tuple} (h : t.SameMap t') (var : String) :
    boundNode t var = boundNode t' var := by
  rw [boundNode, boundNode, h var]

/-- Well-formed stores with the same graph. -/
structure SameStores (s t : InMemoryGraphStore) : Prop where
  graph : SameGraph s t
  left : s.Wf
  right : t.Wf

theorem SameStores.answers {s t : InMemoryGraphStore} (h : SameStores s t) : SameAnswers s t :=
  h.graph.answers h.left h.right

section

variable {s t : InMemoryGraphStore}

theorem SameStores.directedNeighbors (h : SameStores s t) (id : NodeId)
    (edgeType : Option String) (direction : Direction) :
    Rearranged SameNeighbor (directedNeighbors s id edgeType direction)
      (directedNeighbors t id edgeType direction) := by
  have hout := h.answers.getNeighbors id edgeType
  have hin := h.answers.getNeighborsIncoming id edgeType
  cases direction with
  | right => exact hout
  | left => exact hin
  | both => exact Rearranged.append hout hin

theorem SameStores.allowedNeighbors (h : SameStores s t) (id : NodeId) (direction : Direction)
    (types : List String) : Rearranged SameNeighbor (allowedNeighbors s id direction types)
      (allowedNeighbors t id direction types) :=
  (h.directedNeighbors id none direction).filter fun en en' hen => by rw [hen.1.edgeType]

/-- The search goes to the same nodes. -/
theorem SameStores.mem_nextIds (h : SameStores s t) {types : List String} {direction : Direction}
    {a b : NodeId} : b ∈ nextIds s types direction a ↔ b ∈ nextIds t types direction a := by
  have hids : (nextIds s types direction a).Perm (nextIds t types direction a) :=
    (h.allowedNeighbors a direction types).map_perm fun en en' hen => hen.2.id
  exact hids.mem_iff

/-- A list of nodes of a well-formed store is read off their ids. -/
theorem filterMap_getNode (hs : s.Wf) {ns : List Node} (hns : ∀ n ∈ ns, n ∈ s.scanAll) :
    (ns.map Node.id).filterMap s.getNode = ns := by
  rw [List.filterMap_map]
  have hsome : ∀ n ∈ ns, (s.getNode ∘ Node.id) n = some n :=
    fun n hn => hs.mem_scanAll.mp (hns n hn)
  rw [List.filterMap_congr hsome, List.filterMap_some]

/-- **The search finds the same nodes**, at whatever iteration order. -/
theorem SameStores.traverse (h : SameStores s t) (startId : NodeId) (types : List String)
    (direction : Direction) (minDepth maxDepth : ℕ) :
    Rearranged SameNode (traverseVariableLength s startId types direction minDepth maxDepth)
      (traverseVariableLength t startId types direction minDepth maxDepth) := by
  have hs := mem_traverseVariableLength s startId types direction minDepth maxDepth
  have ht := mem_traverseVariableLength t startId types direction minDepth maxDepth
  have hhop : (fun x y => y ∈ nextIds s types direction x) =
      fun x y => y ∈ nextIds t types direction x := by
    funext x y
    exact propext h.mem_nextIds
  have hperm : ((traverseVariableLength s startId types direction minDepth maxDepth).map
      Node.id).Perm ((traverseVariableLength t startId types direction minDepth maxDepth).map
        Node.id) := by
    rw [List.perm_ext_iff_of_nodup hs.1 ht.1]
    intro b
    rw [hs.2, ht.2, hhop]
  have hscan : ∀ u : InMemoryGraphStore,
      ∀ n ∈ traverseVariableLength u startId types direction minDepth maxDepth, n ∈ u.scanAll :=
    fun u n hn => mem_traverseLoop (by simp) n hn
  have hnodes := AList.rel_filterMap_of_perm h.answers.getNode hperm
  rwa [filterMap_getNode h.left (hscan s), filterMap_getNode h.right (hscan t)] at hnodes

/-- The same target, over the same edge. -/
def SameTarget (p q : Option Edge × Node) : Prop :=
  Option.Rel SameEdge p.1 q.1 ∧ SameNode p.2 q.2

theorem SameStores.expandTargets (h : SameStores s t) (spec : ExpandSpec) (fromId : NodeId) :
    Rearranged SameTarget (expandTargets s spec fromId) (expandTargets t spec fromId) := by
  cases hdepth : spec.depth with
  | none =>
    simp only [KuzuEventBus.expandTargets, hdepth]
    exact (h.allowedNeighbors _ _ _).map fun en en' hen => ⟨.some hen.1, hen.2⟩
  | some depth =>
    simp only [KuzuEventBus.expandTargets, hdepth]
    have hself : ∀ u : InMemoryGraphStore, distinctTargets fromId [] (traverseVariableLength u
        fromId (unionTypes false spec.edgeType) spec.direction depth.min depth.max) =
        traverseVariableLength u fromId (unionTypes false spec.edgeType) spec.direction depth.min
          depth.max := by
      intro u
      have hu := mem_traverseVariableLength u fromId (unionTypes false spec.edgeType)
        spec.direction depth.min depth.max
      refine distinctTargets_eq_self hu.1 fun n hn => ?_
      exact ⟨((hu.2 n.id).mp (List.mem_map_of_mem hn)).1, List.not_mem_nil⟩
    rw [hself, hself]
    exact (h.traverse _ _ _ _ _).map fun n n' hn => ⟨.none, hn⟩

theorem sameMap_extendTuple {u u' : Tuple} (hu : u.SameMap u') (spec : ExpandSpec)
    {p q : Option Edge × Node} (h : SameTarget p q) :
    (extendTuple spec u p).SameMap (extendTuple spec u' q) := by
  obtain ⟨e, n⟩ := p
  obtain ⟨e', n'⟩ := q
  obtain ⟨he, hn⟩ := h
  have hid : n.id = n'.id := hn.id
  have hnode := sameMap_bindNode hu spec.toVar n'.id hn.properties
  rw [← hid] at hnode
  cases he with
  | none =>
    simp only [extendTuple, ← hid]
    exact hnode
  | some hedge =>
    simp only [extendTuple, ← hid]
    exact sameMap_bindEdge hnode spec.edgeVar hedge

theorem SameStores.expandTuple (h : SameStores s t) (spec : ExpandSpec) {u u' : Tuple}
    (hu : u.SameMap u') : SameTuples (expandTuple s spec u) (expandTuple t spec u') := by
  unfold KuzuEventBus.expandTuple
  rw [boundNode_congr hu]
  cases boundNode u' spec.fromVar with
  | none => exact .nil
  | some fromId =>
    refine ((h.expandTargets spec fromId).filter fun p q hpq => ?_).map fun p q hpq =>
      sameMap_extendTuple hu spec hpq
    rw [boundNode_congr hu, hpq.2.id]

end

/-! ### Which queries -/

/-- A variable or a property. -/
def Expr.IsName : Expr → Prop
  | .ident _ | .property _ _ => True
  | _ => False

/-- The rows of a query do not depend on the order they are computed in. -/
structure QueryOf.Unordered (query : Query) : Prop where
  noAggregate : ∀ clause ∈ query.returnClause, ∀ item ∈ clause.items, hasAggregate item.expr = false
  orderNames : ∀ clause ∈ query.orderBy, ∀ item ∈ clause.items, item.expr.IsName
  noLimit : query.limit = none

/-- Every `EXISTS` in the expression is over such a query. -/
def Expr.OrderFree (e : Expr) : Prop :=
  ∀ query, Expr.Within true (.exists query) e → query.Unordered

/-- Neither the query nor an `EXISTS` in it depends on the order of rows. -/
structure QueryOf.OrderFree (query : Query) : Prop where
  unordered : query.Unordered
  exprs : ∀ e ∈ query.exprs, e.OrderFree

/-- The operators of a plan do not depend on the order of their rows. -/
def PlanNode.Unordered : PlanNode → Prop
  | .create _ | .labelScan _ _ | .fullScan _ => True
  | .matchCreate input _ | .filter input _ | .project input _ | .expand input _ _ _ _ _ _ =>
    input.Unordered
  | .orderBy input items => input.Unordered ∧ ∀ item ∈ items, item.expr.IsName
  | .aggregate _ _ _ | .limit _ _ => False
  | .cartesianProduct left right => left.Unordered ∧ right.Unordered

/-- … and neither does an `EXISTS` in it. -/
structure PlanNode.OrderFree (node : PlanNode) : Prop where
  unordered : node.Unordered
  exprs : ∀ e ∈ node.exprs, e.OrderFree

theorem Expr.OrderFree.subquery {query : Query} (h : (Expr.exists query).OrderFree) :
    query.OrderFree :=
  ⟨h query .refl, fun _ he q hq => h q (.subquery he hq)⟩

theorem PlanNode.OfMatch.unordered {node : PlanNode} (h : node.OfMatch) : node.Unordered := by
  induction h with
  | labelScan | fullScan => trivial
  | filter _ _ ih | expand _ _ _ _ _ _ _ ih => exact ih
  | cartesianProduct _ _ ihl ihr => exact ⟨ihl, ihr⟩

section

variable {ev ev' : Eval}

/-- The two evaluations end alike on order-free expressions, and names do not panic. -/
structure SameEval (ev ev' : Eval) : Prop where
  alike : ∀ e : Expr, e.OrderFree → ∀ {t t' : Tuple}, t.SameMap t' →
    SameResult Eq (ev e t) (ev' e t')
  left : ∀ e : Expr, e.IsName → ∀ t, NoPanic (ev e t)
  right : ∀ e : Expr, e.IsName → ∀ t, NoPanic (ev' e t)

theorem sameResult_okOrNone {α : Type} {x y : Except Fault α} (h : SameResult Eq x y) :
    SameResult Eq (okOrNone x) (okOrNone y) := by
  cases h with
  | ok hab => exact .ok (congrArg some hab)
  | @error f f' hf =>
    cases f <;> cases f' <;> first | exact hf.elim | exact .ok rfl | exact .error trivial

theorem panic_of_okOrNone {α : Type} {x : Except Fault α} {f : Fault}
    (h : okOrNone x = .error f) : ∃ msg, f = .panic msg := by
  cases x with
  | ok a => cases h
  | error f' =>
    cases f' with
    | error e => cases h
    | panic msg =>
      cases h
      exact ⟨msg, rfl⟩

theorem error_of_mapM {α β ε : Type} {f : α → Except ε β} {l : List α} {e : ε}
    (h : l.mapM f = .error e) : ∃ a ∈ l, f a = .error e := by
  induction l with
  | nil => cases h
  | cons a l ih =>
    rw [List.mapM_cons] at h
    cases ha : f a with
    | error e' =>
      rw [ha] at h
      cases h
      exact ⟨a, List.mem_cons_self, ha⟩
    | ok b =>
      cases hl : l.mapM f with
      | ok bs =>
        rw [ha, hl] at h
        cases h
      | error e' =>
        rw [ha, hl] at h
        cases h
        obtain ⟨a', ha', hf⟩ := ih hl
        exact ⟨a', List.mem_cons_of_mem a ha', hf⟩

/-- The loops of the operators fail with panics only. -/
theorem sameFault_of_panics {α β : Type} {f : α → Except Fault β}
    (hf : ∀ a e, f a = .error e → ∃ msg, e = .panic msg) (a a' : α) (e e' : Fault)
    (h : f a = .error e) (h' : f a' = .error e') : SameFault e e' := by
  obtain ⟨msg, rfl⟩ := hf a e h
  obtain ⟨msg', rfl⟩ := hf a' e' h'
  trivial

theorem filterE_eq_mapM {α : Type} (test : α → Except Fault Bool) (as : List α) :
    filterE test as = (as.mapM fun a => (test a).map fun keep => if keep then some a else none).map
      (List.filterMap id) := by
  induction as with
  | nil => rfl
  | cons a as ih =>
    rw [filterE, List.mapM_cons, ih]
    cases test a with
    | error e => rfl
    | ok keep =>
      cases as.mapM fun a => (test a).map fun keep => if keep then some a else none with
      | error e => rfl
      | ok kept => cases keep <;> rfl

theorem SameEval.filter (h : SameEval ev ev') {predicate : Expr} (hpred : predicate.OrderFree)
    {ts ts' : List Tuple} (hts : SameTuples ts ts') :
    SameResult SameTuples (filterE (accepts ev predicate) ts)
      (filterE (accepts ev' predicate) ts') := by
  have haccepts : ∀ t t' : Tuple, t.SameMap t' →
      SameResult Eq (accepts ev predicate t) (accepts ev' predicate t') := by
    intro t t' ht
    refine (sameResult_okOrNone (h.alike predicate hpred ht)).bind fun v v' hv => ?_
    rw [hv]
    exact .ok rfl
  have hpanics : ∀ (t : Tuple) (e : Fault),
      (accepts ev predicate t).map (fun keep => if keep then some t else none) = .error e →
        ∃ msg, e = .panic msg := by
    intro t e he
    unfold accepts at he
    cases hv : okOrNone (ev predicate t) with
    | ok v => rw [hv] at he; cases he
    | error e' =>
      rw [hv] at he
      cases he
      exact panic_of_okOrNone hv
  rw [filterE_eq_mapM, filterE_eq_mapM]
  refine Alike.map (Rearranged.mapM SameFault.refl SameFault.trans (sameFault_of_panics hpanics) hts
    fun t t' ht => ?_) fun l l' hl => hl.filterMap fun o o' ho => ho
  refine (haccepts t t' ht).map fun keep keep' hkeep => ?_
  rw [hkeep]
  split
  · exact .some ht
  · exact .none

theorem SameEval.project (h : SameEval ev ev') {items : List ReturnItem}
    (hitems : ∀ item ∈ items, item.expr.OrderFree) {ts ts' : List Tuple}
    (hts : SameTuples ts ts') :
    SameResult SameTuples (ts.mapM (projectTuple ev items))
      (ts'.mapM (projectTuple ev' items)) := by
  have hpanics : ∀ (t : Tuple) (e : Fault), projectTuple ev items t = .error e →
      ∃ msg, e = .panic msg := by
    intro t e he
    unfold projectTuple at he
    cases hfields : items.mapM fun item => do
        let v ← okOrNone (ev item.expr t)
        pure (v.map fun v => (itemName item, v)) with
    | ok fields => rw [hfields] at he; cases he
    | error e' =>
      rw [hfields] at he
      cases he
      obtain ⟨item, -, hitem⟩ := error_of_mapM hfields
      cases hv : okOrNone (ev item.expr t) with
      | ok v => rw [hv] at hitem; cases hitem
      | error e' =>
        rw [hv] at hitem
        cases hitem
        exact panic_of_okOrNone hv
  refine Rearranged.mapM SameFault.refl SameFault.trans (sameFault_of_panics hpanics) hts
    fun t t' ht => ?_
  have hsame : List.Forall₂ (fun i j : ReturnItem => i = j ∧ i ∈ items) items items :=
    List.forall₂_same.mpr fun item hitem => ⟨rfl, hitem⟩
  refine (alike_mapM_forall₂ (S := Eq) hsame fun item item' hitem => ?_).bind
    fun fields fields' hfields => ?_
  · obtain ⟨rfl, hmem⟩ := hitem
    refine (sameResult_okOrNone (h.alike _ (hitems item hmem) ht)).bind fun v v' hv => ?_
    rw [hv]
    exact .ok rfl
  · rw [List.forall₂_eq_eq_eq] at hfields
    rw [hfields]
    exact .ok (.refl _)

/-- Sorting by names does not fail. -/
theorem sortTuples_names (hev : ∀ e : Expr, e.IsName → ∀ t, NoPanic (ev e t))
    {items : List OrderByItem} (hitems : ∀ item ∈ items, item.expr.IsName) (ts : List Tuple) :
    ∃ sorted, sortTuples ev items ts = .ok sorted ∧ sorted.Perm ts := by
  have hcompare : ∀ (items : List OrderByItem), (∀ item ∈ items, item.expr.IsName) →
      ∀ t u, ∃ o, compareTuples ev t u items = .ok o := by
    intro items
    induction items with
    | nil => exact fun _ _ _ => ⟨.eq, rfl⟩
    | cons item items ih =>
      intro hitems t u
      obtain ⟨hitem, hitems⟩ := List.forall_mem_cons.mp hitems
      rw [compareTuples, okOrNone_of_noPanic (hev _ hitem t), okOrNone_of_noPanic (hev _ hitem u)]
      simp only [bind, Except.bind]
      split
      · exact ⟨_, rfl⟩
      · exact ih hitems t u
  have hinsert : ∀ (t : Tuple) (us : List Tuple),
      ∃ out, insertTuple ev items t us = .ok out := by
    intro t us
    induction us with
    | nil => exact ⟨[t], rfl⟩
    | cons u us ih =>
      obtain ⟨o, ho⟩ := hcompare items hitems t u
      obtain ⟨out, hout⟩ := ih
      rw [insertTuple, ho]
      by_cases hgt : o = .gt
      · exact ⟨u :: out, by simp only [bind, Except.bind, if_pos hgt, hout]; rfl⟩
      · exact ⟨t :: u :: us, by simp only [bind, Except.bind, if_neg hgt]; rfl⟩
  have hsort : ∃ sorted, sortTuples ev items ts = .ok sorted := by
    induction ts with
    | nil => exact ⟨[], rfl⟩
    | cons t ts ih =>
      obtain ⟨sorted, hsorted⟩ := ih
      obtain ⟨out, hout⟩ := hinsert t sorted
      exact ⟨out, by rw [sortTuples, hsorted]; exact hout⟩
  obtain ⟨sorted, hsorted⟩ := hsort
  rw [sortTuples_eq_sortE] at hsorted
  exact ⟨sorted, by rw [sortTuples_eq_sortE]; exact hsorted, sortE_perm hsorted⟩

theorem SameEval.sort (h : SameEval ev ev') {items : List OrderByItem}
    (hitems : ∀ item ∈ items, item.expr.IsName) {ts ts' : List Tuple} (hts : SameTuples ts ts') :
    SameResult SameTuples (sortTuples ev items ts) (sortTuples ev' items ts') := by
  obtain ⟨sorted, hsorted, hperm⟩ := sortTuples_names h.left hitems ts
  obtain ⟨sorted', hsorted', hperm'⟩ := sortTuples_names h.right hitems ts'
  rw [hsorted, hsorted']
  refine .ok ?_
  show Multiset.Rel AList.SameMap (sorted : Multiset Tuple) sorted'
  rw [Multiset.coe_eq_coe.mpr hperm, Multiset.coe_eq_coe.mpr hperm']
  exact hts

end

/-! ### Evaluation -/

end KuzuEventBus
