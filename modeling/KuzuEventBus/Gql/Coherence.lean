import KuzuEventBus.Gql.Executor

/-!
# Tuple coherence

A tuple holds copies of the properties of its nodes.  The copies are right as long
as a node variable is bound once: a second binding leaves the keys of the first
node behind, and CREATE binds its nodes without copying anything.

## Main definitions

* `PlanNode.names`, `PlanNode.nodeNames` — the variables an operator tree binds.
* `PlanNode.BindsOnce` — no operator binds a node to a variable that is in use.
* `TupleInv store names nodeNames t` — the copies in `t` are right, and every key of
  `t` belongs to a variable bound in `t`.
* `Extends store store'` — `store'` holds the nodes of `store`.

## Main results

* `executeNode_tupleInv` — the invariant along every operator.
* `executeNode_coherent` — **where every operator binds fresh variables, tuples are coherent**.
-/

namespace KuzuEventBus

open InMemoryGraphStore (twoNodes)

/-! ### The variables of a plan -/

/-- The variables the patterns of a CREATE bind. -/
def createNames : List Pattern → List String
  | [] => []
  | .node node :: rest => node.var.toList ++ createNames rest
  | .edge edge :: rest => edge.var.toList ++ createNames rest

/-- The variables the node patterns of a CREATE bind. -/
def createNodeNames : List Pattern → List String
  | [] => []
  | .node node :: rest => node.var.toList ++ createNodeNames rest
  | .edge _ :: rest => createNodeNames rest

/-- The variables the operators of a tree bind, to nodes or to edges. -/
def PlanNode.names : PlanNode → List String
  | .labelScan var _ | .fullScan var => [var]
  | .create patterns => createNames patterns
  | .matchCreate input patterns => createNames patterns ++ input.names
  | .filter input _ | .project input _ | .orderBy input _ | .aggregate input _ _
  | .limit input _ => input.names
  | .expand input _ edgeVar toVar _ _ _ => toVar :: (edgeVar.toList ++ input.names)
  | .cartesianProduct left right => left.names ++ right.names

/-- The variables the operators of a tree bind to nodes. -/
def PlanNode.nodeNames : PlanNode → List String
  | .labelScan var _ | .fullScan var => [var]
  | .create patterns => createNodeNames patterns
  | .matchCreate input patterns => createNodeNames patterns ++ input.nodeNames
  | .filter input _ | .project input _ | .orderBy input _ | .aggregate input _ _
  | .limit input _ => input.nodeNames
  | .expand input _ _ toVar _ _ _ => toVar :: input.nodeNames
  | .cartesianProduct left right => left.nodeNames ++ right.nodeNames

/-- The plan consists of LabelScan, FullScan, Filter, Expand, CartesianProduct, Create
and MatchCreate. -/
def PlanNode.bindsOnly : PlanNode → Bool
  | .labelScan _ _ | .fullScan _ | .create _ => true
  | .matchCreate input _ | .filter input _ | .expand input _ _ _ _ _ _ => input.bindsOnly
  | .cartesianProduct left right => left.bindsOnly && right.bindsOnly
  | .project _ _ | .orderBy _ _ | .aggregate _ _ _ | .limit _ _ => false

/-- A named node of a CREATE has no inline properties and binds a variable that is not in `used`. -/
def CreatesFresh (used : List String) (patterns : List Pattern) : Prop :=
  ∀ node, .node node ∈ patterns → ∀ var ∈ node.var, node.properties = ∅ ∧ var ∉ used

/-- No operator binds a node to a variable that its input, or the other side of a
product, has bound, and no named node of a CREATE has inline properties. -/
def PlanNode.BindsOnce : PlanNode → Prop
  | .labelScan _ _ | .fullScan _ => True
  | .create patterns => CreatesFresh [] patterns
  | .matchCreate input patterns => input.BindsOnce ∧ CreatesFresh input.names patterns
  | .filter input _ | .project input _ | .orderBy input _ | .aggregate input _ _
  | .limit input _ => input.BindsOnce
  | .expand input _ _ toVar _ _ _ => input.BindsOnce ∧ toVar ∉ input.names
  | .cartesianProduct left right =>
    left.BindsOnce ∧ right.BindsOnce ∧ ∀ var ∈ right.nodeNames, var ∉ left.names

/-- No name is a property key of another one. -/
def Separated (names : List String) : Prop :=
  ∀ v ∈ names, ∀ w ∈ names, ∀ k, w ≠ propKey v k

theorem Separated.mono {names names' : List String} (h : Separated names)
    (hsub : names' ⊆ names) : Separated names' :=
  fun v hv w hw k => h v (hsub hv) w (hsub hw) k

/-- Among separated names a property key has one variable. -/
theorem Separated.propKey_inj {names : List String} (h : Separated names) {v w k k' : String}
    (hv : v ∈ names) (hw : w ∈ names) (heq : propKey v k = propKey w k') : v = w := by
  rcases propKey_eq_propKey heq with hvw | ⟨key, hkey⟩ | ⟨key, hkey⟩
  · exact hvw
  · exact absurd hkey (h v hv w hw key)
  · exact absurd hkey (h w hw v hv key)

/-! ### The invariant -/

/-- `store'` holds the nodes of `store`, with their properties. -/
def Extends (store store' : InMemoryGraphStore) : Prop :=
  ∀ id node, store.getNode id = some node → store'.getNode id = some node

theorem Extends.refl (store : InMemoryGraphStore) : Extends store store := fun _ _ h => h

theorem Extends.trans {s₁ s₂ s₃ : InMemoryGraphStore} (h : Extends s₁ s₂) (h' : Extends s₂ s₃) :
    Extends s₁ s₃ := fun id node hn => h' id node (h id node hn)

/-- The invariant of the tuples of a plan that binds `names`, and `nodeNames` to nodes. -/
structure TupleInv (store : InMemoryGraphStore) (names nodeNames : List String) (t : Tuple) :
    Prop where
  /-- A variable bound to a node goes with the properties of that node. -/
  coherent : ∀ v ∈ names, ∀ id, t.lookup v = some (.nodeId id) → v ∈ nodeNames ∧
    ∃ node, store.getNode id = some node ∧
      ∀ k, t.lookup (propKey v k) = node.properties.lookup k
  /-- A key is a variable that is bound, or a property key of one. -/
  owned : ∀ key x, t.lookup key = some x →
    ∃ v ∈ names, (t.lookup v).isSome ∧ (key = v ∨ ∃ k, key = propKey v k)

variable {store store' : InMemoryGraphStore} {names nodeNames all : List String} {t : Tuple}

theorem TupleInv.extends (h : TupleInv store names nodeNames t) (hext : Extends store store') :
    TupleInv store' names nodeNames t where
  coherent := by
    intro v hv id hid
    obtain ⟨hnode, node, hget, hprops⟩ := h.coherent v hv id hid
    exact ⟨hnode, node, hext id node hget, hprops⟩
  owned := h.owned

theorem tupleInv_empty : TupleInv store [] [] ∅ where
  coherent := by simp
  owned := by simp

/-- A variable that is not bound has no property keys. -/
theorem TupleInv.lookup_propKey_eq_none (h : TupleInv store names nodeNames t)
    (hsep : Separated all) (hsub : names ⊆ all) {v : String} (hv : v ∈ all)
    (hnone : t.lookup v = none) (k : String) : t.lookup (propKey v k) = none := by
  cases hx : t.lookup (propKey v k) with
  | none => rfl
  | some x =>
    obtain ⟨w, hw, hbound, hkey | ⟨k', hkey⟩⟩ := h.owned _ _ hx
    · exact absurd hkey.symm (hsep v hv w (hsub hw) k)
    · have hvw := hsep.propKey_inj hv (hsub hw) hkey
      rw [← hvw, hnone] at hbound
      simp at hbound

/-- A variable outside `names` is not bound. -/
theorem TupleInv.lookup_eq_none (h : TupleInv store names nodeNames t) (hsep : Separated all)
    (hsub : names ⊆ all) {v : String} (hv : v ∈ all) (hfresh : v ∉ names) :
    t.lookup v = none := by
  cases hx : t.lookup v with
  | none => rfl
  | some x =>
    obtain ⟨w, hw, -, hkey | ⟨k, hkey⟩⟩ := h.owned _ _ hx
    · exact absurd (hkey ▸ hw) hfresh
    · exact absurd hkey (hsep w (hsub hw) v hv k)

/-- Binding a fresh variable to a node of the store keeps the invariant. -/
theorem TupleInv.bindNode (h : TupleInv store names nodeNames t) (hsep : Separated all)
    (hsub : names ⊆ all) {v : String} (hv : v ∈ all) (hfresh : v ∉ names) {node : Node}
    (hnode : store.getNode node.id = some node) :
    TupleInv store (v :: names) (v :: nodeNames) (bindNode t v node.id node.properties) where
  coherent := by
    intro w hw id hid
    by_cases hwv : w = v
    · subst hwv
      rw [lookup_bindNode_self] at hid
      cases hid
      refine ⟨List.mem_cons_self, node, hnode, fun k => ?_⟩
      have hnone := h.lookup_eq_none hsep hsub hv hfresh
      rw [lookup_bindNode_propKey, h.lookup_propKey_eq_none hsep hsub hv hnone, Option.or_none]
    · have hw' : w ∈ names := (List.mem_cons.mp hw).resolve_left hwv
      have hwall : w ∈ all := hsub hw'
      rw [lookup_bindNode_of_ne hwv fun k => hsep v hv w hwall k] at hid
      obtain ⟨hn, node', hget, hprops⟩ := h.coherent w hw' id hid
      refine ⟨List.mem_cons_of_mem _ hn, node', hget, fun k => ?_⟩
      rw [lookup_bindNode_of_ne (fun heq => hsep w hwall v hv k heq.symm)
        fun k' heq => hwv (hsep.propKey_inj hwall hv heq), hprops]
  owned := by
    intro key x hx
    by_cases hkv : key = v
    · exact ⟨v, List.mem_cons_self, by rw [lookup_bindNode_self]; rfl, .inl hkv⟩
    · by_cases hprop : ∃ k, key = propKey v k
      · exact ⟨v, List.mem_cons_self, by rw [lookup_bindNode_self]; rfl, .inr hprop⟩
      · rw [lookup_bindNode_of_ne hkv fun k hk => hprop ⟨k, hk⟩] at hx
        obtain ⟨w, hw, hbound, hkey⟩ := h.owned key x hx
        have hwv : w ≠ v := by rintro rfl; exact hfresh hw
        refine ⟨w, List.mem_cons_of_mem _ hw, ?_, hkey⟩
        rw [lookup_bindNode_of_ne hwv fun k => hsep v hv w (hsub hw) k]
        exact hbound

/-- Binding an edge keeps the invariant. -/
theorem TupleInv.bindEdge (h : TupleInv store names nodeNames t) (hsep : Separated all)
    (hsub : names ⊆ all) {var : Option String} (hvar : ∀ v ∈ var, v ∈ all) (edge : Edge) :
    TupleInv store (var.toList ++ names) nodeNames (bindEdge t var edge) := by
  cases var with
  | none => exact h
  | some v =>
    have hv : v ∈ all := hvar v rfl
    change TupleInv store (v :: names) nodeNames (t.insertAll (edgeBindings v edge))
    constructor
    · intro w hw id hid
      by_cases hwv : w = v
      · rw [hwv, lookup_insertAll_edgeBindings_self] at hid
        simp at hid
      · have hw' : w ∈ names := (List.mem_cons.mp hw).resolve_left hwv
        have hwall : w ∈ all := hsub hw'
        rw [lookup_insertAll_edgeBindings_of_ne hwv fun k => hsep v hv w hwall k] at hid
        obtain ⟨hn, node, hget, hprops⟩ := h.coherent w hw' id hid
        refine ⟨hn, node, hget, fun k => ?_⟩
        rw [lookup_insertAll_edgeBindings_of_ne (fun heq => hsep w hwall v hv k heq.symm)
          fun k' heq => hwv (hsep.propKey_inj hwall hv heq), hprops]
    · intro key x hx
      by_cases hkey : key = v ∨ ∃ k, key = propKey v k
      · exact ⟨v, List.mem_cons_self, by rw [lookup_insertAll_edgeBindings_self]; rfl, hkey⟩
      · rw [not_or] at hkey
        rw [lookup_insertAll_edgeBindings_of_ne hkey.1 fun k hk => hkey.2 ⟨k, hk⟩] at hx
        obtain ⟨w, hw, hbound, hown⟩ := h.owned key x hx
        refine ⟨w, List.mem_cons_of_mem _ hw, ?_, hown⟩
        by_cases hwv : w = v
        · rw [hwv, lookup_insertAll_edgeBindings_self]; rfl
        · rw [lookup_insertAll_edgeBindings_of_ne hwv fun k => hsep v hv w (hsub hw) k]
          exact hbound

/-- Merging tuples whose node variables are apart keeps the invariant. -/
theorem TupleInv.merge {names' nodeNames' : List String} {t' : Tuple}
    (h : TupleInv store names nodeNames t) (h' : TupleInv store names' nodeNames' t')
    (hsep : Separated all) (hsub : names ⊆ all) (hsub' : names' ⊆ all)
    (hapart : ∀ v ∈ nodeNames', v ∉ names) :
    TupleInv store (names ++ names') (nodeNames ++ nodeNames') (t.insertAll t'.toPairs) where
  coherent := by
    intro v hv id hid
    have hvall : v ∈ all := by
      rcases List.mem_append.mp hv with h | h
      · exact hsub h
      · exact hsub' h
    rw [AList.lookup_insertAll_toPairs] at hid
    cases hr : t'.lookup v with
    | some x =>
      -- the right tuple binds `v`, so the left one has no key of it
      rw [hr, Option.some_or, Option.some.injEq] at hid
      have hv' : v ∈ names' := by
        by_contra hout
        rw [h'.lookup_eq_none hsep hsub' hvall hout] at hr
        simp at hr
      obtain ⟨hn, node, hget, hprops⟩ := h'.coherent v hv' id (hr.trans (congrArg some hid))
      have hleft : t.lookup v = none := h.lookup_eq_none hsep hsub hvall (hapart v hn)
      refine ⟨List.mem_append_right _ hn, node, hget, fun k => ?_⟩
      rw [AList.lookup_insertAll_toPairs, h.lookup_propKey_eq_none hsep hsub hvall hleft,
        Option.or_none, hprops]
    | none =>
      rw [hr, Option.none_or] at hid
      have hv' : v ∈ names := by
        by_contra hout
        rw [h.lookup_eq_none hsep hsub hvall hout] at hid
        simp at hid
      obtain ⟨hn, node, hget, hprops⟩ := h.coherent v hv' id hid
      refine ⟨List.mem_append_left _ hn, node, hget, fun k => ?_⟩
      rw [AList.lookup_insertAll_toPairs, h'.lookup_propKey_eq_none hsep hsub' hvall hr,
        Option.none_or, hprops]
  owned := by
    intro key x hx
    rw [AList.lookup_insertAll_toPairs, Option.or_eq_some_iff] at hx
    rcases hx with hx | ⟨-, hx⟩
    · obtain ⟨v, hv, hbound, hkey⟩ := h'.owned key x hx
      refine ⟨v, List.mem_append_right _ hv, ?_, hkey⟩
      rw [AList.lookup_insertAll_toPairs, Option.isSome_or, hbound, Bool.true_or]
    · obtain ⟨v, hv, hbound, hkey⟩ := h.owned key x hx
      refine ⟨v, List.mem_append_left _ hv, ?_, hkey⟩
      rw [AList.lookup_insertAll_toPairs, Option.isSome_or, hbound, Bool.or_true]

/-- The invariant for more variables, which are then not bound. -/
theorem TupleInv.mono {names' nodeNames' : List String} (h : TupleInv store names nodeNames t)
    (hsep : Separated all) (hsub : names ⊆ names') (hsub' : names' ⊆ all)
    (hnodes : nodeNames ⊆ nodeNames') : TupleInv store names' nodeNames' t where
  coherent := by
    intro v hv id hid
    have hv' : v ∈ names := by
      by_contra hout
      rw [h.lookup_eq_none hsep (List.Subset.trans hsub hsub') (hsub' hv) hout] at hid
      simp at hid
    obtain ⟨hn, node, hget, hprops⟩ := h.coherent v hv' id hid
    exact ⟨hnodes hn, node, hget, hprops⟩
  owned := by
    intro key x hx
    obtain ⟨v, hv, hbound, hkey⟩ := h.owned key x hx
    exact ⟨v, hsub hv, hbound, hkey⟩

/-! ### Scans and Expand -/

/-- A scan for an empty parent tuple. -/
theorem tupleInv_scan (hsep : Separated all) {var : String} (hv : var ∈ all)
    {keep : Node → Bool} {nodes : InMemoryGraphStore → List Node}
    (hnodes : ∀ n ∈ nodes store, store.getNode n.id = some n) :
    ∀ t ∈ scanTuples (some store) var ∅ keep nodes, TupleInv store [var] [var] t := by
  intro t ht
  change t ∈ (nodes store).map _ at ht
  obtain ⟨n, hn, rfl⟩ := List.mem_map.mp ht
  exact tupleInv_empty.bindNode hsep (by simp) hv (by simp) (hnodes n hn)

/-- Expand binds a fresh end variable. -/
theorem tupleInv_expand (hwf : store.Wf) (hsep : Separated all) (hsub : names ⊆ all)
    {spec : ExpandSpec} (hto : spec.toVar ∈ all) (hedge : ∀ v ∈ spec.edgeVar, v ∈ all)
    (hfresh : spec.toVar ∉ names) (h : TupleInv store names nodeNames t) :
    ∀ t' ∈ expandTuple store spec t,
      TupleInv store (spec.toVar :: (spec.edgeVar.toList ++ names)) (spec.toVar :: nodeNames)
        t' := by
  intro t' ht'
  have hall : spec.toVar :: (spec.edgeVar.toList ++ names) ⊆ all := by
    intro v hv
    rcases List.mem_cons.mp hv with rfl | hv
    · exact hto
    · rcases List.mem_append.mp hv with hv | hv
      · exact hedge v (Option.mem_toList.mp hv)
      · exact hsub hv
  have hcons : spec.toVar :: names ⊆ all := List.cons_subset.mpr ⟨hto, hsub⟩
  unfold expandTuple at ht'
  split at ht'
  · simp at ht'
  · obtain ⟨target, htarget, rfl⟩ := List.mem_map.mp ht'
    have hnode := mem_scanAll_of_mem_expandTargets (List.mem_filter.mp htarget).1
    have hbind := h.bindNode hsep hsub hto hfresh (hwf.mem_scanAll.mp hnode)
    unfold extendTuple
    split
    · next edge _ =>
      refine (hbind.bindEdge hsep hcons hedge edge).mono hsep ?_ hall (List.Subset.refl _)
      intro v hv
      simp only [List.mem_append, List.mem_cons] at hv ⊢
      tauto
    · refine hbind.mono hsep ?_ hall (List.Subset.refl _)
      exact List.cons_subset_cons _ (List.subset_append_right _ _)

/-! ### CREATE -/

/-- What the patterns of a CREATE have made of the parent tuple so far: keys that no
pattern binds are as they were, and a variable bound to a node is bound as before or
to a node created without properties. -/
structure CreateInv (store : InMemoryGraphStore) (patterns : List Pattern) (parent result : Tuple) :
    Prop where
  frame : ∀ key, key ∉ createNames patterns → result.lookup key = parent.lookup key
  bound : ∀ key, (parent.lookup key).isSome → (result.lookup key).isSome
  nodes : ∀ v id, result.lookup v = some (.nodeId id) →
    parent.lookup v = some (.nodeId id) ∨ (∃ pattern : NodePattern,
      .node pattern ∈ patterns ∧ pattern.var = some v ∧
      ∃ node, store.getNode id = some node ∧ node.properties =
        literalProperties pattern.properties)

theorem mem_createNames_of_node {patterns : List Pattern} {node : NodePattern} {v : String}
    (h : .node node ∈ patterns) (hv : node.var = some v) : v ∈ createNames patterns := by
  induction patterns with
  | nil => simp at h
  | cons p ps ih =>
    rcases List.mem_cons.mp h with rfl | hmem
    · simp [createNames, hv]
    · cases p <;> exact List.mem_append_right _ (ih hmem)

theorem mem_createNodeNames {patterns : List Pattern} {node : NodePattern} {v : String}
    (h : .node node ∈ patterns) (hv : node.var = some v) : v ∈ createNodeNames patterns := by
  induction patterns with
  | nil => simp at h
  | cons p ps ih =>
    rcases List.mem_cons.mp h with rfl | hmem
    · simp [createNodeNames, hv]
    · cases p with
      | node n => exact List.mem_append_right _ (ih hmem)
      | edge e => exact ih hmem

theorem mem_createNames_of_edge {patterns : List Pattern} {edge : EdgePattern} {v : String}
    (h : .edge edge ∈ patterns) (hv : edge.var = some v) : v ∈ createNames patterns := by
  induction patterns with
  | nil => simp at h
  | cons p ps ih =>
    rcases List.mem_cons.mp h with rfl | hmem
    · simp [createNames, hv]
    · cases p <;> exact List.mem_append_right _ (ih hmem)

/-- Binding a variable of the patterns keeps what a CREATE keeps. -/
theorem CreateInv.insert {patterns : List Pattern} {parent result : Tuple}
    (h : CreateInv store patterns parent result) {v : String} {x : Value}
    (hv : v ∈ createNames patterns)
    (hx : ∀ id, x = .nodeId id → ∃ pattern : NodePattern, .node pattern ∈ patterns ∧
      pattern.var = some v ∧ ∃ node, store.getNode id = some node ∧
        node.properties = literalProperties pattern.properties) :
    CreateInv store patterns parent (result.insert v x) where
  frame := by
    intro key hkey
    have hne : key ≠ v := by rintro rfl; exact hkey hv
    rw [AList.lookup_insert_ne hne, h.frame key hkey]
  bound := by
    intro key hkey
    rw [AList.lookup_insert_eq]
    split
    · rfl
    · exact h.bound key hkey
  nodes := by
    intro w id hid
    rw [AList.lookup_insert_eq] at hid
    split at hid
    · next heq => rw [heq]; exact .inr (hx id (Option.some.inj hid))
    · exact h.nodes w id hid

theorem CreateInv.extends {patterns : List Pattern} {parent result : Tuple}
    (h : CreateInv store patterns parent result) (hext : Extends store store') :
    CreateInv store' patterns parent result where
  frame := h.frame
  bound := h.bound
  nodes := by
    intro v id hid
    rcases h.nodes v id hid with hold | ⟨pattern, hmem, hvar, node, hget, hprops⟩
    · exact .inl hold
    · exact .inr ⟨pattern, hmem, hvar, node, hext id node hget, hprops⟩

theorem extends_addNode (hwf : store.Wf) {labels : List String} {ps : Properties} {id : NodeId}
    (h : store.addNode labels ps = .ok (id, store')) : Extends store store' ∧
      store'.getNode id = some ⟨id, labels, ps⟩ := by
  obtain ⟨rfl, -, rfl⟩ := InMemoryGraphStore.addNode_eq_ok h
  constructor
  · intro id node hn
    have hne : id ≠ store.nextNodeId := (hwf.node_lt hn).ne
    exact (AList.lookup_insert_ne hne).trans hn
  · exact AList.lookup_insert _

theorem extends_addEdge {a b : NodeId} {edgeType : String} {ps : Properties} {id : EdgeId}
    (h : store.addEdge a b edgeType ps = .ok (id, store')) : Extends store store' := by
  obtain ⟨-, -, rfl⟩ := InMemoryGraphStore.addEdge_eq_ok h
  exact Extends.refl store

/-- One pattern of a CREATE. -/
theorem createPattern_inv {patterns : List Pattern} {parent : Tuple} {st st' : CreateState}
    {p : Pattern} {write' : Option InMemoryGraphStore} (hp : p ∈ patterns) (hwf : store.Wf)
    (h : CreateInv store patterns parent st.resultTuple)
    (hrun : runExec (createPattern parent st p) (some store) = (.ok st', write')) :
    ∃ store', write' = some store' ∧ store'.Wf ∧ Extends store store' ∧
      CreateInv store' patterns parent st'.resultTuple := by
  cases p with
  | node node =>
    obtain ⟨id, write₁, hwrite, hrest⟩ := runExec_bind_eq_ok hrun
    obtain ⟨store₁, hadd, rfl⟩ := runExec_writeStore_eq_ok hwrite
    obtain ⟨hext, hget⟩ := extends_addNode hwf hadd
    cases hvar : node.var with
    | none =>
      simp only [hvar, runExec_pure, Prod.mk.injEq, Except.ok.injEq] at hrest
      obtain ⟨rfl, rfl⟩ := hrest
      exact ⟨store₁, rfl, hwf.addNode hadd, hext, h.extends hext⟩
    | some v =>
      simp only [hvar, runExec_pure, Prod.mk.injEq, Except.ok.injEq] at hrest
      obtain ⟨rfl, rfl⟩ := hrest
      refine ⟨store₁, rfl, hwf.addNode hadd, hext, (h.extends hext).insert
        (mem_createNames_of_node hp hvar) ?_⟩
      rintro id' ⟨⟩
      exact ⟨node, hp, hvar, _, hget, rfl⟩
  | edge edge =>
    obtain ⟨fromId, write₁, hfrom, hrest⟩ := runExec_bind_eq_ok hrun
    simp only [runExec_readOnly, Prod.mk.injEq] at hfrom
    obtain ⟨-, rfl⟩ := hfrom
    obtain ⟨toId, write₂, hto, hrest⟩ := runExec_bind_eq_ok hrest
    simp only [runExec_readOnly, Prod.mk.injEq] at hto
    obtain ⟨-, rfl⟩ := hto
    cases htype : edge.edgeType with
    | none => simp [htype] at hrest
    | some edgeType =>
      simp only [htype] at hrest
      obtain ⟨id, write₃, hwrite, hrest⟩ := runExec_bind_eq_ok hrest
      obtain ⟨store₁, hadd, rfl⟩ := runExec_writeStore_eq_ok hwrite
      have hext := extends_addEdge hadd
      cases hvar : edge.var with
      | none =>
        simp only [hvar, runExec_pure, Prod.mk.injEq, Except.ok.injEq] at hrest
        obtain ⟨rfl, rfl⟩ := hrest
        exact ⟨store₁, rfl, hwf.addEdge hadd, hext, h.extends hext⟩
      | some v =>
        simp only [hvar, runExec_pure, Prod.mk.injEq, Except.ok.injEq] at hrest
        obtain ⟨rfl, rfl⟩ := hrest
        refine ⟨store₁, rfl, hwf.addEdge hadd, hext, (h.extends hext).insert
          (mem_createNames_of_edge hp hvar) ?_⟩
        intro id' heq
        simp at heq

theorem foldlM_createPattern_inv {patterns : List Pattern} {parent : Tuple} {ps : List Pattern} :
    ∀ {store : InMemoryGraphStore} {st st' : CreateState} {write' : Option InMemoryGraphStore},
      ps ⊆ patterns → store.Wf → CreateInv store patterns parent st.resultTuple →
      runExec (ps.foldlM (createPattern parent) st) (some store) = (.ok st', write') →
      ∃ store', write' = some store' ∧ store'.Wf ∧ Extends store store' ∧
        CreateInv store' patterns parent st'.resultTuple := by
  induction ps with
  | nil =>
    intro store st st' write' _ hwf h hrun
    simp only [List.foldlM_nil, runExec_pure, Prod.mk.injEq, Except.ok.injEq] at hrun
    obtain ⟨rfl, rfl⟩ := hrun
    exact ⟨store, rfl, hwf, Extends.refl store, h⟩
  | cons p ps ih =>
    intro store st st' write' hsub hwf h hrun
    rw [List.foldlM_cons] at hrun
    obtain ⟨st₁, write₁, hp, hrest⟩ := runExec_bind_eq_ok hrun
    obtain ⟨hmem, hsub⟩ := List.cons_subset.mp hsub
    obtain ⟨store₁, rfl, hwf₁, hext₁, h₁⟩ := createPattern_inv hmem hwf h hp
    obtain ⟨store₂, rfl, hwf₂, hext₂, h₂⟩ := ih hsub hwf₁ h₁ hrest
    exact ⟨store₂, rfl, hwf₂, hext₁.trans hext₂, h₂⟩

/-- CREATE binds fresh variables to nodes without properties. -/
theorem executeCreate_inv {patterns : List Pattern} {parent : Tuple} {ts : List Tuple}
    {write' : Option InMemoryGraphStore} (hwf : store.Wf) (hsep : Separated all)
    (hsub : createNames patterns ++ names ⊆ all) (hfresh : CreatesFresh names patterns)
    (h : TupleInv store names nodeNames parent)
    (hrun : runExec (executeCreate patterns parent) (some store) = (.ok ts, write')) :
    ∃ store', write' = some store' ∧ store'.Wf ∧ Extends store store' ∧ ∀ t ∈ ts,
      TupleInv store' (createNames patterns ++ names) (createNodeNames patterns ++ nodeNames)
        t := by
  obtain ⟨hcreate, hnames⟩ := List.append_subset.mp hsub
  have hstart : CreateInv store patterns parent parent :=
    ⟨fun _ _ => rfl, fun _ hb => hb, fun _ _ hid => .inl hid⟩
  obtain ⟨st, write₁, hfold, hrest⟩ := runExec_bind_eq_ok (show runExec
    (patterns.foldlM (createPattern parent) ⟨∅, parent⟩ >>= fun st => pure [st.resultTuple])
      (some store) = (.ok ts, write') from hrun)
  obtain ⟨store', rfl, hwf', hext, hinv⟩ :=
    foldlM_createPattern_inv (List.Subset.refl _) hwf hstart hfold
  simp only [runExec_pure, Prod.mk.injEq, Except.ok.injEq] at hrest
  obtain ⟨rfl, rfl⟩ := hrest
  refine ⟨store', rfl, hwf', hext, fun t ht => ?_⟩
  rw [List.mem_singleton] at ht
  subst ht
  -- property keys are no variables, so CREATE leaves them alone
  have hkeys : ∀ v ∈ all, ∀ k, st.resultTuple.lookup (propKey v k) =
      parent.lookup (propKey v k) := fun v hv k =>
    hinv.frame _ fun hmem => hsep v hv _ (hcreate hmem) k rfl
  constructor
  · intro v hv id hid
    have hvall := hsub hv
    rcases hinv.nodes v id hid with hold | ⟨pattern, hmem, hvar, node, hget, hprops⟩
    · have hv' : v ∈ names := by
        by_contra hout
        rw [h.lookup_eq_none hsep hnames hvall hout] at hold
        simp at hold
      obtain ⟨hn, node, hget, hprops⟩ := h.coherent v hv' id hold
      exact ⟨List.mem_append_right _ hn, node, hext id node hget,
        fun k => (hkeys v hvall k).trans (hprops k)⟩
    · obtain ⟨hempty, hnew⟩ := hfresh pattern hmem v hvar
      refine ⟨List.mem_append_left _ (mem_createNodeNames hmem hvar), node, hget, fun k => ?_⟩
      have hnone := h.lookup_eq_none hsep hnames hvall hnew
      rw [hkeys v hvall k, h.lookup_propKey_eq_none hsep hnames hvall hnone, hprops, hempty]
      rfl
  · intro key x hx
    by_cases hkey : key ∈ createNames patterns
    · exact ⟨key, List.mem_append_left _ hkey, by rw [hx]; rfl, .inl rfl⟩
    · rw [hinv.frame key hkey] at hx
      obtain ⟨v, hv, hbound, hown⟩ := h.owned key x hx
      exact ⟨v, List.mem_append_right _ hv, hinv.bound v hbound, hown⟩

/-- CREATE for each tuple of a list; the tuples made first stay right while the store grows. -/
theorem mapM_executeCreate_inv {patterns : List Pattern} (hsep : Separated all)
    (hsub : createNames patterns ++ names ⊆ all) (hfresh : CreatesFresh names patterns)
    {parents : List Tuple} : ∀ {store : InMemoryGraphStore} {tss : List (List Tuple)}
      {write' : Option InMemoryGraphStore}, store.Wf →
      (∀ t ∈ parents, TupleInv store names nodeNames t) →
      runExec (parents.mapM (executeCreate patterns)) (some store) = (.ok tss, write') →
      ∃ store', write' = some store' ∧ store'.Wf ∧ Extends store store' ∧ ∀ t ∈ tss.flatten,
        TupleInv store' (createNames patterns ++ names) (createNodeNames patterns ++ nodeNames)
          t := by
  induction parents with
  | nil =>
    intro store tss write' hwf _ hrun
    simp only [List.mapM_nil, runExec_pure, Prod.mk.injEq, Except.ok.injEq] at hrun
    obtain ⟨rfl, rfl⟩ := hrun
    exact ⟨store, rfl, hwf, Extends.refl store, by simp⟩
  | cons parent parents ih =>
    intro store tss write' hwf h hrun
    rw [List.mapM_cons] at hrun
    obtain ⟨ts, write₁, hcreate, hrest⟩ := runExec_bind_eq_ok hrun
    obtain ⟨rest, write₂, hparents, hrest⟩ := runExec_bind_eq_ok hrest
    simp only [runExec_pure, Prod.mk.injEq, Except.ok.injEq] at hrest
    obtain ⟨rfl, rfl⟩ := hrest
    obtain ⟨store₁, rfl, hwf₁, hext₁, hinv₁⟩ :=
      executeCreate_inv hwf hsep hsub hfresh (h parent List.mem_cons_self) hcreate
    obtain ⟨store₂, rfl, hwf₂, hext₂, hinv₂⟩ :=
      ih hwf₁ (fun t ht => (h t (List.mem_cons_of_mem _ ht)).extends hext₁) hparents
    refine ⟨store₂, rfl, hwf₂, hext₁.trans hext₂, fun t ht => ?_⟩
    rw [List.flatten_cons, List.mem_append] at ht
    rcases ht with ht | ht
    · exact (hinv₁ t ht).extends hext₂
    · exact hinv₂ t ht

/-! ### Plans -/

/-- The executor works on one store: it reads it, or it has it as its write handle. -/
def WorksOn (ex : Executor) (write : Option InMemoryGraphStore) (store : InMemoryGraphStore) :
    Prop :=
  (ex.read = some store ∧ write = none) ∨ (ex.read = none ∧ write = some store)

theorem WorksOn.reader {ex : Executor} {write : Option InMemoryGraphStore}
    (h : WorksOn ex write store) : ex.reader write = some store := by
  rcases h with ⟨hr, hw⟩ | ⟨hr, hw⟩ <;> simp [Executor.reader, hr, hw]

/-- A write handle that is there is the store. -/
theorem WorksOn.write_eq {ex : Executor} {w : InMemoryGraphStore}
    (h : WorksOn ex (some w) store) : ex.read = none ∧ w = store := by
  rcases h with ⟨-, hw⟩ | ⟨hr, hw⟩
  · simp at hw
  · exact ⟨hr, Option.some.inj hw⟩

/-- What a run of a plan on `store` ends in: a store that extends it, and tuples that
keep the invariant. -/
def RunInv (ex : Executor) (store : InMemoryGraphStore) (node : PlanNode)
    (tuples : List Tuple) (write' : Option InMemoryGraphStore) : Prop :=
  ∃ store', WorksOn ex write' store' ∧ store'.Wf ∧ Extends store store' ∧
    ∀ t ∈ tuples, TupleInv store' node.names node.nodeNames t

/-- **Every operator keeps the invariant of its tuples.** -/
theorem executeNode_tupleInv {ev : Executor → Tuple → Option InMemoryGraphStore → Expr →
      Except Fault Value} {ex : Executor} (hsep : Separated all) {node : PlanNode}
    (honly : node.bindsOnly) (honce : node.BindsOnce) (hsub : node.names ⊆ all) :
    ∀ {store : InMemoryGraphStore} {write write' : Option InMemoryGraphStore}
      {tuples : List Tuple}, store.Wf → WorksOn ex write store →
      runExec (executeNodeWith ev ex ∅ node) write = (.ok tuples, write') →
      RunInv ex store node tuples write' := by
  induction node with
  | project | orderBy | aggregate | limit => simp [PlanNode.bindsOnly] at honly
  | labelScan var label =>
    intro store write write' tuples hwf hon hrun
    simp only [executeNodeWith, runExec_readOnly, hon.reader, Prod.mk.injEq, Except.ok.injEq]
      at hrun
    obtain ⟨rfl, rfl⟩ := hrun
    refine ⟨store, hon, hwf, Extends.refl store,
      tupleInv_scan hsep (hsub List.mem_cons_self) fun n hn => ?_⟩
    exact (hwf.mem_scanByLabel.mp hn).1
  | fullScan var =>
    intro store write write' tuples hwf hon hrun
    simp only [executeNodeWith, runExec_readOnly, hon.reader, Prod.mk.injEq, Except.ok.injEq]
      at hrun
    obtain ⟨rfl, rfl⟩ := hrun
    refine ⟨store, hon, hwf, Extends.refl store,
      tupleInv_scan hsep (hsub List.mem_cons_self) fun n hn => ?_⟩
    exact hwf.mem_scanAll.mp hn
  | filter input predicate ih =>
    intro store write write' tuples hwf hon hrun
    obtain ⟨ts, write₁, hinput, hrest⟩ := runExec_bind_eq_ok hrun
    obtain ⟨store₁, hon₁, hwf₁, hext₁, hinv⟩ := ih honly honce hsub hwf hon hinput
    simp only [runExec_readOnly, Prod.mk.injEq] at hrest
    obtain ⟨hfilter, rfl⟩ := hrest
    exact ⟨store₁, hon₁, hwf₁, hext₁, fun t ht => hinv t ((mem_filterE hfilter).mp ht).1⟩
  | expand input fromVar edgeVar toVar edgeType direction depth ih =>
    intro store write write' tuples hwf hon hrun
    obtain ⟨ts, write₁, hinput, hrest⟩ := runExec_bind_eq_ok hrun
    obtain ⟨hto, hsub'⟩ := List.cons_subset.mp hsub
    obtain ⟨hedge, hnames⟩ := List.append_subset.mp hsub'
    obtain ⟨store₁, hon₁, hwf₁, hext₁, hinv⟩ :=
      ih honly honce.1 hnames hwf hon hinput
    simp only [runExec_readOnly, hon₁.reader, Prod.mk.injEq, Except.ok.injEq] at hrest
    obtain ⟨rfl, rfl⟩ := hrest
    refine ⟨store₁, hon₁, hwf₁, hext₁, fun t ht => ?_⟩
    obtain ⟨t₀, ht₀, ht⟩ := List.mem_flatMap.mp ht
    exact tupleInv_expand hwf₁ hsep hnames hto (fun v hv => hedge (Option.mem_toList.mpr hv))
      honce.2 (hinv t₀ ht₀) t ht
  | cartesianProduct left right ihl ihr =>
    intro store write write' tuples hwf hon hrun
    obtain ⟨hl, hr⟩ := List.append_subset.mp hsub
    obtain ⟨honlyl, honlyr⟩ := Bool.and_eq_true_iff.mp honly
    obtain ⟨lefts, write₁, hleft, hrest⟩ := runExec_bind_eq_ok hrun
    obtain ⟨rights, write₂, hright, hrest⟩ := runExec_bind_eq_ok hrest
    simp only [runExec_pure, Prod.mk.injEq, Except.ok.injEq] at hrest
    obtain ⟨rfl, rfl⟩ := hrest
    obtain ⟨store₁, hon₁, hwf₁, hext₁, hinv₁⟩ := ihl honlyl honce.1 hl hwf hon hleft
    obtain ⟨store₂, hon₂, hwf₂, hext₂, hinv₂⟩ :=
      ihr honlyr honce.2.1 hr hwf₁ hon₁ hright
    -- the right part may have added to the store
    refine ⟨store₂, hon₂, hwf₂, hext₁.trans hext₂, fun t ht => ?_⟩
    obtain ⟨l, hlmem, ht⟩ := List.mem_flatMap.mp ht
    obtain ⟨r, hrmem, rfl⟩ := List.mem_map.mp ht
    exact ((hinv₁ l hlmem).extends hext₂).merge (hinv₂ r hrmem) hsep hl hr honce.2.2
  | create patterns =>
    intro store write write' tuples hwf hon hrun
    cases write with
    | none => exact absurd (congrArg Prod.fst hrun) (by simp [executeNodeWith, executeCreate,
        runExec_bind, createNeedsStore])
    | some w =>
      obtain ⟨hread, rfl⟩ := hon.write_eq
      obtain ⟨store', rfl, hwf', hext, hinv⟩ :=
        executeCreate_inv hwf hsep (by simpa [PlanNode.names] using hsub) honce tupleInv_empty hrun
      exact ⟨store', .inr ⟨hread, rfl⟩, hwf', hext, fun t ht => by
        simpa [PlanNode.names, PlanNode.nodeNames] using hinv t ht⟩
  | matchCreate input patterns ih =>
    intro store write write' tuples hwf hon hrun
    obtain ⟨hcreate, hnames⟩ := List.append_subset.mp hsub
    obtain ⟨ts, write₁, hinput, hrest⟩ := runExec_bind_eq_ok hrun
    obtain ⟨store₁, hon₁, hwf₁, hext₁, hinv⟩ :=
      ih honly honce.1 hnames hwf hon hinput
    obtain ⟨w, write₂, hget, hrest⟩ := runExec_bind_eq_ok hrest
    simp only [runExec_get, Prod.mk.injEq, Except.ok.injEq] at hget
    obtain ⟨rfl, rfl⟩ := hget
    cases write₁ with
    | none => exact absurd (congrArg Prod.fst hrest) (by simp [createNeedsStore])
    | some w =>
      obtain ⟨hread, rfl⟩ := hon₁.write_eq
      obtain ⟨tss, write₃, hmap, hrest⟩ := runExec_bind_eq_ok hrest
      simp only [runExec_pure, Prod.mk.injEq, Except.ok.injEq] at hrest
      obtain ⟨rfl, rfl⟩ := hrest
      obtain ⟨store', rfl, hwf', hext, hinv'⟩ :=
        mapM_executeCreate_inv hsep hsub honce.2 hwf₁ hinv hmap
      exact ⟨store', .inr ⟨hread, rfl⟩, hwf', hext₁.trans hext, hinv'⟩

/-- **Where every operator binds fresh variables, tuples are coherent**: a variable bound
to a node comes with the properties that node has in the store after the run, and
with no others. -/
theorem executeNode_coherent {ex : Executor} {store : InMemoryGraphStore} {node : PlanNode}
    {write write' : Option InMemoryGraphStore} {tuples : List Tuple} (hwf : store.Wf)
    (hon : WorksOn ex write store) (honly : node.bindsOnly)
    (hsep : Separated node.names) (honce : node.BindsOnce)
    (hrun : runExec (executeNode ex ∅ node) write = (.ok tuples, write')) :
    ∃ store', WorksOn ex write' store' ∧ ∀ t ∈ tuples, ∀ v ∈ node.names, ∀ id,
      t.lookup v = some (.nodeId id) → ∃ n, store'.getNode id = some n ∧
        ∀ k, t.lookup (propKey v k) = n.properties.lookup k := by
  obtain ⟨store', hon', -, -, hinv⟩ :=
    executeNode_tupleInv hsep honly honce (List.Subset.refl _) hwf hon hrun
  exact ⟨store', hon', fun t ht v hv id hid => ((hinv t ht).coherent v hv id hid).2⟩

/-- `MATCH (a:A)-[e:R]->(b) CREATE (c)` binds each of its variables once. -/
theorem executeNode_coherent_matchCreate :
    let node := PlanNode.matchCreate
      (.expand (.labelScan "a" "A") "a" (some "e") "b" (some "R") .right none)
      [.node ⟨some "c", [], ∅⟩]
    let run := runExec (executeNode .newNoRead ∅ node) (some twoNodes)
    ∀ tuples, run.1 = .ok tuples → ∃ store', WorksOn .newNoRead run.2 store' ∧
      ∀ t ∈ tuples, ∀ v ∈ node.names, ∀ id, t.lookup v = some (.nodeId id) →
        ∃ n, store'.getNode id = some n ∧
          ∀ k, t.lookup (propKey v k) = n.properties.lookup k := by
  intro node run tuples hok
  have hsep : Separated node.names := by
    intro v hv w hw k heq
    have hlen := congrArg (fun s => s.toList.length) heq
    simp only [propKey, String.toList_append, List.length_append] at hlen
    have hone : ∀ s ∈ node.names, s.toList.length = 1 := by decide
    have hdot : ".".toList.length = 1 := rfl
    rw [hone v hv, hone w hw] at hlen
    omega
  have honce : node.BindsOnce := by
    refine ⟨⟨trivial, by decide⟩, ?_⟩
    intro n hn var hvar
    obtain rfl : n = ⟨some "c", [], ∅⟩ := by simpa using hn
    obtain rfl : "c" = var := by simpa using hvar
    exact ⟨rfl, by decide⟩
  exact executeNode_coherent InMemoryGraphStore.reachable_twoNodes.wf (.inr ⟨rfl, rfl⟩) rfl hsep
    honce (Prod.ext hok rfl)

/-- CREATE does not copy the properties of the node it binds, and a second binding of a
variable leaves the properties of the first node behind: of `CREATE (n {k: 1})` the
tuple has no `n.k`, and of `(a)-[:R]->(a)` on `(1 {k: 1})-[:R]->(2)` it has node 2
under `a` with the `a.k` of node 1. -/
theorem executeNode_incoherent :
    let props : Properties := (∅ : Properties).insert "k" (.int 1)
    let created := runExec (executeNode .newNoRead ∅ (.create
      [.node ⟨some "n", [], (∅ : HashMap String Literal).insert "k" (.int 1)⟩])) (some .new)
    let store := ((InMemoryGraphStore.new.applyWrites
      [.node [] props, .node [] ∅, .edge 1 2 "R" ∅]).toOption).getD .new
    let rebound := runExec (executeNode (.new store) ∅
      (.expand (.fullScan "a") "a" none "a" (some "R") .right none)) none
    (created.1.map fun ts => ts.map fun t => (t.lookup "n", t.lookup "n.k")) =
        .ok [(some (.nodeId 1), none)] ∧
      (created.2.bind (·.getNode 1)).map (·.properties.lookup "k") = some (some (.int 1)) ∧
      (rebound.1.map fun ts => ts.map fun t => (t.lookup "a", t.lookup "a.k")) =
        .ok [(some (.nodeId 2), some (.int 1))] ∧
      (store.getNode 2).map (·.properties.lookup "k") = some none := by
  decide +kernel

end KuzuEventBus
