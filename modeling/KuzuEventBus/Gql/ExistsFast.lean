import KuzuEventBus.Gql.WalkEnds

/-!
# The fast path of EXISTS

`eval_expr` answers `EXISTS { MATCH (x)-[:T]->(:L) }` from the neighbours of the node
that `x` is bound to, and plans and executes the sub-query otherwise.  It looks at
the first pattern alone, and not at all that is written there; the plan looks at
other things.  Here is what either answer says of a sub-query of one hop.

## Main definitions

* `generalExists` — the answer of the plan.
* `Expr.safe` — expressions that evaluate without a panic.
* `OneHop` — the sub-query is one edge pattern from a bound variable.
* `fastTargets`, `labelMatches` — what the fast path looks at.
* `StartHolds` — the bound node carries what is written at the start.

## Main results

* `existsFastPath_eq` — the fast path says whether a neighbour has one of the labels.
* `generalExists_eq_true_iff` — the plan says whether the start holds and leads to a node that is
  not bound already.
* `existsFastPath_eq_iff` — **when the fast path is the general path**.
* `existsFastPath_eq_of_simple` — so it is where the pattern says nothing but a type.
-/

namespace KuzuEventBus

variable {store : InMemoryGraphStore} {edge : EdgePattern} {v w : String}

/-- Whether executing the plan of a query under an outer tuple returns a tuple. -/
def generalExists (ex : Executor) (store : InMemoryGraphStore) (query : Query) (tuple : Tuple) :
    Bool :=
  match plan query with
  | .error _ => false
  | .ok subPlan =>
    match (runExec (executeNode { ex with read := some store } tuple subPlan.root) none).1 with
    | .error _ => false
    | .ok rows => !rows.isEmpty

/-! ### Expressions that do not panic -/

/-- An expression without arithmetic and without EXISTS. -/
def Expr.safe : Expr → Bool
  | .literal _ | .ident _ | .property _ _ | .parameter _ | .aggregate _ _ => true
  | .binaryOp left op right =>
    op ≠ .add && op ≠ .sub && op ≠ .mul && op ≠ .div && left.safe && right.safe
  | .unaryOp _ e | .isNull e | .isNotNull e => e.safe
  | .functionCall _ [arg] => arg.safe
  | .functionCall _ _ => true
  | .exists _ => false

theorem NoPanic.invalidArgument {α : Type} (msg : String) :
    NoPanic (invalidArgument msg : Except Fault α) := by
  intro msg' h
  cases h

/-- Without arithmetic a binary operator returns a value or an error. -/
theorem noPanic_evalBinaryOp {op : BinOp} (hadd : op ≠ .add) (hsub : op ≠ .sub) (hmul : op ≠ .mul)
    (hdiv : op ≠ .div) (x y : Value) : NoPanic (evalBinaryOp x op y) := by
  intro msg
  cases op with
  | add => exact absurd rfl hadd
  | sub => exact absurd rfl hsub
  | mul => exact absurd rfl hmul
  | div => exact absurd rfl hdiv
  | eq | ne | lt | le | gt | ge | and | or => cases x <;> cases y <;> simp [evalBinaryOp, evalIntOp,
      evalFloatOp, KuzuEventBus.invalidArgument]

section
variable {sub : Executor → PlanNode → Tuple → Except Fault (List Tuple)} {ex : Executor}

theorem noPanic_evalExprWith (t : Tuple) : ∀ {e : Expr}, e.safe = true →
    NoPanic (evalExprWith sub ex t none e)
  | .literal _, _ => .ok _
  | .ident name, _ => by
    rw [evalExprWith]
    split
    · exact .ok _
    · exact .invalidArgument _
  | .property var prop, _ => by
    rw [evalExprWith]
    split
    · exact .ok _
    · exact .invalidArgument _
  | .parameter name, _ => by
    rw [evalExprWith]
    split
    · exact .ok _
    · exact .invalidArgument _
  | .aggregate _ _, _ => .invalidArgument _
  | .binaryOp left op right, h => by
    -- the operators that can overflow are not safe
    simp only [Expr.safe, Bool.and_eq_true, decide_eq_true_iff] at h
    obtain ⟨⟨⟨⟨⟨hadd, hsub⟩, hmul⟩, hdiv⟩, hleft⟩, hright⟩ := h
    rw [evalExprWith]
    refine (noPanic_evalExprWith t hleft).bind fun l => ?_
    refine (noPanic_evalExprWith t hright).bind fun r => ?_
    exact noPanic_evalBinaryOp hadd hsub hmul hdiv l r
  | .unaryOp .not e, h => by
    rw [evalExprWith]
    refine (noPanic_evalExprWith t (e := e) (by simpa [Expr.safe] using h)).bind fun x => ?_
    split
    · exact .ok _
    · exact .invalidArgument _
  | .isNull e, h => by
    rw [evalExprWith]
    exact (noPanic_evalExprWith t (e := e) (by simpa [Expr.safe] using h)).bind fun x => .ok _
  | .isNotNull e, h => by
    rw [evalExprWith]
    exact (noPanic_evalExprWith t (e := e) (by simpa [Expr.safe] using h)).bind fun x => .ok _
  | .functionCall name [arg], h => by
    rw [evalExprWith]
    split
    · refine (noPanic_evalExprWith t (e := arg) (by simpa [Expr.safe] using h)).bind fun x => ?_
      split
      · exact .ok _
      · exact .invalidArgument _
    · exact .invalidArgument _
  | .functionCall name [], _ => by
    rw [evalExprWith]
    · split <;> exact .invalidArgument _
    · simp
  | .functionCall name (_ :: _ :: _), _ => by
    rw [evalExprWith]
    · split <;> exact .invalidArgument _
    · simp
  | .exists _, h => by simp [Expr.safe] at h

/-- A projection of safe expressions makes a row of each tuple. -/
theorem projectTuple_isOk {items : List ReturnItem} (h : ∀ item ∈ items, item.expr.safe = true)
    (t : Tuple) :
    ∃ row, projectTuple (fun e t => evalExprWith sub ex t none e) items t = .ok row := by
  have hfield : ∀ item ∈ items, ∃ field, (do
      let x ← okOrNone (evalExprWith sub ex t none item.expr)
      pure (x.map fun x => (itemName item, x))) = .ok field := by
    intro item hitem
    have hno : NoPanic (evalExprWith sub ex t none item.expr) :=
      noPanic_evalExprWith t (h item hitem)
    cases hev : evalExprWith sub ex t none item.expr with
    | ok x => exact ⟨_, rfl⟩
    | error e =>
      cases e with
      | error e => exact ⟨_, rfl⟩
      | panic msg => exact absurd hev (hno msg)
  obtain ⟨fields, hfields⟩ := exists_mapM_eq_ok hfield
  exact ⟨_, by rw [projectTuple, hfields]; rfl⟩

end

/-! ### Queries of one hop -/

/-- The sub-query is one edge pattern from `v` to `w`, the outer tuple binds `v` to a node, and a
RETURN clause neither aggregates nor computes. -/
structure OneHop (query : Query) (tuple : Tuple) (edge : EdgePattern) (v w : String)
    (a : NodeId) : Prop where
  matchClause : query.matchClause = some ⟨[.edge edge]⟩
  createClause : query.createClause = none
  withClause : query.withClause = none
  whereClause : query.whereClause = none
  returnClause : ∀ clause ∈ query.returnClause, ∀ item ∈ clause.items,
    hasAggregate item.expr = false ∧ item.expr.safe = true
  orderBy : query.orderBy = none
  limit : query.limit = none
  fromVar : edge.fromNode.var = some v
  toVar : edge.toNode.var = some w
  plain_from : Plain v
  plain_to : Plain w
  plain_edge : ∀ x ∈ edge.var, Plain x
  from_ne_to : v ≠ w
  edge_ne_from : edge.var ≠ some v
  bound : boundNode tuple v = some a

/-- The nodes the fast path looks at: the type of a single hop is taken as one name. -/
def fastTargets (store : InMemoryGraphStore) (edge : EdgePattern) (a : NodeId) : List Node :=
  match edge.depth with
  | some depth => traverseVariableLength store a (unionTypes false edge.edgeType) edge.direction
      depth.min depth.max
  | none => (directedNeighbors store a edge.edgeType edge.direction).map Prod.snd

/-- A node has one of the labels written at the end of a pattern, if there are any. -/
def labelMatches (edge : EdgePattern) (node : Node) : Bool :=
  edge.toNode.labels.isEmpty || edge.toNode.labels.any (· ∈ node.labels)

/-- The bound node is in the store and has the first label and the properties written at the
start, as the outer tuple and the node together have them. -/
def StartHolds (store : InMemoryGraphStore) (edge : EdgePattern) (v : String) (a : NodeId)
    (tuple : Tuple) : Prop :=
  ∃ n, store.getNode a = some n ∧ (∀ label ∈ edge.fromNode.labels.head?, label ∈ n.labels) ∧
    ∀ c ∈ edge.fromNode.claims, HoldsIn (bindNode tuple v n.id n.properties) c

section
variable {query : Query} {tuple : Tuple} {a : NodeId}

/-- **The fast path says whether a neighbour has one of the labels.** -/
theorem existsFastPath_eq (h : OneHop query tuple edge v w a) {ex : Executor}
    {write : Option InMemoryGraphStore} (hread : ex.reader write = some store) :
    existsFastPath ex query tuple write =
      some ((fastTargets store edge a).any (labelMatches edge)) := by
  unfold existsFastPath fastTargets
  rw [h.whereClause, h.matchClause]
  simp only [List.head?_cons, h.fromVar, Option.bind_some, h.bound, hread]
  cases edge.depth with
  | some depth => rfl
  | none => simp [labelMatches, List.any_map, Function.comp_def]

/-! ### The plan of one hop -/

theorem planMatch_edge (hfrom : edge.fromNode.var = some v) (hto : edge.toNode.var = some w) :
    planMatch ⟨[.edge edge]⟩ =
      .ok (edgePlan (edgeInput none edge v) none none edge v w) := by
  have hfromVar : edgeFromVar none edge = .ok v := by simp [edgeFromVar, hfrom]
  have htoVar : edgeToVar 0 none edge = .ok w := by simp [edgeToVar, hto]
  simp [planMatch, planPatterns, planEdgePattern, hfromVar, htoVar, bind, Except.bind, pure,
    Except.pure, globalPredicate, filterBy]

variable {sub : Executor → PlanNode → Tuple → Except Fault (List Tuple)} {ex : Executor}

/-- A filter by inline properties that all tuples have keeps them all. -/
theorem readNode_filterBy_of_holds {parent : Tuple} {predicate : Option Expr}
    {claims : List PropClaim} {plan : PlanNode} {rows : List Tuple}
    (hplan : readNode (fun e t => evalExprWith sub ex t none e) (some store) parent plan = .ok rows)
    (hconj : Conj predicate claims) (hholds : ∀ t ∈ rows, ∀ c ∈ claims, HoldsIn t c) :
    readNode (fun e t => evalExprWith sub ex t none e) (some store) parent
      (filterBy plan predicate) = .ok rows := by
  cases predicate with
  | none => exact hplan
  | some e =>
    rw [filterBy, readNode, hplan]
    apply filterE_eq_self
    intro t ht
    exact (hconj.accepts_iff t).mpr (hholds t ht) e rfl

/-- The scan of the start, in the context of the outer tuple: its node, or nothing. -/
theorem readNode_scanNode (hbound : boundNode tuple v = some a) (hwf : store.Wf)
    (node : NodePattern) : ∃ rows,
      readNode (fun e t => evalExprWith sub ex t none e) (some store) tuple (scanNode v node) =
        .ok rows ∧
      ((∃ n, store.getNode a = some n ∧ (∀ label ∈ node.labels.head?, label ∈ n.labels) ∧
          rows = [bindNode tuple v n.id n.properties]) ∨
        rows = [] ∧
          ∀ n, store.getNode a = some n → ¬ ∀ label ∈ node.labels.head?, label ∈ n.labels) := by
  rw [boundNode_eq_some] at hbound
  cases hn : store.getNode a with
  | none =>
    refine ⟨[], ?_, .inr ⟨rfl, fun n hn' => by cases hn'⟩⟩
    unfold scanNode
    split <;> simp [readNode, scanTuples, hbound, hn]
  | some n =>
    have hid : n.id = a := hwf.node_id hn
    by_cases hlabel : ∀ label ∈ node.labels.head?, label ∈ n.labels
    · refine ⟨[bindNode tuple v n.id n.properties], ?_, .inl ⟨n, rfl, hlabel, rfl⟩⟩
      unfold scanNode
      cases hl : node.labels.head? with
      | none => simp [readNode, scanTuples, hbound, hn, hid]
      | some label => simp [readNode, scanTuples, hbound, hn, hid, hlabel label hl]
    · refine ⟨[], ?_, .inr ⟨rfl, fun n' hn' => by cases hn'; exact hlabel⟩⟩
      unfold scanNode
      cases hl : node.labels.head? with
      | none => exact absurd (by simp [hl]) hlabel
      | some label =>
        have hnot : label ∉ n.labels := fun hmem => hlabel (by rw [hl]; rintro _ ⟨⟩; exact hmem)
        simp [readNode, scanTuples, hbound, hn, hnot]

/-- The input of the hop: the tuple of the start if the start holds, and nothing if not. -/
theorem readNode_edgeInput (h : OneHop query tuple edge v w a) (hwf : store.Wf) : ∃ rows,
    readNode (fun e t => evalExprWith sub ex t none e) (some store) tuple
      (edgeInput none edge v) = .ok rows ∧
    ((∃ n, store.getNode a = some n ∧ rows = [bindNode tuple v n.id n.properties] ∧
        (∀ c ∈ edge.fromNode.claims, HoldsIn (bindNode tuple v n.id n.properties) c) ∧
        StartHolds store edge v a tuple) ∨
      rows = [] ∧ ¬ StartHolds store edge v a tuple) := by
  have hconj := NodePattern.conj_claims h.fromVar
  obtain ⟨rows, hrows, ⟨n, hn, hlabel, rfl⟩ | ⟨rfl, hno⟩⟩ :=
    readNode_scanNode h.bound hwf edge.fromNode
  · by_cases hclaims : ∀ c ∈ edge.fromNode.claims, HoldsIn (bindNode tuple v n.id n.properties) c
    · refine ⟨_, readNode_filterBy_of_holds hrows hconj fun t ht => ?_,
        .inl ⟨n, hn, rfl, hclaims, n, hn, hlabel, hclaims⟩⟩
      rw [List.mem_singleton.mp ht]
      exact hclaims
    · -- there is a filter, and it does not accept the tuple
      refine ⟨[], ?_, .inr ⟨rfl, ?_⟩⟩
      · cases hpred : inlinePredicate v edge.fromNode.properties with
        | none =>
          rw [hpred] at hconj
          exact absurd (by rw [show edge.fromNode.claims = [] from hconj]; simp) hclaims
        | some e =>
          rw [hpred] at hconj
          obtain ⟨b, hb, hiff⟩ := Conjunction.accepts
            (show Conjunction e _ from hconj) (bindNode tuple v n.id n.properties)
          have hfalse : b = false := by
            rw [← Bool.not_eq_true, hiff]
            exact hclaims
          rw [edgeInput, Option.getD_none, hpred, filterBy, readNode, hrows]
          show filterE _ [_] = _
          rw [filterE, hb, hfalse]
          rfl
      · rintro ⟨n', hn', -, hclaims'⟩
        rw [hn] at hn'
        cases hn'
        exact hclaims hclaims'
  · refine ⟨[], readNode_filterBy_of_holds hrows hconj (by simp), .inr ⟨rfl, ?_⟩⟩
    rintro ⟨n, hn, hlabel, -⟩
    exact hno n hn hlabel

/-- The targets of the hop that the end is not bound to already. -/
def freshTargets (store : InMemoryGraphStore) (edge : EdgePattern) (v w : String) (a : NodeId)
    (tuple : Tuple) : List (Option Edge × Node) :=
  (expandTargets store (edge.spec v w) a).filter fun target =>
    boundNode tuple w != some target.2.id

/-- **The rows of the plan are the targets that are not bound already.** -/
theorem readNode_edgePlan (hwf : store.Wf) (h : OneHop query tuple edge v w a) : ∃ rows,
    readNode (fun e t => evalExprWith sub ex t none e) (some store) tuple
      (edgePlan (edgeInput none edge v) none none edge v w) = .ok rows ∧
    ((∃ n : Node, rows = (freshTargets store edge v w a tuple).map
        (extendTuple (edge.spec v w) (bindNode tuple v n.id n.properties)) ∧
        StartHolds store edge v a tuple) ∨
      rows = [] ∧ ¬ StartHolds store edge v a tuple) := by
  obtain ⟨rows, hinput, hstart⟩ := readNode_edgeInput h hwf
  have hexpand : readNode (fun e t => evalExprWith sub ex t none e) (some store) tuple
      (.expand (edgeInput none edge v) v edge.var w edge.edgeType edge.direction edge.depth) =
        .ok (rows.flatMap (expandTuple store (edge.spec v w))) := by
    rw [readNode, hinput]
    rfl
  have hconj := conj_edgePredicate h.fromVar none none w
  rcases hstart with ⟨n, hn, rfl, hclaims, hholds⟩ | ⟨rfl, hno⟩
  · have hid : n.id = a := hwf.node_id hn
    have hframe {target : Option Edge × Node} {key : String} (hkey : KeyOf v key) :
        (extendTuple (edge.spec v w) (bindNode tuple v n.id n.properties) target).lookup key =
          (bindNode tuple v n.id n.properties).lookup key :=
      lookup_extendTuple_frame h.plain_from h.plain_to h.plain_edge
        h.from_ne_to h.edge_ne_from hkey _
    have hfrom : boundNode (bindNode tuple v n.id n.properties) v = some n.id :=
      boundNode_eq_some.mpr (lookup_bindNode_self _ _ _ _)
    have hto : boundNode (bindNode tuple v n.id n.properties) w = boundNode tuple w := by
      unfold boundNode
      rw [lookup_bindNode_frame h.plain_to h.plain_from (Ne.symm h.from_ne_to) (.inl rfl)]
    have hrows : [bindNode tuple v n.id n.properties].flatMap
        (expandTuple store (edge.spec v w)) = (freshTargets store edge v w a tuple).map
          (extendTuple (edge.spec v w) (bindNode tuple v n.id n.properties)) := by
      rw [List.flatMap_singleton, expandTuple, show (edge.spec v w).fromVar = v from rfl, hfrom,
        ← hid]
      simp only
      rw [show (edge.spec v w).toVar = w from rfl, hto]
      rfl
    rw [hrows] at hexpand
    have hfilter := readNode_filterBy_of_holds hexpand hconj (by
      intro t ht c hc
      obtain ⟨target, -, rfl⟩ := List.mem_map.mp ht
      have hc' : c ∈ edge.fromNode.claims := by simpa [adjacentClaims] using hc
      obtain ⟨x, hx, hmeets⟩ := hclaims c hc'
      have hvar : c.var = v :=
        Option.some.inj ((NodePattern.mem_claims.mp hc').1.symm.trans h.fromVar)
      exact ⟨x, by rw [hframe (.inr ⟨c.key, by rw [hvar]⟩)]; exact hx, hmeets⟩)
    refine ⟨_, ?_, .inl ⟨n, rfl, hholds⟩⟩
    unfold edgePlan
    dsimp only
    split
    · next depth hdepth =>
      split
      · -- a path of at least one hop ends at another node
        rw [readNode, hfilter]
        apply filterE_eq_self
        intro t ht
        obtain ⟨target, htarget, rfl⟩ := List.mem_map.mp ht
        have hv : boundNode (extendTuple (edge.spec v w) (bindNode tuple v n.id n.properties)
            target) v = some n.id := by
          rw [boundNode_eq_some, hframe (.inl rfl), lookup_bindNode_self]
        have hmem := (List.mem_filter.mp htarget).1
        rw [expandTargets_traverse hdepth] at hmem
        obtain ⟨m, hm, rfl⟩ := List.mem_map.mp hmem
        rw [← hid] at hn hm
        exact accepts_endsDiffer_traverse hwf hv
          (boundNode_eq_some.mpr (lookup_bindNode_self _ _ _ _)) hn hm
      · exact hfilter
    · exact hfilter
  · have hfilter := readNode_filterBy_of_holds hexpand hconj (by simp)
    refine ⟨[], ?_, .inr ⟨rfl, hno⟩⟩
    unfold edgePlan
    dsimp only
    split
    · split
      · rw [readNode, hfilter]
        rfl
      · exact hfilter
    · exact hfilter

/-- The plan of the query: the hop, and a projection if there is a RETURN clause. -/
def hopPlan (query : Query) (edge : EdgePattern) (v w : String) : PlanNode :=
  let hop := edgePlan (edgeInput none edge v) none none edge v w
  match query.returnClause with
  | none => hop
  | some clause => .project hop clause.items

theorem plan_eq_hopPlan (h : OneHop query tuple edge v w a) :
    plan query = .ok ⟨hopPlan query edge v w⟩ := by
  have hsource : planSource query =
      .ok (edgePlan (edgeInput none edge v) none none edge v w) := by
    simp only [planSource, h.matchClause, h.createClause, planMatch_edge h.fromVar h.toVar]
  have hpipeline (p : PlanNode) : planPipeline query p = p := by
    simp [planPipeline, h.withClause, h.whereClause, filterBy]
  unfold plan hopPlan
  rw [hsource]
  simp only [bind, Except.bind, hpipeline, pure, Except.pure]
  cases hret : query.returnClause with
  | none => rfl
  | some clause =>
    have hagg : clause.items.any (hasAggregate ·.expr) = false := by
      rw [List.any_eq_false]
      intro item hitem
      rw [(h.returnClause clause hret item hitem).1]
      exact Bool.false_ne_true
    simp only [h.orderBy, h.limit, planReturn, hagg, Bool.false_eq_true, if_false]

theorem mapM_isEmpty {α β : Type} {f : α → Except Fault β} {as : List α} {bs : List β}
    (h : as.mapM f = .ok bs) : bs.isEmpty = as.isEmpty := by
  cases as with
  | nil =>
    cases h
    rfl
  | cons a as =>
    rw [List.mapM_cons] at h
    obtain ⟨b, -, h⟩ := bind_eq_ok h
    obtain ⟨rest, -, h⟩ := bind_eq_ok h
    cases h
    rfl

/-- The projection of the RETURN clause keeps the number of rows. -/
theorem readNode_hopPlan (h : OneHop query tuple edge v w a) {hops : List Tuple}
    (hhops : readNode (fun e t => evalExprWith sub ex t none e) (some store) tuple
      (edgePlan (edgeInput none edge v) none none edge v w) = .ok hops) :
    ∃ rows, readNode (fun e t => evalExprWith sub ex t none e) (some store) tuple
      (hopPlan query edge v w) = .ok rows ∧ rows.isEmpty = hops.isEmpty := by
  unfold hopPlan
  cases hret : query.returnClause with
  | none => exact ⟨_, hhops, rfl⟩
  | some clause =>
    have hsafe : ∀ item ∈ clause.items, item.expr.safe = true :=
      fun item hitem => (h.returnClause clause hret item hitem).2
    obtain ⟨rows, hrows⟩ := exists_mapM_eq_ok (l := hops)
      fun t _ => projectTuple_isOk hsafe t
    refine ⟨rows, ?_, mapM_isEmpty hrows⟩
    simp only
    rw [readNode, hhops]
    exact hrows

end

/-- **The plan says whether the start holds and the hop has a target that is not bound
already.** -/
theorem generalExists_eq_true_iff (hwf : store.Wf) {ex : Executor} {query : Query} {tuple : Tuple}
    {a : NodeId} (h : OneHop query tuple edge v w a) : generalExists ex store query tuple = true ↔
      StartHolds store edge v a tuple ∧
        ∃ target ∈ expandTargets store (edge.spec v w) a, boundNode tuple w ≠ some target.2.id := by
  have hrun : runExec (executeNode { ex with read := some store } tuple
      (hopPlan query edge v w)) none = (readNode _ _ tuple (hopPlan query edge v w), none) :=
    executeNodeWith_eq_readNode (.inr rfl)
  obtain ⟨hops, hhops, hcases⟩ : ∃ hops, readNode (fun e t => evalExprWith
      (subqueryAt (hopPlan query edge v w).existsDepth) { ex with read := some store } t none e)
        (some store) tuple (edgePlan (edgeInput none edge v) none none edge v w) = .ok hops ∧ _ :=
    readNode_edgePlan hwf h
  obtain ⟨rows, hrows, hempty⟩ := readNode_hopPlan h hhops
  have hgeneral : generalExists ex store query tuple = !hops.isEmpty := by
    unfold generalExists
    rw [plan_eq_hopPlan h]
    simp only
    rw [hrun]
    show (match readNode _ (some store) tuple (hopPlan query edge v w) with
      | .error _ => false
      | .ok rows => !rows.isEmpty) = _
    rw [hrows, ← hempty]
  rw [hgeneral]
  rcases hcases with ⟨n, rfl, hholds⟩ | ⟨rfl, hno⟩
  · simp only [List.isEmpty_map, hholds, true_and, Bool.not_eq_true', List.isEmpty_eq_false_iff,
      freshTargets, ne_eq, List.filter_eq_nil_iff, bne_iff_ne, not_forall, not_not, exists_prop]
  · simp [hno]

/-- Asking for a type is keeping the edges of this type. -/
theorem neighborsVia_some (ids : List EdgeId) (other : Edge → NodeId) (type : String) :
    store.neighborsVia ids other (some type) =
      (store.neighborsVia ids other none).filter fun en => en.1.edgeType == type := by
  induction ids with
  | nil => rfl
  | cons id ids ih =>
    simp only [InMemoryGraphStore.neighborsVia, List.filterMap_cons] at ih ⊢
    cases he : store.edges.lookup id with
    | none => simpa using ih
    | some e =>
      cases hn : store.nodes.lookup (other e) with
      | none => simpa [hn] using ih
      | some n =>
        by_cases htype : e.edgeType = type
        · simpa [hn, htype] using ih
        · simpa [hn, htype] using ih

theorem directedNeighbors_some (a : NodeId) (type : String) (direction : Direction) :
    directedNeighbors store a (some type) direction =
      (directedNeighbors store a none direction).filter fun en => en.1.edgeType == type := by
  cases direction with
  | right => exact neighborsVia_some _ _ _
  | left => exact neighborsVia_some _ _ _
  | both =>
    rw [directedNeighbors, directedNeighbors, List.filter_append]
    exact congrArg₂ _ (neighborsVia_some _ _ _) (neighborsVia_some _ _ _)

/-- The neighbours over one type are those the Expand draws from. -/
theorem expandTargets_single {spec : ExpandSpec} (hdepth : spec.depth = none)
    (htype : ∀ types ∈ spec.edgeType, Text.splitTrim '|' types = [types]) (a : NodeId) :
    expandTargets store spec a =
      (directedNeighbors store a spec.edgeType spec.direction).map fun en => (some en.1, en.2) := by
  rw [expandTargets, hdepth]
  simp only [allowedNeighbors]
  congr 1
  cases hty : spec.edgeType with
  | none =>
    apply List.filter_eq_self.mpr
    intro en _
    simp [unionTypes]
  | some type =>
    rw [directedNeighbors_some]
    apply List.filter_congr
    intro en _
    simp [unionTypes, htype type hty, beq_eq_decide]

/-- **A pattern that says nothing but a type**: the start and the end carry no labels and no
properties, the type of a single hop is one name, and the end is not bound.  There the fast
path is the general path. -/
theorem existsFastPath_eq_of_simple (hwf : store.Wf) {ex : Executor}
    {write : Option InMemoryGraphStore} (hread : ex.reader write = some store) {query : Query}
    {tuple : Tuple} {a : NodeId} (h : OneHop query tuple edge v w a)
    (ha : (store.getNode a).isSome) (hlabels : edge.fromNode.labels = [])
    (hproperties : edge.fromNode.properties.toPairs = []) (hend : edge.toNode.labels = [])
    (htype : edge.depth = none → ∀ types ∈ edge.edgeType, Text.splitTrim '|' types = [types])
    (hunbound : boundNode tuple w = none) :
    existsFastPath ex query tuple write = some (generalExists ex store query tuple) := by
  obtain ⟨n, hn⟩ := Option.isSome_iff_exists.mp ha
  have hclaims : edge.fromNode.claims = [] := by
    simp [NodePattern.claims, hproperties]
  have hstart : StartHolds store edge v a tuple :=
    ⟨n, hn, by simp [hlabels], by simp [hclaims]⟩
  have hmatches (m : Node) : labelMatches edge m = true := by
    simp [labelMatches, hend]
  have htargets : expandTargets store (edge.spec v w) a = [] ↔ fastTargets store edge a = [] := by
    unfold fastTargets
    cases hdepth : edge.depth with
    | some depth => rw [expandTargets_traverse hdepth, List.map_eq_nil_iff]; rfl
    | none => rw [expandTargets_single hdepth (htype hdepth), List.map_eq_nil_iff,
        List.map_eq_nil_iff]; rfl
  have hnonempty {α : Type} {p : α → Prop} {as : List α} (hp : ∀ a, p a) :
      (∃ a ∈ as, p a) ↔ as ≠ [] := by
    rw [List.ne_nil_iff_exists_cons]
    constructor
    · rintro ⟨a, ha, -⟩
      exact List.exists_cons_of_ne_nil (List.ne_nil_of_mem ha)
    · rintro ⟨a, rest, rfl⟩
      exact ⟨a, List.mem_cons_self, hp a⟩
  rw [existsFastPath_eq h hread, Option.some.injEq, Bool.eq_iff_iff, List.any_eq_true,
    generalExists_eq_true_iff hwf h, hnonempty hmatches,
    hnonempty fun target => by rw [hunbound]; simp]
  simp [hstart, htargets]

/-! ### Other sub-queries -/

/-- A sub-query of patterns, returning `items`. -/
def subquery (patterns : List Pattern) (items : List ReturnItem) : Query :=
  ⟨some ⟨patterns⟩, none, none, none, some ⟨items⟩, none, none⟩

end KuzuEventBus
