import KuzuEventBus.Core
import KuzuEventBus.Gql.Ast

/-!
# The planner

`casys_engine/src/exec/planner.rs`: a query becomes a tree of operators.  The
patterns of a MATCH clause are walked once, from left to right; at each pattern
the planner looks at the one before and the one after it.

## Main definitions

* `PlanNode`, `ExecutionPlan` — plans.
* `inlinePredicate` — the inline properties of a pattern as a predicate.
* `planNodePattern`, `planEdgePattern`, `planPatterns` — the walk.
* `planMatch`, `planCreate`, `plan` — the planner.
-/

namespace KuzuEventBus

/-- `PlanNode`. -/
inductive PlanNode where
  | labelScan (var label : String)
  | fullScan (var : String)
  | create (patterns : List Pattern)
  | matchCreate (matchInput : PlanNode) (createPatterns : List Pattern)
  | filter (input : PlanNode) (predicate : Expr)
  | project (input : PlanNode) (items : List ReturnItem)
  | orderBy (input : PlanNode) (items : List OrderByItem)
  | aggregate (input : PlanNode) (groupBy : List Expr) (aggregates : List (String × Expr))
  | limit (input : PlanNode) (count : ℕ)
  | expand (input : PlanNode) (fromVar : String) (edgeVar : Option String) (toVar : String)
      (edgeType : Option String) (direction : Direction) (depth : Option DepthRange)
  | cartesianProduct (left right : PlanNode)

/-- `ExecutionPlan`. -/
structure ExecutionPlan where
  root : PlanNode

/-- How deep `EXISTS` is nested in the expressions of a plan. -/
def PlanNode.existsDepth : PlanNode → ℕ
  | .labelScan _ _ | .fullScan _ | .create _ => 0
  | .matchCreate input _ | .limit input _ | .expand input _ _ _ _ _ _ => input.existsDepth
  | .filter input predicate => max input.existsDepth predicate.existsDepth
  | .project input items => max input.existsDepth (itemsExistsDepth items)
  | .orderBy input items => max input.existsDepth (orderItemsExistsDepth items)
  | .aggregate input groupBy aggregates =>
    max input.existsDepth
      (max (argsExistsDepth groupBy) (argsExistsDepth (aggregates.map Prod.snd)))
  | .cartesianProduct left right => max left.existsDepth right.existsDepth

/-- An error of the planner. -/
def invalidArgument {α : Type*} (msg : String) : Except Fault α :=
  .error (.error (.invalidArgument msg))

/-! ### Inline properties -/

/-- `var.key = lit`. -/
def propEq (var key : String) (lit : Literal) : Expr :=
  .binaryOp (.property var key) .eq (.literal lit)

/-- The inline properties of a pattern as a conjunction over `var`, nested to the
left in the order of iteration; the planner writes this out in seven places. -/
def inlinePredicate (var : String) (properties : HashMap String Literal) : Option Expr :=
  match properties.toPairs with
  | [] => none
  | (key, lit) :: rest =>
    some (rest.foldl (fun pred kv => .binaryOp pred .and (propEq var kv.1 kv.2))
      (propEq var key lit))

/-- The conjunction of the predicates that are there. -/
def conjoin : Option Expr → Option Expr → Option Expr
  | some prev, some pred => some (.binaryOp prev .and pred)
  | some prev, none => some prev
  | none, pred => pred

/-- A filter for the predicate, if there is one. -/
def filterBy (input : PlanNode) : Option Expr → PlanNode
  | some predicate => .filter input predicate
  | none => input

/-- The scan of a node pattern bound to `var`: by its first label, if it has one. -/
def scanNode (var : String) (node : NodePattern) : PlanNode :=
  match node.labels.head? with
  | some label => .labelScan var label
  | none => .fullScan var

/-! ### The walk over the patterns -/

/-- The variables the edge patterns bind as their end, taken from the node pattern
that follows when the edge names none. -/
def toNodeVars : List Pattern → List String
  | [] => []
  | .edge edge :: rest =>
    match edge.toNode.var, rest with
    | some var, _ => var :: toNodeVars rest
    | none, .node next :: _ => next.var.toList ++ toNodeVars rest
    | none, _ => toNodeVars rest
  | .node _ :: rest => toNodeVars rest

/-- The state of the walk: `plan_opt` and `bound_vars`. -/
structure PlanState where
  planOpt : Option PlanNode
  boundVars : List String

/-- The neighbours of a node pattern make its own scan superfluous: the edge before
it ends in `var`, the edge after it ends in `var`, or the edge after it starts
in `var` and there is a plan already. -/
def skipScan (st : PlanState) (prev next : Option Pattern) (var : String) : Bool :=
  (match prev with
    | some (.edge edge) => edge.toNode.var == some var
    | _ => false) ||
  (match next with
    | some (.edge edge) =>
      edge.toNode.var == some var || (st.planOpt.isSome && edge.fromNode.var == some var)
    | _ => false)

/-- One node pattern. -/
def planNodePattern (toVars : List String) (st : PlanState) (prev next : Option Pattern)
    (node : NodePattern) : Except Fault PlanState :=
  match node.var with
  | none => invalidArgument "node must have variable"
  | some var =>
    if var ∈ st.boundVars then
      -- already bound: its inline properties become a filter, its labels do not
      match inlinePredicate var node.properties, st.planOpt with
      | none, _ => .ok st
      | some pred, some plan => .ok { st with planOpt := some (.filter plan pred) }
      | some _, none => .error (.panic "called `Option::unwrap()` on a `None` value")
    else if var ∈ toVars then .ok st
    else if skipScan st prev next var then .ok st
    else
      let nodePlan := filterBy (scanNode var node) (inlinePredicate var node.properties)
      let plan := match st.planOpt with
        | none => nodePlan
        | some left => .cartesianProduct left nodePlan
      .ok ⟨some plan, var :: st.boundVars⟩

/-- The variable an edge pattern starts from. -/
def edgeFromVar (prev : Option Pattern) (edge : EdgePattern) : Except Fault String :=
  match edge.fromNode.var, prev with
  | some var, _ => .ok var
  | none, some (.node node) =>
    match node.var with
    | some var => .ok var
    | none => invalidArgument "from node must have variable"
  | none, _ => invalidArgument "from node must have variable"

/-- The variable an edge pattern, the `i`-th pattern of its clause, ends in. -/
def edgeToVar (i : ℕ) (next : Option Pattern) (edge : EdgePattern) : Except Fault String :=
  match edge.toNode.var, next with
  | some var, _ => .ok var
  | none, some (.node node) =>
    match node.var with
    | some var => .ok var
    | none => invalidArgument "to node must have variable"
  | none, _ => .ok ("__anon_to_" ++ toString i)

/-- The inline properties of an adjacent node pattern that names `toVar`. -/
def adjacentPredicate (toVar : String) : Option Pattern → Option Expr
  | some (.node node) =>
    if node.var = some toVar then inlinePredicate toVar node.properties else none
  | _ => none

/-- The ends of a variable-length path of at least one hop differ. -/
def endsDiffer (fromVar toVar : String) : Expr :=
  .binaryOp (.functionCall "ID" [.ident fromVar]) .ne (.functionCall "ID" [.ident toVar])

/-- The input of the Expand of an edge pattern: the plan there is, or a scan of the
start node, under the inline properties of the start node. -/
def edgeInput (planOpt : Option PlanNode) (edge : EdgePattern) (fromVar : String) : PlanNode :=
  filterBy (planOpt.getD (scanNode fromVar edge.fromNode))
    (inlinePredicate fromVar edge.fromNode.properties)

/-- The predicate after the Expand of an edge pattern. -/
def edgePredicate (prev next : Option Pattern) (edge : EdgePattern) (fromVar toVar : String) :
    Option Expr :=
  conjoin (conjoin (adjacentPredicate toVar prev) (adjacentPredicate toVar next))
    (inlinePredicate fromVar edge.fromNode.properties)

/-- The plan of an edge pattern over `input`. -/
def edgePlan (input : PlanNode) (prev next : Option Pattern) (edge : EdgePattern)
    (fromVar toVar : String) : PlanNode :=
  let expand := PlanNode.expand input fromVar edge.var toVar edge.edgeType edge.direction edge.depth
  let plan := filterBy expand (edgePredicate prev next edge fromVar toVar)
  match edge.depth with
  | some depth => if depth.min ≥ 1 then .filter plan (endsDiffer fromVar toVar) else plan
  | none => plan

/-- One edge pattern. -/
def planEdgePattern (i : ℕ) (st : PlanState) (prev next : Option Pattern) (edge : EdgePattern) :
    Except Fault PlanState := do
  let fromVar ← edgeFromVar prev edge
  let toVar ← edgeToVar i next edge
  let input := edgeInput st.planOpt edge fromVar
  pure ⟨some (edgePlan input prev next edge fromVar toVar), toVar :: st.boundVars⟩

theorem planEdgePattern_eq_ok {i : ℕ} {st st' : PlanState} {prev next : Option Pattern}
    {edge : EdgePattern} (h : planEdgePattern i st prev next edge = .ok st') :
    ∃ fromVar toVar, edgeFromVar prev edge = .ok fromVar ∧ edgeToVar i next edge = .ok toVar ∧
      st' = ⟨some (edgePlan (edgeInput st.planOpt edge fromVar) prev next edge fromVar toVar),
        toVar :: st.boundVars⟩ := by
  unfold planEdgePattern at h
  cases hf : edgeFromVar prev edge with
  | error e => simp [hf, bind, Except.bind] at h
  | ok fromVar =>
    cases ht : edgeToVar i next edge with
    | error e => simp [hf, ht, bind, Except.bind] at h
    | ok toVar =>
      simp only [hf, ht, bind, Except.bind, pure, Except.pure, Except.ok.injEq] at h
      exact ⟨fromVar, toVar, rfl, rfl, h.symm⟩

/-- The walk from the `i`-th pattern on, `prev` being the pattern before. -/
def planPatterns (toVars : List String) (i : ℕ) (st : PlanState) (prev : Option Pattern) :
    List Pattern → Except Fault PlanState
  | [] => .ok st
  | pattern :: rest => do
    let st ← match pattern with
      | .node node => planNodePattern toVars st prev rest.head? node
      | .edge edge => planEdgePattern i st prev rest.head? edge
    planPatterns toVars (i + 1) st (some pattern) rest

/-- The conjunction of the inline properties of all named node patterns. -/
def globalPredicate (patterns : List Pattern) : Option Expr :=
  patterns.foldl (fun pred pattern =>
    match pattern with
    | .node node =>
      match node.var with
      | some var => conjoin pred (inlinePredicate var node.properties)
      | none => pred
    | .edge _ => pred) none

/-- `plan_match`. -/
def planMatch (clause : MatchClause) : Except Fault PlanNode :=
  if clause.patterns.isEmpty then invalidArgument "empty MATCH clause"
  else do
    let st ← planPatterns (toNodeVars clause.patterns) 0 ⟨none, []⟩ none clause.patterns
    match st.planOpt with
    | some plan => pure (filterBy plan (globalPredicate clause.patterns))
    | none => invalidArgument "invalid MATCH plan"

/-! ### Queries -/

/-- `plan_create`. -/
def planCreate (clause : CreateClause) : Except Fault PlanNode :=
  if clause.patterns.isEmpty then invalidArgument "empty CREATE clause"
  else .ok (.create clause.patterns)

/-- `has_aggregate`. -/
def hasAggregate : Expr → Bool
  | .aggregate _ _ => true
  | .binaryOp l _ r => hasAggregate l || hasAggregate r
  | .unaryOp _ e => hasAggregate e
  | _ => false

/-- The `Debug` name of an aggregate function in lower case. -/
def AggFunc.lowerName : AggFunc → String
  | .count => "count"
  | .sum => "sum"
  | .avg => "avg"
  | .min => "min"
  | .max => "max"

/-- The name of an aggregate column. -/
def aggregateAlias (item : ReturnItem) : String :=
  item.aliasName.getD (match item.expr with
    | .aggregate func _ => func.lowerName
    | _ => "agg")

/-- The clauses that read: MATCH and CREATE. -/
def planSource (query : Query) : Except Fault PlanNode :=
  match query.matchClause, query.createClause with
  | some m, some c => do
    let matchPlan ← planMatch m
    pure (.matchCreate matchPlan c.patterns)
  | some m, none => planMatch m
  | none, some c => planCreate c
  | none, none => invalidArgument "query must have MATCH or CREATE"

/-- WITH becomes a projection, then WHERE a filter. -/
def planPipeline (query : Query) (plan : PlanNode) : PlanNode :=
  let plan := match query.withClause with
    | some w => .project plan (w.items.map fun item => ⟨item.expr, some item.aliasName⟩)
    | none => plan
  filterBy plan (query.whereClause.map WhereClauseOf.expr)

/-- RETURN becomes an aggregation when an item aggregates, a projection otherwise. -/
def planReturn (plan : PlanNode) (clause : ReturnClause) : PlanNode :=
  if clause.items.any (hasAggregate ·.expr) then
    let aggregates := clause.items.filter (hasAggregate ·.expr)
    let groupBy := clause.items.filter (!hasAggregate ·.expr)
    .aggregate plan (groupBy.map ReturnItemOf.expr)
      (aggregates.map fun item => (aggregateAlias item, item.expr))
  else .project plan clause.items

/-- `Planner::plan`: without RETURN, ORDER BY and LIMIT are dropped. -/
def plan (query : Query) : Except Fault ExecutionPlan := do
  let plan ← planSource query
  let plan := planPipeline query plan
  match query.returnClause with
  | none => pure ⟨plan⟩
  | some clause =>
    let plan := planReturn plan clause
    let plan := match query.orderBy with
      | some orderBy => .orderBy plan orderBy.items
      | none => plan
    let plan := match query.limit with
      | some limit => .limit plan limit
      | none => plan
    pure ⟨plan⟩

end KuzuEventBus
