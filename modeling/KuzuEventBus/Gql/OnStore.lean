import KuzuEventBus.Gql.ExistsDepth
import KuzuEventBus.Gql.Parser

/-!
# Queries on a store

`execute_gql_on_store` of `casys_engine/src/lib.rs`: a query is parsed, planned and run,
with a write handle when it has a CREATE clause and on the read path otherwise.  A read
query with a RETURN clause is then taken apart into the tuples its MATCH, WITH and WHERE
leave and what RETURN, ORDER BY and LIMIT make of them.

## Main definitions

* `paramValues`, `executeQueryOnStore`, `executeGqlOnStore` — the entry point.
* `sourceTuples` — the tuples that reach RETURN.
* `pipelineTuples` — WITH and WHERE.
* `returnTuples`, `orderTuples`, `limitTuples` — RETURN, ORDER BY and LIMIT.

## Main results

* `executeQueryOnStore_eq` — **a read query returns what RETURN, ORDER BY and LIMIT make of
  the tuples that reach them**.
-/

namespace KuzuEventBus

/-! ### The entry point -/

/-- The parameters that convert to values. -/
def paramValues (params : Option (HashMap String Json)) : HashMap String Value :=
  (∅ : HashMap String Value).insertAll
    ((params.getD ∅).toPairs.filterMap fun kv => (Value.fromJson kv.2).map fun v => (kv.1, v))

/-- `execute_gql_on_store` from the syntax tree on. -/
def executeQueryOnStore (store : InMemoryGraphStore) (params : Option (HashMap String Json))
    (query : Query) : Except Fault QueryResult × InMemoryGraphStore :=
  match plan query with
  | .error e => (.error e, store)
  | .ok p =>
    if query.createClause.isSome then
      let (result, write) := runExec (execute ⟨none, paramValues params⟩ p) (some store)
      (result, write.getD store)
    else ((runExec (execute ⟨some store, paramValues params⟩ p) none).1, store)

/-- `execute_gql_on_store`. -/
def executeGqlOnStore (tables : CharTables) (store : InMemoryGraphStore) (gql : String)
    (params : Option (HashMap String Json)) : Except Fault QueryResult × InMemoryGraphStore :=
  match parse tables gql with
  | .error e => (.error e, store)
  | .ok query => executeQueryOnStore store params query

/-- The executor of a read query. -/
def readExecutor (store : InMemoryGraphStore) (params : Option (HashMap String Json)) : Executor :=
  ⟨some store, paramValues params⟩

/-! ### The parts of a read query -/

/-- The tuples that reach the RETURN clause. -/
def sourceTuples (ex : Executor) (query : Query) : Except Fault (List Tuple) := do
  let source ← planSource query
  readNode ex.eval ex.read ∅ (planPipeline query source)

/-- WITH, if there is one. -/
def withTuples (ev : Eval) (clause : Option WithClause) (ts : List Tuple) :
    Except Fault (List Tuple) :=
  match clause with
  | some clause =>
    ts.mapM (projectTuple ev (clause.items.map fun item => ⟨item.expr, some item.aliasName⟩))
  | none => .ok ts

/-- WHERE, if there is one. -/
def whereTuples (ev : Eval) (clause : Option WhereClause) (ts : List Tuple) :
    Except Fault (List Tuple) :=
  match clause with
  | some clause => filterE (accepts ev clause.expr) ts
  | none => .ok ts

/-- WITH and WHERE. -/
def pipelineTuples (ev : Eval) (query : Query) (ts : List Tuple) : Except Fault (List Tuple) :=
  withTuples ev query.withClause ts >>= whereTuples ev query.whereClause

/-- RETURN: an aggregation when an item aggregates, a projection otherwise. -/
def returnTuples (ev : Eval) (clause : ReturnClause) (tuples : List Tuple) :
    Except Fault (List Tuple) :=
  if clause.items.any (hasAggregate ·.expr) then
    aggregateTuples ev ((clause.items.filter (!hasAggregate ·.expr)).map ReturnItemOf.expr)
      ((clause.items.filter (hasAggregate ·.expr)).map fun item =>
        (aggregateAlias item, item.expr)) tuples
  else tuples.mapM (projectTuple ev clause.items)

/-- ORDER BY, if there is one. -/
def orderTuples (ev : Eval) (orderBy : Option OrderByClause) (tuples : List Tuple) :
    Except Fault (List Tuple) :=
  match orderBy with
  | some orderBy => sortTuples ev orderBy.items tuples
  | none => .ok tuples

/-- LIMIT, if there is one. -/
def limitTuples {α : Type} (limit : Option ℕ) (rows : List α) : List α :=
  match limit with
  | some limit => rows.take limit
  | none => rows

/-- The columns of a projection; those of an aggregation are not fixed by the plan. -/
def returnNames (clause : ReturnClause) : Option (List String) :=
  if clause.items.any (hasAggregate ·.expr) then none else some (clause.items.map itemName)

/-- ORDER BY in a plan. -/
def orderPlan (input : PlanNode) : Option OrderByClause → PlanNode
  | some orderBy => .orderBy input orderBy.items
  | none => input

/-- LIMIT in a plan. -/
def limitPlan (input : PlanNode) : Option ℕ → PlanNode
  | some limit => .limit input limit
  | none => input

theorem plan_return {query : Query} {clause : ReturnClause} {source : PlanNode}
    (hreturn : query.returnClause = some clause) (hsource : planSource query = .ok source) :
    plan query = .ok ⟨limitPlan (orderPlan (planReturn (planPipeline query source) clause)
      query.orderBy) query.limit⟩ := by
  unfold plan
  rw [hsource, hreturn]
  cases query.orderBy <;> cases query.limit <;> rfl

section Read

variable {ev : Eval} {read : Option InMemoryGraphStore} {input : PlanNode} {ts : List Tuple}

theorem readNode_filterBy {clause : Option WhereClause} :
    readNode ev read ∅ (filterBy input (clause.map WhereClauseOf.expr)) =
      readNode ev read ∅ input >>= whereTuples ev clause := by
  cases clause with
  | none =>
    show readNode ev read ∅ input = _
    cases readNode ev read ∅ input <;> rfl
  | some clause => rfl

/-- WITH, then WHERE. -/
theorem readNode_planPipeline {query : Query} :
    readNode ev read ∅ (planPipeline query input) =
      readNode ev read ∅ input >>= pipelineTuples ev query := by
  rw [planPipeline, readNode_filterBy]
  show _ = readNode ev read ∅ input >>= fun ts =>
    withTuples ev query.withClause ts >>= whereTuples ev query.whereClause
  cases query.withClause with
  | none => cases readNode ev read ∅ input <;> rfl
  | some clause =>
    show (readNode ev read ∅ input >>= _) >>= _ = _
    cases readNode ev read ∅ input <;> rfl

theorem readNode_planReturn {clause : ReturnClause} :
    readNode ev read ∅ (planReturn input clause) =
      readNode ev read ∅ input >>= returnTuples ev clause := by
  rw [planReturn]
  by_cases hagg : clause.items.any (hasAggregate ·.expr) = true
  · rw [if_pos hagg, readNode]
    cases readNode ev read ∅ input with
    | error fault => rfl
    | ok ts => exact (if_pos hagg).symm
  · rw [if_neg hagg, readNode]
    cases readNode ev read ∅ input with
    | error fault => rfl
    | ok ts => exact (if_neg hagg).symm

theorem readNode_orderPlan {orderBy : Option OrderByClause} :
    readNode ev read ∅ (orderPlan input orderBy) =
      readNode ev read ∅ input >>= orderTuples ev orderBy := by
  cases orderBy with
  | none =>
    show readNode ev read ∅ input = _
    cases readNode ev read ∅ input <;> rfl
  | some orderBy => rfl

theorem readNode_limitPlan {limit : Option ℕ} :
    readNode ev read ∅ (limitPlan input limit) =
      (readNode ev read ∅ input).map (limitTuples limit) := by
  cases limit with
  | none =>
    show readNode ev read ∅ input = _
    cases readNode ev read ∅ input <;> rfl
  | some limit => cases h : readNode ev read ∅ input <;> simp [limitPlan, readNode, h] <;> rfl

end Read

theorem projectionNames_returnPlan (input : PlanNode) (clause : ReturnClause)
    (orderBy : Option OrderByClause) (limit : Option ℕ) :
    projectionNames (limitPlan (orderPlan (planReturn input clause) orderBy) limit) =
      returnNames clause := by
  have hreturn : projectionNames (planReturn input clause) = returnNames clause := by
    rw [planReturn, returnNames]
    by_cases hagg : clause.items.any (hasAggregate ·.expr) = true
    · rw [if_pos hagg, if_pos hagg]
      rfl
    · rw [if_neg hagg, if_neg hagg]
      rfl
  cases orderBy <;> cases limit <;> exact hreturn

/-- The executor evaluates the expressions of a plan as `eval_expr` does. -/
theorem execute_eq_eval {ex : Executor} {p : ExecutionPlan} :
    (runExec (execute ex p) none).1 =
      (readNode ex.eval ex.read ∅ p.root).map (toQueryResult (projectionNames p.root)) := by
  rw [execute_eq_readNode (.inr rfl), readNode_congr (agreeUpTo_eval ex p.root.existsDepth) le_rfl]
  simp [Executor.reader]

/-- A read query runs its source, then RETURN, ORDER BY and LIMIT. -/
theorem executeQueryOnStore_read {store : InMemoryGraphStore}
    {params : Option (HashMap String Json)} {query : Query} {clause : ReturnClause}
    (hread : query.createClause = none) (hreturn : query.returnClause = some clause) :
    executeQueryOnStore store params query =
      (sourceTuples (readExecutor store params) query >>= fun ts =>
        (returnTuples (readExecutor store params).eval clause ts >>=
          orderTuples (readExecutor store params).eval query.orderBy).map
            fun rows => toQueryResult (returnNames clause) (limitTuples query.limit rows),
        store) := by
  cases hsource : planSource query with
  | error fault =>
    have hplan : plan query = .error fault := by
      unfold plan
      rw [hsource]
      rfl
    rw [executeQueryOnStore, sourceTuples, hplan, hsource]
    rfl
  | ok source =>
    rw [executeQueryOnStore, plan_return hreturn hsource, sourceTuples, hsource]
    show (if query.createClause.isSome = true then _ else
      ((runExec (execute (readExecutor store params) _) none).1, store)) = _
    rw [hread, if_neg (by simp), execute_eq_eval, projectionNames_returnPlan, readNode_limitPlan,
      readNode_orderPlan, readNode_planReturn]
    show _ = (readNode (readExecutor store params).eval (readExecutor store params).read ∅
      (planPipeline query source) >>= _, store)
    cases readNode (readExecutor store params).eval (readExecutor store params).read ∅
      (planPipeline query source) with
    | error fault => rfl
    | ok ts =>
      show (Except.map _ (Except.map _ (returnTuples _ clause ts >>= _)), store) =
        (Except.map _ (returnTuples _ clause ts >>= _), store)
      cases returnTuples (readExecutor store params).eval clause ts >>=
        orderTuples (readExecutor store params).eval query.orderBy <;> rfl

/-- **A read query returns what RETURN, ORDER BY and LIMIT make of the tuples that reach
them**, and leaves the store as it is. -/
theorem executeQueryOnStore_eq {store : InMemoryGraphStore} {params : Option (HashMap String Json)}
    {query : Query} {clause : ReturnClause} {ts : List Tuple} (hread : query.createClause = none)
    (hreturn : query.returnClause = some clause)
    (hts : sourceTuples (readExecutor store params) query = .ok ts) :
    executeQueryOnStore store params query =
      ((returnTuples (readExecutor store params).eval clause ts >>=
          orderTuples (readExecutor store params).eval query.orderBy).map
        fun rows => toQueryResult (returnNames clause) (limitTuples query.limit rows), store) := by
  rw [executeQueryOnStore_read hread hreturn, hts]
  rfl

end KuzuEventBus
