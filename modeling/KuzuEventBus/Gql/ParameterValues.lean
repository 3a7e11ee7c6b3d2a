import KuzuEventBus.Gql.OnStore

/-!
# Parameters and literals

A named parameter is handed to the executor beside the query, and its value is looked up where the
parameter is evaluated.  The values that come from JSON are those that literals have, so a query
can be compared with the one that has the literals in place of the parameters: the planner makes
the same operators of both, and the executor returns the same rows, writes the same nodes and fails
with the same errors.

## Main definitions

* `QueryOf.map`, `PlanNode.map` — the expressions of a query or a plan replaced by others.
* `Value.literal?`, `Expr.bindParameters`, `Query.bindParameters` — literals for parameters.
* `Lookalike` — the planner cannot tell the expressions from those they replace.

## Main results

* `plan_map` — the plan of the query with other expressions is the plan with other expressions.
* `executeQueryOnStore_bindParameters` — **a parameter is the literal of its value**.
-/

namespace KuzuEventBus

/-! ### Other expressions in a query -/

/-- The query with other expressions. -/
def QueryOf.map {E E' : Type} (f : E → E') (query : QueryOf E) : QueryOf E' where
  matchClause := query.matchClause
  createClause := query.createClause
  withClause := query.withClause.map fun w => ⟨w.items.map fun i => ⟨f i.expr, i.aliasName⟩⟩
  whereClause := query.whereClause.map fun w => ⟨f w.expr⟩
  returnClause := query.returnClause.map fun r => ⟨r.items.map fun i => ⟨f i.expr, i.aliasName⟩⟩
  orderBy := query.orderBy.map fun o => ⟨o.items.map fun i => ⟨f i.expr, i.descending⟩⟩
  limit := query.limit

/-- The plan with other expressions. -/
def PlanNode.map (f : Expr → Expr) : PlanNode → PlanNode
  | .labelScan var label => .labelScan var label
  | .fullScan var => .fullScan var
  | .create patterns => .create patterns
  | .matchCreate matchInput patterns => .matchCreate (matchInput.map f) patterns
  | .filter input predicate => .filter (input.map f) (f predicate)
  | .project input items => .project (input.map f) (items.map fun i => ⟨f i.expr, i.aliasName⟩)
  | .orderBy input items => .orderBy (input.map f) (items.map fun i => ⟨f i.expr, i.descending⟩)
  | .aggregate input groupBy aggregates =>
    .aggregate (input.map f) (groupBy.map f) (aggregates.map fun a => (a.1, f a.2))
  | .limit input count => .limit (input.map f) count
  | .expand input fromVar edgeVar toVar edgeType direction depth =>
    .expand (input.map f) fromVar edgeVar toVar edgeType direction depth
  | .cartesianProduct left right => .cartesianProduct (left.map f) (right.map f)

/-- The name of a column after its expression, if the expression has one. -/
def Expr.columnName? : Expr → Option String
  | .ident name => some name
  | .property var prop => some (propKey var prop)
  | _ => none

/-- The aggregate function of an expression that is an aggregate. -/
def Expr.aggregate? : Expr → Option (AggFunc × Expr)
  | .aggregate func arg => some (func, arg)
  | _ => none

/-- The planner and the operators see no difference between an expression and what replaces it. -/
structure Lookalike (f : Expr → Expr) : Prop where
  hasAggregate : ∀ e, hasAggregate (f e) = hasAggregate e
  columnName : ∀ e, (f e).columnName? = e.columnName?
  aggregate : ∀ e, (f e).aggregate? = e.aggregate?.map fun a => (a.1, f a.2)
  plannerMade : ∀ e, PlannerMade e → f e = e

theorem itemName_eq (item : ReturnItem) :
    itemName item = item.aliasName.getD (item.expr.columnName?.getD "?") := by
  unfold itemName Expr.columnName?
  cases item.expr <;> rfl

theorem groupColumn_eq (i : ℕ) (e : Expr) :
    groupColumn i e = e.columnName?.getD ("group_" ++ toString i) := by
  unfold groupColumn Expr.columnName?
  cases e <;> rfl

theorem aggregateAlias_eq (item : ReturnItem) : aggregateAlias item =
    item.aliasName.getD ((item.expr.aggregate?.map fun a => a.1.lowerName).getD "agg") := by
  unfold aggregateAlias Expr.aggregate?
  cases item.expr <;> rfl

section Plans

variable {f : Expr → Expr} (hf : Lookalike f)
include hf

theorem Lookalike.itemName (item : ReturnItem) :
    itemName ⟨f item.expr, item.aliasName⟩ = itemName item := by
  rw [itemName_eq, itemName_eq, hf.columnName]

theorem Lookalike.aggregateAlias (item : ReturnItem) :
    aggregateAlias ⟨f item.expr, item.aliasName⟩ = aggregateAlias item := by
  rw [aggregateAlias_eq, aggregateAlias_eq, hf.aggregate, Option.map_map]
  rfl

/-- The plan of a MATCH has no expressions but those of the planner. -/
theorem PlanNode.OfMatch.map_eq {node : PlanNode} (h : node.OfMatch) : node.map f = node := by
  induction h with
  | labelScan | fullScan => rfl
  | filter _ hpred ih => rw [PlanNode.map, ih, hf.plannerMade _ hpred]
  | expand _ _ _ _ _ _ _ ih => rw [PlanNode.map, ih]
  | cartesianProduct _ _ ihl ihr => rw [PlanNode.map, ihl, ihr]

theorem planSource_map {query : Query} {node : PlanNode} (h : planSource query = .ok node) :
    node.map f = node := by
  unfold planSource at h
  split at h
  · obtain ⟨m, hm, hnode⟩ := bind_eq_ok h
    cases hnode
    rw [PlanNode.map, (planMatch_ofMatch hm).map_eq hf]
  · exact (planMatch_ofMatch h).map_eq hf
  · unfold planCreate at h
    split at h
    · simp [invalidArgument] at h
    · cases h
      rfl
  · simp [invalidArgument] at h

omit hf in
theorem filterBy_map (node : PlanNode) (predicate : Option Expr) :
    (filterBy node predicate).map f = filterBy (node.map f) (predicate.map f) := by
  cases predicate <;> rfl

omit hf in
theorem planPipeline_map (query : Query) (node : PlanNode) :
    (planPipeline query node).map f = planPipeline (query.map f) (node.map f) := by
  unfold planPipeline
  rw [filterBy_map]
  cases hwith : query.withClause with
  | none => cases hwhere : query.whereClause <;> simp [QueryOf.map, hwith, hwhere]
  | some w =>
    cases hwhere : query.whereClause <;>
      simp [QueryOf.map, hwith, hwhere, PlanNode.map, Function.comp_def]

theorem planReturn_map (node : PlanNode) (items : List ReturnItem) :
    (planReturn node ⟨items⟩).map f =
      planReturn (node.map f) ⟨items.map fun i => ⟨f i.expr, i.aliasName⟩⟩ := by
  have hany : (items.map fun i => (⟨f i.expr, i.aliasName⟩ : ReturnItem)).any
      (hasAggregate ·.expr) = items.any (hasAggregate ·.expr) := by
    rw [List.any_map]
    congr 1
    funext i
    exact hf.hasAggregate i.expr
  have hfilter : ∀ test : Bool → Bool,
      (items.map fun i => (⟨f i.expr, i.aliasName⟩ : ReturnItem)).filter
          (fun i => test (hasAggregate i.expr)) =
        (items.filter fun i => test (hasAggregate i.expr)).map
          fun i => ⟨f i.expr, i.aliasName⟩ := by
    intro test
    rw [List.filter_map]
    congr 2
    funext i
    exact congrArg test (hf.hasAggregate i.expr)
  unfold planReturn
  simp only [hany]
  split
  · have hgroup := hfilter (!·)
    have hagg := hfilter id
    simp only [id] at hagg
    simp only [hgroup, hagg, PlanNode.map, List.map_map, Function.comp_def, hf.aggregateAlias]
  · rfl

/-- **The plan of the query with other expressions is the plan with other expressions.** -/
theorem plan_map (query : Query) :
    plan (query.map f) = (plan query).map fun p => ⟨p.root.map f⟩ := by
  have hsource : planSource (query.map f) = planSource query := rfl
  cases h : planSource query with
  | error e =>
    unfold plan
    rw [hsource, h]
    rfl
  | ok source =>
    have hpipeline := planPipeline_map (f := f) query source
    rw [planSource_map hf h] at hpipeline
    rw [h] at hsource
    cases hreturn : query.returnClause with
    | none =>
      have hreturn' : (query.map f).returnClause = none := by simp [QueryOf.map, hreturn]
      unfold plan
      rw [hsource, h, hreturn, hreturn']
      show Except.ok (⟨planPipeline (query.map f) source⟩ : ExecutionPlan) =
        .ok ⟨(planPipeline query source).map f⟩
      rw [hpipeline]
    | some clause =>
      have hreturn' : (query.map f).returnClause =
          some ⟨clause.items.map fun i => ⟨f i.expr, i.aliasName⟩⟩ := by
        simp [QueryOf.map, hreturn]
      have hplan := planReturn_map hf (planPipeline query source) clause.items
      rw [hpipeline] at hplan
      rw [plan_return hreturn h, plan_return hreturn' hsource, ← hplan]
      cases horder : query.orderBy <;> cases hlimit : query.limit <;>
        simp [QueryOf.map, horder, hlimit, orderPlan, limitPlan, PlanNode.map, Except.map]

end Plans

/-! ### Literals for parameters -/

/-- The literal that has the value; there is none for a node id. -/
def Value.literal? : Value → Option Literal
  | .string s => some (.string s)
  | .int i => some (.int i)
  | .float f => some (.float f)
  | .bool b => some (.bool b)
  | .null => some .null
  | .nodeId _ => none

/-- What takes the place of a parameter. -/
def bindParameter (parameters : HashMap String Value) (name : String) : Expr :=
  match (parameters.lookup name).bind Value.literal? with
  | some l => .literal l
  | none => .parameter name

mutual

/-- The literals of the values in place of the parameters. -/
def Expr.bindParameters (parameters : HashMap String Value) : Expr → Expr
  | .literal l => .literal l
  | .ident name => .ident name
  | .property var prop => .property var prop
  | .parameter name => bindParameter parameters name
  | .binaryOp left op right =>
    .binaryOp (left.bindParameters parameters) op (right.bindParameters parameters)
  | .unaryOp op operand => .unaryOp op (operand.bindParameters parameters)
  | .aggregate func arg => .aggregate func (arg.bindParameters parameters)
  | .functionCall name args => .functionCall name (bindArgs parameters args)
  | .isNull e => .isNull (e.bindParameters parameters)
  | .isNotNull e => .isNotNull (e.bindParameters parameters)
  | .exists subquery => .exists (bindQuery parameters subquery)

/-- … in the arguments of a call. -/
def bindArgs (parameters : HashMap String Value) : List Expr → List Expr
  | [] => []
  | e :: es => e.bindParameters parameters :: bindArgs parameters es

/-- … in a query. -/
def bindQuery (parameters : HashMap String Value) : QueryOf Expr → QueryOf Expr
  | ⟨matchClause, createClause, withClause, whereClause, returnClause, orderBy, limit⟩ =>
    ⟨matchClause, createClause, bindWith parameters withClause, bindWhere parameters whereClause,
      bindReturn parameters returnClause, bindOrderBy parameters orderBy, limit⟩

/-- … in a WITH clause. -/
def bindWith (parameters : HashMap String Value) :
    Option (WithClauseOf Expr) → Option (WithClauseOf Expr)
  | none => none
  | some ⟨items⟩ => some ⟨bindWithItems parameters items⟩

/-- … in its items. -/
def bindWithItems (parameters : HashMap String Value) :
    List (WithItemOf Expr) → List (WithItemOf Expr)
  | [] => []
  | ⟨e, aliasName⟩ :: items =>
    ⟨e.bindParameters parameters, aliasName⟩ :: bindWithItems parameters items

/-- … in a WHERE clause. -/
def bindWhere (parameters : HashMap String Value) :
    Option (WhereClauseOf Expr) → Option (WhereClauseOf Expr)
  | none => none
  | some ⟨e⟩ => some ⟨e.bindParameters parameters⟩

/-- … in a RETURN clause. -/
def bindReturn (parameters : HashMap String Value) :
    Option (ReturnClauseOf Expr) → Option (ReturnClauseOf Expr)
  | none => none
  | some ⟨items⟩ => some ⟨bindItems parameters items⟩

/-- … in its items. -/
def bindItems (parameters : HashMap String Value) :
    List (ReturnItemOf Expr) → List (ReturnItemOf Expr)
  | [] => []
  | ⟨e, aliasName⟩ :: items =>
    ⟨e.bindParameters parameters, aliasName⟩ :: bindItems parameters items

/-- … in an ORDER BY clause. -/
def bindOrderBy (parameters : HashMap String Value) :
    Option (OrderByClauseOf Expr) → Option (OrderByClauseOf Expr)
  | none => none
  | some ⟨items⟩ => some ⟨bindOrderItems parameters items⟩

/-- … in its items. -/
def bindOrderItems (parameters : HashMap String Value) :
    List (OrderByItemOf Expr) → List (OrderByItemOf Expr)
  | [] => []
  | ⟨e, descending⟩ :: items =>
    ⟨e.bindParameters parameters, descending⟩ :: bindOrderItems parameters items

end

variable {parameters : HashMap String Value}

theorem bindWithItems_eq (items : List WithItem) : bindWithItems parameters items =
    items.map fun i => ⟨i.expr.bindParameters parameters, i.aliasName⟩ := by
  induction items with
  | nil => rfl
  | cons item items ih => rw [bindWithItems, ih, List.map_cons]

theorem bindItems_eq (items : List ReturnItem) : bindItems parameters items =
    items.map fun i => ⟨i.expr.bindParameters parameters, i.aliasName⟩ := by
  induction items with
  | nil => rfl
  | cons item items ih => rw [bindItems, ih, List.map_cons]

theorem bindOrderItems_eq (items : List OrderByItem) : bindOrderItems parameters items =
    items.map fun i => ⟨i.expr.bindParameters parameters, i.descending⟩ := by
  induction items with
  | nil => rfl
  | cons item items ih => rw [bindOrderItems, ih, List.map_cons]

/-- The literals are put into each expression of the query. -/
theorem bindQuery_eq (query : Query) :
    bindQuery parameters query = query.map (Expr.bindParameters parameters) := by
  obtain ⟨_, _, withClause, whereClause, returnClause, orderBy, _⟩ := query
  rw [bindQuery, QueryOf.map]
  congr 1
  · cases withClause with
    | none => rfl
    | some w => rw [bindWith, bindWithItems_eq]; rfl
  · cases whereClause <;> rfl
  · cases returnClause with
    | none => rfl
    | some r => rw [bindReturn, bindItems_eq]; rfl
  · cases orderBy with
    | none => rfl
    | some o => rw [bindOrderBy, bindOrderItems_eq]; rfl

theorem bindParameter_cases (parameters : HashMap String Value) (name : String) :
    (∃ l, bindParameter parameters name = .literal l) ∨
      bindParameter parameters name = .parameter name := by
  unfold bindParameter
  split
  · exact .inl ⟨_, rfl⟩
  · exact .inr rfl

theorem hasAggregate_bindParameters (parameters : HashMap String Value) :
    ∀ e : Expr, hasAggregate (e.bindParameters parameters) = hasAggregate e
  | .parameter name => by
    rw [Expr.bindParameters]
    rcases bindParameter_cases parameters name with ⟨l, h⟩ | h <;> simp [h, hasAggregate]
  | .binaryOp left op right => by
    rw [Expr.bindParameters, hasAggregate, hasAggregate,
      hasAggregate_bindParameters parameters left, hasAggregate_bindParameters parameters right]
  | .unaryOp op operand => hasAggregate_bindParameters parameters operand
  | .literal _ | .ident _ | .property _ _ | .aggregate _ _ | .functionCall _ _ | .isNull _
  | .isNotNull _ | .exists _ => rfl

/-- The planner cannot tell a literal from a parameter. -/
theorem lookalike_bindParameters (parameters : HashMap String Value) :
    Lookalike (Expr.bindParameters parameters) where
  hasAggregate := hasAggregate_bindParameters parameters
  columnName := by
    intro e
    cases e with
    | parameter name =>
      rw [Expr.bindParameters]
      rcases bindParameter_cases parameters name with ⟨l, h⟩ | h <;> simp [h, Expr.columnName?]
    | _ => rfl
  aggregate := by
    intro e
    cases e with
    | parameter name =>
      rw [Expr.bindParameters]
      rcases bindParameter_cases parameters name with ⟨l, h⟩ | h <;> simp [h, Expr.aggregate?]
    | _ => rfl
  plannerMade := by
    intro e h
    induction h with
    | propEq => rfl
    | and _ _ iha ihb => rw [Expr.bindParameters, iha, ihb]
    | endsDiffer => rfl

/-! ### Operators with other expressions -/

section Operators

variable {f : Expr → Expr} (hf : Lookalike f) {ev ev' : Eval} (hev : ∀ e t, ev e t = ev' (f e) t)
include hf hev

omit hf in
theorem accepts_map (predicate : Expr) : accepts ev predicate = accepts ev' (f predicate) := by
  funext tuple
  rw [accepts, accepts, hev]

theorem projectTuple_map (items : List ReturnItem) : projectTuple ev items =
    projectTuple ev' (items.map fun i => ⟨f i.expr, i.aliasName⟩) := by
  funext tuple
  rw [projectTuple, projectTuple, List.mapM_map]
  simp only [hev, Function.comp_def, hf.itemName]

omit hf in
theorem numericValues_map (arg : Expr) : numericValues ev arg = numericValues ev' (f arg) := by
  funext tuples
  simp only [numericValues, hev]

theorem evalAggregate_map (e : Expr) : evalAggregate ev e = evalAggregate ev' (f e) := by
  funext tuples
  have hagg := hf.aggregate e
  cases e with
  | aggregate func arg =>
    have hfe : f (.aggregate func arg) = .aggregate func (f arg) := by
      cases h : f (.aggregate func arg) <;> simp_all [Expr.aggregate?]
    rw [hfe]
    cases func <;> simp only [evalAggregate, numericValues_map hev arg]
  | _ =>
    -- neither of the two is an aggregate
    cases h : f _ <;> first | rfl | simp [h, Expr.aggregate?] at hagg

theorem aggregateColumns_map (aggregates : List (String × Expr)) : aggregateColumns ev aggregates =
    aggregateColumns ev' (aggregates.map fun a => (a.1, f a.2)) := by
  funext tuples
  rw [aggregateColumns, aggregateColumns, List.mapM_map]
  simp only [Function.comp_def, evalAggregate_map hf hev]

theorem groupColumns_map (groupBy : List Expr) :
    groupColumns ev groupBy = groupColumns ev' (groupBy.map f) := by
  funext tuples
  rw [groupColumns, groupColumns]
  cases tuples.head? with
  | none => rfl
  | some first =>
    have hcolumn : ∀ (i : ℕ) (e : Expr), groupColumn i (f e) = groupColumn i e := by
      intro i e
      rw [groupColumn_eq, groupColumn_eq, hf.columnName]
    simp [List.zipIdx_map, List.mapM_map, Function.comp_def, hev, hcolumn]

omit hf in
theorem groupTuples_map (groupBy : List Expr) :
    groupTuples ev groupBy = groupTuples ev' (groupBy.map f) := by
  have hkey : groupKey ev groupBy = groupKey ev' (groupBy.map f) := by
    funext tuple
    rw [groupKey, groupKey, List.mapM_map]
    simp only [Function.comp_def, hev]
  funext tuples
  simp only [groupTuples, hkey]

theorem aggregateTuples_map (groupBy : List Expr) (aggregates : List (String × Expr)) :
    aggregateTuples ev groupBy aggregates =
      aggregateTuples ev' (groupBy.map f) (aggregates.map fun a => (a.1, f a.2)) := by
  funext tuples
  simp only [aggregateTuples, aggregateColumns_map hf hev, groupColumns_map hf hev,
    groupTuples_map hev, List.isEmpty_map]

omit hf in
theorem compareTuples_map (items : List OrderByItem) (a b : Tuple) : compareTuples ev a b items =
    compareTuples ev' a b (items.map fun i => ⟨f i.expr, i.descending⟩) := by
  induction items with
  | nil => rfl
  | cons item items ih => simp only [List.map_cons, compareTuples, hev, ih]

omit hf in
theorem sortTuples_map_items (items : List OrderByItem) : sortTuples ev items =
    sortTuples ev' (items.map fun i => ⟨f i.expr, i.descending⟩) := by
  have hinsert : ∀ a bs, insertTuple ev items a bs =
      insertTuple ev' (items.map fun i => ⟨f i.expr, i.descending⟩) a bs := by
    intro a bs
    induction bs with
    | nil => rfl
    | cons b bs ih => rw [insertTuple, insertTuple, compareTuples_map hev, ih]
  funext tuples
  induction tuples with
  | nil => rfl
  | cons a as ih => simp only [sortTuples, ih, hinsert]

end Operators

/-- The operators run a plan as they run the one with other expressions. -/
theorem executeNodeWith_map {f : Expr → Expr} (hf : Lookalike f)
    {ev ev' : Executor → Tuple → Option InMemoryGraphStore → Expr → Except Fault Value}
    (ex ex' : Executor) (parent : Tuple) (hread : ex.read = ex'.read)
    (hev : ∀ e t, ev ex t none e = ev' ex' t none (f e)) (node : PlanNode) :
    executeNodeWith ev ex parent node = executeNodeWith ev' ex' parent (node.map f) := by
  have hreader : ex.reader = ex'.reader := by
    funext write
    rw [Executor.reader, Executor.reader, hread]
  induction node with
  | create => rfl
  | labelScan | fullScan => simp only [executeNodeWith, PlanNode.map, hreader]
  | matchCreate _ _ ih | limit _ _ ih => simp only [executeNodeWith, PlanNode.map, ih]
  | expand _ _ _ _ _ _ _ ih => simp only [executeNodeWith, PlanNode.map, ih, hreader]
  | cartesianProduct _ _ ihl ihr => simp only [executeNodeWith, PlanNode.map, ihl, ihr]
  | filter input predicate ih =>
    have h : accepts (fun e t => ev ex t none e) predicate =
      accepts (fun e t => ev' ex' t none e) (f predicate) := accepts_map hev predicate
    simp only [executeNodeWith, PlanNode.map, ih, h]
  | project input items ih =>
    have h : projectTuple (fun e t => ev ex t none e) items =
      projectTuple (fun e t => ev' ex' t none e) _ := projectTuple_map hf hev items
    simp only [executeNodeWith, PlanNode.map, ih, h]
  | orderBy input items ih =>
    have h : sortTuples (fun e t => ev ex t none e) items =
      sortTuples (fun e t => ev' ex' t none e) _ := sortTuples_map_items hev items
    simp only [executeNodeWith, PlanNode.map, ih, h]
  | aggregate input groupBy aggregates ih =>
    have h : aggregateTuples (fun e t => ev ex t none e) groupBy aggregates =
      aggregateTuples (fun e t => ev' ex' t none e) _ _ :=
      aggregateTuples_map hf hev groupBy aggregates
    simp only [executeNodeWith, PlanNode.map, ih, h]

/-! ### Evaluation -/

/-- Each parameter has a literal. -/
def HasLiterals (parameters : HashMap String Value) : Prop :=
  ∀ name v, parameters.lookup name = some v → ∃ l, v.literal? = some l

/-- A value is what its literal evaluates to. -/
theorem evalLiteral_of_literal? {v : Value} {l : Literal} (h : v.literal? = some l) :
    evalLiteral l = v := by
  cases v <;> simp only [Value.literal?, Option.some.injEq, reduceCtorEq] at h <;> subst h <;> rfl

section Evaluation

variable (hlit : HasLiterals parameters)
include hlit

/-- The literal in place of a parameter is evaluated to the value of the parameter. -/
theorem evalExprWith_bindParameter {sub : Executor → PlanNode → Tuple → Except Fault (List Tuple)}
    {read : Option InMemoryGraphStore} {tuple : Tuple} {write : Option InMemoryGraphStore}
    (name : String) :
    evalExprWith sub ⟨read, parameters⟩ tuple write (.parameter name) =
      evalExprWith sub ⟨read, ∅⟩ tuple write (bindParameter parameters name) := by
  unfold bindParameter
  cases h : parameters.lookup name with
  | none => simp [evalExprWith, h]
  | some v =>
    obtain ⟨l, hl⟩ := hlit name v h
    simp [evalExprWith, h, hl, evalLiteral_of_literal? hl]

/-- **An expression has the value of the one with literals for its parameters**, where the
plans of its sub-queries have the rows of those with literals. -/
theorem evalExprWith_bindParameters {sub : Executor → PlanNode → Tuple → Except Fault (List Tuple)}
    (hsub : ∀ (read : Option InMemoryGraphStore) (node : PlanNode) (tuple : Tuple),
      sub ⟨read, parameters⟩ node tuple =
        sub ⟨read, ∅⟩ (node.map (Expr.bindParameters parameters)) tuple)
    {read : Option InMemoryGraphStore} {tuple : Tuple} :
    ∀ (e : Expr) (write : Option InMemoryGraphStore),
      evalExprWith sub ⟨read, parameters⟩ tuple write e =
        evalExprWith sub ⟨read, ∅⟩ tuple write (e.bindParameters parameters)
  | .literal _, _ | .ident _, _ | .property _ _, _ | .aggregate _ _, _ => rfl
  | .parameter name, _ => evalExprWith_bindParameter hlit name
  | .binaryOp left op right, _ => by
    simp only [Expr.bindParameters, evalExprWith, evalExprWith_bindParameters hsub left none,
      evalExprWith_bindParameters hsub right none]
  | .unaryOp .not operand, _ => by
    simp only [Expr.bindParameters, evalExprWith, evalExprWith_bindParameters hsub operand none]
  | .isNull e, _ => by
    simp only [Expr.bindParameters, evalExprWith, evalExprWith_bindParameters hsub e none]
  | .isNotNull e, _ => by
    simp only [Expr.bindParameters, evalExprWith, evalExprWith_bindParameters hsub e none]
  | .functionCall name [], _ | .functionCall name (_ :: _ :: _), _ => rfl
  | .functionCall name [arg], _ => by
    simp only [Expr.bindParameters, bindArgs, evalExprWith,
      evalExprWith_bindParameters hsub arg none]
  | .exists query, write => by
    have hfast : existsFastPath ⟨read, parameters⟩ query tuple write =
        existsFastPath ⟨read, ∅⟩ (query.map (Expr.bindParameters parameters)) tuple write := by
      unfold existsFastPath
      cases hwhere : query.whereClause <;> simp only [QueryOf.map, hwhere] <;> rfl
    rw [Expr.bindParameters, bindQuery_eq, evalExprWith, evalExprWith, ← hfast,
      plan_map (lookalike_bindParameters parameters)]
    cases existsFastPath ⟨read, parameters⟩ query tuple write with
    | some b => rfl
    | none =>
      cases plan query with
      | error fault => cases fault <;> rfl
      | ok p =>
        have hreader : Executor.reader ⟨read, parameters⟩ write =
          Executor.reader ⟨read, ∅⟩ write := rfl
        simp only [Except.map, hreader, hsub]

theorem subqueryAt_bindParameters (d : ℕ) (read : Option InMemoryGraphStore) (node : PlanNode)
    (tuple : Tuple) : subqueryAt d ⟨read, parameters⟩ node tuple =
      subqueryAt d ⟨read, ∅⟩ (node.map (Expr.bindParameters parameters)) tuple := by
  induction d generalizing read node tuple with
  | zero => rfl
  | succ d ih =>
    have hnode := executeNodeWith_map (lookalike_bindParameters parameters) ⟨read, parameters⟩
      ⟨read, ∅⟩ tuple rfl (fun e _ => evalExprWith_bindParameters hlit ih e none) node
    rw [subqueryAt, subqueryAt, hnode]

/-- A plan runs as the one with literals for the parameters. -/
theorem executeNode_bindParameters (read : Option InMemoryGraphStore) (parent : Tuple)
    (node : PlanNode) : executeNode ⟨read, parameters⟩ parent node =
      executeNode ⟨read, ∅⟩ parent (node.map (Expr.bindParameters parameters)) := by
  have hleft := executeNodeAt_eq (Nat.le_max_left node.existsDepth
    (node.map (Expr.bindParameters parameters)).existsDepth) ⟨read, parameters⟩ parent
  have hright := executeNodeAt_eq (Nat.le_max_right node.existsDepth
    (node.map (Expr.bindParameters parameters)).existsDepth) ⟨read, ∅⟩ parent
  rw [← hleft, ← hright]
  exact executeNodeWith_map (lookalike_bindParameters parameters) ⟨read, parameters⟩ ⟨read, ∅⟩
    parent rfl
    (fun e _ => evalExprWith_bindParameters hlit (subqueryAt_bindParameters hlit _) e none) node

end Evaluation

/-! ### Queries on a store -/

theorem projectionNames_map {f : Expr → Expr} (hf : Lookalike f) (node : PlanNode) :
    projectionNames (node.map f) = projectionNames node := by
  induction node with
  | project input items _ =>
    simp [PlanNode.map, projectionNames, Function.comp_def, hf.itemName]
  | orderBy _ _ ih | limit _ _ ih => exact ih
  | _ => rfl

/-- JSON has no node ids. -/
theorem literal?_of_fromJson {j : Json} {v : Value} (h : Value.fromJson j = some v) :
    ∃ l, v.literal? = some l := by
  cases v with
  | nodeId id =>
    unfold Value.fromJson at h
    split at h <;> try simp at h
    split at h <;> simp at h
  | _ => exact ⟨_, rfl⟩

/-- The parameters of a request have literals. -/
theorem hasLiterals_paramValues (params : Option (HashMap String Json)) :
    HasLiterals (paramValues params) := by
  intro name v h
  rcases AList.lookup_insertAll_eq_some h with h | h
  · obtain ⟨kv, -, hkv⟩ := List.mem_filterMap.mp h
    obtain ⟨v', hv', heq⟩ := Option.map_eq_some_iff.mp hkv
    cases heq
    exact literal?_of_fromJson hv'
  · simp at h

/-- **A parameter is the literal of its value**: a query with parameters returns what the query
with literals in their place returns without any, writes what it writes and fails as it fails. -/
theorem executeQueryOnStore_bindParameters (store : InMemoryGraphStore)
    (params : Option (HashMap String Json)) (query : Query) :
    executeQueryOnStore store params query =
      executeQueryOnStore store none (bindQuery (paramValues params) query) := by
  have hlit := hasLiterals_paramValues params
  have hnone : paramValues none = ∅ := rfl
  have hlook := lookalike_bindParameters (paramValues params)
  have hexecute : ∀ (read : Option InMemoryGraphStore) (p : ExecutionPlan),
      execute ⟨read, paramValues params⟩ p =
        execute ⟨read, ∅⟩ ⟨p.root.map (Expr.bindParameters (paramValues params))⟩ := by
    intro read p
    simp only [execute, executeNode_bindParameters hlit, projectionNames_map hlook]
  rw [bindQuery_eq]
  simp only [executeQueryOnStore, plan_map hlook, hnone]
  cases plan query with
  | error fault => rfl
  | ok p =>
    simp only [Except.map, hexecute]
    rfl

end KuzuEventBus
