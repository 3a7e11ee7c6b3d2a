import KuzuEventBus.Gql.Executor

/-!
# The read path

A plan that does not write is a function from the store it reads to its rows.
`readNode` is that function, written without the write handle; the executor
computes it whichever way it gets at the store.  What is left to differ between
the read path and the write path is evaluation, and expressions without `EXISTS`
do not look at the store at all.

## Main definitions

* `AgreeUpTo d ev ev'` — two evaluations agree where `EXISTS` is nested at most `d` deep.
* `PlanNode.writes` — the plan holds a CREATE.
* `readNode` — the meaning of a plan as a function of the store.

## Main results

* `readNode_congr`, `executeNodeWith_congr` — what a result depends on.
* `executeNodeWith_eq_readNode` — **the executor refines `readNode`**.
* `execute_write_eq_read` — the read path and the write path agree without `EXISTS`.
-/

namespace KuzuEventBus

/-! ### What the rows depend on -/

/-- Two evaluations agree on the expressions in which `EXISTS` is nested at most `d` deep. -/
def AgreeUpTo (d : ℕ) (ev ev' : Eval) : Prop :=
  ∀ e : Expr, e.existsDepth ≤ d → ∀ tuple, ev e tuple = ev' e tuple

variable {d : ℕ} {ev ev' : Eval}

theorem AgreeUpTo.accepts (h : AgreeUpTo d ev ev') {predicate : Expr}
    (hd : predicate.existsDepth ≤ d) : accepts ev predicate = accepts ev' predicate := by
  funext tuple
  rw [KuzuEventBus.accepts, KuzuEventBus.accepts, h predicate hd]

theorem AgreeUpTo.projectTuple (h : AgreeUpTo d ev ev') {items : List ReturnItem}
    (hd : itemsExistsDepth items ≤ d) : projectTuple ev items = projectTuple ev' items := by
  funext tuple
  rw [itemsExistsDepth_le] at hd
  rw [KuzuEventBus.projectTuple, KuzuEventBus.projectTuple]
  congr 1
  apply mapM_congr
  intro item hitem
  rw [h item.expr (hd item hitem)]

theorem AgreeUpTo.numericValues (h : AgreeUpTo d ev ev') {arg : Expr} (hd : arg.existsDepth ≤ d) :
    numericValues ev arg = numericValues ev' arg := by
  funext tuples
  simp only [KuzuEventBus.numericValues, h arg hd]

theorem AgreeUpTo.evalAggregate (h : AgreeUpTo d ev ev') {e : Expr} (hd : e.existsDepth ≤ d) :
    evalAggregate ev e = evalAggregate ev' e := by
  funext tuples
  cases e with
  | aggregate func arg =>
    rw [Expr.existsDepth] at hd
    cases func <;> simp only [KuzuEventBus.evalAggregate, h.numericValues hd]
  | _ => rfl

theorem AgreeUpTo.aggregateColumns (h : AgreeUpTo d ev ev') {aggregates : List (String × Expr)}
    (hd : argsExistsDepth (aggregates.map Prod.snd) ≤ d) :
    aggregateColumns ev aggregates = aggregateColumns ev' aggregates := by
  funext tuples
  rw [argsExistsDepth_le] at hd
  apply mapM_congr
  intro a ha
  rw [h.evalAggregate (hd a.2 (List.mem_map_of_mem ha))]

theorem AgreeUpTo.groupColumns (h : AgreeUpTo d ev ev') {groupBy : List Expr}
    (hd : argsExistsDepth groupBy ≤ d) : groupColumns ev groupBy = groupColumns ev' groupBy := by
  funext tuples
  rw [argsExistsDepth_le] at hd
  rw [KuzuEventBus.groupColumns, KuzuEventBus.groupColumns]
  cases tuples.head? with
  | none => rfl
  | some first =>
    apply mapM_congr
    intro ei hei
    rw [h ei.1 (hd ei.1 (List.fst_mem_of_mem_zipIdx hei))]

theorem AgreeUpTo.groupTuples (h : AgreeUpTo d ev ev') {groupBy : List Expr}
    (hd : argsExistsDepth groupBy ≤ d) : groupTuples ev groupBy = groupTuples ev' groupBy := by
  funext tuples
  rw [argsExistsDepth_le] at hd
  have hkey : groupKey ev groupBy = groupKey ev' groupBy := by
    funext tuple
    apply mapM_congr
    intro e he
    rw [h e (hd e he)]
  simp only [KuzuEventBus.groupTuples, hkey]

theorem AgreeUpTo.aggregateTuples (h : AgreeUpTo d ev ev') {groupBy : List Expr}
    {aggregates : List (String × Expr)} (hg : argsExistsDepth groupBy ≤ d)
    (ha : argsExistsDepth (aggregates.map Prod.snd) ≤ d) :
    aggregateTuples ev groupBy aggregates = aggregateTuples ev' groupBy aggregates := by
  funext tuples
  simp only [KuzuEventBus.aggregateTuples, h.aggregateColumns ha, h.groupColumns hg,
    h.groupTuples hg]

theorem AgreeUpTo.compareTuples (h : AgreeUpTo d ev ev') {items : List OrderByItem}
    (hd : orderItemsExistsDepth items ≤ d) (a b : Tuple) :
    compareTuples ev a b items = compareTuples ev' a b items := by
  induction items with
  | nil => rfl
  | cons item items ih =>
    rw [orderItemsExistsDepth, Nat.max_le] at hd
    rw [KuzuEventBus.compareTuples, KuzuEventBus.compareTuples, h item.expr hd.1, h item.expr hd.1,
      ih hd.2]

theorem AgreeUpTo.sortTuples (h : AgreeUpTo d ev ev') {items : List OrderByItem}
    (hd : orderItemsExistsDepth items ≤ d) (tuples : List Tuple) :
    sortTuples ev items tuples = sortTuples ev' items tuples := by
  have hinsert : ∀ a bs, insertTuple ev items a bs = insertTuple ev' items a bs := by
    intro a bs
    induction bs with
    | nil => rfl
    | cons b bs ih => rw [insertTuple, insertTuple, h.compareTuples hd, ih]
  induction tuples with
  | nil => rfl
  | cons a as ih => simp only [KuzuEventBus.sortTuples, ih, hinsert]

/-! ### Plans as functions of the store -/

/-- The plan holds a CREATE. -/
def PlanNode.writes : PlanNode → Bool
  | .create _ | .matchCreate _ _ => true
  | .labelScan _ _ | .fullScan _ => false
  | .filter input _ | .project input _ | .orderBy input _ | .aggregate input _ _
  | .limit input _ | .expand input _ _ _ _ _ _ => input.writes
  | .cartesianProduct left right => left.writes || right.writes

/-- The rows of a plan as a function of the store it reads; a CREATE fails for lack of
a write handle. -/
def readNode (ev : Eval) (store : Option InMemoryGraphStore) (parent : Tuple) :
    PlanNode → Except Fault (List Tuple)
  | .create _ => invalidArgument "CREATE requires a write-capable store"
  | .matchCreate matchInput _ => do
    let _ ← readNode ev store parent matchInput
    invalidArgument "CREATE requires a write-capable store"
  | .cartesianProduct left right => do
    let leftTuples ← readNode ev store parent left
    let rightTuples ← readNode ev store parent right
    pure (productTuples leftTuples rightTuples)
  | .labelScan var label =>
    .ok (scanTuples store var parent (label ∈ ·.labels) (·.scanByLabel label))
  | .fullScan var => .ok (scanTuples store var parent (fun _ => true) (·.scanAll))
  | .filter input predicate => do
    let tuples ← readNode ev store parent input
    filterE (accepts ev predicate) tuples
  | .project input items => do
    let tuples ← readNode ev store parent input
    tuples.mapM (projectTuple ev items)
  | .aggregate input groupBy aggregates => do
    let tuples ← readNode ev store parent input
    aggregateTuples ev groupBy aggregates tuples
  | .orderBy input items => do
    let tuples ← readNode ev store parent input
    sortTuples ev items tuples
  | .limit input count => do
    let tuples ← readNode ev store parent input
    pure (tuples.take count)
  | .expand input fromVar edgeVar toVar edgeType direction depth => do
    let tuples ← readNode ev store parent input
    match store with
    | none => pure []
    | some store =>
      pure (tuples.flatMap
        (expandTuple store ⟨fromVar, edgeVar, toVar, edgeType, direction, depth⟩))

/-- The rows depend on the evaluation of the plan's own expressions only. -/
theorem readNode_congr {store : Option InMemoryGraphStore} {parent : Tuple}
    (h : AgreeUpTo d ev ev') {node : PlanNode} (hd : node.existsDepth ≤ d) :
    readNode ev store parent node = readNode ev' store parent node := by
  induction node with
  | labelScan | fullScan | create => rfl
  | matchCreate input patterns ih | limit input count ih | expand input _ _ _ _ _ _ ih =>
    simp only [readNode, ih hd]
  | cartesianProduct left right ihl ihr =>
    rw [PlanNode.existsDepth, Nat.max_le] at hd
    simp only [readNode, ihl hd.1, ihr hd.2]
  | filter input predicate ih =>
    rw [PlanNode.existsDepth, Nat.max_le] at hd
    simp only [readNode, ih hd.1, h.accepts hd.2]
  | project input items ih =>
    rw [PlanNode.existsDepth, Nat.max_le] at hd
    simp only [readNode, ih hd.1, h.projectTuple hd.2]
  | orderBy input items ih =>
    rw [PlanNode.existsDepth, Nat.max_le] at hd
    simp only [readNode, ih hd.1, h.sortTuples hd.2]
  | aggregate input groupBy aggregates ih =>
    rw [PlanNode.existsDepth, Nat.max_le, Nat.max_le] at hd
    simp only [readNode, ih hd.1, h.aggregateTuples hd.2.1 hd.2.2]

/-- A read operator after its input. -/
theorem runExec_read_bind {α β : Type} {x : Exec α} {r : Except Fault α}
    {write : Option InMemoryGraphStore} (hx : runExec x write = (r, write)) (f : α → Exec β)
    (g : α → Except Fault β) (hf : ∀ a, runExec (f a) write = (g a, write)) :
    runExec (x >>= f) write = (r >>= g, write) := by
  rw [runExec_bind, hx]
  cases r with
  | ok a => exact hf a
  | error e => rfl

/-- **The executor refines `readNode`**: on a plan that does not write, and on any plan
without a write handle, it returns the rows of the store it reads and leaves the
handle as it is. -/
theorem executeNodeWith_eq_readNode
    {ev : Executor → Tuple → Option InMemoryGraphStore → Expr → Except Fault Value}
    {ex : Executor} {parent : Tuple} {write : Option InMemoryGraphStore} {node : PlanNode}
    (h : node.writes = false ∨ write = none) :
    runExec (executeNodeWith ev ex parent node) write =
      (readNode (fun e t => ev ex t none e) (ex.reader write) parent node, write) := by
  induction node with
  | labelScan | fullScan => rfl
  | create patterns =>
    obtain rfl : write = none := h.resolve_left (by simp [PlanNode.writes])
    rfl
  | matchCreate input patterns ih =>
    obtain rfl : write = none := h.resolve_left (by simp [PlanNode.writes])
    exact runExec_read_bind (ih (.inr rfl)) _ _ fun _ => rfl
  | cartesianProduct left right ihl ihr =>
    have hl := ihl (h.imp_left fun hw => (Bool.or_eq_false_iff.mp hw).1)
    have hr := ihr (h.imp_left fun hw => (Bool.or_eq_false_iff.mp hw).2)
    exact runExec_read_bind hl _ _ fun _ => runExec_read_bind hr _ _ fun _ => rfl
  | filter input predicate ih => exact runExec_read_bind (ih h) _ _ fun _ => rfl
  | project input items ih => exact runExec_read_bind (ih h) _ _ fun _ => rfl
  | orderBy input items ih => exact runExec_read_bind (ih h) _ _ fun _ => rfl
  | aggregate input groupBy aggregates ih => exact runExec_read_bind (ih h) _ _ fun _ => rfl
  | limit input count ih => exact runExec_read_bind (ih h) _ _ fun _ => rfl
  | expand input fromVar edgeVar toVar edgeType direction depth ih =>
    refine runExec_read_bind (ih h) _ _ fun tuples => ?_
    rw [runExec_readOnly]
    cases ex.reader write <;> rfl

/-- The operators depend on the evaluation of the plan's own expressions only. -/
theorem executeNodeWith_congr
    {ev ev' : Executor → Tuple → Option InMemoryGraphStore → Expr → Except Fault Value}
    {ex : Executor} {parent : Tuple}
    (h : AgreeUpTo d (fun e t => ev ex t none e) (fun e t => ev' ex t none e)) {node : PlanNode}
    (hd : node.existsDepth ≤ d) :
    executeNodeWith ev ex parent node = executeNodeWith ev' ex parent node := by
  induction node with
  | labelScan | fullScan | create => rfl
  | matchCreate input patterns ih | limit input count ih | expand input _ _ _ _ _ _ ih =>
    simp only [executeNodeWith, ih hd]
  | cartesianProduct left right ihl ihr =>
    rw [PlanNode.existsDepth, Nat.max_le] at hd
    simp only [executeNodeWith, ihl hd.1, ihr hd.2]
  | filter input predicate ih =>
    rw [PlanNode.existsDepth, Nat.max_le] at hd
    simp only [executeNodeWith, ih hd.1, h.accepts hd.2]
  | project input items ih =>
    rw [PlanNode.existsDepth, Nat.max_le] at hd
    simp only [executeNodeWith, ih hd.1, h.projectTuple hd.2]
  | orderBy input items ih =>
    rw [PlanNode.existsDepth, Nat.max_le] at hd
    simp only [executeNodeWith, ih hd.1, h.sortTuples hd.2]
  | aggregate input groupBy aggregates ih =>
    rw [PlanNode.existsDepth, Nat.max_le, Nat.max_le] at hd
    simp only [executeNodeWith, ih hd.1, h.aggregateTuples hd.2.1 hd.2.2]

/-! ### What an expression depends on -/

/-- Two evaluations that agree on the `EXISTS` expressions nested less than `n` deep
agree on every expression in which `EXISTS` is nested at most `n` deep. -/
theorem evalExprWith_congr {sub sub' : Executor → PlanNode → Tuple → Except Fault (List Tuple)}
    {ex ex' : Executor} {tuple : Tuple} {n : ℕ} (hp : ex.parameters = ex'.parameters)
    (hq : ∀ (query : Query) (write : Option InMemoryGraphStore), queryExistsDepth query < n →
      evalExprWith sub ex tuple write (.exists query) =
        evalExprWith sub' ex' tuple write (.exists query)) :
    ∀ (e : Expr) (write : Option InMemoryGraphStore), e.existsDepth ≤ n →
      evalExprWith sub ex tuple write e = evalExprWith sub' ex' tuple write e
  | .literal _, _, _ | .ident _, _, _ | .property _ _, _, _ | .aggregate _ _, _, _ => rfl
  | .parameter name, _, _ => by rw [evalExprWith, evalExprWith, hp]
  | .binaryOp left op right, _, hd => by
    rw [Expr.existsDepth, Nat.max_le] at hd
    rw [evalExprWith, evalExprWith, evalExprWith_congr hp hq left none hd.1,
      evalExprWith_congr hp hq right none hd.2]
  | .unaryOp .not operand, _, hd => by
    rw [evalExprWith, evalExprWith, evalExprWith_congr hp hq operand none hd]
  | .isNull e, _, hd => by
    rw [evalExprWith, evalExprWith, evalExprWith_congr hp hq e none hd]
  | .isNotNull e, _, hd => by
    rw [evalExprWith, evalExprWith, evalExprWith_congr hp hq e none hd]
  | .functionCall name [], _, _ => rfl
  | .functionCall name [arg], _, hd => by
    have harg : arg.existsDepth ≤ n := (Nat.le_max_left _ _).trans hd
    rw [evalExprWith, evalExprWith, evalExprWith_congr hp hq arg none harg]
  | .functionCall name (_ :: _ :: _), _, _ => rfl
  | .exists query, write, hd => hq query write hd

/-! ### The read path and the write path -/

/-- Executing a plan that does not write returns the rows of the store it reads. -/
theorem execute_eq_readNode {ex : Executor} {plan : ExecutionPlan}
    {write : Option InMemoryGraphStore} (h : plan.root.writes = false ∨ write = none) :
    runExec (execute ex plan) write =
      ((readNode (fun e t => evalExprWith (subqueryAt plan.root.existsDepth) ex t none e)
          (ex.reader write) ∅ plan.root).map (toQueryResult (projectionNames plan.root)),
            write) := by
  refine (runExec_read_bind (executeNodeWith_eq_readNode h) _
    (fun tuples => .ok (toQueryResult (projectionNames plan.root) tuples)) fun _ => rfl).trans ?_
  cases readNode _ _ _ plan.root <;> rfl

/-- **Without EXISTS, the write path returns what the read path returns**, and leaves
the store as it is. -/
theorem execute_write_eq_read {store : InMemoryGraphStore} {plan : ExecutionPlan}
    (hread : plan.root.writes = false) (hexists : plan.root.existsDepth = 0) :
    runExec (execute .newNoRead plan) (some store) =
      ((runExec (execute (.new store) plan) none).1, some store) := by
  have hparams : Executor.newNoRead.parameters = (Executor.new store).parameters := rfl
  have hev : AgreeUpTo 0
      (fun e t => evalExprWith (subqueryAt plan.root.existsDepth) .newNoRead t none e)
      (fun e t => evalExprWith (subqueryAt plan.root.existsDepth) (.new store) t none e) :=
    fun e hd tuple =>
      evalExprWith_congr hparams (fun _ _ h => absurd h (Nat.not_lt_zero _)) e none hd
  rw [execute_eq_readNode (.inl hread), execute_eq_readNode (.inl hread),
    readNode_congr hev hexists.le]
  rfl

/-! ### EXISTS over a scan -/

open InMemoryGraphStore (twoNodes)

/-- `RETURN a` over a plan. -/
def returnA (input : PlanNode) : ExecutionPlan := ⟨.project input [⟨.ident "a", none⟩]⟩

/-- `MATCH (a)-[:R]->(b)`, as an `EXISTS` sub-query. -/
def existsEdge : Expr :=
  .exists ⟨some ⟨[.node ⟨some "a", [], ∅⟩, .edge ⟨none, some "R", .right, ∅, ⟨some "a", [], ∅⟩,
    ⟨some "b", [], ∅⟩, none⟩]⟩, none, none, none, none, none, none⟩

/-- A scan and a filter agree on both paths. -/
theorem execute_write_eq_read_twoNodes :
    let plan := returnA (.filter (.labelScan "a" "A") (.isNotNull (.ident "a")))
    runExec (execute .newNoRead plan) (some twoNodes) =
      ((runExec (execute (.new twoNodes) plan) none).1, some twoNodes) :=
  execute_write_eq_read rfl rfl

/-- `MATCH (a:A) WHERE EXISTS { MATCH (a)-[:R]->(b) } RETURN a` finds its row on the read
path only: on the write path `EXISTS` is evaluated without a store. -/
theorem execute_exists_differs :
    let plan := returnA (.filter (.labelScan "a" "A") existsEdge)
    (runExec (execute .newNoRead plan) (some twoNodes)).1.map QueryResult.rows = .ok [] ∧
      (runExec (execute (.new twoNodes) plan) none).1.map QueryResult.rows =
        .ok [[.number (.posInt 1)]] := by
  decide +kernel

end KuzuEventBus
