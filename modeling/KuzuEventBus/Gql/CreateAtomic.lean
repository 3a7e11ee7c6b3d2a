import KuzuEventBus.Gql.CreateRuns
import KuzuEventBus.Gql.OnStore

/-!
# Failing CREATE queries

Every query is meant to be a transaction of its own.  A CREATE writes to the store it is
given, pattern by pattern and row by row, and nothing takes the writes back when a later
pattern, or a later clause, fails.  So a query that fails leaves the store as it was
exactly when nothing had been made before the failure.

## Main definitions

* `SameContents` — the same nodes, edges and indexes.
* `CreateAtomic` — a query that fails leaves the contents of the store as they were.
* `createInput`, `afterCreate` — the rows a CREATE runs for, and what the clauses after it make
  of its own rows.
* `CreateKeeps` — nothing is made before the run fails.

## Main results

* `planMatch_writes` — the plan of a MATCH does not write.
* `runExec_source` — a CREATE runs over the rows of its MATCH.
* `afterCreate_error_iff` — of the clauses after CREATE, RETURN alone can fail.
* `createAtomic_iff` — **when a query with a CREATE is atomic**.
-/

namespace KuzuEventBus

open InMemoryGraphStore (Grown)

/-! ### MATCH does not write -/

/-- The plan of patterns does not write. -/
theorem PlanNode.OfMatch.writes {node : PlanNode} (h : node.OfMatch) : node.writes = false := by
  induction h with
  | labelScan | fullScan => rfl
  | filter _ _ ih | expand _ _ _ _ _ _ _ ih => exact ih
  | cartesianProduct _ _ ihl ihr =>
    rw [PlanNode.writes, ihl, ihr]
    rfl

/-- The plan of a MATCH does not write. -/
theorem planMatch_writes {clause : MatchClause} {node : PlanNode}
    (h : planMatch clause = .ok node) : node.writes = false :=
  (planMatch_ofMatch h).writes

/-! ### The rows a CREATE runs for -/

/-- The executor of a query with a CREATE. -/
def createExecutor (params : Option (HashMap String Json)) : Executor := ⟨none, paramValues params⟩

/-- The rows a CREATE runs for: those of MATCH, or the empty one. -/
def createInput (ex : Executor) (store : InMemoryGraphStore) (query : Query) :
    Except Fault (List Tuple) :=
  match query.matchClause with
  | none => .ok [∅]
  | some clause => do
    let source ← planMatch clause
    readNode ex.eval (some store) ∅ source

/-- Evaluation in the operators of an executor. -/
abbrev evalOf (ex : Executor) (tuple : Tuple) (write : Option InMemoryGraphStore) (e : Expr) :
    Except Fault Value :=
  evalExpr ex tuple write e

/-- The executor evaluates the expressions of a plan as `eval_expr` does. -/
theorem executeNode_eq_evalOf (ex : Executor) (node : PlanNode) :
    executeNode ex ∅ node = executeNodeWith evalOf ex ∅ node :=
  executeNodeWith_congr (agreeUpTo_eval ex node.existsDepth) le_rfl

/-- The reader of a query with a CREATE runs over the rows of its MATCH. -/
theorem runExec_source {params : Option (HashMap String Json)} {store : InMemoryGraphStore}
    {query : Query} {clause : CreateClause} {source : PlanNode}
    (hcreate : query.createClause = some clause) (hsource : planSource query = .ok source) :
    runExec (executeNodeWith evalOf (createExecutor params) ∅ source) (some store) =
      match createInput (createExecutor params) store query with
      | .ok rows => runExec (rows.mapM (executeCreate clause.patterns) >>=
          fun created => pure created.flatten) (some store)
      | .error e => (.error e, some store) := by
  unfold planSource at hsource
  cases hmatch : query.matchClause with
  | none =>
    have hinput : createInput (createExecutor params) store query = .ok [∅] := by
      rw [createInput, hmatch]
    simp only [hmatch, hcreate, planCreate] at hsource
    split at hsource
    · simp [invalidArgument] at hsource
    · cases hsource
      rw [hinput]
      show runExec (executeCreate clause.patterns ∅) (some store) =
        runExec ([∅].mapM (executeCreate clause.patterns) >>= _) (some store)
      rw [List.mapM_cons, List.mapM_nil, runExec_bind, runExec_bind]
      cases runExec (executeCreate clause.patterns ∅) (some store) with
      | mk r write =>
        cases r with
        | error e => rfl
        | ok ts =>
          show (Except.ok ts, write) = (Except.ok (ts ++ []), write)
          rw [List.append_nil]
  | some m =>
    simp only [hmatch, hcreate] at hsource
    obtain ⟨matchPlan, hplan, heq⟩ := bind_eq_ok hsource
    cases heq
    have hinput : createInput (createExecutor params) store query =
        readNode (createExecutor params).eval (some store) ∅ matchPlan := by
      rw [createInput, hmatch]
      show (planMatch m >>= _) = _
      rw [hplan]
      rfl
    have hread : runExec (executeNodeWith evalOf (createExecutor params) ∅ matchPlan)
        (some store) = (readNode (createExecutor params).eval (some store) ∅ matchPlan,
          some store) :=
      executeNodeWith_eq_readNode (.inl (planMatch_writes hplan))
    rw [hinput]
    show runExec (executeNodeWith evalOf (createExecutor params) ∅ matchPlan >>= _) (some store) = _
    rw [runExec_bind, hread]
    cases readNode (createExecutor params).eval (some store) ∅ matchPlan <;> rfl

/-! ### The clauses after CREATE -/

/-- What the clauses after CREATE make of its rows. -/
def afterCreate (ev : Eval) (query : Query) (ts : List Tuple) : Except Fault (List Tuple) := do
  let ts ← pipelineTuples ev query ts
  match query.returnClause with
  | none => .ok ts
  | some clause => do
    let rows ← returnTuples ev clause ts
    let rows ← orderTuples ev query.orderBy rows
    .ok (limitTuples query.limit rows)

/-- A reader after a computation. -/
theorem runExec_bind_readOnly {α β : Type} {x : Exec α} {r : Except Fault α}
    {write write' : Option InMemoryGraphStore} (h : runExec x write = (r, write'))
    (f : α → Except Fault β) :
    runExec (x >>= fun a => readOnly fun _ => f a) write = (r >>= f, write') := by
  rw [runExec_bind, h]
  cases r <;> rfl

section After

variable {ex : Executor} {input : PlanNode} {write write' : Option InMemoryGraphStore}
  {r : Except Fault (List Tuple)}

theorem runExec_filterBy (h : runExec (executeNodeWith evalOf ex ∅ input) write = (r, write'))
    (clause : Option WhereClause) :
    runExec (executeNodeWith evalOf ex ∅ (filterBy input (clause.map WhereClauseOf.expr))) write =
      (r >>= whereTuples ex.eval clause, write') := by
  cases clause with
  | some clause => exact runExec_bind_readOnly h _
  | none =>
    rw [Option.map_none, filterBy, h]
    cases r <;> rfl

theorem runExec_planPipeline (query : Query)
    (h : runExec (executeNodeWith evalOf ex ∅ input) write = (r, write')) :
    runExec (executeNodeWith evalOf ex ∅ (planPipeline query input)) write =
      (r >>= pipelineTuples ex.eval query, write') := by
  unfold planPipeline pipelineTuples
  cases query.withClause with
  | none =>
    rw [runExec_filterBy h]
    rfl
  | some clause =>
    have hproject : runExec (executeNodeWith evalOf ex ∅ (.project input
        (clause.items.map fun item => ⟨item.expr, some item.aliasName⟩))) write =
          (r >>= withTuples ex.eval (some clause), write') :=
      runExec_bind_readOnly h _
    rw [← bind_assoc]
    exact runExec_filterBy hproject query.whereClause

theorem runExec_planReturn (clause : ReturnClause)
    (h : runExec (executeNodeWith evalOf ex ∅ input) write = (r, write')) :
    runExec (executeNodeWith evalOf ex ∅ (planReturn input clause)) write =
      (r >>= returnTuples ex.eval clause, write') := by
  unfold planReturn returnTuples
  split
  · exact runExec_bind_readOnly h _
  · exact runExec_bind_readOnly h _

theorem runExec_orderPlan (orderBy : Option OrderByClause)
    (h : runExec (executeNodeWith evalOf ex ∅ input) write = (r, write')) :
    runExec (executeNodeWith evalOf ex ∅ (orderPlan input orderBy)) write =
      (r >>= orderTuples ex.eval orderBy, write') := by
  cases orderBy with
  | some orderBy => exact runExec_bind_readOnly h _
  | none =>
    rw [orderPlan, h]
    cases r <;> rfl

theorem runExec_limitPlan (limit : Option ℕ)
    (h : runExec (executeNodeWith evalOf ex ∅ input) write = (r, write')) :
    runExec (executeNodeWith evalOf ex ∅ (limitPlan input limit)) write =
      (r >>= fun ts => .ok (limitTuples limit ts), write') := by
  cases limit with
  | some limit => exact runExec_bind_readOnly h _
  | none =>
    rw [limitPlan, h]
    cases r <;> rfl

/-- A plan is its source, and what the clauses after it make of the rows. -/
theorem runExec_execute {query : Query} {p : ExecutionPlan}
    (hsource : planSource query = .ok input) (hplan : plan query = .ok p)
    (h : runExec (executeNodeWith evalOf ex ∅ input) write = (r, write')) :
    runExec (execute ex p) write =
      ((r >>= afterCreate ex.eval query).map (toQueryResult (projectionNames p.root)), write') := by
  have hroot : runExec (executeNode ex ∅ p.root) write =
      (r >>= afterCreate ex.eval query, write') := by
    rw [executeNode_eq_evalOf]
    have hpipe := runExec_planPipeline query h
    cases hreturn : query.returnClause with
    | none =>
      rw [plan, hsource, hreturn] at hplan
      cases hplan
      have hafter : afterCreate ex.eval query = pipelineTuples ex.eval query := by
        funext ts
        unfold afterCreate
        rw [hreturn]
        exact bind_pure _
      rw [hpipe, hafter]
    | some clause =>
      rw [plan_return hreturn hsource] at hplan
      cases hplan
      rw [runExec_limitPlan _ (runExec_orderPlan _ (runExec_planReturn clause hpipe))]
      unfold afterCreate
      rw [hreturn]
      simp only [bind_assoc]
  rw [execute, runExec_bind, hroot]
  cases r >>= afterCreate ex.eval query <;> rfl

end After

/-- The computation returns no error; it may panic. -/
def NoError {α : Type} (x : Except Fault α) : Prop := ∀ e, x ≠ .error (.error e)

theorem NoError.ok {α : Type} (a : α) : NoError (.ok a : Except Fault α) := nofun

theorem NoError.bind {α β : Type} {x : Except Fault α} {f : α → Except Fault β}
    (hx : NoError x) (hf : ∀ a, NoError (f a)) : NoError (x >>= f) := by
  cases x with
  | ok a => exact hf a
  | error fault =>
    intro e h
    cases h
    exact hx e rfl

theorem noError_okOrNone {α : Type} (x : Except Fault α) : NoError (okOrNone x) := by
  rcases x with (e | msg) | a
  · exact nofun
  · exact nofun
  · exact nofun

theorem NoError.mapM {α β : Type} {f : α → Except Fault β} (h : ∀ a, NoError (f a)) :
    ∀ as : List α, NoError (as.mapM f)
  | [] => .ok []
  | a :: as => by
    rw [List.mapM_cons]
    exact (h a).bind fun b => (NoError.mapM h as).bind fun bs => .ok (b :: bs)

theorem NoError.filterE {α : Type} {test : α → Except Fault Bool} (h : ∀ a, NoError (test a)) :
    ∀ as : List α, NoError (filterE test as)
  | [] => .ok []
  | a :: as => (h a).bind fun _ => (NoError.filterE h as).bind fun _ => .ok _

theorem noError_projectTuple (ev : Eval) (items : List ReturnItem) (t : Tuple) :
    NoError (projectTuple ev items t) :=
  (NoError.mapM (fun _ => (noError_okOrNone _).bind fun _ => .ok _) items).bind fun _ => .ok _

theorem noError_accepts (ev : Eval) (predicate : Expr) (t : Tuple) :
    NoError (accepts ev predicate t) :=
  (noError_okOrNone _).bind fun _ => .ok _

theorem noError_compareTuples (ev : Eval) (a b : Tuple) :
    ∀ items, NoError (compareTuples ev a b items)
  | [] => NoError.ok Ordering.eq
  | item :: items => by
    refine (noError_okOrNone _).bind fun va => (noError_okOrNone _).bind fun vb => ?_
    dsimp only
    split
    · exact .ok _
    · exact noError_compareTuples ev a b items

theorem noError_insertTuple (ev : Eval) (items : List OrderByItem) (a : Tuple) :
    ∀ bs, NoError (insertTuple ev items a bs)
  | [] => .ok [a]
  | b :: bs => by
    refine (noError_compareTuples ev a b items).bind fun cmp => ?_
    split
    · exact (noError_insertTuple ev items a bs).bind fun _ => .ok _
    · exact .ok _

theorem noError_sortTuples (ev : Eval) (items : List OrderByItem) :
    ∀ ts, NoError (sortTuples ev items ts)
  | [] => .ok []
  | a :: as => (noError_sortTuples ev items as).bind fun sorted =>
      noError_insertTuple ev items a sorted

theorem noError_orderTuples (ev : Eval) (orderBy : Option OrderByClause) (ts : List Tuple) :
    NoError (orderTuples ev orderBy ts) := by
  cases orderBy with
  | none => exact .ok ts
  | some orderBy => exact noError_sortTuples ev orderBy.items ts

theorem noError_pipelineTuples (ev : Eval) (query : Query) (ts : List Tuple) :
    NoError (pipelineTuples ev query ts) := by
  apply NoError.bind
  · cases query.withClause with
    | none => exact .ok ts
    | some clause => exact NoError.mapM (noError_projectTuple ev _) ts
  · intro ts
    cases query.whereClause with
    | none => exact .ok ts
    | some clause => exact NoError.filterE (noError_accepts ev _) ts

/-- **Of the clauses after CREATE, RETURN alone can fail.** -/
theorem afterCreate_error_iff {ev : Eval} {query : Query} {ts : List Tuple} {e : EngineError} :
    afterCreate ev query ts = .error (.error e) ↔
      ∃ clause ∈ query.returnClause, ∃ rows, pipelineTuples ev query ts = .ok rows ∧
        returnTuples ev clause rows = .error (.error e) := by
  have hpipe := noError_pipelineTuples ev query ts
  unfold afterCreate
  cases hts : pipelineTuples ev query ts with
  | error fault =>
    constructor
    · intro h
      cases h
      exact absurd hts (hpipe e)
    · rintro ⟨clause, -, rows, hrows, -⟩
      cases hrows
  | ok rows =>
    cases query.returnClause with
    | none =>
      constructor
      · intro h
        cases h
      · rintro ⟨clause, hclause, -⟩
        cases hclause
    | some clause =>
      show (returnTuples ev clause rows >>= fun rows => _) = _ ↔ _
      constructor
      · intro h
        refine ⟨clause, rfl, rows, rfl, ?_⟩
        cases hreturn : returnTuples ev clause rows with
        | error fault =>
          rw [hreturn] at h
          cases h
          rfl
        | ok out =>
          rw [hreturn] at h
          exact absurd h ((noError_orderTuples ev query.orderBy out).bind (fun _ => .ok _) e)
      · rintro ⟨_, ⟨⟩, _, ⟨⟩, hreturn⟩
        rw [hreturn]
        rfl

/-! ### Atomicity -/

/-- The same nodes, edges and indexes. -/
structure SameContents (s t : InMemoryGraphStore) : Prop where
  nodes : t.nodes = s.nodes
  edges : t.edges = s.edges
  labelIndex : t.labelIndex = s.labelIndex
  adjacencyOut : t.adjacencyOut = s.adjacencyOut
  adjacencyIn : t.adjacencyIn = s.adjacencyIn

theorem SameContents.refl (s : InMemoryGraphStore) : SameContents s s := ⟨rfl, rfl, rfl, rfl, rfl⟩

/-- A query that returns an error leaves the contents of the store as they were. -/
def CreateAtomic (tables : CharTables) (store : InMemoryGraphStore) (gql : String)
    (params : Option (HashMap String Json)) : Prop :=
  ∀ e store', executeGqlOnStore tables store gql params = (.error (.error e), store') →
    SameContents store store'

/-- A CREATE makes nothing before the query fails: the first pattern that cannot be made is
the first one of the first row, or nothing fails, or the ids run out before. -/
def CreateKeeps (store : InMemoryGraphStore) (params : Option (HashMap String Json))
    (query : Query) (clause : CreateClause) : Prop :=
  ∀ rows, createInput (createExecutor params) store query = .ok rows →
    (∀ done earlier, FailsAt clause.patterns rows done earlier →
      HasRoom store (forRows clause.patterns done ++ earlier) →
      forRows clause.patterns done ++ earlier = []) ∧
    ((∀ row ∈ rows, Makes row [] clause.patterns) → HasRoom store (forRows clause.patterns rows) →
      forRows clause.patterns rows = [] ∨
      ∀ ret ∈ query.returnClause, ∀ ts, pipelineTuples (createExecutor params).eval query
          (createdRows clause.patterns store.nextNodeId store.nextEdgeId rows) = .ok ts →
        NoError (returnTuples (createExecutor params).eval ret ts))

/-- What has been made shows in the contents of the store. -/
theorem Advanced.eq_nil_of_sameContents {store store' : InMemoryGraphStore} {ps : List Pattern}
    (h : Advanced store ps store') (hkeyed : store.Keyed) (hsame : SameContents store store') :
    ps = [] := by
  have hn : nodeCount ps = 0 := by
    by_contra hne
    have hlt : store.nextNodeId < store'.nextNodeId := by
      rw [h.nextNodeId]
      exact Nat.lt_add_of_pos_right (Nat.pos_of_ne_zero hne)
    have hsome := h.grown.node_isSome store.nextNodeId (.inr ⟨le_rfl, hlt⟩)
    rw [hsame.nodes, Option.isSome_iff_exists] at hsome
    obtain ⟨node, hnode⟩ := hsome
    exact absurd (hkeyed.node_lt hnode) (lt_irrefl _)
  have he : edgeCount ps = 0 := by
    by_contra hne
    have hlt : store.nextEdgeId < store'.nextEdgeId := by
      rw [h.nextEdgeId]
      exact Nat.lt_add_of_pos_right (Nat.pos_of_ne_zero hne)
    have hsome := h.grown.edge_isSome store.nextEdgeId (.inr ⟨le_rfl, hlt⟩)
    rw [hsame.edges, Option.isSome_iff_exists] at hsome
    obtain ⟨edge, hedge⟩ := hsome
    exact absurd (hkeyed.edge_lt hedge) (lt_irrefl _)
  apply List.eq_nil_of_length_eq_zero
  rw [← nodeCount_add_edgeCount, hn, he]

theorem hasRoom_nil {store : InMemoryGraphStore} (h : store.Keyed) : HasRoom store [] :=
  ⟨h.nextNodeId_lt, h.nextEdgeId_lt⟩

/-- What a query with a CREATE returns and leaves behind. -/
theorem executeQueryOnStore_create {store : InMemoryGraphStore}
    {params : Option (HashMap String Json)} {query : Query} {clause : CreateClause}
    {source : PlanNode} (hcreate : query.createClause = some clause)
    (hsource : planSource query = .ok source) {r : Except Fault (List Tuple)}
    {write : Option InMemoryGraphStore}
    (hrun : runExec (executeNodeWith evalOf (createExecutor params) ∅ source) (some store) =
      (r, write)) :
    ∃ names, executeQueryOnStore store params query =
      ((r >>= afterCreate (createExecutor params).eval query).map (toQueryResult names),
        write.getD store) := by
  cases hplan : plan query with
  | error fault =>
    unfold plan at hplan
    rw [hsource] at hplan
    cases hreturn : query.returnClause with
    | none => rw [hreturn] at hplan; cases hplan
    | some ret => rw [hreturn] at hplan; cases hplan
  | ok p =>
    refine ⟨projectionNames p.root, ?_⟩
    have hexec := runExec_execute hsource hplan hrun
    unfold executeQueryOnStore
    rw [hplan]
    simp only [hcreate, Option.isSome_some, if_true]
    rw [show (⟨none, paramValues params⟩ : Executor) = createExecutor params from rfl, hexec]

theorem map_eq_error {α β : Type} {x : Except Fault α} {f : α → β} {fault : Fault}
    (h : x.map f = .error fault) : x = .error fault := by
  cases x with
  | error e => cases h; rfl
  | ok a => cases h

/-- The rows of a CREATE that makes all its patterns. -/
theorem runExec_created {patterns : List Pattern} {rows : List Tuple}
    {store : InMemoryGraphStore} (hmakes : ∀ row ∈ rows, Makes row [] patterns)
    (hroom : HasRoom store (forRows patterns rows)) :
    runExec (rows.mapM (executeCreate patterns) >>= fun created => pure created.flatten)
        (some store) =
      (.ok (createdRows patterns store.nextNodeId store.nextEdgeId rows),
        some (makeRows patterns store rows)) := by
  rw [runExec_bind_ok (runExec_makeRows hmakes hroom), runExec_pure]
  congr
  induction createdRows patterns store.nextNodeId store.nextEdgeId rows with
  | nil => rfl
  | cons t ts ih => rw [List.map_cons, List.flatten_cons, ih]; rfl

/-- A panic of the CREATE is no error of the query. -/
theorem executeQueryOnStore_panic {store : InMemoryGraphStore}
    {params : Option (HashMap String Json)} {query : Query} {clause : CreateClause}
    {source : PlanNode} {rows : List Tuple} (hcreate : query.createClause = some clause)
    (hsource : planSource query = .ok source)
    (hrun : runExec (executeNodeWith evalOf (createExecutor params) ∅ source) (some store) =
      runExec (rows.mapM (executeCreate clause.patterns) >>=
        fun created => pure created.flatten) (some store))
    {msg : String} {write : Option InMemoryGraphStore}
    (hpanic : runExec (rows.mapM (executeCreate clause.patterns)) (some store) =
      (.error (.panic msg), write)) (e : EngineError) (store' : InMemoryGraphStore) :
    executeQueryOnStore store params query ≠ (.error (.error e), store') := by
  rw [runExec_bind, hpanic] at hrun
  obtain ⟨names, hresult⟩ := executeQueryOnStore_create hcreate hsource hrun
  rw [hresult]
  intro h
  cases h

/-- The rows of MATCH are there: what the CREATE makes of them decides. -/
theorem createKeeps_iff_of_rows {store : InMemoryGraphStore} (hkeyed : store.Keyed)
    {params : Option (HashMap String Json)} {query : Query} {clause : CreateClause}
    {source : PlanNode} {rows : List Tuple} (hcreate : query.createClause = some clause)
    (hsource : planSource query = .ok source)
    (hinput : createInput (createExecutor params) store query = .ok rows)
    (hrun : runExec (executeNodeWith evalOf (createExecutor params) ∅ source) (some store) =
      runExec (rows.mapM (executeCreate clause.patterns) >>=
        fun created => pure created.flatten) (some store)) :
    (∀ e store', executeQueryOnStore store params query = (.error (.error e), store') →
      SameContents store store') ↔ CreateKeeps store params query clause := by
  have hkeeps : CreateKeeps store params query clause ↔
      (∀ done earlier, FailsAt clause.patterns rows done earlier →
        HasRoom store (forRows clause.patterns done ++ earlier) →
        forRows clause.patterns done ++ earlier = []) ∧
      ((∀ row ∈ rows, Makes row [] clause.patterns) →
        HasRoom store (forRows clause.patterns rows) →
        forRows clause.patterns rows = [] ∨
        ∀ ret ∈ query.returnClause, ∀ ts, pipelineTuples (createExecutor params).eval query
            (createdRows clause.patterns store.nextNodeId store.nextEdgeId rows) = .ok ts →
          NoError (returnTuples (createExecutor params).eval ret ts)) := by
    constructor
    · exact fun h => h rows hinput
    · intro h rows' hrows'
      rw [hinput] at hrows'
      cases hrows'
      exact h
  rw [hkeeps]
  constructor
  · intro hatomic
    constructor
    · intro done earlier hfails hroom
      -- what was made before the failure stays
      obtain ⟨e, store', hcreated, hadv⟩ := runExec_failsAt hfails hroom
      have hfail : runExec (rows.mapM (executeCreate clause.patterns) >>=
          fun created => pure created.flatten) (some store) = (.error (.error e), some store') := by
        rw [runExec_bind, hcreated]
      obtain ⟨names, hresult⟩ := executeQueryOnStore_create hcreate hsource (hrun.trans hfail)
      exact hadv.eq_nil_of_sameContents hkeyed (hatomic e store' hresult)
    · intro hmakes hroom
      by_cases hnil : forRows clause.patterns rows = []
      · exact .inl hnil
      · right
        intro ret hret ts hts e he
        obtain ⟨names, hresult⟩ := executeQueryOnStore_create hcreate hsource
          (hrun.trans (runExec_created hmakes hroom))
        have hafter := afterCreate_error_iff.mpr ⟨ret, hret, ts, hts, he⟩
        rw [show (Except.ok _ >>= afterCreate (createExecutor params).eval query) = _ from hafter]
          at hresult
        exact hnil ((advanced_makeRows clause.patterns rows store).eq_nil_of_sameContents hkeyed
          (hatomic e _ hresult))
  · rintro ⟨hfail, hreturn⟩ e store' hresult
    rcases makes_or_failsAt clause.patterns rows with hmakes | ⟨done, earlier, hfails⟩
    · by_cases hroom : HasRoom store (forRows clause.patterns rows)
      · obtain ⟨names, hresult'⟩ := executeQueryOnStore_create hcreate hsource
          (hrun.trans (runExec_created hmakes hroom))
        rw [hresult'] at hresult
        obtain ⟨herror, rfl⟩ := Prod.mk.inj hresult
        rcases hreturn hmakes hroom with hnil | hreturn
        · rw [Option.getD_some,
            (advanced_makeRows clause.patterns rows store).eq_of_nil hnil]
          exact .refl store
        · obtain ⟨ret, hret, ts, hts, he⟩ := afterCreate_error_iff.mp (map_eq_error herror)
          exact absurd he (hreturn ret hret ts hts e)
      -- without ids to give the run panics, which is no error
      · obtain ⟨msg, write, hpanic⟩ := runExec_makeRows_overflow hmakes (hasRoom_nil hkeyed) hroom
        exact absurd hresult (executeQueryOnStore_panic hcreate hsource hrun hpanic e store')
    · by_cases hroom : HasRoom store (forRows clause.patterns done ++ earlier)
      · obtain ⟨e', store'', hcreated, hadv⟩ := runExec_failsAt hfails hroom
        have hrun' := hrun.trans (runExec_bind _ _ _)
        rw [hcreated] at hrun'
        obtain ⟨names, hresult'⟩ := executeQueryOnStore_create hcreate hsource hrun'
        rw [hresult'] at hresult
        obtain ⟨-, rfl⟩ := Prod.mk.inj hresult
        rw [Option.getD_some, hadv.eq_of_nil (hfail done earlier hfails hroom)]
        exact .refl store
      · obtain ⟨msg, write, hpanic⟩ :=
          runExec_failsAt_overflow hfails (hasRoom_nil hkeyed) hroom
        exact absurd hresult (executeQueryOnStore_panic hcreate hsource hrun hpanic e store')

/-- A query with a CREATE that fails leaves the store as it was, in every way it can fail,
exactly when it meets the condition. -/
theorem executeQueryOnStore_error_iff {store : InMemoryGraphStore} (hkeyed : store.Keyed)
    {params : Option (HashMap String Json)} {query : Query} {clause : CreateClause}
    (hcreate : query.createClause = some clause) :
    (∀ e store', executeQueryOnStore store params query = (.error (.error e), store') →
      SameContents store store') ↔ CreateKeeps store params query clause := by
  cases hsource : planSource query with
  | error fault =>
    -- the query is not planned, and MATCH, if there is one, has no rows
    constructor
    · intro _ rows hrows
      unfold planSource at hsource
      unfold createInput at hrows
      cases hmatch : query.matchClause with
      | none =>
        simp only [hmatch, hcreate, planCreate] at hsource
        split at hsource
        · next hempty =>
          have hnil : clause.patterns = [] := List.isEmpty_iff.mp hempty
          have hforRows (ts : List Tuple) : forRows clause.patterns ts = [] := by
            rw [forRows, hnil]
            simp
          refine ⟨fun done earlier hfails _ => ?_, fun _ _ => .inl (hforRows rows)⟩
          obtain ⟨row, rest, p, later, -, heq, -⟩ := hfails
          rw [hnil] at heq
          simp at heq
        · cases hsource
      | some m =>
        simp only [hmatch, hcreate] at hsource
        simp only [hmatch] at hrows
        obtain ⟨matchPlan, hplan, -⟩ := bind_eq_ok hrows
        rw [hplan] at hsource
        cases hsource
    · intro _ e store' hrun
      have hplan : plan query = .error fault := by
        unfold plan
        rw [hsource]
        rfl
      rw [executeQueryOnStore, hplan] at hrun
      cases hrun
      exact .refl store
  | ok source =>
    have hrun := @runExec_source params store query clause source hcreate hsource
    cases hinput : createInput (createExecutor params) store query with
    | error fault =>
      rw [hinput] at hrun
      obtain ⟨names, hresult⟩ := executeQueryOnStore_create hcreate hsource hrun
      constructor
      · intro _ rows hrows
        rw [hinput] at hrows
        cases hrows
      · intro _ e store' h
        rw [hresult] at h
        cases h
        exact .refl store
    | ok rows =>
      rw [hinput] at hrun
      exact createKeeps_iff_of_rows hkeyed hcreate hsource hinput hrun

/-- **A query with a CREATE is atomic if and only if nothing is made before it fails**: for
the rows of its MATCH, the first pattern that cannot be made is the first one of the first
row, or all patterns can be made and RETURN does not fail on the rows of the CREATE, or
the ids run out before. -/
theorem createAtomic_iff (tables : CharTables) {store : InMemoryGraphStore}
    (hkeyed : store.Keyed) (gql : String) (params : Option (HashMap String Json)) :
    CreateAtomic tables store gql params ↔
      ∀ query, parse tables gql = .ok query → ∀ clause, query.createClause = some clause →
        CreateKeeps store params query clause := by
  unfold CreateAtomic executeGqlOnStore
  cases parse tables gql with
  | error fault =>
    constructor
    · rintro - query ⟨⟩
    · rintro - e store' ⟨⟩
      exact .refl store
  | ok query =>
    constructor
    · rintro hatomic _ ⟨⟩ clause hcreate
      exact (executeQueryOnStore_error_iff hkeyed hcreate).mp hatomic
    · intro hkeeps
      cases hcreate : query.createClause with
      | some clause =>
        exact (executeQueryOnStore_error_iff hkeyed hcreate).mpr (hkeeps query rfl clause hcreate)
      | none =>
        intro e store' hresult
        -- without a CREATE the store is only read
        have hstore : store = store' := by
          have hsnd := congrArg Prod.snd hresult
          dsimp only at hsnd
          rw [← hsnd, executeQueryOnStore]
          cases plan query <;> simp [hcreate]
        rw [hstore]
        exact .refl store'

/-- The empty store. -/
theorem createAtomic_iff_new :
    CreateAtomic .ascii .new "CREATE (a:A), (a)-[:R]->(b)" none ↔
      ∀ query, parse .ascii "CREATE (a:A), (a)-[:R]->(b)" = .ok query →
        ∀ clause, query.createClause = some clause → CreateKeeps .new none query clause :=
  createAtomic_iff .ascii InMemoryGraphStore.wf_new.toKeyed _ none

/-- The call returned an error. -/
def isErr {α : Type} : Except Fault α → Bool
  | .error (.error _) => true
  | _ => false

/-- `CREATE (a:A), (a)-[:R]->(b)` fails for want of a `b`, and leaves node `a` behind. -/
theorem create_not_atomic :
    ¬ ∀ (tables : CharTables) (store : InMemoryGraphStore) (gql : String)
      (params : Option (HashMap String Json)), store.Keyed →
        CreateAtomic tables store gql params := by
  intro hall
  have hatomic := hall .ascii .new "CREATE (a:A), (a)-[:R]->(b)" none
    InMemoryGraphStore.wf_new.toKeyed
  have hrun : isErr (executeGqlOnStore .ascii .new "CREATE (a:A), (a)-[:R]->(b)" none).1 = true ∧
      (executeGqlOnStore .ascii .new "CREATE (a:A), (a)-[:R]->(b)" none).2.nodes.keys = [1] := by
    decide +kernel
  unfold CreateAtomic at hatomic
  cases hresult : executeGqlOnStore .ascii .new "CREATE (a:A), (a)-[:R]->(b)" none with
  | mk r store' =>
    rw [hresult] at hrun
    obtain ⟨herr, hkeys⟩ := hrun
    rcases r with (e | msg) | rows
    · rw [(hatomic e store' hresult).nodes] at hkeys
      cases hkeys
    · cases herr
    · cases herr

end KuzuEventBus
