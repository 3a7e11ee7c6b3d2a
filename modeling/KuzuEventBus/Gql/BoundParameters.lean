import KuzuEventBus.Gql.CreateAtomic
import KuzuEventBus.Gql.QueryParameters

/-!
# Evaluation with the parameters bound

Evaluation fails for a parameter that has no value.  Filters, projections and aggregates pass errors
over, the grouping columns do not.  The text of the error says which error it is, so what other
errors there are matters by how they begin.

## Main definitions

* `unboundParameter`, `NeverUnbound` — the error of a parameter that is not bound.
* `BoundIn` — the parameters of an expression have values.
* `CollectsExactly` — what the collector is for.

## Main results

* `neverUnbound_evalExpr`, `neverUnbound_executeQueryOnStore` — **with values for its parameters, no
  expression and no query fails for one that is not bound**.
* `collectsExactly_iff` — **when the collector returns the parameters a query needs**.
-/

namespace KuzuEventBus

/-! ### Evaluation -/

/-- The error of a parameter that is not bound. -/
def unboundParameter (name : String) : Fault :=
  .error (.invalidArgument ("parameter $" ++ name ++ " not bound - pass it in params argument"))

/-- The computation does not fail for a parameter that is not bound. -/
def NeverUnbound {α : Type} (x : Except Fault α) : Prop :=
  ∀ name, x ≠ .error (unboundParameter name)

/-- The parameters of an expression have values. -/
def BoundIn (parameters : HashMap String Value) (e : Expr) : Prop :=
  ∀ name, Expr.Within true (.parameter name) e → (parameters.lookup name).isSome

section Evaluation

variable {α β : Type}

theorem NeverUnbound.ok (a : α) : NeverUnbound (.ok a : Except Fault α) := nofun

theorem NeverUnbound.panic (msg : String) : NeverUnbound (.error (.panic msg) : Except Fault α) :=
  nofun

theorem NoError.neverUnbound {x : Except Fault α} (h : NoError x) : NeverUnbound x :=
  fun _ => h _

theorem NeverUnbound.bind {x : Except Fault α} {f : α → Except Fault β} (hx : NeverUnbound x)
    (hf : ∀ a, NeverUnbound (f a)) : NeverUnbound (x >>= f) := by
  cases x with
  | ok a => exact hf a
  | error fault =>
    intro name h
    cases h
    exact hx name rfl

theorem NeverUnbound.mapM {f : α → Except Fault β} : ∀ {as : List α},
    (∀ a ∈ as, NeverUnbound (f a)) → NeverUnbound (as.mapM f)
  | [], _ => .ok []
  | a :: as, h => by
    rw [List.mapM_cons]
    obtain ⟨ha, has⟩ := List.forall_mem_cons.mp h
    exact ha.bind fun b => (NeverUnbound.mapM has).bind fun bs => .ok (b :: bs)

theorem NeverUnbound.foldlM {f : β → α → Except Fault β} (h : ∀ b a, NeverUnbound (f b a)) :
    ∀ (as : List α) (b : β), NeverUnbound (as.foldlM f b)
  | [], b => .ok b
  | a :: as, b => by
    rw [List.foldlM_cons]
    exact (h b a).bind fun b => NeverUnbound.foldlM h as b

/-- Another text is the error of no parameter; three characters tell. -/
theorem NeverUnbound.invalidArgument {msg : String}
    (h : msg.toList.take 3 ≠ ['p', 'a', 'r']) :
    NeverUnbound (invalidArgument msg : Except Fault α) := by
  intro name heq
  have hmsg : msg = "parameter $" ++ name ++ " not bound - pass it in params argument" := by
    simpa [KuzuEventBus.invalidArgument, unboundParameter] using heq
  apply h
  have hparameter : "parameter $".toList.take 3 = ['p', 'a', 'r'] := by simp
  rw [hmsg, String.toList_append, String.toList_append, List.append_assoc,
    List.take_append_of_le_length (by simp), hparameter]

/-- A text is told by how it begins. -/
theorem NeverUnbound.invalidArgument_append {front : String} (back : String)
    (hlength : 3 ≤ front.toList.length) (h : front.toList.take 3 ≠ ['p', 'a', 'r']) :
    NeverUnbound (KuzuEventBus.invalidArgument (front ++ back) : Except Fault α) := by
  apply NeverUnbound.invalidArgument
  rw [String.toList_append, List.take_append_of_le_length hlength]
  exact h

/-- A call with another number of arguments than one. -/
theorem neverUnbound_wrongArguments (name : String) :
    NeverUnbound (if isIdFunction name then KuzuEventBus.invalidArgument (α := α)
        "ID() requires exactly 1 argument"
      else KuzuEventBus.invalidArgument ("unknown function: " ++ name)) := by
  split
  · exact .invalidArgument (by simp)
  · exact .invalidArgument_append _ (by simp) (by simp)

theorem neverUnbound_checkedInt (operation : String) (n : ℤ) :
    NeverUnbound (checkedInt operation n) := by
  unfold checkedInt
  split
  · exact .ok _
  · exact .panic _

theorem neverUnbound_evalIntOp (l : Int64) (op : BinOp) (r : Int64) :
    NeverUnbound (evalIntOp l op r) := by
  cases op
  case add | sub | mul => exact neverUnbound_checkedInt _ _
  case div =>
    unfold evalIntOp
    dsimp only
    split
    · exact .invalidArgument (by simp)
    · exact neverUnbound_checkedInt _ _
  case and | or => exact .invalidArgument (by simp)
  all_goals exact .ok _

theorem neverUnbound_evalFloatOp {msg : String} (h : msg.toList.take 3 ≠ ['p', 'a', 'r'])
    (l : Float) (op : BinOp) (r : Float) : NeverUnbound (evalFloatOp msg l op r) := by
  cases op
  case div =>
    unfold evalFloatOp
    dsimp only
    split
    · exact .invalidArgument (by simp)
    · exact .ok _
  case and | or => exact .invalidArgument h
  all_goals exact .ok _

theorem neverUnbound_evalBinaryOp (l : Value) (op : BinOp) (r : Value) :
    NeverUnbound (evalBinaryOp l op r) := by
  unfold evalBinaryOp
  split
  case h_1 => exact neverUnbound_evalIntOp _ _ _
  case h_2 | h_3 | h_4 => exact neverUnbound_evalFloatOp (by simp) _ _ _
  case h_5 | h_6 => cases op <;> first | exact .ok _ | exact .invalidArgument (by simp)
  case h_7 =>
    simp only [String.append_assoc]
    exact .invalidArgument_append _ (by simp) (by simp)

/-- The predicates of the planner hold no parameters. -/
theorem PlannerMade.boundIn {e : Expr} (h : PlannerMade e) (parameters : HashMap String Value) :
    BoundIn parameters e := by
  intro name hname
  induction h with
  | propEq =>
    rcases within_binaryOp.mp hname with h | h
    · cases h
    · cases h
  | and _ _ iha ihb =>
    rcases within_binaryOp.mp hname with h | h
    · exact iha h
    · exact ihb h
  | endsDiffer v w =>
    have hid (var : String) :
        ¬ Expr.Within true (.parameter name) (.functionCall "ID" [.ident var]) := by
      intro hcall
      obtain ⟨-, a, ha, hmem⟩ := within_functionCall.mp hcall
      rw [List.mem_singleton.mp ha] at hmem
      cases hmem
    rcases within_binaryOp.mp hname with h | h
    · exact absurd h (hid v)
    · exact absurd h (hid w)

/-- The plan of a query whose parameters have values holds no other parameters. -/
theorem boundIn_of_plan {query : Query} {p : ExecutionPlan} {parameters : HashMap String Value}
    (hplan : plan query = .ok p) (h : ∀ e ∈ query.exprs, BoundIn parameters e) :
    ∀ e ∈ p.root.exprs, BoundIn parameters e := by
  intro e he
  rcases plan_exprs hplan e he with hquery | hmade
  · exact h e hquery
  · exact hmade.boundIn parameters

/-- **Evaluation does not fail for a parameter that is not bound**, if the plans of `EXISTS` queries
do not. -/
theorem neverUnbound_evalExprWith
    {sub : Executor → PlanNode → Tuple → Except Fault (List Tuple)} {ex : Executor}
    (hsub : ∀ (ex' : Executor) (node : PlanNode) (tuple : Tuple),
      ex'.parameters = ex.parameters → (∀ e ∈ node.exprs, BoundIn ex.parameters e) →
        NeverUnbound (sub ex' node tuple)) (tuple : Tuple) :
    ∀ (e : Expr) (write : Option InMemoryGraphStore), BoundIn ex.parameters e →
      NeverUnbound (evalExprWith sub ex tuple write e)
  | .literal _, _, _ => .ok _
  | .ident name, _, _ => by
    rw [evalExprWith]
    split
    · exact .ok _
    · exact .invalidArgument_append _ (by simp) (by simp)
  | .property var prop, _, _ => by
    rw [evalExprWith]
    split
    · exact .ok _
    · exact .invalidArgument_append _ (by simp) (by simp)
  -- the only case that could fail so: the parameter has a value
  | .parameter name, _, h => by
    obtain ⟨v, hv⟩ := Option.isSome_iff_exists.mp (h name .refl)
    rw [evalExprWith, hv]
    exact .ok v
  | .binaryOp left op right, _, h => by
    have hleft := neverUnbound_evalExprWith hsub tuple left none fun n hn => h n (.left op hn)
    have hright := neverUnbound_evalExprWith hsub tuple right none fun n hn => h n (.right op hn)
    rw [evalExprWith]
    exact hleft.bind fun l => hright.bind fun r => neverUnbound_evalBinaryOp l op r
  | .unaryOp .not operand, _, h => by
    have hoperand := neverUnbound_evalExprWith hsub tuple operand none
      fun n hn => h n (.operand .not hn)
    rw [evalExprWith]
    refine hoperand.bind fun v => ?_
    split
    · exact .ok _
    · exact .invalidArgument (by simp)
  | .isNull e, _, h => by
    have he := neverUnbound_evalExprWith hsub tuple e none fun n hn => h n (.isNull hn)
    rw [evalExprWith]
    exact he.bind fun v => .ok _
  | .isNotNull e, _, h => by
    have he := neverUnbound_evalExprWith hsub tuple e none fun n hn => h n (.isNotNull hn)
    rw [evalExprWith]
    exact he.bind fun v => .ok _
  | .functionCall name [arg], _, h => by
    have harg := neverUnbound_evalExprWith hsub tuple arg none
      fun n hn => h n (.argument name rfl List.mem_cons_self hn)
    rw [evalExprWith]
    split
    · refine harg.bind fun v => ?_
      split
      · exact .ok _
      · exact .invalidArgument (by simp)
    · exact .invalidArgument_append _ (by simp) (by simp)
  | .functionCall name [], _, _ => neverUnbound_wrongArguments name
  | .functionCall name (_ :: _ :: _), _, _ => neverUnbound_wrongArguments name
  | .exists query, write, h => by
    have hquery : ∀ e ∈ query.exprs, BoundIn ex.parameters e :=
      fun e he n hn => h n (.subquery he hn)
    rw [evalExprWith]
    split
    · exact .ok _
    · split
      · exact .invalidArgument_append _ (by simp) (by simp)
      · exact .panic _
      · next p hplan =>
        split
        · exact .ok _
        · next store _ =>
          -- the plan of the query holds no parameters but those of the query
          refine (hsub { ex with read := some store } p.root tuple rfl
            (boundIn_of_plan hplan hquery)).bind fun tuples => ?_
          exact .ok _
  | .aggregate _ _, _, _ => .invalidArgument (by simp)

/-! ### Operators -/

/-- The columns of a group are aggregates, which pass errors over, and the keys of the group. -/
theorem neverUnbound_aggregateTuples {ev : Eval} {groupBy : List Expr}
    (h : ∀ e ∈ groupBy, ∀ t, NeverUnbound (ev e t)) (aggregates : List (String × Expr))
    (ts : List Tuple) : NeverUnbound (aggregateTuples ev groupBy aggregates ts) := by
  have hnumeric (arg : Expr) (ts : List Tuple) : NeverUnbound (numericValues ev arg ts) :=
    (NoError.mapM (fun _ => noError_okOrNone _) ts).neverUnbound.bind fun _ => .ok _
  have haggregate (e : Expr) (ts : List Tuple) : NeverUnbound (evalAggregate ev e ts) := by
    unfold evalAggregate
    split
    case h_1 => exact .ok _
    case h_2 | h_3 | h_4 | h_5 => exact (hnumeric _ ts).bind fun _ => .ok _
    case h_6 => exact .invalidArgument (by simp)
  have hcolumns (ts : List Tuple) : NeverUnbound (aggregateColumns ev aggregates ts) :=
    NeverUnbound.mapM fun a _ => (haggregate a.2 ts).bind fun _ => .ok _
  -- the keys of a group are evaluated on its first tuple, and their errors are not passed over
  have hkeys (ts : List Tuple) : NeverUnbound (groupColumns ev groupBy ts) := by
    unfold groupColumns
    split
    · exact .ok _
    · next first _ =>
      refine NeverUnbound.mapM fun ei hei => ?_
      exact (h ei.1 (List.fst_mem_of_mem_zipIdx hei) first).bind fun _ => .ok _
  have hgroups : NeverUnbound (groupTuples ev groupBy ts) := by
    refine NeverUnbound.foldlM (fun groups t => ?_) ts ∅
    exact (NeverUnbound.mapM fun e he => (h e he t).bind fun _ => .ok _).bind fun _ => .ok _
  unfold aggregateTuples
  split
  · exact (hcolumns ts).bind fun _ => .ok _
  · refine hgroups.bind fun groups => NeverUnbound.mapM fun group _ => ?_
    exact (hkeys group).bind fun _ => (hcolumns group).bind fun _ => .ok _

/-- The run of an operator, on whatever write handle. -/
def RunsNeverUnbound (x : Exec α) : Prop := ∀ write, NeverUnbound (runExec x write).1

theorem RunsNeverUnbound.bind {x : Exec α} {f : α → Exec β} (hx : RunsNeverUnbound x)
    (hf : ∀ a, RunsNeverUnbound (f a)) : RunsNeverUnbound (x >>= f) := by
  intro write
  rw [runExec_bind]
  have h := hx write
  cases hrun : runExec x write with
  | mk r write' =>
    cases r with
    | ok a => exact hf a write'
    | error fault =>
      rw [hrun] at h
      intro name heq
      cases heq
      exact h name rfl

theorem RunsNeverUnbound.pure (a : α) : RunsNeverUnbound (Pure.pure a : Exec α) :=
  fun _ => .ok a

theorem RunsNeverUnbound.readOnly {f : Option InMemoryGraphStore → Except Fault α}
    (h : ∀ write, NeverUnbound (f write)) : RunsNeverUnbound (KuzuEventBus.readOnly f) := h

theorem runsNeverUnbound_foldlM {f : β → α → Exec β} (h : ∀ b a, RunsNeverUnbound (f b a)) :
    ∀ (as : List α) (b : β), RunsNeverUnbound (as.foldlM f b)
  | [], b => .pure b
  | a :: as, b => by
    rw [List.foldlM_cons]
    exact (h b a).bind (runsNeverUnbound_foldlM h as)

theorem runsNeverUnbound_mapM {f : α → Exec β} (h : ∀ a, RunsNeverUnbound (f a)) :
    ∀ as : List α, RunsNeverUnbound (as.mapM f)
  | [] => .pure []
  | a :: as => by
    rw [List.mapM_cons]
    exact (h a).bind fun _ => (runsNeverUnbound_mapM h as).bind fun _ => .pure _

theorem runsNeverUnbound_createNeedsStore : RunsNeverUnbound (createNeedsStore : Exec α) :=
  fun _ => NeverUnbound.invalidArgument (by simp)

theorem runsNeverUnbound_writeStore
    {f : InMemoryGraphStore → Except Fault (α × InMemoryGraphStore)}
    (h : ∀ store, NeverUnbound (f store)) : RunsNeverUnbound (writeStore f) := by
  refine RunsNeverUnbound.bind (fun write => .ok write) fun write => ?_
  cases write with
  | none => exact runsNeverUnbound_createNeedsStore
  | some store =>
    have hstore := h store
    dsimp only
    cases hf : f store with
    | ok r => exact fun _ => .ok _
    | error fault =>
      rw [hf] at hstore
      intro write name heq
      exact hstore name (by cases heq; rfl)

theorem neverUnbound_checkedAdd (a b : ℕ) : NeverUnbound (checkedAdd a b) := by
  unfold checkedAdd
  split
  · exact .ok _
  · exact .panic _

theorem neverUnbound_createEnd (createdVars : HashMap String NodeId) (parent : Tuple)
    (side : String) (node : NodePattern) :
    NeverUnbound (createEnd createdVars parent side node) := by
  unfold createEnd
  split
  · rw [String.append_assoc]
    exact .invalidArgument_append _ (by simp) (by simp)
  · split
    · exact .ok _
    · exact .invalidArgument_append _ (by simp) (by simp)

theorem neverUnbound_addNode (store : InMemoryGraphStore) (labels : List String)
    (ps : Properties) : NeverUnbound (store.addNode labels ps) :=
  (neverUnbound_checkedAdd _ _).bind fun _ => .ok _

theorem neverUnbound_addEdge (store : InMemoryGraphStore) (a b : NodeId) (edgeType : String)
    (ps : Properties) : NeverUnbound (store.addEdge a b edgeType ps) :=
  (neverUnbound_checkedAdd _ _).bind fun _ => .ok _

theorem runsNeverUnbound_createPattern (parent : Tuple) (st : CreateState) (p : Pattern) :
    RunsNeverUnbound (createPattern parent st p) := by
  cases p with
  | node node =>
    have hadd := runsNeverUnbound_writeStore fun store =>
      neverUnbound_addNode store node.labels (literalProperties node.properties)
    refine hadd.bind fun id => ?_
    split
    · exact .pure _
    · exact .pure _
  | edge edge =>
    have hend (side : String) (node : NodePattern) : RunsNeverUnbound
        (readOnly fun _ => createEnd st.createdVars parent side node) :=
      .readOnly fun _ => neverUnbound_createEnd _ _ _ _
    refine (hend _ _).bind fun a => (hend _ _).bind fun b => ?_
    split
    · exact fun _ => NeverUnbound.invalidArgument (by simp)
    · have hadd (edgeType : String) := runsNeverUnbound_writeStore fun store =>
        neverUnbound_addEdge store a b edgeType (literalProperties edge.properties)
      refine (hadd _).bind fun id => ?_
      split
      · exact .pure _
      · exact .pure _

/-- A CREATE evaluates no expression. -/
theorem runsNeverUnbound_executeCreate (patterns : List Pattern) (parent : Tuple) :
    RunsNeverUnbound (executeCreate patterns parent) := by
  refine RunsNeverUnbound.bind (fun write => .ok write) fun write => ?_
  cases write with
  | none => exact runsNeverUnbound_createNeedsStore
  | some store =>
    have hpatterns := runsNeverUnbound_foldlM (runsNeverUnbound_createPattern parent) patterns
    exact (hpatterns _).bind fun _ => .pure _

/-- **The operators fail for no parameter that is not bound**, if evaluation does not. -/
theorem runsNeverUnbound_executeNodeWith
    {ev : Executor → Tuple → Option InMemoryGraphStore → Expr → Except Fault Value} {ex : Executor}
    (hev : ∀ e, BoundIn ex.parameters e → ∀ t, NeverUnbound (ev ex t none e)) (parent : Tuple) :
    ∀ node : PlanNode, (∀ e ∈ node.exprs, BoundIn ex.parameters e) →
      RunsNeverUnbound (executeNodeWith ev ex parent node) := by
  intro node
  induction node with
  | labelScan | fullScan => exact fun _ _ => .ok _
  | create patterns => exact fun _ => runsNeverUnbound_executeCreate patterns parent
  | matchCreate input patterns ih =>
    intro h
    refine (ih h).bind fun ts => RunsNeverUnbound.bind (fun write => .ok write) fun write => ?_
    cases write with
    | none => exact runsNeverUnbound_createNeedsStore
    | some store =>
      exact (runsNeverUnbound_mapM (runsNeverUnbound_executeCreate patterns) ts).bind
        fun _ => .pure _
  | cartesianProduct left right ihl ihr =>
    intro h
    obtain ⟨hl, hr⟩ := List.forall_mem_append.mp h
    exact (ihl hl).bind fun _ => (ihr hr).bind fun _ => .pure _
  -- the tuples on which a predicate fails are left out
  | filter input predicate ih =>
    intro h
    refine (ih (List.forall_mem_cons.mp h).2).bind fun ts => .readOnly fun _ => ?_
    exact (NoError.filterE (noError_accepts _ _) ts).neverUnbound
  | project input items ih =>
    intro h
    refine (ih (List.forall_mem_append.mp h).2).bind fun ts => .readOnly fun _ => ?_
    exact (NoError.mapM (noError_projectTuple _ _) ts).neverUnbound
  | orderBy input items ih =>
    intro h
    refine (ih (List.forall_mem_append.mp h).2).bind fun ts => .readOnly fun _ => ?_
    exact (noError_sortTuples _ items ts).neverUnbound
  | aggregate input groupBy aggregates ih =>
    intro h
    obtain ⟨hcolumns, hinput⟩ := List.forall_mem_append.mp h
    refine (ih hinput).bind fun ts => .readOnly fun _ => ?_
    exact neverUnbound_aggregateTuples
      (fun e he => hev e ((List.forall_mem_append.mp hcolumns).1 e he)) aggregates ts
  | limit input count ih => exact fun h => (ih h).bind fun _ => .pure _
  | expand input _ _ _ _ _ _ ih =>
    intro h
    refine (ih h).bind fun ts => .readOnly fun write => ?_
    split
    · exact .ok _
    · exact .ok _

/-- **Nor do they at any depth of `EXISTS`.** -/
theorem neverUnbound_subqueryAt (d : ℕ) : ∀ (ex : Executor) (node : PlanNode) (tuple : Tuple),
    (∀ e ∈ node.exprs, BoundIn ex.parameters e) → NeverUnbound (subqueryAt d ex node tuple) := by
  induction d with
  | zero => exact fun _ _ _ _ => .panic _
  | succ d ih =>
    intro ex node tuple h
    refine runsNeverUnbound_executeNodeWith (fun e he t => ?_) tuple node h none
    refine neverUnbound_evalExprWith (fun ex' node' t' hparameters hnode => ?_) t e none he
    exact ih ex' node' t' (by rw [hparameters]; exact hnode)

/-- **An expression whose parameters have values does not fail for one that has none.** -/
theorem neverUnbound_evalExpr {ex : Executor} {e : Expr} (h : BoundIn ex.parameters e)
    (tuple : Tuple) (write : Option InMemoryGraphStore) :
    NeverUnbound (evalExpr ex tuple write e) := by
  refine neverUnbound_evalExprWith (fun ex' node t hparameters hnode => ?_) tuple e write h
  exact neverUnbound_subqueryAt _ ex' node t (by rw [hparameters]; exact hnode)

end Evaluation

/-! ### Planning and execution -/

theorem neverUnbound_planNodePattern (toVars : List String) (st : PlanState)
    (prev next : Option Pattern) (node : NodePattern) :
    NeverUnbound (planNodePattern toVars st prev next node) := by
  unfold planNodePattern
  split
  · exact .invalidArgument (by simp)
  · split
    · split
      · exact .ok _
      · exact .ok _
      · exact .panic _
    · split
      · exact .ok _
      · split
        · exact .ok _
        · exact .ok _

theorem neverUnbound_edgeFromVar (prev : Option Pattern) (edge : EdgePattern) :
    NeverUnbound (edgeFromVar prev edge) := by
  unfold edgeFromVar
  split
  · exact .ok _
  · split
    · exact .ok _
    · exact .invalidArgument (by simp)
  · exact .invalidArgument (by simp)

theorem neverUnbound_edgeToVar (i : ℕ) (next : Option Pattern) (edge : EdgePattern) :
    NeverUnbound (edgeToVar i next edge) := by
  unfold edgeToVar
  split
  · exact .ok _
  · split
    · exact .ok _
    · exact .invalidArgument (by simp)
  · exact .ok _

theorem neverUnbound_planPatterns (toVars : List String) (patterns : List Pattern) :
    ∀ (i : ℕ) (st : PlanState) (prev : Option Pattern),
      NeverUnbound (planPatterns toVars i st prev patterns) := by
  induction patterns with
  | nil => exact fun _ _ _ => .ok _
  | cons pattern rest ih =>
    intro i st prev
    cases pattern with
    | node node =>
      have hnode := neverUnbound_planNodePattern toVars st prev rest.head? node
      exact hnode.bind fun st => ih _ st _
    | edge edge =>
      have hfrom := neverUnbound_edgeFromVar prev edge
      have hto := neverUnbound_edgeToVar i rest.head? edge
      have hedge : NeverUnbound (planEdgePattern i st prev rest.head? edge) :=
        hfrom.bind fun _ => hto.bind fun _ => .ok _
      exact hedge.bind fun st => ih _ st _

theorem neverUnbound_planMatch (clause : MatchClause) : NeverUnbound (planMatch clause) := by
  unfold planMatch
  split
  · exact .invalidArgument (by simp)
  · refine (neverUnbound_planPatterns _ _ _ _ _).bind fun st => ?_
    split
    · exact .ok _
    · exact .invalidArgument (by simp)

theorem neverUnbound_planSource (query : Query) : NeverUnbound (planSource query) := by
  unfold planSource
  split
  · exact (neverUnbound_planMatch _).bind fun _ => .ok _
  · exact neverUnbound_planMatch _
  · unfold planCreate
    split
    · exact .invalidArgument (by simp)
    · exact .ok _
  · exact .invalidArgument (by simp)

/-- The errors of the planner are of no parameter. -/
theorem neverUnbound_plan (query : Query) : NeverUnbound (plan query) := by
  refine (neverUnbound_planSource query).bind fun source => ?_
  dsimp only
  split
  · exact .ok _
  · exact .ok _

theorem neverUnbound_execute {ex : Executor} {p : ExecutionPlan}
    (h : ∀ e ∈ p.root.exprs, BoundIn ex.parameters e) (write : Option InMemoryGraphStore) :
    NeverUnbound (runExec (execute ex p) write).1 := by
  have hnode : RunsNeverUnbound (executeNode ex ∅ p.root) :=
    runsNeverUnbound_executeNodeWith (fun e he t =>
      neverUnbound_evalExprWith (fun ex' node t hparameters hnode =>
        neverUnbound_subqueryAt _ ex' node t (by rw [hparameters]; exact hnode)) t e none he)
      ∅ p.root h
  exact hnode.bind (fun tuples => .pure _) write

/-- **A query whose parameters have values does not fail for one that has none.** -/
theorem neverUnbound_executeQueryOnStore {params : Option (HashMap String Json)} {query : Query}
    (h : ∀ e ∈ query.exprs, BoundIn (paramValues params) e) (store : InMemoryGraphStore) :
    NeverUnbound (executeQueryOnStore store params query).1 := by
  have hquery := neverUnbound_plan query
  unfold executeQueryOnStore
  cases hplan : plan query with
  | error fault =>
    rw [hplan] at hquery
    exact fun name heq => hquery name (by cases heq; rfl)
  | ok p =>
    have hp := boundIn_of_plan hplan h
    dsimp only
    split
    · exact neverUnbound_execute hp _
    · exact neverUnbound_execute hp _

/-! ### Collected and needed -/

/-- What the collector is for: it returns the parameters that occur in the query, so that with
values for them no part of the query and no run of it fails for a parameter that is not bound. -/
structure CollectsExactly (query : Query) : Prop where
  exact : ∀ name, name ∈ extractParameters query ↔ query.Mentions name
  evaluates : ∀ ex : Executor,
    (∀ name ∈ extractParameters query, (ex.parameters.lookup name).isSome) →
      ∀ e, query.Within true e → ∀ tuple write, NeverUnbound (evalExpr ex tuple write e)
  executes : ∀ store params,
    (∀ name ∈ extractParameters query, ((paramValues params).lookup name).isSome) →
      NeverUnbound (executeQueryOnStore store params query).1

/-- **The collector returns the parameters a query needs exactly when every parameter in an argument
of a function call also occurs outside of function calls.** -/
theorem collectsExactly_iff (query : Query) :
    CollectsExactly query ↔ query.ArgumentsOccurOutside := by
  rw [← extractParameters_exact_iff]
  refine ⟨CollectsExactly.exact, fun hexact => ⟨hexact, ?_, ?_⟩⟩
  -- a parameter of a part of the query is one of the query
  · rintro ex hbound e ⟨a, ha, he⟩ tuple write
    refine neverUnbound_evalExpr (fun name hname => hbound name ?_) tuple write
    exact (hexact name).mpr ⟨a, ha, hname.trans he⟩
  · intro store params hbound
    refine neverUnbound_executeQueryOnStore (fun a ha name hname => hbound name ?_) store
    exact (hexact name).mpr ⟨a, ha, hname⟩

/-- A function call with a parameter, in a grouping column. -/
def callText : String := "MATCH (n) RETURN ID($x), COUNT(n)"

/-- The collector finds no parameter in `callText`, which fails for want of `x`. -/
theorem not_collectsExactly_call : ∃ query, parse .ascii callText = .ok query ∧
    extractParameters query = ∅ ∧
    (executeQueryOnStore .twoNodes none query).1.map (fun _ => ()) =
      .error (unboundParameter "x") ∧ ¬ CollectsExactly query := by
  have hnone : (parse .ascii callText).map extractParameters = .ok ∅ := by decide +kernel
  have hrun : (executeGqlOnStore .ascii .twoNodes callText none).1.map (fun _ => ()) =
      .error (unboundParameter "x") := by decide +kernel
  obtain ⟨query, hquery, hempty⟩ := map_eq_ok hnone
  rw [executeGqlOnStore, hquery] at hrun
  have hfails : (executeQueryOnStore .twoNodes none query).1.map (fun _ => ()) =
      .error (unboundParameter "x") := hrun
  refine ⟨query, hquery, hempty, hfails, fun h => ?_⟩
  have hnever := h.executes .twoNodes none (by simp [hempty])
  cases hresult : (executeQueryOnStore .twoNodes none query).1 with
  | ok result =>
    rw [hresult] at hfails
    cases hfails
  | error fault =>
    rw [hresult] at hfails hnever
    cases hfails
    exact hnever "x" rfl

end KuzuEventBus
