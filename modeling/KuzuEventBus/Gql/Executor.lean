import KuzuEventBus.Gql.Planner
import KuzuEventBus.Gql.Traverse
import Mathlib.Algebra.Group.Int.Defs

/-!
# The executor

`casys_engine/src/exec/executor.rs`.  An operator runs with the optional read
store of the executor and with the optional write handle; the handle is a state
that keeps what was written before an error.  Counters, timings and debug output
are left out.

An `EXISTS` expression plans and runs a query, so evaluation and execution are
written once over each other (`evalExprWith`, `executeNodeWith`) and tied by the
depth at which `EXISTS` is nested (`executeNodeAt`).

## Main definitions

* `evalBinaryOp`, `evalExprWith`, `evalAggregate` — evaluation.
* `compareTuples`, `sortTuples` — ORDER BY.
* `Exec`, `executeCreate`, `executeNodeWith` — the operators.
* `executeNodeAt`, `evalExpr`, `executeNode`, `execute` — the executor.
-/

namespace KuzuEventBus

/-! ### Debug text -/

/-- `Debug` of an engine error. -/
def EngineError.debug : EngineError → String
  | .storageIo msg => "StorageIo(" ++ msg.quote ++ ")"
  | .invalidArgument msg => "InvalidArgument(" ++ msg.quote ++ ")"
  | .notFound msg => "NotFound(" ++ msg.quote ++ ")"
  | .concurrency msg => "Concurrency(" ++ msg.quote ++ ")"
  | .notImplemented msg => "NotImplemented(" ++ msg.quote ++ ")"

/-- `Debug` of a value. -/
def Value.debug : Value → String
  | .string s => "String(" ++ s.quote ++ ")"
  | .int i => "Int(" ++ toString i ++ ")"
  | .float f => "Float(" ++ toString f ++ ")"
  | .bool b => "Bool(" ++ toString b ++ ")"
  | .null => "Null"
  | .nodeId id => "NodeId(" ++ toString id ++ ")"

/-- `Debug` of a binary operator. -/
def BinOp.debug : BinOp → String
  | .eq => "Eq" | .ne => "Ne" | .lt => "Lt" | .le => "Le" | .gt => "Gt" | .ge => "Ge"
  | .and => "And" | .or => "Or"
  | .add => "Add" | .sub => "Sub" | .mul => "Mul" | .div => "Div"

/-! ### Binary operators -/

/-- An `i64` result, or the overflow panic of the operation. -/
def checkedInt (operation : String) (n : ℤ) : Except Fault Value :=
  if -2 ^ 63 ≤ n ∧ n < 2 ^ 63 then .ok (.int (Int64.ofInt n))
  else .error (.panic ("attempt to " ++ operation ++ " with overflow"))

/-- The integer operators. -/
def evalIntOp (l : Int64) (op : BinOp) (r : Int64) : Except Fault Value :=
  match op with
  | .add => checkedInt "add" (l.toInt + r.toInt)
  | .sub => checkedInt "subtract" (l.toInt - r.toInt)
  | .mul => checkedInt "multiply" (l.toInt * r.toInt)
  | .div =>
    if r = 0 then invalidArgument "division by zero"
    else checkedInt "divide" (l.toInt.tdiv r.toInt)
  | .eq => .ok (.bool (l = r))
  | .ne => .ok (.bool (l ≠ r))
  | .lt => .ok (.bool (l < r))
  | .le => .ok (.bool (l ≤ r))
  | .gt => .ok (.bool (l > r))
  | .ge => .ok (.bool (l ≥ r))
  | .and | .or => invalidArgument "invalid int op"

/-- The float operators; `msg` is the error of an operator that is none. -/
def evalFloatOp (msg : String) (l : Float) (op : BinOp) (r : Float) : Except Fault Value :=
  match op with
  | .add => .ok (.float (l + r))
  | .sub => .ok (.float (l - r))
  | .mul => .ok (.float (l * r))
  | .div => if r == 0.0 then invalidArgument "division by zero" else .ok (.float (l / r))
  | .eq => .ok (.bool (l == r))
  | .ne => .ok (.bool (l != r))
  | .lt => .ok (.bool (l < r))
  | .le => .ok (.bool (l ≤ r))
  | .gt => .ok (.bool (l > r))
  | .ge => .ok (.bool (l ≥ r))
  | .and | .or => invalidArgument msg

/-- `eval_binary_op`. -/
def evalBinaryOp (left : Value) (op : BinOp) (right : Value) : Except Fault Value :=
  match left, right with
  | .int l, .int r => evalIntOp l op r
  | .float l, .float r => evalFloatOp "invalid float op" l op r
  | .int l, .float r => evalFloatOp "invalid numeric op" l.toFloat op r
  | .float l, .int r => evalFloatOp "invalid numeric op" l op r.toFloat
  | .bool l, .bool r =>
    match op with
    | .and => .ok (.bool (l && r))
    | .or => .ok (.bool (l || r))
    | .eq => .ok (.bool (l == r))
    | .ne => .ok (.bool (l != r))
    | _ => invalidArgument "invalid bool op"
  | .string l, .string r =>
    match op with
    | .eq => .ok (.bool (l == r))
    | .ne => .ok (.bool (l != r))
    | _ => invalidArgument "invalid string op"
  | _, _ => invalidArgument
      ("type mismatch in binary op: " ++ left.debug ++ " " ++ op.debug ++ " " ++ right.debug)

/-! ### The executor and its readers -/

/-- `Executor`. -/
structure Executor where
  read : Option InMemoryGraphStore
  parameters : HashMap String Value

/-- `Executor::new`. -/
def Executor.new (store : InMemoryGraphStore) : Executor := ⟨some store, ∅⟩

/-- `Executor::new_no_read`. -/
def Executor.newNoRead : Executor := ⟨none, ∅⟩

/-- The store an operator reads: the read store if there is one, the write handle otherwise. -/
def Executor.reader (ex : Executor) (write : Option InMemoryGraphStore) :
    Option InMemoryGraphStore :=
  ex.read.or write

/-! ### Expressions -/

/-- `eval_literal`. -/
def evalLiteral : Literal → Value
  | .string s => .string s
  | .int i => .int i
  | .float f => .float f
  | .bool b => .bool b
  | .null => .null

/-- `name.to_uppercase() == "ID"`; a dotless `ı` is an `I` in upper case, too. -/
def isIdFunction (name : String) : Bool :=
  match name.toList with
  | [c, d] => (c == 'I' || c == 'i' || c == 'ı') && (d == 'D' || d == 'd')
  | _ => false

/-- `EXISTS` of a pattern that starts with an edge from a bound variable, without
WHERE: read off the neighbours.  `none` where the query has another form. -/
def existsFastPath (ex : Executor) (query : Query) (tuple : Tuple)
    (write : Option InMemoryGraphStore) : Option Bool :=
  match query.whereClause, query.matchClause with
  | none, some clause =>
    match clause.patterns.head? with
    | some (.edge edge) =>
      (edge.fromNode.var.bind (boundNode tuple)).map fun fromId =>
        match ex.reader write with
        | none => false
        | some store =>
          let labelMatches (node : Node) : Bool :=
            edge.toNode.labels.isEmpty || edge.toNode.labels.any (· ∈ node.labels)
          match edge.depth with
          | some depth =>
            (traverseVariableLength store fromId (unionTypes false edge.edgeType) edge.direction
              depth.min depth.max).any labelMatches
          | none =>
            (directedNeighbors store fromId edge.edgeType edge.direction).any
              fun en => labelMatches en.2
    | _ => none
  | _, _ => none

/-- `eval_expr`; `sub` runs the plan of an `EXISTS` query without a write handle. -/
def evalExprWith (sub : Executor → PlanNode → Tuple → Except Fault (List Tuple)) (ex : Executor)
    (tuple : Tuple) (write : Option InMemoryGraphStore) : Expr → Except Fault Value
  | .literal lit => .ok (evalLiteral lit)
  | .ident name =>
    match tuple.lookup name with
    | some v => .ok v
    | none => invalidArgument ("variable not found: " ++ name)
  | .property var prop =>
    match tuple.lookup (propKey var prop) with
    | some v => .ok v
    | none => invalidArgument ("property not found: " ++ propKey var prop)
  | .binaryOp left op right => do
    let l ← evalExprWith sub ex tuple none left
    let r ← evalExprWith sub ex tuple none right
    evalBinaryOp l op r
  | .unaryOp .not operand => do
    let v ← evalExprWith sub ex tuple none operand
    match v with
    | .bool b => .ok (.bool !b)
    | _ => invalidArgument "NOT requires boolean"
  | .parameter name =>
    match ex.parameters.lookup name with
    | some v => .ok v
    | none =>
      invalidArgument ("parameter $" ++ name ++ " not bound - pass it in params argument")
  | .isNull e => do
    let v ← evalExprWith sub ex tuple none e
    .ok (.bool (v = .null))
  | .isNotNull e => do
    let v ← evalExprWith sub ex tuple none e
    .ok (.bool (v ≠ .null))
  | .functionCall name [arg] =>
    if isIdFunction name then do
      let v ← evalExprWith sub ex tuple none arg
      match v with
      | .nodeId id => .ok (.int (Int64.ofNat id))
      | _ => invalidArgument "ID() requires a node argument"
    else invalidArgument ("unknown function: " ++ name)
  | .functionCall name _ =>
    if isIdFunction name then invalidArgument "ID() requires exactly 1 argument"
    else invalidArgument ("unknown function: " ++ name)
  | .exists query =>
    match existsFastPath ex query tuple write with
    | some b => .ok (.bool b)
    | none =>
      match plan query with
      | .error (.error e) => invalidArgument ("EXISTS subquery planning error: " ++ e.debug)
      | .error (.panic msg) => .error (.panic msg)
      | .ok subPlan =>
        match ex.reader write with
        | none => .ok (.bool false)
        | some store => do
          let tuples ← sub { ex with read := some store } subPlan.root tuple
          .ok (.bool !tuples.isEmpty)
  | .aggregate _ _ => invalidArgument "aggregate must be evaluated at Project"

/-- How an operator evaluates an expression on a tuple. -/
abbrev Eval := Expr → Tuple → Except Fault Value

/-! ### Rows: filters, projections, aggregates, order -/

/-- Keep the elements a fallible test accepts. -/
def filterE {α : Type} (test : α → Except Fault Bool) : List α → Except Fault (List α)
  | [] => .ok []
  | a :: as => do
    let keep ← test a
    let kept ← filterE test as
    pure (if keep then a :: kept else kept)

/-- What is kept was there and was accepted. -/
theorem mem_filterE {α : Type} {test : α → Except Fault Bool} {as kept : List α}
    (h : filterE test as = .ok kept) {a : α} : a ∈ kept ↔ a ∈ as ∧ test a = .ok true := by
  induction as generalizing kept with
  | nil => cases h; simp
  | cons b as ih =>
    obtain ⟨keep, hb, h⟩ := bind_eq_ok h
    obtain ⟨rest, hrest, h⟩ := bind_eq_ok h
    cases h
    have ih := ih hrest
    cases keep with
    | true =>
      rw [if_pos rfl, List.mem_cons, List.mem_cons, ih]
      constructor
      · rintro (rfl | ⟨hmem, ha⟩)
        · exact ⟨.inl rfl, hb⟩
        · exact ⟨.inr hmem, ha⟩
      · rintro ⟨rfl | hmem, ha⟩
        · exact .inl rfl
        · exact .inr ⟨hmem, ha⟩
    | false =>
      rw [if_neg Bool.false_ne_true, List.mem_cons, ih]
      constructor
      · rintro ⟨hmem, ha⟩; exact ⟨.inr hmem, ha⟩
      · rintro ⟨rfl | hmem, ha⟩
        · rw [hb] at ha; simp at ha
        · exact ⟨hmem, ha⟩

/-- The test of Filter: an error counts as false. -/
def accepts (ev : Eval) (predicate : Expr) (tuple : Tuple) : Except Fault Bool := do
  let v ← okOrNone (ev predicate tuple)
  pure (v = some (.bool true))

/-- The name of a projected column. -/
def itemName (item : ReturnItem) : String :=
  item.aliasName.getD (match item.expr with
    | .ident name => name
    | .property var prop => propKey var prop
    | _ => "?")

/-- Project one tuple: an item that fails to evaluate is left out. -/
def projectTuple (ev : Eval) (items : List ReturnItem) (tuple : Tuple) : Except Fault Tuple := do
  let fields ← items.mapM fun item => do
    let v ← okOrNone (ev item.expr tuple)
    pure (v.map fun v => (itemName item, v))
  pure ((∅ : Tuple).insertAll (fields.filterMap id))

/-- The numbers an aggregate runs over, as floats; other values and errors are passed over. -/
def numericValues (ev : Eval) (arg : Expr) (tuples : List Tuple) : Except Fault (List Float) := do
  let values ← tuples.mapM fun tuple => okOrNone (ev arg tuple)
  pure (values.filterMap fun
    | some (.int i) => some i.toFloat
    | some (.float f) => some f
    | _ => none)

/-- `f64::min`: a NaN is passed over. -/
def floatMin (a b : Float) : Float :=
  if a.isNaN then b else if b.isNaN then a else if b < a then b else a

/-- `f64::max`: a NaN is passed over. -/
def floatMax (a b : Float) : Float :=
  if a.isNaN then b else if b.isNaN then a else if a < b then b else a

/-- The fold of MIN and MAX over the numbers there are. -/
def bestOf (better : Float → Float → Float) : List Float → Value
  | [] => .null
  | x :: xs => .float (xs.foldl better x)

/-- `eval_aggregate`. -/
def evalAggregate (ev : Eval) (expr : Expr) (tuples : List Tuple) : Except Fault Value :=
  match expr with
  | .aggregate .count _ => .ok (.int (Int64.ofNat tuples.length))
  | .aggregate .sum arg => do
    let xs ← numericValues ev arg tuples
    pure (.float (xs.foldl (· + ·) 0.0))
  | .aggregate .avg arg => do
    let xs ← numericValues ev arg tuples
    pure (if xs.isEmpty then .null else .float (xs.foldl (· + ·) 0.0 / Float.ofNat xs.length))
  | .aggregate .min arg => do
    let xs ← numericValues ev arg tuples
    pure (bestOf floatMin xs)
  | .aggregate .max arg => do
    let xs ← numericValues ev arg tuples
    pure (bestOf floatMax xs)
  | _ => invalidArgument "expected aggregate expression"

/-- The aggregate columns of one group. -/
def aggregateColumns (ev : Eval) (aggregates : List (String × Expr)) (tuples : List Tuple) :
    Except Fault (List (String × Value)) :=
  aggregates.mapM fun a => do
    let v ← evalAggregate ev a.2 tuples
    pure (a.1, v)

/-- The name of the `i`-th grouping column. -/
def groupColumn (i : ℕ) : Expr → String
  | .ident name => name
  | .property var prop => propKey var prop
  | _ => "group_" ++ toString i

/-- The grouping columns of a group, from its first tuple. -/
def groupColumns (ev : Eval) (groupBy : List Expr) (tuples : List Tuple) :
    Except Fault (List (String × Value)) :=
  match tuples.head? with
  | none => .ok []
  | some first => groupBy.zipIdx.mapM fun ei => do
    let v ← ev ei.1 first
    pure (groupColumn ei.2 ei.1, v)

/-- The key a tuple is grouped under: the JSON of the grouping expressions. -/
def groupKey (ev : Eval) (groupBy : List Expr) (tuple : Tuple) : Except Fault (List Json) :=
  groupBy.mapM fun e => do
    let v ← ev e tuple
    pure v.toJson

/-- Group tuples by their keys. -/
def groupTuples (ev : Eval) (groupBy : List Expr) (tuples : List Tuple) :
    Except Fault (HashMap (List Json) (List Tuple)) :=
  tuples.foldlM (fun groups tuple => do
    let key ← groupKey ev groupBy tuple
    pure (groups.pushTo key tuple)) ∅

/-- The Aggregate operator on its input. -/
def aggregateTuples (ev : Eval) (groupBy : List Expr) (aggregates : List (String × Expr))
    (tuples : List Tuple) : Except Fault (List Tuple) :=
  if groupBy.isEmpty then do
    let columns ← aggregateColumns ev aggregates tuples
    pure [(∅ : Tuple).insertAll columns]
  else do
    let groups ← groupTuples ev groupBy tuples
    groups.values.mapM fun group => do
      let keys ← groupColumns ev groupBy group
      let columns ← aggregateColumns ev aggregates group
      pure ((∅ : Tuple).insertAll (keys ++ columns))

/-- How OrderBy compares two values: values of different types are equal. -/
def compareValues : Option Value → Option Value → Ordering
  | some (.int a), some (.int b) => compare a.toInt b.toInt
  | some (.float a), some (.float b) =>
    if a < b then .lt else if a > b then .gt else .eq
  | some (.string a), some (.string b) => compare a b
  | _, _ => .eq

/-- The comparison of `OrderBy`. -/
def compareTuples (ev : Eval) (a b : Tuple) : List OrderByItem → Except Fault Ordering
  | [] => .ok .eq
  | item :: items => do
    let va ← okOrNone (ev item.expr a)
    let vb ← okOrNone (ev item.expr b)
    let cmp := compareValues va vb
    if cmp ≠ .eq then pure (if item.descending then cmp.swap else cmp)
    else compareTuples ev a b items

/-- Insert a tuple in front of the first one that is not smaller. -/
def insertTuple (ev : Eval) (items : List OrderByItem) (a : Tuple) :
    List Tuple → Except Fault (List Tuple)
  | [] => .ok [a]
  | b :: bs => do
    let cmp ← compareTuples ev a b items
    if cmp = .gt then do
      let rest ← insertTuple ev items a bs
      pure (b :: rest)
    else pure (a :: b :: bs)

/-- `sort_by`, a stable sort; the order of the comparisons is not modelled. -/
def sortTuples (ev : Eval) (items : List OrderByItem) : List Tuple → Except Fault (List Tuple)
  | [] => .ok []
  | a :: as => do
    let sorted ← sortTuples ev items as
    insertTuple ev items a sorted

/-! ### Operators -/

/-- A computation with the write handle as its state; an error keeps what was written. -/
abbrev Exec (α : Type) := ExceptT Fault (StateM (Option InMemoryGraphStore)) α

/-- Run a computation on a write handle. -/
def runExec {α : Type} (x : Exec α) (write : Option InMemoryGraphStore) :
    Except Fault α × Option InMemoryGraphStore := x write

/-- A computation that reads the write handle and leaves it as it is. -/
def readOnly {α : Type} (f : Option InMemoryGraphStore → Except Fault α) : Exec α :=
  ExceptT.mk fun write => (f write, write)

@[simp] theorem runExec_pure {α : Type} (a : α) (write : Option InMemoryGraphStore) :
    runExec (pure a) write = (.ok a, write) := rfl

@[simp] theorem runExec_throw {α : Type} (e : Fault) (write : Option InMemoryGraphStore) :
    runExec (throw e : Exec α) write = (.error e, write) := rfl

@[simp] theorem runExec_readOnly {α : Type} (f : Option InMemoryGraphStore → Except Fault α)
    (write : Option InMemoryGraphStore) : runExec (readOnly f) write = (f write, write) := rfl

@[simp] theorem runExec_get (write : Option InMemoryGraphStore) :
    runExec (get : Exec (Option InMemoryGraphStore)) write = (.ok write, write) := rfl

/-- A sequence runs its second part where the first one returns. -/
theorem runExec_bind {α β : Type} (x : Exec α) (f : α → Exec β)
    (write : Option InMemoryGraphStore) : runExec (x >>= f) write =
      match runExec x write with
      | (.ok a, write') => runExec (f a) write'
      | (.error e, write') => (.error e, write') := by
  change (match runExec x write with | (r, write') => ExceptT.bindCont f r write') = _
  cases runExec x write with
  | mk r write' => cases r <;> rfl

theorem runExec_bind_ok {α β : Type} {x : Exec α} {f : α → Exec β}
    {write write' : Option InMemoryGraphStore} {a : α} (h : runExec x write = (.ok a, write')) :
    runExec (x >>= f) write = runExec (f a) write' := by
  rw [runExec_bind, h]

/-- What a sequence that returns went through. -/
theorem runExec_bind_eq_ok {α β : Type} {x : Exec α} {f : α → Exec β}
    {write write'' : Option InMemoryGraphStore} {b : β}
    (h : runExec (x >>= f) write = (.ok b, write'')) :
    ∃ a write', runExec x write = (.ok a, write') ∧ runExec (f a) write' = (.ok b, write'') := by
  rw [runExec_bind] at h
  cases hx : runExec x write with
  | mk r write' =>
    rw [hx] at h
    cases r with
    | ok a => exact ⟨a, write', rfl, h⟩
    | error e => simp at h

/-- The error of a CREATE without a write handle. -/
def createNeedsStore {α : Type} : Exec α :=
  throw (.error (.invalidArgument "CREATE requires a write-capable store"))

/-- A write operation on the handle. -/
def writeStore {α : Type}
    (f : InMemoryGraphStore → Except Fault (α × InMemoryGraphStore)) : Exec α := do
  match ← get with
  | none => createNeedsStore
  | some store =>
    match f store with
    | .ok (a, store) => do set (some store); pure a
    | .error e => throw e

/-- A write operation keeps the store where it fails. -/
theorem runExec_writeStore {α : Type}
    (f : InMemoryGraphStore → Except Fault (α × InMemoryGraphStore)) (store : InMemoryGraphStore) :
    runExec (writeStore f) (some store) =
      match f store with
      | .ok (a, store') => (.ok a, some store')
      | .error e => (.error e, some store) := by
  rw [writeStore, runExec_bind_ok (runExec_get _)]
  cases hf : f store with
  | ok r =>
    simp only [hf]
    rfl
  | error e => simp only [hf, runExec_throw]

/-- What a write operation that returns did to the store. -/
theorem runExec_writeStore_eq_ok {α : Type}
    {f : InMemoryGraphStore → Except Fault (α × InMemoryGraphStore)} {store : InMemoryGraphStore}
    {a : α} {write' : Option InMemoryGraphStore}
    (h : runExec (writeStore f) (some store) = (.ok a, write')) :
    ∃ store', f store = .ok (a, store') ∧ write' = some store' := by
  rw [runExec_writeStore] at h
  cases hf : f store with
  | error e => rw [hf] at h; simp at h
  | ok r =>
    rw [hf] at h
    simp only [Prod.mk.injEq, Except.ok.injEq] at h
    obtain ⟨rfl, rfl⟩ := h
    exact ⟨r.2, rfl, rfl⟩

/-- The properties a CREATE pattern writes. -/
def literalProperties (properties : HashMap String Literal) : Properties :=
  (∅ : Properties).insertAll (properties.toPairs.map fun kv => (kv.1, evalLiteral kv.2))

/-- The state of `execute_create`: the nodes created under a variable, the result. -/
structure CreateState where
  createdVars : HashMap String NodeId
  resultTuple : Tuple

/-- The node an end of a CREATE edge refers to; `side` is the field the error names. -/
def createEnd (createdVars : HashMap String NodeId) (parent : Tuple) (side : String)
    (node : NodePattern) : Except Fault NodeId :=
  match node.var with
  | none => invalidArgument ("edge " ++ side ++ " must have variable")
  | some var =>
    match (createdVars.lookup var).or (boundNode parent var) with
    | some id => .ok id
    | none => invalidArgument ("undefined variable: " ++ var)

/-- One pattern of `execute_create`. -/
def createPattern (parent : Tuple) (st : CreateState) : Pattern → Exec CreateState
  | .node node => do
    let id ← writeStore (·.addNode node.labels (literalProperties node.properties))
    match node.var with
    | some var => pure ⟨st.createdVars.insert var id, st.resultTuple.insert var (.nodeId id)⟩
    | none => pure st
  | .edge edge => do
    let fromId ← readOnly fun _ => createEnd st.createdVars parent "from_node" edge.fromNode
    let toId ← readOnly fun _ => createEnd st.createdVars parent "to_node" edge.toNode
    match edge.edgeType with
    | none => throw (.error (.invalidArgument "edge must have type"))
    | some edgeType => do
      let id ← writeStore (·.addEdge fromId toId edgeType (literalProperties edge.properties))
      match edge.var with
      | some var =>
        pure { st with resultTuple := st.resultTuple.insert var (.int (Int64.ofNat id)) }
      | none => pure st

/-- `execute_create`. -/
def executeCreate (patterns : List Pattern) (parent : Tuple) : Exec (List Tuple) := do
  match ← get with
  | none => createNeedsStore
  | some _ => do
    let st ← patterns.foldlM (createPattern parent) ⟨∅, parent⟩
    pure [st.resultTuple]

/-- A scan: a variable the parent tuple binds is checked by `keep`, another one runs
over `nodes`. -/
def scanTuples (store : Option InMemoryGraphStore) (var : String) (parent : Tuple)
    (keep : Node → Bool) (nodes : InMemoryGraphStore → List Node) : List Tuple :=
  match parent.lookup var with
  | some (.nodeId id) =>
    match store.bind (·.getNode id) with
    | some node => if keep node then [bindNode parent var id node.properties] else []
    | none => []
  | some _ => []
  | none =>
    match store with
    | some store => (nodes store).map fun n => bindNode parent var n.id n.properties
    | none => []

/-- Every tuple of the left input merged with every tuple of the right one, whose
bindings win. -/
def productTuples (left right : List Tuple) : List Tuple :=
  left.flatMap fun l => right.map fun r => l.insertAll r.toPairs

/-- `execute_node_with_context`; `ev` evaluates expressions on behalf of an executor. -/
def executeNodeWith (ev : Executor → Tuple → Option InMemoryGraphStore → Expr → Except Fault Value)
    (ex : Executor) (parent : Tuple) : PlanNode → Exec (List Tuple)
  | .create patterns => executeCreate patterns parent
  | .matchCreate matchInput createPatterns => do
    let matchTuples ← executeNodeWith ev ex parent matchInput
    match ← get with
    | none => createNeedsStore
    | some _ => do
      let created ← matchTuples.mapM (executeCreate createPatterns)
      pure created.flatten
  | .cartesianProduct left right => do
    let leftTuples ← executeNodeWith ev ex parent left
    let rightTuples ← executeNodeWith ev ex parent right
    pure (productTuples leftTuples rightTuples)
  | .labelScan var label =>
    readOnly fun write =>
      .ok (scanTuples (ex.reader write) var parent (label ∈ ·.labels) (·.scanByLabel label))
  | .fullScan var =>
    readOnly fun write =>
      .ok (scanTuples (ex.reader write) var parent (fun _ => true) (·.scanAll))
  | .filter input predicate => do
    let tuples ← executeNodeWith ev ex parent input
    readOnly fun _ => filterE (accepts (fun e t => ev ex t none e) predicate) tuples
  | .project input items => do
    let tuples ← executeNodeWith ev ex parent input
    readOnly fun _ => tuples.mapM (projectTuple (fun e t => ev ex t none e) items)
  | .aggregate input groupBy aggregates => do
    let tuples ← executeNodeWith ev ex parent input
    readOnly fun _ => aggregateTuples (fun e t => ev ex t none e) groupBy aggregates tuples
  | .orderBy input items => do
    let tuples ← executeNodeWith ev ex parent input
    readOnly fun _ => sortTuples (fun e t => ev ex t none e) items tuples
  | .limit input count => do
    let tuples ← executeNodeWith ev ex parent input
    pure (tuples.take count)
  | .expand input fromVar edgeVar toVar edgeType direction depth => do
    let tuples ← executeNodeWith ev ex parent input
    readOnly fun write =>
      match ex.reader write with
      | none => .ok []
      | some store =>
        .ok (tuples.flatMap
          (expandTuple store ⟨fromVar, edgeVar, toVar, edgeType, direction, depth⟩))

/-! ### The executor -/

/-- Run the plan of an `EXISTS` query without a write handle, `EXISTS` being nested
less than `d` deep in it. -/
def subqueryAt : ℕ → Executor → PlanNode → Tuple → Except Fault (List Tuple)
  | 0, _, _, _ => .error (.panic "EXISTS nested too deep")
  | d + 1, ex, plan, tuple =>
    (runExec (executeNodeWith (evalExprWith (subqueryAt d)) ex tuple plan) none).1

/-- Execution with `EXISTS` nested at most `d` deep. -/
def executeNodeAt (d : ℕ) : Executor → Tuple → PlanNode → Exec (List Tuple) :=
  executeNodeWith (evalExprWith (subqueryAt d))

/-- `eval_expr`. -/
def evalExpr (ex : Executor) (tuple : Tuple) (write : Option InMemoryGraphStore) (e : Expr) :
    Except Fault Value :=
  evalExprWith (subqueryAt e.existsDepth) ex tuple write e

/-- `execute_node_with_context`. -/
def executeNode (ex : Executor) (parent : Tuple) (node : PlanNode) : Exec (List Tuple) :=
  executeNodeAt node.existsDepth ex parent node

/-- `ColumnMeta`. -/
structure ColumnMeta where
  name : String
  type : String

/-- `QueryResult`, without its statistics. -/
structure QueryResult where
  columns : List ColumnMeta
  rows : List (List Json)

/-- `projection_names_from_plan`. -/
def projectionNames : PlanNode → Option (List String)
  | .project _ items => some (items.map itemName)
  | .orderBy input _ => projectionNames input
  | .limit input _ => projectionNames input
  | _ => none

/-- The rows of a result: the columns are those of the projection if the plan ends
in one, and those of the first tuple otherwise. -/
def toQueryResult (names : Option (List String)) (tuples : List Tuple) : QueryResult :=
  let columns := names.getD ((tuples.head?.map (·.keys)).getD [])
  ⟨columns.map fun name => ⟨name, "any"⟩,
    tuples.map fun tuple => columns.map fun name => ((tuple.lookup name).getD .null).toJson⟩

/-- `Executor::execute`. -/
def execute (ex : Executor) (plan : ExecutionPlan) : Exec QueryResult := do
  let tuples ← executeNode ex ∅ plan.root
  pure (toQueryResult (projectionNames plan.root) tuples)

end KuzuEventBus
