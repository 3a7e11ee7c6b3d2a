import KuzuEventBus.Gql.PlanShape
import KuzuEventBus.Gql.ReadPath

/-!
# Nested EXISTS

`executeNode` and `evalExpr` run with the depth at which `EXISTS` is nested in their
plan or expression.  A sub-query is planned into operators whose expressions come
from the query or compare literals, so that depth is always enough: any larger one
gives the same result, and an `EXISTS` runs the plan of its query.

## Main results

* `plan_existsDepth` — a plan nests `EXISTS` no deeper than its query.
* `executeNodeAt_eq`, `evalExprWith_subqueryAt` — larger depths change nothing.
* `evalExpr_exists` — **`EXISTS` runs the plan of its query**.
-/

namespace KuzuEventBus

/-! ### The depth of a plan -/

theorem orderItemsExistsDepth_le {items : List OrderByItem} {d : ℕ} :
    orderItemsExistsDepth items ≤ d ↔ ∀ item ∈ items, item.expr.existsDepth ≤ d := by
  induction items with
  | nil => simp [orderItemsExistsDepth]
  | cons item items ih => rw [orderItemsExistsDepth, Nat.max_le, ih, List.forall_mem_cons]

/-- The depth of a plan is that of its expressions. -/
theorem PlanNode.existsDepth_le {node : PlanNode} {d : ℕ} :
    node.existsDepth ≤ d ↔ ∀ e ∈ node.exprs, e.existsDepth ≤ d := by
  induction node with
  | labelScan | fullScan | create => simp [existsDepth, exprs]
  | matchCreate _ _ ih | limit _ _ ih | expand _ _ _ _ _ _ _ ih => exact ih
  | filter input predicate ih =>
    rw [existsDepth, exprs, Nat.max_le, ih, List.forall_mem_cons, and_comm]
  | project input items ih =>
    rw [existsDepth, exprs, Nat.max_le, ih, itemsExistsDepth_le, List.forall_mem_append,
      List.forall_mem_map, and_comm]
  | orderBy input items ih =>
    rw [existsDepth, exprs, Nat.max_le, ih, orderItemsExistsDepth_le, List.forall_mem_append,
      List.forall_mem_map, and_comm]
  | aggregate input groupBy aggregates ih =>
    rw [existsDepth, exprs, Nat.max_le, Nat.max_le, ih, argsExistsDepth_le, argsExistsDepth_le,
      List.forall_mem_append, List.forall_mem_append, and_comm]
  | cartesianProduct left right ihl ihr =>
    rw [existsDepth, exprs, Nat.max_le, ihl, ihr, List.forall_mem_append]

/-- The predicates of the planner hold no `EXISTS`. -/
theorem PlannerMade.existsDepth {e : Expr} (h : PlannerMade e) : e.existsDepth ≤ 0 := by
  induction h with
  | propEq | endsDiffer => exact le_rfl
  | and _ _ iha ihb => exact Nat.max_le.mpr ⟨iha, ihb⟩

/-- The clauses of a query nest `EXISTS` no deeper than the query. -/
theorem existsDepth_le_of_mem_exprs {query : Query} {e : Expr} (h : e ∈ query.exprs) :
    e.existsDepth ≤ queryExistsDepth query := by
  obtain ⟨_, _, withClause, whereClause, returnClause, orderBy, _⟩ := query
  simp only [QueryOf.exprs, List.mem_append, Option.mem_toList] at h
  rw [queryExistsDepth]
  rcases h with ((hwith | hwhere) | hreturn) | horder
  · obtain ⟨item, hitem, rfl⟩ := List.mem_map.mp hwith
    cases withClause with
    | none => exact absurd hitem List.not_mem_nil
    | some clause =>
      have hle := withItemsExistsDepth_le.mp le_rfl item hitem
      exact hle.trans ((Nat.le_max_left _ _).trans (Nat.le_max_left _ _))
  · obtain ⟨clause, rfl, rfl⟩ := Option.map_eq_some_iff.mp hwhere
    exact (Nat.le_max_right _ _).trans (Nat.le_max_left _ _)
  · obtain ⟨item, hitem, rfl⟩ := List.mem_map.mp hreturn
    cases returnClause with
    | none => exact absurd hitem List.not_mem_nil
    | some clause =>
      have hle := itemsExistsDepth_le.mp le_rfl item hitem
      exact hle.trans ((Nat.le_max_left _ _).trans (Nat.le_max_right _ _))
  · obtain ⟨item, hitem, rfl⟩ := List.mem_map.mp horder
    cases orderBy with
    | none => exact absurd hitem List.not_mem_nil
    | some clause =>
      have hle := orderItemsExistsDepth_le.mp le_rfl item hitem
      exact hle.trans ((Nat.le_max_right _ _).trans (Nat.le_max_right _ _))

/-- **A plan nests `EXISTS` no deeper than its query.** -/
theorem plan_existsDepth {query : Query} {p : ExecutionPlan} (h : plan query = .ok p) :
    p.root.existsDepth ≤ queryExistsDepth query := by
  refine PlanNode.existsDepth_le.mpr fun e he => ?_
  rcases plan_exprs h e he with hquery | hmade
  · exact existsDepth_le_of_mem_exprs hquery
  · exact hmade.existsDepth.trans (Nat.zero_le _)

/-! ### Larger depths change nothing -/

theorem subqueryAt_succ (d : ℕ) (ex : Executor) (node : PlanNode) (tuple : Tuple) :
    subqueryAt (d + 1) ex node tuple =
      readNode (fun e t => evalExprWith (subqueryAt d) ex t none e) ex.read tuple node := by
  rw [subqueryAt, executeNodeWith_eq_readNode (.inr rfl)]
  simp [Executor.reader]

/-- Depths that are large enough evaluate an expression alike. -/
theorem evalExprWith_subqueryAt {n : ℕ} : ∀ {d d' : ℕ}, n ≤ d → n ≤ d' → ∀ {e : Expr},
    e.existsDepth ≤ n → ∀ (ex : Executor) (tuple : Tuple) (write : Option InMemoryGraphStore),
      evalExprWith (subqueryAt d) ex tuple write e =
        evalExprWith (subqueryAt d') ex tuple write e := by
  induction n with
  | zero =>
    intro d d' _ _ e he ex tuple write
    exact evalExprWith_congr rfl (fun _ _ h => absurd h (Nat.not_lt_zero _)) e write he
  | succ n ih =>
    intro d d' hd hd' e he ex tuple write
    obtain ⟨d, rfl⟩ : ∃ k, d = k + 1 := ⟨d - 1, by omega⟩
    obtain ⟨d', rfl⟩ : ∃ k, d' = k + 1 := ⟨d' - 1, by omega⟩
    refine evalExprWith_congr rfl (fun query write hq => ?_) e write he
    rw [evalExprWith, evalExprWith]
    cases hplan : plan query with
    | error e => cases e <;> rfl
    | ok p =>
      have hp := (plan_existsDepth hplan).trans (Nat.lt_succ_iff.mp hq)
      have hsub : ∀ (ex : Executor) (t : Tuple),
          subqueryAt (d + 1) ex p.root t = subqueryAt (d' + 1) ex p.root t := by
        intro ex t
        rw [subqueryAt_succ, subqueryAt_succ]
        exact readNode_congr (fun e he t' =>
          ih (Nat.le_of_succ_le_succ hd) (Nat.le_of_succ_le_succ hd') he ex t' none) hp
      simp only [hsub]

/-- **Execution at any depth that is large enough is execution.** -/
theorem executeNodeAt_eq {d : ℕ} {node : PlanNode} (h : node.existsDepth ≤ d) (ex : Executor)
    (parent : Tuple) : executeNodeAt d ex parent node = executeNode ex parent node :=
  executeNodeWith_congr (fun _ he t => evalExprWith_subqueryAt h le_rfl he ex t none) le_rfl

/-- Evaluation on behalf of an executor, as the operators call it. -/
def Executor.eval (ex : Executor) : Eval := fun e t => evalExpr ex t none e

/-- Evaluation at any depth that is large enough is evaluation. -/
theorem agreeUpTo_eval (ex : Executor) (d : ℕ) :
    AgreeUpTo d (fun e t => evalExprWith (subqueryAt d) ex t none e) ex.eval :=
  fun _ he t => evalExprWith_subqueryAt he le_rfl le_rfl ex t none

/-- A binary operator evaluates its operands from left to right. -/
theorem eval_binaryOp (ex : Executor) (left : Expr) (op : BinOp) (right : Expr) (t : Tuple) :
    ex.eval (.binaryOp left op right) t =
      ex.eval left t >>= fun l => ex.eval right t >>= fun r => evalBinaryOp l op r := by
  have hl := agreeUpTo_eval ex (Expr.binaryOp left op right).existsDepth left
    (Nat.le_max_left _ _) t
  have hr := agreeUpTo_eval ex (Expr.binaryOp left op right).existsDepth right
    (Nat.le_max_right _ _) t
  rw [← hl, ← hr]
  rfl

/-- **`EXISTS` runs the plan of its query** on the store it reads, where the query has
not the form of the fast path. -/
theorem evalExpr_exists {ex : Executor} {tuple : Tuple} {write : Option InMemoryGraphStore}
    {query : Query} {p : ExecutionPlan} {store : InMemoryGraphStore}
    (hfast : existsFastPath ex query tuple write = none) (hplan : plan query = .ok p)
    (hreader : ex.reader write = some store) :
    evalExpr ex tuple write (.exists query) =
      (runExec (executeNode { ex with read := some store } tuple p.root) none).1.map
        fun tuples => .bool !tuples.isEmpty := by
  rw [evalExpr, evalExprWith, hfast, Expr.existsDepth]
  simp only [hplan, hreader]
  change (runExec (executeNodeAt (queryExistsDepth query) _ tuple p.root) none).1 >>= _ = _
  rw [executeNodeAt_eq (plan_existsDepth hplan)]
  cases (runExec (executeNode { ex with read := some store } tuple p.root) none).1 <;> rfl

end KuzuEventBus
