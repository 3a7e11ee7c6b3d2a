import KuzuEventBus.Gql.PlanShape
import Mathlib.Data.Finset.Insert
import Mathlib.Data.Finset.Lattice.Basic

/-!
# The parameters of a query

`Query::extract_parameters` and `Expr::collect_parameters` of `casys_engine/src/exec/ast.rs`.  The
collector goes through the expressions of a query and ends in a catch-all branch, which it takes for
what has no parameters; function calls take it as well.

## Main definitions

* `Expr.collectParameters`, `extractParameters` — the collector.
* `Expr.Within`, `QueryOf.Mentions` — where a parameter occurs.
* `QueryOf.ArgumentsOccurOutside` — no parameter occurs in function calls alone.

## Main results

* `mem_extractParameters` — what the collector finds.
* `extractParameters_exact_iff` — **when it finds every parameter**.
-/

namespace KuzuEventBus

/-! ### The collector -/

mutual

/-- `Expr::collect_parameters`. -/
def Expr.collectParameters : Expr → Finset String → Finset String
  | .parameter name, params => insert name params
  | .binaryOp left _ right, params => right.collectParameters (left.collectParameters params)
  | .unaryOp _ operand, params => operand.collectParameters params
  | .isNull e, params | .isNotNull e, params => e.collectParameters params
  | .aggregate _ arg, params => arg.collectParameters params
  | .exists subquery, params => params ∪ extractParameters subquery
  -- the catch-all branch: arguments of a call are not looked at
  | .literal _, params | .ident _, params | .property _ _, params | .functionCall _ _, params =>
    params

/-- `Query::extract_parameters`. -/
def extractParameters : QueryOf Expr → Finset String
  | ⟨_, _, withClause, whereClause, returnClause, orderBy, _⟩ =>
    collectOrderBy orderBy
      (collectReturn returnClause (collectWhere whereClause (collectWith withClause ∅)))

/-- … the WITH clause. -/
def collectWith : Option (WithClauseOf Expr) → Finset String → Finset String
  | none, params => params
  | some ⟨items⟩, params => collectWithItems items params

/-- … its items. -/
def collectWithItems : List (WithItemOf Expr) → Finset String → Finset String
  | [], params => params
  | ⟨e, _⟩ :: items, params => collectWithItems items (e.collectParameters params)

/-- … the WHERE clause. -/
def collectWhere : Option (WhereClauseOf Expr) → Finset String → Finset String
  | none, params => params
  | some ⟨e⟩, params => e.collectParameters params

/-- … the RETURN clause. -/
def collectReturn : Option (ReturnClauseOf Expr) → Finset String → Finset String
  | none, params => params
  | some ⟨items⟩, params => collectItems items params

/-- … its items. -/
def collectItems : List (ReturnItemOf Expr) → Finset String → Finset String
  | [], params => params
  | ⟨e, _⟩ :: items, params => collectItems items (e.collectParameters params)

/-- … the ORDER BY clause. -/
def collectOrderBy : Option (OrderByClauseOf Expr) → Finset String → Finset String
  | none, params => params
  | some ⟨items⟩, params => collectOrderItems items params

/-- … its items. -/
def collectOrderItems : List (OrderByItemOf Expr) → Finset String → Finset String
  | [], params => params
  | ⟨e, _⟩ :: items, params => collectOrderItems items (e.collectParameters params)

end

/-! ### Where a parameter occurs -/

/-- `e` is a part of an expression, at any depth and in any `EXISTS`; arguments of a function call
count if `calls` says so. -/
inductive Expr.Within (calls : Bool) (e : Expr) : Expr → Prop
  | refl : Within calls e e
  | left {l r : Expr} (op : BinOp) (h : Within calls e l) : Within calls e (.binaryOp l op r)
  | right {l r : Expr} (op : BinOp) (h : Within calls e r) : Within calls e (.binaryOp l op r)
  | operand {a : Expr} (op : UnOp) (h : Within calls e a) : Within calls e (.unaryOp op a)
  | aggregate {a : Expr} (func : AggFunc) (h : Within calls e a) :
      Within calls e (.aggregate func a)
  | isNull {a : Expr} (h : Within calls e a) : Within calls e (.isNull a)
  | isNotNull {a : Expr} (h : Within calls e a) : Within calls e (.isNotNull a)
  | argument {a : Expr} {args : List Expr} (name : String) (hcalls : calls = true) (ha : a ∈ args)
      (h : Within calls e a) : Within calls e (.functionCall name args)
  | subquery {a : Expr} {query : QueryOf Expr} (ha : a ∈ query.exprs) (h : Within calls e a) :
      Within calls e (.exists query)

/-- A part of an expression of a query. -/
def QueryOf.Within (calls : Bool) (e : Expr) (query : Query) : Prop :=
  ∃ a ∈ query.exprs, e.Within calls a

/-- The parameter occurs in the query, anywhere. -/
def QueryOf.Mentions (query : Query) (name : String) : Prop :=
  query.Within true (.parameter name)

/-- The parameter occurs in the query, and not as a part of an argument of a function call. -/
def QueryOf.MentionsOutside (query : Query) (name : String) : Prop :=
  query.Within false (.parameter name)

section

variable {calls : Bool} {name : String}

theorem within_parameter {n : String} :
    Expr.Within calls (.parameter name) (.parameter n) ↔ name = n := by
  constructor
  · rintro ⟨⟩
    rfl
  · rintro rfl
    exact .refl

theorem within_binaryOp {l r : Expr} {op : BinOp} :
    Expr.Within calls (.parameter name) (.binaryOp l op r) ↔
      Expr.Within calls (.parameter name) l ∨ Expr.Within calls (.parameter name) r := by
  constructor
  · intro h
    cases h with
    | left _ h => exact .inl h
    | right _ h => exact .inr h
  · rintro (h | h)
    · exact .left op h
    · exact .right op h

theorem within_unaryOp {a : Expr} {op : UnOp} :
    Expr.Within calls (.parameter name) (.unaryOp op a) ↔
      Expr.Within calls (.parameter name) a := by
  constructor
  · intro h
    cases h with
    | operand _ h => exact h
  · exact .operand op

theorem within_aggregate {a : Expr} {func : AggFunc} :
    Expr.Within calls (.parameter name) (.aggregate func a) ↔
      Expr.Within calls (.parameter name) a := by
  constructor
  · intro h
    cases h with
    | aggregate _ h => exact h
  · exact .aggregate func

theorem within_isNull {a : Expr} : Expr.Within calls (.parameter name) (.isNull a) ↔
    Expr.Within calls (.parameter name) a := by
  constructor
  · intro h
    cases h with
    | isNull h => exact h
  · exact .isNull

theorem within_isNotNull {a : Expr} : Expr.Within calls (.parameter name) (.isNotNull a) ↔
    Expr.Within calls (.parameter name) a := by
  constructor
  · intro h
    cases h with
    | isNotNull h => exact h
  · exact .isNotNull

theorem within_functionCall {f : String} {args : List Expr} :
    Expr.Within calls (.parameter name) (.functionCall f args) ↔
      calls = true ∧ ∃ a ∈ args, Expr.Within calls (.parameter name) a := by
  constructor
  · intro h
    cases h with
    | argument _ hcalls ha h => exact ⟨hcalls, _, ha, h⟩
  · rintro ⟨hcalls, a, ha, h⟩
    exact .argument f hcalls ha h

theorem within_exists {query : Query} : Expr.Within calls (.parameter name) (.exists query) ↔
    query.Within calls (.parameter name) := by
  constructor
  · intro h
    cases h with
    | subquery ha h => exact ⟨_, ha, h⟩
  · rintro ⟨a, ha, h⟩
    exact .subquery ha h

end

/-! ### What the collector finds -/

mutual

/-- The collector adds the parameters that are not in an argument of a function call. -/
theorem mem_collectParameters {name : String} : ∀ (e : Expr) (params : Finset String),
    name ∈ e.collectParameters params ↔
      name ∈ params ∨ Expr.Within false (.parameter name) e
  | .parameter n, params => by
    rw [Expr.collectParameters, Finset.mem_insert, within_parameter, or_comm]
  | .binaryOp left op right, params => by
    rw [Expr.collectParameters, mem_collectParameters right, mem_collectParameters left,
      within_binaryOp, or_assoc]
  | .unaryOp op operand, params => by
    rw [Expr.collectParameters, mem_collectParameters operand, within_unaryOp]
  | .isNull e, params => by rw [Expr.collectParameters, mem_collectParameters e, within_isNull]
  | .isNotNull e, params => by
    rw [Expr.collectParameters, mem_collectParameters e, within_isNotNull]
  | .aggregate func arg, params => by
    rw [Expr.collectParameters, mem_collectParameters arg, within_aggregate]
  | .exists subquery, params => by
    rw [Expr.collectParameters, Finset.mem_union, mem_extractParameters subquery, within_exists]
  | .functionCall f args, params => by
    rw [Expr.collectParameters, within_functionCall]
    simp
  | .literal _, params | .ident _, params | .property _ _, params => by
    rw [Expr.collectParameters]
    exact (or_iff_left nofun).symm

theorem mem_extractParameters {name : String} : ∀ query : QueryOf Expr,
    name ∈ extractParameters query ↔ query.Within false (.parameter name)
  | ⟨_, _, withClause, whereClause, returnClause, orderBy, _⟩ => by
    rw [extractParameters, mem_collectOrderBy orderBy, mem_collectReturn returnClause,
      mem_collectWhere whereClause, mem_collectWith withClause]
    simp only [QueryOf.Within, QueryOf.exprs, List.mem_append, or_and_right, exists_or]
    simp

theorem mem_collectWith {name : String} :
    ∀ (clause : Option (WithClauseOf Expr)) (params : Finset String),
      name ∈ collectWith clause params ↔ name ∈ params ∨
        ∃ e ∈ ((clause.map WithClauseOf.items).getD []).map WithItemOf.expr,
          Expr.Within false (.parameter name) e
  | none, params => by simp [collectWith]
  | some ⟨items⟩, params => by
    rw [collectWith, mem_collectWithItems items]
    rfl

theorem mem_collectWithItems {name : String} :
    ∀ (items : List (WithItemOf Expr)) (params : Finset String),
      name ∈ collectWithItems items params ↔ name ∈ params ∨
        ∃ e ∈ items.map WithItemOf.expr, Expr.Within false (.parameter name) e
  | [], params => by simp [collectWithItems]
  | ⟨e, _⟩ :: items, params => by
    rw [collectWithItems, mem_collectWithItems items, mem_collectParameters e, or_assoc,
      List.map_cons, List.exists_mem_cons_iff]

theorem mem_collectWhere {name : String} :
    ∀ (clause : Option (WhereClauseOf Expr)) (params : Finset String),
      name ∈ collectWhere clause params ↔ name ∈ params ∨
        ∃ e ∈ (clause.map WhereClauseOf.expr).toList, Expr.Within false (.parameter name) e
  | none, params => by simp [collectWhere]
  | some ⟨e⟩, params => by
    rw [collectWhere, mem_collectParameters e]
    simp

theorem mem_collectReturn {name : String} :
    ∀ (clause : Option (ReturnClauseOf Expr)) (params : Finset String),
      name ∈ collectReturn clause params ↔ name ∈ params ∨
        ∃ e ∈ ((clause.map ReturnClauseOf.items).getD []).map ReturnItemOf.expr,
          Expr.Within false (.parameter name) e
  | none, params => by simp [collectReturn]
  | some ⟨items⟩, params => by
    rw [collectReturn, mem_collectItems items]
    rfl

theorem mem_collectItems {name : String} :
    ∀ (items : List (ReturnItemOf Expr)) (params : Finset String),
      name ∈ collectItems items params ↔ name ∈ params ∨
        ∃ e ∈ items.map ReturnItemOf.expr, Expr.Within false (.parameter name) e
  | [], params => by simp [collectItems]
  | ⟨e, _⟩ :: items, params => by
    rw [collectItems, mem_collectItems items, mem_collectParameters e, or_assoc,
      List.map_cons, List.exists_mem_cons_iff]

theorem mem_collectOrderBy {name : String} :
    ∀ (clause : Option (OrderByClauseOf Expr)) (params : Finset String),
      name ∈ collectOrderBy clause params ↔ name ∈ params ∨
        ∃ e ∈ ((clause.map OrderByClauseOf.items).getD []).map OrderByItemOf.expr,
          Expr.Within false (.parameter name) e
  | none, params => by simp [collectOrderBy]
  | some ⟨items⟩, params => by
    rw [collectOrderBy, mem_collectOrderItems items]
    rfl

theorem mem_collectOrderItems {name : String} :
    ∀ (items : List (OrderByItemOf Expr)) (params : Finset String),
      name ∈ collectOrderItems items params ↔ name ∈ params ∨
        ∃ e ∈ items.map OrderByItemOf.expr, Expr.Within false (.parameter name) e
  | [], params => by simp [collectOrderItems]
  | ⟨e, _⟩ :: items, params => by
    rw [collectOrderItems, mem_collectOrderItems items, mem_collectParameters e, or_assoc,
      List.map_cons, List.exists_mem_cons_iff]

end

/-! ### When the collector finds all -/

/-- A parameter in an argument of a function call also occurs outside of function calls. -/
def QueryOf.ArgumentsOccurOutside (query : Query) : Prop :=
  ∀ f args, query.Within true (.functionCall f args) → ∀ a ∈ args, ∀ name,
    Expr.Within true (.parameter name) a → query.MentionsOutside name

theorem Expr.Within.trans {calls : Bool} {e a b : Expr} (h : e.Within calls a)
    (h' : a.Within calls b) : e.Within calls b := by
  induction h' with
  | refl => exact h
  | left op _ ih => exact .left op ih
  | right op _ ih => exact .right op ih
  | operand op _ ih => exact .operand op ih
  | aggregate func _ ih => exact .aggregate func ih
  | isNull _ ih => exact .isNull ih
  | isNotNull _ ih => exact .isNotNull ih
  | argument f hcalls ha _ ih => exact .argument f hcalls ha ih
  | subquery ha _ ih => exact .subquery ha ih

/-- What occurs outside of function calls occurs. -/
theorem Expr.Within.toTrue {e a : Expr} (h : e.Within false a) : e.Within true a := by
  induction h with
  | refl => exact .refl
  | left op _ ih => exact .left op ih
  | right op _ ih => exact .right op ih
  | operand op _ ih => exact .operand op ih
  | aggregate func _ ih => exact .aggregate func ih
  | isNull _ ih => exact .isNull ih
  | isNotNull _ ih => exact .isNotNull ih
  | argument _ hcalls _ _ _ => cases hcalls
  | subquery ha _ ih => exact .subquery ha ih

/-- It occurs in an argument of a function call. -/
def Expr.InArgument (e b : Expr) : Prop :=
  ∃ f args a, (Expr.functionCall f args).Within true b ∧ a ∈ args ∧ e.Within true a

theorem Expr.InArgument.of_part {e a b : Expr} (h : e.InArgument a) (hpart : a.Within true b) :
    e.InArgument b := by
  obtain ⟨f, args, arg, hcall, harg, he⟩ := h
  exact ⟨f, args, arg, hcall.trans hpart, harg, he⟩

/-- What occurs does so outside of function calls, or in an argument of one. -/
theorem Expr.Within.outside_or_argument {e b : Expr} (h : e.Within true b) :
    e.Within false b ∨ e.InArgument b := by
  induction h with
  | refl => exact .inl .refl
  | left op _ ih => exact ih.imp (.left op) fun h => h.of_part (.left op .refl)
  | right op _ ih => exact ih.imp (.right op) fun h => h.of_part (.right op .refl)
  | operand op _ ih => exact ih.imp (.operand op) fun h => h.of_part (.operand op .refl)
  | aggregate func _ ih => exact ih.imp (.aggregate func) fun h => h.of_part (.aggregate func .refl)
  | isNull _ ih => exact ih.imp .isNull fun h => h.of_part (.isNull .refl)
  | isNotNull _ ih => exact ih.imp .isNotNull fun h => h.of_part (.isNotNull .refl)
  | @argument a args f _ ha h _ => exact .inr ⟨f, args, a, .refl, ha, h⟩
  | subquery ha _ ih => exact ih.imp (.subquery ha) fun h => h.of_part (.subquery ha .refl)

/-- The collector finds every parameter exactly when none occurs in function calls alone. -/
theorem extractParameters_exact_iff (query : Query) :
    (∀ name, name ∈ extractParameters query ↔ query.Mentions name) ↔
      query.ArgumentsOccurOutside := by
  constructor
  · rintro h f args ⟨b, hb, hcall⟩ a ha name hname
    have hmentions : query.Mentions name :=
      ⟨b, hb, (hname.trans (.argument f rfl ha .refl)).trans hcall⟩
    exact (mem_extractParameters query).mp ((h name).mpr hmentions)
  · intro h name
    rw [mem_extractParameters]
    constructor
    · rintro ⟨b, hb, hname⟩
      exact ⟨b, hb, hname.toTrue⟩
    · rintro ⟨b, hb, hname⟩
      rcases hname.outside_or_argument with houtside | ⟨f, args, a, hcall, ha, hname⟩
      · exact ⟨b, hb, houtside⟩
      · exact h f args ⟨b, hb, hcall⟩ a ha name hname

end KuzuEventBus
