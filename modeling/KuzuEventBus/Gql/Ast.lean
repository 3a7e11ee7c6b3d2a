import KuzuEventBus.Lib.HashMap

/-!
# Syntax trees of queries

The types of `casys_engine/src/exec/ast.rs`.  A query holds expressions and an
`EXISTS` expression holds a query, so the clauses are written over the type of
their expressions first (`WhereClauseOf`, `QueryOf`, …) and used at `Expr`.

## Main definitions

* `Literal`, `NodePattern`, `EdgePattern`, `Pattern` — the patterns of MATCH and CREATE.
* `Expr`, `Query` — expressions and queries.
* `Expr.existsDepth`, `Query.existsDepth` — how deep `EXISTS` is nested.
-/

namespace KuzuEventBus

/-! ### Patterns -/

/-- `Literal`. -/
inductive Literal where
  | string (s : String)
  | int (i : Int64)
  | float (f : Float)
  | bool (b : Bool)
  | null
  deriving DecidableEq

/-- `NodePattern`. -/
structure NodePattern where
  var : Option String
  labels : List String
  properties : HashMap String Literal

/-- `Direction`. -/
inductive Direction where
  /-- `<-` -/
  | left
  /-- `->` -/
  | right
  /-- `-` -/
  | both
  deriving DecidableEq

/-- `DepthRange`: the bounds of a variable-length path, `u32`s. -/
structure DepthRange where
  min : ℕ
  max : ℕ
  deriving DecidableEq

/-- `EdgePattern`. -/
structure EdgePattern where
  var : Option String
  edgeType : Option String
  direction : Direction
  properties : HashMap String Literal
  fromNode : NodePattern
  toNode : NodePattern
  depth : Option DepthRange

/-- `Pattern`. -/
inductive Pattern where
  | node (node : NodePattern)
  | edge (edge : EdgePattern)

/-- `MatchClause`. -/
structure MatchClause where
  patterns : List Pattern

/-- `CreateClause`. -/
structure CreateClause where
  patterns : List Pattern

/-! ### Clauses over a type of expressions -/

/-- `BinOp`. -/
inductive BinOp where
  | eq | ne | lt | le | gt | ge
  | and | or
  | add | sub | mul | div
  deriving DecidableEq

/-- `UnOp`. -/
inductive UnOp where
  | not
  deriving DecidableEq

/-- `AggFunc`. -/
inductive AggFunc where
  | count | sum | avg | min | max
  deriving DecidableEq

/-- `WithItem`. -/
structure WithItemOf (E : Type) where
  expr : E
  aliasName : String

/-- `WithClause`. -/
structure WithClauseOf (E : Type) where
  items : List (WithItemOf E)

/-- `WhereClause`. -/
structure WhereClauseOf (E : Type) where
  expr : E

/-- `ReturnItem`. -/
structure ReturnItemOf (E : Type) where
  expr : E
  aliasName : Option String

/-- `ReturnClause`. -/
structure ReturnClauseOf (E : Type) where
  items : List (ReturnItemOf E)

/-- `OrderByItem`. -/
structure OrderByItemOf (E : Type) where
  expr : E
  descending : Bool

/-- `OrderByClause`. -/
structure OrderByClauseOf (E : Type) where
  items : List (OrderByItemOf E)

/-- `Query`. -/
structure QueryOf (E : Type) where
  matchClause : Option MatchClause
  createClause : Option CreateClause
  withClause : Option (WithClauseOf E)
  whereClause : Option (WhereClauseOf E)
  returnClause : Option (ReturnClauseOf E)
  orderBy : Option (OrderByClauseOf E)
  limit : Option ℕ

/-! ### Expressions and queries -/

/-- `Expr`. -/
inductive Expr where
  | literal (l : Literal)
  | ident (name : String)
  | property (var prop : String)
  | parameter (name : String)
  | binaryOp (left : Expr) (op : BinOp) (right : Expr)
  | unaryOp (op : UnOp) (operand : Expr)
  | aggregate (func : AggFunc) (arg : Expr)
  | functionCall (name : String) (args : List Expr)
  | isNull (e : Expr)
  | isNotNull (e : Expr)
  | exists (subquery : QueryOf Expr)

abbrev WithItem := WithItemOf Expr
abbrev WithClause := WithClauseOf Expr
abbrev WhereClause := WhereClauseOf Expr
abbrev ReturnItem := ReturnItemOf Expr
abbrev ReturnClause := ReturnClauseOf Expr
abbrev OrderByItem := OrderByItemOf Expr
abbrev OrderByClause := OrderByClauseOf Expr
abbrev Query := QueryOf Expr

/-! ### Nesting of EXISTS -/

mutual

/-- How deep `EXISTS` is nested in an expression. -/
def Expr.existsDepth : Expr → ℕ
  | .binaryOp l _ r => max l.existsDepth r.existsDepth
  | .unaryOp _ e | .aggregate _ e | .isNull e | .isNotNull e => e.existsDepth
  | .functionCall _ args => argsExistsDepth args
  | .exists q => queryExistsDepth q + 1
  | .literal _ | .ident _ | .property _ _ | .parameter _ => 0

/-- … in the arguments of a call. -/
def argsExistsDepth : List Expr → ℕ
  | [] => 0
  | e :: es => max e.existsDepth (argsExistsDepth es)

/-- … in a query. -/
def queryExistsDepth : QueryOf Expr → ℕ
  | ⟨_, _, w, wh, r, o, _⟩ =>
    max (max (withExistsDepth w) (whereExistsDepth wh))
      (max (returnExistsDepth r) (orderByExistsDepth o))

/-- … in a WITH clause. -/
def withExistsDepth : Option (WithClauseOf Expr) → ℕ
  | none => 0
  | some ⟨items⟩ => withItemsExistsDepth items

/-- … in the items of a WITH clause. -/
def withItemsExistsDepth : List (WithItemOf Expr) → ℕ
  | [] => 0
  | ⟨e, _⟩ :: items => max e.existsDepth (withItemsExistsDepth items)

/-- … in a WHERE clause. -/
def whereExistsDepth : Option (WhereClauseOf Expr) → ℕ
  | none => 0
  | some ⟨e⟩ => e.existsDepth

/-- … in a RETURN clause. -/
def returnExistsDepth : Option (ReturnClauseOf Expr) → ℕ
  | none => 0
  | some ⟨items⟩ => itemsExistsDepth items

/-- … in the items of a RETURN clause. -/
def itemsExistsDepth : List (ReturnItemOf Expr) → ℕ
  | [] => 0
  | ⟨e, _⟩ :: items => max e.existsDepth (itemsExistsDepth items)

/-- … in an ORDER BY clause. -/
def orderByExistsDepth : Option (OrderByClauseOf Expr) → ℕ
  | none => 0
  | some ⟨items⟩ => orderItemsExistsDepth items

/-- … in the items of an ORDER BY clause. -/
def orderItemsExistsDepth : List (OrderByItemOf Expr) → ℕ
  | [] => 0
  | ⟨e, _⟩ :: items => max e.existsDepth (orderItemsExistsDepth items)

end

theorem itemsExistsDepth_le {items : List ReturnItem} {d : ℕ} :
    itemsExistsDepth items ≤ d ↔ ∀ item ∈ items, item.expr.existsDepth ≤ d := by
  induction items with
  | nil => simp [itemsExistsDepth]
  | cons item items ih => rw [itemsExistsDepth, Nat.max_le, ih, List.forall_mem_cons]

theorem withItemsExistsDepth_le {items : List WithItem} {d : ℕ} :
    withItemsExistsDepth items ≤ d ↔ ∀ item ∈ items, item.expr.existsDepth ≤ d := by
  induction items with
  | nil => simp [withItemsExistsDepth]
  | cons item items ih => rw [withItemsExistsDepth, Nat.max_le, ih, List.forall_mem_cons]

theorem argsExistsDepth_le {args : List Expr} {d : ℕ} :
    argsExistsDepth args ≤ d ↔ ∀ e ∈ args, e.existsDepth ≤ d := by
  induction args with
  | nil => simp [argsExistsDepth]
  | cons e args ih => rw [argsExistsDepth, Nat.max_le, ih, List.forall_mem_cons]

end KuzuEventBus
