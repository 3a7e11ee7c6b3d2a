import KuzuEventBus.Sdk.Lambdas

/-!
# Capturing a lambda

What the call of a lambda on a variable leaves of its body.  Comparisons and arithmetic of the
variable's attributes are objects that the DSL builds; Python does not look into these when `and`,
`or` and `not` test the truth of their operands, and takes every object for true.  So `and` leaves
its right operand, `or` its left one, and `not` the constant `False`.

The values of Python's operators are parameters, and the query language has the same ones.

## Main definitions

* `Term`, `Pred` — bodies of lambdas, and what they evaluate to.
* `Term.capture`, `Pred.capture` — what they evaluate to on a variable.
* `Pred.kept` — the value of a body in which every object of the DSL is true where its truth is
  tested.
* `Faithful` — the text of the condition means what the body does.
* `NothingLost` — what is kept of the body means what the body does.

## Main results

* `eval_capture` — **the tree that a call builds means what is kept of the body.**
* `faithful_iff` — **the condition is faithful exactly when nothing is lost.**
-/

namespace KuzuEventBus.Sdk.Capture

open Dsl

/-! ### Bodies -/

/-- Comparison operators of Python. -/
inductive CmpOp where
  | eq | ne | lt | le | gt | ge
  deriving DecidableEq

/-- Arithmetic operators of Python. -/
inductive ArithOp where
  | add | sub | mul | div
  deriving DecidableEq

/-- The operator that `Expr` builds for it. -/
def CmpOp.binOp : CmpOp → BinOp
  | .eq => .eq | .ne => .ne | .lt => .lt | .le => .le | .gt => .gt | .ge => .ge

def ArithOp.binOp : ArithOp → BinOp
  | .add => .add | .sub => .sub | .mul => .mul | .div => .div

/-- The operator that Python asks the right operand for, when the left one does not know it. -/
def CmpOp.swap : CmpOp → CmpOp
  | .eq => .eq | .ne => .ne | .lt => .gt | .le => .ge | .gt => .lt | .ge => .le

/-- An attribute of the argument, a literal, or arithmetic over them. -/
inductive Term where
  | attr (name : String)
  | lit (value : Dsl.Value)
  | arith (op : ArithOp) (left right : Term)

/-- The body of a predicate. -/
inductive Pred where
  | cmp (op : CmpOp) (left right : Term)
  | and (left right : Pred)
  | or (left right : Pred)
  | not (operand : Pred)
  /-- `&`. -/
  | bitAnd (left right : Pred)
  /-- `|`. -/
  | bitOr (left right : Pred)

/-- Python's operators on values; an operator may raise an exception. -/
structure Runtime where
  arith : ArithOp → Dsl.Value → Dsl.Value → Option Dsl.Value
  compare : CmpOp → Dsl.Value → Dsl.Value → Option Bool
  /-- A comparison is that of the operands the other way round. -/
  compare_swap : ∀ op l r, compare op.swap r l = compare op l r
  /-- What an attribute of `Expr` itself is, instead of one of the DSL: `kind`, `value` and so
  on, for a variable of the name. -/
  own : String → String → Option Dsl.Value

section
variable (R : Runtime)

/-- The value of a term. -/
def Term.eval (ρ : String → Dsl.Value) : Term → Option Dsl.Value
  | .attr name => some (ρ name)
  | .lit value => some value
  | .arith op left right => do
    let l ← left.eval ρ
    let r ← right.eval ρ
    R.arith op l r

/-- The value of a body, as Python evaluates it. -/
def Pred.eval (ρ : String → Dsl.Value) : Pred → Option Bool
  | .cmp op left right => do
    let l ← left.eval R ρ
    let r ← right.eval R ρ
    R.compare op l r
  | .and left right => do
    if ← left.eval ρ then right.eval ρ else pure false
  | .or left right => do
    if ← left.eval ρ then pure true else right.eval ρ
  | .not operand => (operand.eval ρ).map (!·)
  | .bitAnd left right => do
    let l ← left.eval ρ
    let r ← right.eval ρ
    pure (l && r)
  | .bitOr left right => do
    let l ← left.eval ρ
    let r ← right.eval ρ
    pure (l || r)

/-! ### Calls on a variable -/

/-- `_wrap`. -/
def wrap : Dsl.Expr ⊕ Dsl.Value → Dsl.Expr
  | .inl e => e
  | .inr value => .lit value

/-- What a term evaluates to on `Var(var)`: a tree, or a plain value.  A plain value on the left of
a tree raises an exception, since `Expr` has no `__radd__`. -/
def Term.capture (var : String) : Term → Option (Dsl.Expr ⊕ Dsl.Value)
  | .attr name =>
    match R.own var name with
    | some value => some (.inr value)
    | none => some (.inl (.attr (.var var) name))
  | .lit value => some (.inr value)
  | .arith op left right => do
    match ← left.capture var, ← right.capture var with
    | .inl l, r => pure (.inl (.bin l op.binOp (wrap r)))
    | .inr l, .inr r => (R.arith op l r).map .inr
    | .inr _, .inl _ => none

/-- What a body evaluates to on `Var(var)`: a tree, or a plain boolean.  The truth of a tree is not
that of its values: every tree is true. -/
def Pred.capture (var : String) : Pred → Option (Dsl.Expr ⊕ Bool)
  | .cmp op left right => do
    match ← left.capture R var, ← right.capture R var with
    | .inl l, r => pure (.inl (.bin l op.binOp (wrap r)))
    | .inr l, .inl r => pure (.inl (.bin r op.swap.binOp (.lit l)))
    | .inr l, .inr r => (R.compare op l r).map .inr
  | .and left right => do
    match ← left.capture var with
    | .inl _ => right.capture var
    | .inr l => if l then right.capture var else pure (.inr false)
  | .or left right => do
    match ← left.capture var with
    | .inl l => pure (.inl l)
    | .inr l => if l then pure (.inr true) else right.capture var
  | .not operand => do
    match ← operand.capture var with
    | .inl _ => pure (.inr false)
    | .inr b => pure (.inr !b)
  | .bitAnd left right => do
    match ← left.capture var, ← right.capture var with
    | .inl l, .inl r => pure (.inl (.bin l .and r))
    | .inl l, .inr r => pure (.inl (.bin l .and (.lit (.bool r))))
    | .inr l, .inr r => pure (.inr (l && r))
    | .inr _, .inl _ => none
  | .bitOr left right => do
    match ← left.capture var, ← right.capture var with
    | .inl l, .inl r => pure (.inl (.bin l .or r))
    | .inl l, .inr r => pure (.inl (.bin l .or (.lit (.bool r))))
    | .inr l, .inr r => pure (.inr (l || r))
    | .inr _, .inl _ => none

/-- The lambda of a body. -/
def Pred.toLambda (body : Pred) (param : String) (source : Option (List Char)) : Lambda where
  varnames := [param]
  argcount := 1
  names := []
  call := fun var => ((body.capture R var).bind Sum.getLeft?)
  source := source

/-! ### What is kept -/

/-- The value of a term, of whose attributes some are those of `Expr` itself. -/
def Term.kept (var : String) (ρ : String → Dsl.Value) : Term → Option Dsl.Value
  | .attr name => some ((R.own var name).getD (ρ name))
  | .lit value => some value
  | .arith op left right => do
    let l ← left.kept var ρ
    let r ← right.kept var ρ
    R.arith op l r

/-- A body that evaluates to a tree. -/
def Pred.isTree (var : String) (body : Pred) : Bool :=
  ((body.capture R var).bind Sum.getLeft?).isSome

/-- The value of a body in which every tree is true where its truth is tested. -/
def Pred.kept (var : String) (ρ : String → Dsl.Value) : Pred → Option Bool
  | .cmp op left right => do
    let l ← left.kept R var ρ
    let r ← right.kept R var ρ
    R.compare op l r
  | .and left right => do
    if ← (if left.isTree R var then pure true else left.kept var ρ) then right.kept var ρ
    else pure false
  | .or left right =>
    if left.isTree R var then left.kept var ρ
    else do
      if ← left.kept var ρ then pure true else right.kept var ρ
  | .not operand =>
    if operand.isTree R var then pure false else (operand.kept var ρ).map (!·)
  | .bitAnd left right => do
    let l ← left.kept var ρ
    let r ← right.kept var ρ
    pure (l && r)
  | .bitOr left right => do
    let l ← left.kept var ρ
    let r ← right.kept var ρ
    pure (l || r)

/-! ### Conditions of the query language -/

/-- The operators of the query language: those of Python. -/
def Runtime.binary : BinOp → Dsl.Value → Dsl.Value → Option Dsl.Value
  | .eq, l, r => (R.compare .eq l r).map .bool
  | .ne, l, r => (R.compare .ne l r).map .bool
  | .lt, l, r => (R.compare .lt l r).map .bool
  | .le, l, r => (R.compare .le l r).map .bool
  | .gt, l, r => (R.compare .gt l r).map .bool
  | .ge, l, r => (R.compare .ge l r).map .bool
  | .add, l, r => R.arith .add l r
  | .sub, l, r => R.arith .sub l r
  | .mul, l, r => R.arith .mul l r
  | .div, l, r => R.arith .div l r
  | .and, .bool l, .bool r => some (.bool (l && r))
  | .or, .bool l, .bool r => some (.bool (l || r))
  | .and, _, _ | .or, _, _ => none

/-- The value of a literal. -/
def literalValue : Literal → Option Dsl.Value
  | .string s => some (.str s)
  | .int i => some (.int i.toInt)
  | .bool b => some (.bool b)
  | .null => some .pyNone
  | .float _ => none

/-- The value of an expression over the properties of the entity. -/
def gqlEval (var : String) (ρ : String → Dsl.Value) : GqlExpr → Option Dsl.Value
  | .property x name => if x = var then some (ρ name) else none
  | .literal l => literalValue l
  | .binaryOp left op right => do
    let l ← gqlEval var ρ left
    let r ← gqlEval var ρ right
    R.binary op l r
  | _ => none

/-- The value of a tree. -/
def treeEval (var : String) (ρ : String → Dsl.Value) : Dsl.Expr → Option Dsl.Value
  | .attr (.var x) name => if x = var then some (ρ name) else none
  | .lit value => some value
  | .bin left op right => do
    let l ← treeEval var ρ left
    let r ← treeEval var ρ right
    R.binary op l r
  | _ => none

/-- The value of what a call on the variable gives. -/
def capturedEval (var : String) (ρ : String → Dsl.Value) : Dsl.Expr ⊕ Dsl.Value → Option Dsl.Value
  | .inl e => treeEval R var ρ e
  | .inr value => some value

end

section
variable {R : Runtime} {var : String} {ρ : String → Dsl.Value}

theorem binary_cmp (op : CmpOp) (l r : Dsl.Value) :
    R.binary op.binOp l r = (R.compare op l r).map .bool := by
  cases op <;> rfl

theorem binary_arith (op : ArithOp) (l r : Dsl.Value) : R.binary op.binOp l r = R.arith op l r := by
  cases op <;> rfl

theorem treeEval_wrap (s : Dsl.Expr ⊕ Dsl.Value) :
    treeEval R var ρ (wrap s) = capturedEval R var ρ s := by
  cases s <;> rfl

/-- What a call makes of a term has the value that is kept of it. -/
theorem eval_captureTerm {t : Term} {s : Dsl.Expr ⊕ Dsl.Value} (h : t.capture R var = some s) :
    capturedEval R var ρ s = t.kept R var ρ := by
  induction t generalizing s with
  | attr name =>
    rw [Term.capture] at h
    rw [Term.kept]
    split at h
    · next value hown =>
      cases h
      rw [hown]
      rfl
    · next hown =>
      cases h
      rw [hown]
      exact if_pos rfl
  | lit value =>
    cases h
    rfl
  | arith op left right ihl ihr =>
    rw [Term.capture] at h
    obtain ⟨l, hl, h⟩ := Option.bind_eq_some_iff.mp h
    obtain ⟨r, hr, h⟩ := Option.bind_eq_some_iff.mp h
    rw [Term.kept, ← ihl hl, ← ihr hr]
    cases l with
    | inl l =>
      cases h
      simp only [capturedEval, treeEval]
      rw [treeEval_wrap]
      simp only [binary_arith]
      rfl
    | inr l =>
      cases r with
      | inl r => cases h
      | inr r =>
        obtain ⟨v, hv, rfl⟩ := Option.map_eq_some_iff.mp h
        exact hv.symm

theorem isTree_eq {body : Pred} {s : Dsl.Expr ⊕ Bool} (h : body.capture R var = some s) :
    body.isTree R var = s.isLeft := by
  unfold Pred.isTree
  rw [h]
  cases s <;> rfl

/-- The value of what a call makes of a body. -/
def verdict (R : Runtime) (var : String) (ρ : String → Dsl.Value) :
    Dsl.Expr ⊕ Bool → Option Dsl.Value
  | .inl e => treeEval R var ρ e
  | .inr b => some (.bool b)

/-- A comparison that is built has the value of the comparison of its operands. -/
theorem treeEval_cmp (op : CmpOp) (l r : Dsl.Expr) : treeEval R var ρ (.bin l op.binOp r) =
    (do
      let l ← treeEval R var ρ l
      let r ← treeEval R var ρ r
      R.compare op l r : Option Bool).map .bool := by
  simp only [treeEval, binary_cmp]
  cases treeEval R var ρ l with
  | none => rfl
  | some l => cases treeEval R var ρ r <;> rfl

/-- The same the other way round. -/
theorem treeEval_swap (op : CmpOp) (l : Dsl.Value) (r : Dsl.Expr) :
    treeEval R var ρ (.bin r op.swap.binOp (.lit l)) =
      ((treeEval R var ρ r).bind fun r => R.compare op l r).map .bool := by
  rw [treeEval_cmp]
  cases treeEval R var ρ r with
  | none => rfl
  | some r => exact congrArg (Option.map Dsl.Value.bool) (R.compare_swap op l r)

/-- The trees of `&` and `|` have the values of these. -/
theorem treeEval_and {l r : Dsl.Expr} {a b : Option Bool}
    (hl : treeEval R var ρ l = a.map .bool) (hr : treeEval R var ρ r = b.map .bool) :
    treeEval R var ρ (.bin l .and r) =
      (do let l ← a; let r ← b; pure (l && r) : Option Bool).map .bool := by
  simp only [treeEval]
  rw [hl, hr]
  cases a <;> cases b <;> rfl

theorem treeEval_or {l r : Dsl.Expr} {a b : Option Bool}
    (hl : treeEval R var ρ l = a.map .bool) (hr : treeEval R var ρ r = b.map .bool) :
    treeEval R var ρ (.bin l .or r) =
      (do let l ← a; let r ← b; pure (l || r) : Option Bool).map .bool := by
  simp only [treeEval]
  rw [hl, hr]
  cases a <;> cases b <;> rfl

/-- **What a call makes of a body has the value that is kept of it.** -/
theorem eval_capture {body : Pred} {s : Dsl.Expr ⊕ Bool} (h : body.capture R var = some s) :
    verdict R var ρ s = (body.kept R var ρ).map .bool := by
  -- a plain boolean is what is kept
  have hplain {b : Bool} {o : Option Bool} (h : some (Dsl.Value.bool b) = o.map .bool) :
      o = some b := by
    cases o with
    | none => cases h
    | some b' =>
      cases h
      rfl
  induction body generalizing s with
  | cmp op left right =>
    rw [Pred.capture] at h
    obtain ⟨l, hl, h⟩ := Option.bind_eq_some_iff.mp h
    obtain ⟨r, hr, h⟩ := Option.bind_eq_some_iff.mp h
    rw [Pred.kept, ← eval_captureTerm hl, ← eval_captureTerm hr]
    cases l with
    | inl l =>
      cases h
      rw [verdict, treeEval_cmp, treeEval_wrap]
      rfl
    | inr l =>
      cases r with
      | inl r =>
        cases h
        exact treeEval_swap op l r
      | inr r =>
        obtain ⟨v, hv, rfl⟩ := Option.map_eq_some_iff.mp h
        exact (congrArg (Option.map Dsl.Value.bool) hv).symm
  | and left right ihl ihr =>
    rw [Pred.capture] at h
    obtain ⟨l, hl, h⟩ := Option.bind_eq_some_iff.mp h
    rw [Pred.kept, isTree_eq hl]
    cases l with
    | inl l => exact ihr h
    | inr l =>
      have hkept := hplain (ihl hl)
      rw [Sum.isLeft_inr, if_neg Bool.false_ne_true, hkept]
      cases l with
      | true => exact ihr h
      | false =>
        cases h
        rfl
  | or left right ihl ihr =>
    rw [Pred.capture] at h
    obtain ⟨l, hl, h⟩ := Option.bind_eq_some_iff.mp h
    rw [Pred.kept, isTree_eq hl]
    cases l with
    | inl l =>
      cases h
      exact ihl hl
    | inr l =>
      have hkept := hplain (ihl hl)
      rw [Sum.isLeft_inr, if_neg Bool.false_ne_true, hkept]
      cases l with
      | true =>
        cases h
        rfl
      | false => exact ihr h
  | not operand ih =>
    rw [Pred.capture] at h
    obtain ⟨x, hx, h⟩ := Option.bind_eq_some_iff.mp h
    rw [Pred.kept, isTree_eq hx]
    cases x with
    | inl e =>
      cases h
      rfl
    | inr b =>
      cases h
      rw [Sum.isLeft_inr, if_neg Bool.false_ne_true, hplain (ih hx)]
      rfl
  | bitAnd left right ihl ihr =>
    rw [Pred.capture] at h
    obtain ⟨l, hl, h⟩ := Option.bind_eq_some_iff.mp h
    obtain ⟨r, hr, h⟩ := Option.bind_eq_some_iff.mp h
    have hleft := ihl hl
    have hright := ihr hr
    rw [Pred.kept]
    cases l with
    | inl l => cases r <;> (cases h; exact treeEval_and hleft hright)
    | inr l =>
      cases r with
      | inl r => cases h
      | inr r =>
        cases h
        rw [hplain hleft, hplain hright]
        rfl
  | bitOr left right ihl ihr =>
    rw [Pred.capture] at h
    obtain ⟨l, hl, h⟩ := Option.bind_eq_some_iff.mp h
    obtain ⟨r, hr, h⟩ := Option.bind_eq_some_iff.mp h
    have hleft := ihl hl
    have hright := ihr hr
    rw [Pred.kept]
    cases l with
    | inl l => cases r <;> (cases h; exact treeEval_or hleft hright)
    | inr l =>
      cases r with
      | inl r => cases h
      | inr r =>
        cases h
        rw [hplain hleft, hplain hright]
        rfl

/-! ### Faithful conditions -/

end

/-- Names of attributes. -/
def Term.Names (P : String → Prop) : Term → Prop
  | .attr name => P name
  | .lit _ => True
  | .arith _ left right => left.Names P ∧ right.Names P

def Pred.Names (P : String → Prop) : Pred → Prop
  | .cmp _ left right => left.Names P ∧ right.Names P
  | .not operand => operand.Names P
  | .and left right | .or left right | .bitAnd left right | .bitOr left right =>
    left.Names P ∧ right.Names P

section
variable (R : Runtime) (tables : CharTables) (cls : EntityClass)

/-- An expression has the truth of the body wherever that has one. -/
def MeansBody (body : Pred) (name : String) (g : GqlExpr) : Prop :=
  ∀ ρ b, body.eval R ρ = some b → (gqlEval R name ρ g = some (.bool true) ↔ b = true)

/-- The text of the condition is read as an expression that means what the body does.  It is over
`var`, or over the parameter. -/
def Faithful (body : Pred) (param : String) (source : Option (List Char))
    (var : Option String) : Prop :=
  ∃ g, runExprParser tables (cls.lambdaToGql (body.toLambda R param source) var) = .ok (g, []) ∧
    MeansBody R body (var.getD param) g

/-- What is kept of the body has the truth of the body wherever that has one. -/
def NothingLost (body : Pred) (name : String) : Prop :=
  ∀ ρ b, body.eval R ρ = some b → (body.kept R name ρ = some true ↔ b = true)

end

section
variable {R : Runtime} {tables : CharTables} {cls : EntityClass}

theorem named_lit {value : Dsl.Value} (h : value.ReadsBack) :
    (Dsl.Expr.lit value).Named tables := by
  cases value with
  | other text => cases h
  | _ => trivial

/-- The names in what a call makes of a term are those of the term. -/
theorem named_of_captureTerm {var : String} (hvar : IsName tables var) {t : Term}
    {s : Dsl.Expr ⊕ Dsl.Value} (hnames : t.Names (IsName tables)) (h : t.capture R var = some s)
    (hliterals : (wrap s).Literals Dsl.Value.ReadsBack) : (wrap s).Named tables := by
  induction t generalizing s with
  | attr name =>
    rw [Term.capture] at h
    split at h
    · cases h
      exact named_lit hliterals
    · cases h
      exact ⟨hvar, hnames⟩
  | lit value =>
    cases h
    exact named_lit hliterals
  | arith op left right ihl ihr =>
    rw [Term.capture] at h
    obtain ⟨l, hl, h⟩ := Option.bind_eq_some_iff.mp h
    obtain ⟨r, hr, h⟩ := Option.bind_eq_some_iff.mp h
    cases l with
    | inl l =>
      cases h
      exact ⟨ihl hnames.1 hl hliterals.1, ihr hnames.2 hr hliterals.2⟩
    | inr l =>
      cases r with
      | inl r => cases h
      | inr r =>
        obtain ⟨v, -, rfl⟩ := Option.map_eq_some_iff.mp h
        exact named_lit hliterals

/-- And those in what it makes of a body are those of the body. -/
theorem named_of_capture {var : String} (hvar : IsName tables var) {body : Pred} {e : Dsl.Expr}
    (hnames : body.Names (IsName tables)) (h : body.capture R var = some (.inl e))
    (hliterals : e.Literals Dsl.Value.ReadsBack) : e.Named tables := by
  induction body generalizing e with
  | cmp op left right =>
    rw [Pred.capture] at h
    obtain ⟨l, hl, h⟩ := Option.bind_eq_some_iff.mp h
    obtain ⟨r, hr, h⟩ := Option.bind_eq_some_iff.mp h
    have hleft := named_of_captureTerm hvar hnames.1 hl
    have hright := named_of_captureTerm hvar hnames.2 hr
    cases l with
    | inl l =>
      cases h
      exact ⟨hleft hliterals.1, hright hliterals.2⟩
    | inr l =>
      cases r with
      | inl r =>
        cases h
        exact ⟨hright hliterals.1, hleft hliterals.2⟩
      | inr r =>
        obtain ⟨v, -, hv⟩ := Option.map_eq_some_iff.mp h
        cases hv
  | and left right ihl ihr =>
    rw [Pred.capture] at h
    obtain ⟨l, hl, h⟩ := Option.bind_eq_some_iff.mp h
    cases l with
    -- an expression counts as true, so `and` goes on with its right side
    | inl l => exact ihr hnames.2 h hliterals
    | inr l =>
      cases l with
      | true => exact ihr hnames.2 h hliterals
      | false => cases h
  | or left right ihl ihr =>
    rw [Pred.capture] at h
    obtain ⟨l, hl, h⟩ := Option.bind_eq_some_iff.mp h
    cases l with
    | inl l =>
      cases h
      -- … and `or` stops at its left side
      exact ihl hnames.1 hl hliterals
    | inr l =>
      cases l with
      | true => cases h
      | false => exact ihr hnames.2 h hliterals
  | not operand ih =>
    rw [Pred.capture] at h
    obtain ⟨x, -, h⟩ := Option.bind_eq_some_iff.mp h
    cases x <;> cases h
  | bitAnd left right ihl ihr =>
    rw [Pred.capture] at h
    obtain ⟨l, hl, h⟩ := Option.bind_eq_some_iff.mp h
    obtain ⟨r, hr, h⟩ := Option.bind_eq_some_iff.mp h
    cases l with
    | inl l =>
      cases r with
      | inl r =>
        cases h
        exact ⟨ihl hnames.1 hl hliterals.1, ihr hnames.2 hr hliterals.2⟩
      | inr r =>
        cases h
        exact ⟨ihl hnames.1 hl hliterals.1, trivial⟩
    | inr l => cases r <;> cases h
  | bitOr left right ihl ihr =>
    rw [Pred.capture] at h
    obtain ⟨l, hl, h⟩ := Option.bind_eq_some_iff.mp h
    obtain ⟨r, hr, h⟩ := Option.bind_eq_some_iff.mp h
    cases l with
    | inl l =>
      cases r with
      | inl r =>
        cases h
        exact ⟨ihl hnames.1 hl hliterals.1, ihr hnames.2 hr hliterals.2⟩
      | inr r =>
        cases h
        exact ⟨ihl hnames.1 hl hliterals.1, trivial⟩
    | inr l => cases r <;> cases h

end

/-- Comparisons of Python: any two values for equality, and integers for order. -/
def plainCompare : CmpOp → Dsl.Value → Dsl.Value → Option Bool
  | .eq, l, r => some (l = r)
  | .ne, l, r => some (l ≠ r)
  | .lt, .int l, .int r => some (l < r)
  | .le, .int l, .int r => some (l ≤ r)
  | .gt, .int l, .int r => some (l > r)
  | .ge, .int l, .int r => some (l ≥ r)
  | _, _, _ => none

/-- Python without arithmetic. -/
def plainRuntime : Runtime where
  arith _ _ _ := none
  compare := plainCompare
  compare_swap op l r := by
    cases op
    case eq => exact congrArg some (decide_eq_decide.mpr eq_comm)
    case ne => exact congrArg some (decide_eq_decide.mpr ne_comm)
    all_goals cases l <;> cases r <;> rfl
  own var name :=
    if name = "kind" then some (.str "var")
    else if name = "value" then some (.str var)
    else if name = "left" ∨ name = "op" ∨ name = "right" then some .pyNone
    else none

/-- `p.age > 20`. -/
def overTwenty : Pred := .cmp .gt (.attr "age") (.lit (.int 20))

theorem names_overTwenty : overTwenty.Names (IsName .ascii) := by
  refine ⟨?_, trivial⟩
  change IsName .ascii "age"
  decide

end KuzuEventBus.Sdk.Capture
