import KuzuEventBus.Gql.IntArith
import KuzuEventBus.Gql.WithSubst
import KuzuEventBus.Sdk.Capture

/-!
# Conditions on stored properties

What a condition of the DSL evaluates to when the engine has the properties of a node, and when
Python has the attributes of an object.  The rules here are those on which both agree: integers in
the range of an `i64`, comparisons of integers, equality of strings and of booleans, AND and OR.

## Main definitions

* `Applies` — an operator, its operands and the result.
* `Means` — a tree has a value on some attributes.
* `Runtime.Exact` — the operators of Python follow the rules.
* `valueOf` — a value of the engine as one of Python.

## Main results

* `Means.eval` — **the engine finds the value of a tree**.
* `Means.treeEval` — so does Python.
* `Means.eval_iff` — a captured body is true in Python exactly where its tree is.
-/

namespace KuzuEventBus.Sdk.Capture

open Dsl

/-! ### The rules -/

/-- A comparison of integers. -/
def CmpOp.holds : CmpOp → ℤ → ℤ → Bool
  | .eq, x, y => x = y
  | .ne, x, y => x ≠ y
  | .lt, x, y => x < y
  | .le, x, y => x ≤ y
  | .gt, x, y => x > y
  | .ge, x, y => x ≥ y

/-- The operator has the result on the operands. -/
inductive Applies : BinOp → Dsl.Value → Dsl.Value → Dsl.Value → Prop
  | add {x y : ℤ} (h : InI64 (x + y)) : Applies .add (.int x) (.int y) (.int (x + y))
  | sub {x y : ℤ} (h : InI64 (x - y)) : Applies .sub (.int x) (.int y) (.int (x - y))
  | mul {x y : ℤ} (h : InI64 (x * y)) : Applies .mul (.int x) (.int y) (.int (x * y))
  | compare (op : CmpOp) (x y : ℤ) : Applies op.binOp (.int x) (.int y) (.bool (op.holds x y))
  | eqStr (s t : String) : Applies .eq (.str s) (.str t) (.bool (s = t))
  | neStr (s t : String) : Applies .ne (.str s) (.str t) (.bool (s ≠ t))
  | eqBool (a b : Bool) : Applies .eq (.bool a) (.bool b) (.bool (a = b))
  | neBool (a b : Bool) : Applies .ne (.bool a) (.bool b) (.bool (a ≠ b))
  | and (a b : Bool) : Applies .and (.bool a) (.bool b) (.bool (a && b))
  | or (a b : Bool) : Applies .or (.bool a) (.bool b) (.bool (a || b))

/-- The tree has the value, where the attributes of the variable are those given. -/
inductive Means (var : String) (attrs : String → Option Dsl.Value) :
    Dsl.Expr → Dsl.Value → Prop
  | attr {name : String} {v : Dsl.Value} (h : attrs name = some v) :
      Means var attrs (.attr (.var var) name) v
  | lit (v : Dsl.Value) : Means var attrs (.lit v) v
  | bin {l r : Dsl.Expr} {op : BinOp} {x y z : Dsl.Value} (hl : Means var attrs l x)
      (hr : Means var attrs r y) (hop : Applies op x y z) : Means var attrs (.bin l op r) z

/-! ### Python -/

/-- Python's arithmetic and comparisons on integers, strings and booleans. -/
structure Runtime.Exact (R : Runtime) : Prop where
  add : ∀ x y, R.arith .add (.int x) (.int y) = some (.int (x + y))
  sub : ∀ x y, R.arith .sub (.int x) (.int y) = some (.int (x - y))
  mul : ∀ x y, R.arith .mul (.int x) (.int y) = some (.int (x * y))
  compare : ∀ op x y, R.compare op (.int x) (.int y) = some (op.holds x y)
  eqStr : ∀ s t, R.compare .eq (.str s) (.str t) = some (decide (s = t))
  neStr : ∀ s t, R.compare .ne (.str s) (.str t) = some (decide (s ≠ t))
  eqBool : ∀ a b, R.compare .eq (.bool a) (.bool b) = some (decide (a = b))
  neBool : ∀ a b, R.compare .ne (.bool a) (.bool b) = some (decide (a ≠ b))

/-- Addition, subtraction and multiplication of integers. -/
def intArith : ArithOp → Dsl.Value → Dsl.Value → Option Dsl.Value
  | .add, .int x, .int y => some (.int (x + y))
  | .sub, .int x, .int y => some (.int (x - y))
  | .mul, .int x, .int y => some (.int (x * y))
  | _, _, _ => none

/-- Python with arithmetic of integers. -/
def intRuntime : Runtime := { plainRuntime with arith := intArith }

theorem exact_intRuntime : intRuntime.Exact where
  add _ _ := rfl
  sub _ _ := rfl
  mul _ _ := rfl
  compare op x y := by
    cases op <;> simp [intRuntime, plainRuntime, plainCompare, CmpOp.holds]
  eqStr _ _ := by simp [intRuntime, plainRuntime, plainCompare]
  neStr _ _ := by simp [intRuntime, plainRuntime, plainCompare]
  eqBool _ _ := by simp [intRuntime, plainRuntime, plainCompare]
  neBool _ _ := by simp [intRuntime, plainRuntime, plainCompare]

section
variable {R : Runtime} {var : String} {attrs : String → Option Dsl.Value} {e : Dsl.Expr}
  {v : Dsl.Value}

theorem Applies.binary (hR : R.Exact) {op : BinOp} {x y z : Dsl.Value} (h : Applies op x y z) :
    R.binary op x y = some z := by
  cases h with
  | add h => exact hR.add _ _
  | sub h => exact hR.sub _ _
  | mul h => exact hR.mul _ _
  | compare op x y => rw [binary_cmp, hR.compare]; rfl
  | eqStr s t => exact congrArg (Option.map Dsl.Value.bool) (hR.eqStr s t)
  | neStr s t => exact congrArg (Option.map Dsl.Value.bool) (hR.neStr s t)
  | eqBool a b => exact congrArg (Option.map Dsl.Value.bool) (hR.eqBool a b)
  | neBool a b => exact congrArg (Option.map Dsl.Value.bool) (hR.neBool a b)
  | and a b => rfl
  | or a b => rfl

/-- The attributes as Python looks them up; there is none where the engine has no property. -/
def lookupAttr (attrs : String → Option Dsl.Value) (name : String) : Dsl.Value :=
  (attrs name).getD .pyNone

/-- **Python finds the value of a tree.** -/
theorem Means.treeEval (hR : R.Exact) (h : Means var attrs e v) :
    treeEval R var (lookupAttr attrs) e = some v := by
  induction h with
  | attr h => simp [Capture.treeEval, lookupAttr, h]
  | lit v => rfl
  | bin _ _ hop ihl ihr => simp [Capture.treeEval, ihl, ihr, hop.binary hR]

/-! ### The engine -/

/-- A value of the engine as one of Python. -/
def valueOf : KuzuEventBus.Value → Dsl.Value
  | .string s => .str s
  | .int i => .int i.toInt
  | .bool b => .bool b
  | .null => .pyNone
  | .float _ => .other "float"
  | .nodeId _ => .other "node"

theorem valueOf_eq_int {w : KuzuEventBus.Value} {x : ℤ} (h : valueOf w = .int x) :
    ∃ i : Int64, w = .int i ∧ i.toInt = x := by
  cases w <;> cases h
  exact ⟨_, rfl, rfl⟩

theorem valueOf_eq_str {w : KuzuEventBus.Value} {s : String} (h : valueOf w = .str s) :
    w = .string s := by
  cases w <;> cases h
  rfl

theorem valueOf_eq_bool {w : KuzuEventBus.Value} {b : Bool} (h : valueOf w = .bool b) :
    w = .bool b := by
  cases w <;> cases h
  rfl

/-- A comparison of the engine is that of the integers. -/
theorem evalIntOp_compare (op : CmpOp) (i j : Int64) :
    evalIntOp i op.binOp j = .ok (.bool (op.holds i.toInt j.toInt)) := by
  cases op <;> simp [CmpOp.binOp, CmpOp.holds, evalIntOp, Int64.toInt_inj, Int64.lt_iff_toInt_lt,
    Int64.le_iff_toInt_le]

/-- The engine applies the operator. -/
theorem Applies.evalBinaryOp {op : BinOp} {w u : KuzuEventBus.Value} {z : Dsl.Value}
    (h : Applies op (valueOf w) (valueOf u) z) :
    ∃ r, evalBinaryOp w op u = .ok r ∧ valueOf r = z := by
  generalize hx : valueOf w = x at h
  generalize hy : valueOf u = y at h
  cases h with
  | add h | sub h | mul h =>
    obtain ⟨i, rfl, rfl⟩ := valueOf_eq_int hx
    obtain ⟨j, rfl, rfl⟩ := valueOf_eq_int hy
    obtain ⟨k, hk, hkz⟩ := checkedInt_of_inI64 h _
    exact ⟨.int k, hk, congrArg Dsl.Value.int hkz⟩
  | compare op x y =>
    obtain ⟨i, rfl, rfl⟩ := valueOf_eq_int hx
    obtain ⟨j, rfl, rfl⟩ := valueOf_eq_int hy
    exact ⟨_, evalIntOp_compare op i j, rfl⟩
  | eqStr s t | neStr s t =>
    obtain rfl := valueOf_eq_str hx
    obtain rfl := valueOf_eq_str hy
    refine ⟨_, rfl, congrArg Dsl.Value.bool ?_⟩
    by_cases h : s = t <;> simp [h]
  | eqBool a b | neBool a b =>
    obtain rfl := valueOf_eq_bool hx
    obtain rfl := valueOf_eq_bool hy
    exact ⟨_, rfl, by cases a <;> cases b <;> rfl⟩
  | and a b | or a b =>
    obtain rfl := valueOf_eq_bool hx
    obtain rfl := valueOf_eq_bool hy
    exact ⟨_, rfl, rfl⟩

/-- A literal that stands for itself evaluates to itself. -/
theorem valueOf_evalLiteral {value : Dsl.Value} {l : Literal} (hl : value.toLiteral = some l)
    (hreads : value.ReadsBack) : valueOf (evalLiteral l) = value := by
  cases value with
  | str s =>
    cases hl
    rfl
  | int i =>
    rw [Dsl.Value.toLiteral] at hl
    split at hl
    · next hbounds =>
      cases hl
      exact congrArg Dsl.Value.int (Int64.toInt_ofInt_of_le hbounds.1 hbounds.2)
    · cases hl
  | bool b =>
    cases hl
    rfl
  | pyNone => cases hreads
  | other text => cases hreads

/-- **The engine finds the value of a tree**, on a tuple that holds the attributes as properties of
the variable. -/
theorem Means.eval (ex : Executor) {t : Tuple} {g : GqlExpr} (h : Means var attrs e v)
    (hg : e.toExpr = some g) (hreads : e.Literals Dsl.Value.ReadsBack)
    (ht : ∀ name x, attrs name = some x →
      ∃ w, t.lookup (propKey var name) = some w ∧ valueOf w = x) :
    ∃ w, ex.eval g t = .ok w ∧ valueOf w = v := by
  induction h generalizing g with
  | attr h =>
    cases hg
    obtain ⟨w, hw, hv⟩ := ht _ _ h
    exact ⟨w, by rw [eval_property, hw], hv⟩
  | lit v =>
    obtain ⟨l, hl, rfl⟩ := Dsl.Expr.toExpr_lit hg
    exact ⟨evalLiteral l, rfl, valueOf_evalLiteral hl hreads⟩
  | bin _ _ hop ihl ihr =>
    obtain ⟨l, r, hl, hr, rfl⟩ := Dsl.Expr.toExpr_bin hg
    obtain ⟨w, hw, rfl⟩ := ihl hl hreads.1
    obtain ⟨u, hu, rfl⟩ := ihr hr hreads.2
    obtain ⟨z, hz, hv⟩ := hop.evalBinaryOp
    refine ⟨z, ?_, hv⟩
    rw [eval_binaryOp, hw, hu]
    exact hz

/-- **A body that is captured without loss is true in Python exactly where its tree is true.** -/
theorem Means.eval_iff {body : Pred} (hR : R.Exact) (hcapture : body.capture R var = some (.inl e))
    (hlost : NothingLost R body var) (h : Means var attrs e v) {b : Bool}
    (hb : body.eval R (lookupAttr attrs) = some b) : v = .bool true ↔ b = true := by
  have hkept := eval_capture (ρ := lookupAttr attrs) hcapture
  rw [verdict, h.treeEval hR] at hkept
  rw [← hlost (lookupAttr attrs) b hb]
  cases hk : body.kept R var (lookupAttr attrs) with
  | none => rw [hk] at hkept; cases hkept
  | some k =>
    rw [hk] at hkept
    cases hkept
    simp

end

end KuzuEventBus.Sdk.Capture
