import KuzuEventBus.Gql.Executor

/-!
# Integer arithmetic

`eval_expr` over `+`, `-`, `*` and `/` on `i64` values.  The operators are the plain
ones of the language: a debug build panics where a sum, a difference or a product
leaves the range of an `i64`, a release build wraps, and both panic on the one
quotient that leaves it.  No operation returns an error for it, so evaluation is
exact only as long as every operation it reaches stays in range.

## Main definitions

* `Arith` — expressions of `+`, `-`, `*` and `/` over integers.
* `BuildProfile`, `Arith.eval` — their evaluation in a debug and in a release build.
* `Arith.exact` — the result over unbounded integers.
* `ExactOrErr` — the exact result, or an error.
* `Arith.Fits` — no operation that is reached leaves the range.

## Main results

* `Arith.eval_debug` — a debug build evaluates what `eval_expr` does.
* `Arith.eval_follows` — **where the operations fit, both builds are exact**.
* `Arith.eval_panics` — where one does not, a debug build panics.
* `evalExpr_exactOrErr_iff` — when arithmetic is exact or an error.
-/

namespace KuzuEventBus

/-! ### Expressions -/

/-- The arithmetic operators. -/
inductive ArithOp where
  | add | sub | mul | div
  deriving DecidableEq, Repr

def ArithOp.toBinOp : ArithOp → BinOp
  | .add => .add
  | .sub => .sub
  | .mul => .mul
  | .div => .div

/-- An arithmetic expression over literals, variables, properties and parameters. -/
inductive Arith where
  | int (i : Int64)
  | ident (name : String)
  | property (var prop : String)
  | parameter (name : String)
  | binaryOp (left : Arith) (op : ArithOp) (right : Arith)

def Arith.toExpr : Arith → Expr
  | .int i => .literal (.int i)
  | .ident name => .ident name
  | .property var prop => .property var prop
  | .parameter name => .parameter name
  | .binaryOp left op right => .binaryOp left.toExpr op.toBinOp right.toExpr

/-- How overflow is treated: `debug` builds check for it, `release` builds do not. -/
inductive BuildProfile where
  | debug | release
  deriving DecidableEq, Repr

/-- An operation on two `i64`.  A quotient is checked in every build. -/
def ArithOp.eval (profile : BuildProfile) (op : ArithOp) (l r : Int64) : Except Fault Value :=
  match profile, op with
  | .release, .add => .ok (.int (l + r))
  | .release, .sub => .ok (.int (l - r))
  | .release, .mul => .ok (.int (l * r))
  | _, op => evalIntOp l op.toBinOp r

/-- `eval_binary_op` in a build. -/
def evalArithOp (profile : BuildProfile) (left : Value) (op : ArithOp) (right : Value) :
    Except Fault Value :=
  match left, right with
  | .int l, .int r => op.eval profile l r
  | _, _ => evalBinaryOp left op.toBinOp right

section

variable (ex : Executor) (tuple : Tuple) (write : Option InMemoryGraphStore)

/-- `eval_expr` in a build. -/
def Arith.eval (profile : BuildProfile) : Arith → Except Fault Value
  | .binaryOp left op right => do
    let l ← left.eval profile
    let r ← right.eval profile
    evalArithOp profile l op r
  | leaf => evalExpr ex tuple none leaf.toExpr

end

/-! ### Exact arithmetic -/

/-- The integer a value holds. -/
def Value.toInt? : Value → Option ℤ
  | .int i => some i.toInt
  | _ => none

/-- An operation on integers of any size; a quotient is truncated, and there is none by zero. -/
def ArithOp.exact (op : ArithOp) (x y : ℤ) : Option ℤ :=
  match op with
  | .add => some (x + y)
  | .sub => some (x - y)
  | .mul => some (x * y)
  | .div => if y = 0 then none else some (x.tdiv y)

/-- The value a leaf is bound to. -/
def Arith.bound (ex : Executor) (tuple : Tuple) : Arith → Option Value
  | .int i => some (.int i)
  | .ident name => tuple.lookup name
  | .property var prop => tuple.lookup (propKey var prop)
  | .parameter name => ex.parameters.lookup name
  | .binaryOp _ _ _ => none

/-- The result over integers of any size, if everything is bound and nothing is divided by 0. -/
def Arith.exact (ex : Executor) (tuple : Tuple) : Arith → Option ℤ
  | .binaryOp left op right =>
    (left.exact ex tuple).bind fun x => (right.exact ex tuple).bind fun y => op.exact x y
  | leaf => (leaf.bound ex tuple).bind Value.toInt?

/-- What is bound in the expression is bound to integers. -/
def Arith.OverInts (ex : Executor) (tuple : Tuple) : Arith → Prop
  | .binaryOp left _ right => left.OverInts ex tuple ∧ right.OverInts ex tuple
  | leaf => ∀ v ∈ leaf.bound ex tuple, ∃ i, v = .int i

/-- The range of an `i64`. -/
def InI64 (x : ℤ) : Prop := -2 ^ 63 ≤ x ∧ x < 2 ^ 63

instance : DecidablePred InI64 := fun _ => inferInstanceAs (Decidable (_ ∧ _))

/-- No operation that evaluation reaches has an exact result outside the range.  The right
operand is reached when the left one has a result. -/
def Arith.Fits (ex : Executor) (tuple : Tuple) : Arith → Prop
  | .binaryOp left op right => left.Fits ex tuple ∧
      ((left.exact ex tuple).isSome → right.Fits ex tuple) ∧
      ∀ x ∈ left.exact ex tuple, ∀ y ∈ right.exact ex tuple, ∀ z ∈ op.exact x y, InI64 z
  | _ => True

/-- The result is the exact one, or an error. -/
def ExactOrErr (exact : Option ℤ) (result : Except Fault Value) : Prop :=
  (∃ i : Int64, result = .ok (.int i) ∧ exact = some i.toInt) ∨
    ∃ e, result = .error (.error e)

/-- The result is the exact one, and an error where there is none. -/
def FollowsExact (exact : Option ℤ) (result : Except Fault Value) : Prop :=
  match exact with
  | some x => ∃ i : Int64, result = .ok (.int i) ∧ i.toInt = x
  | none => ∃ e, result = .error (.error e)

theorem FollowsExact.exactOrErr {exact : Option ℤ} {result : Except Fault Value}
    (h : FollowsExact exact result) : ExactOrErr exact result := by
  cases exact with
  | none => exact .inr h
  | some x =>
    obtain ⟨i, hi, rfl⟩ := h
    exact .inl ⟨i, hi, rfl⟩

/-! ### One operation -/

theorem checkedInt_of_inI64 {x : ℤ} (h : InI64 x) (name : String) :
    ∃ i : Int64, checkedInt name x = .ok (.int i) ∧ i.toInt = x :=
  ⟨Int64.ofInt x, if_pos h, Int64.toInt_ofInt_of_le h.1 h.2⟩

theorem checkedInt_of_not_inI64 {x : ℤ} (h : ¬ InI64 x) (name : String) :
    checkedInt name x = .error (.panic ("attempt to " ++ name ++ " with overflow")) :=
  if_neg h

theorem toInt_eq_zero_iff {r : Int64} : r.toInt = 0 ↔ r = 0 := by
  constructor
  · intro h
    exact Int64.toInt.inj (by rw [h]; rfl)
  · rintro rfl
    rfl

/-- In range, a wrapped result is the exact one. -/
theorem toInt_ofInt_eq {x : ℤ} {i : Int64} (h : InI64 x) (hi : i = Int64.ofInt x) :
    i.toInt = x := by
  rw [hi, Int64.toInt_ofInt_of_le h.1 h.2]

/-- **An operation that stays in range** is exact in both builds. -/
theorem ArithOp.eval_follows (profile : BuildProfile) (op : ArithOp) {l r : Int64}
    (h : ∀ z ∈ op.exact l.toInt r.toInt, InI64 z) :
    FollowsExact (op.exact l.toInt r.toInt) (op.eval profile l r) := by
  cases op with
  | add =>
    have hz : InI64 (l.toInt + r.toInt) := h _ rfl
    cases profile with
    | debug => exact checkedInt_of_inI64 hz "add"
    | release => exact ⟨l + r, rfl, toInt_ofInt_eq hz (by simp)⟩
  | sub =>
    have hz : InI64 (l.toInt - r.toInt) := h _ rfl
    cases profile with
    | debug => exact checkedInt_of_inI64 hz "subtract"
    | release => exact ⟨l - r, rfl, toInt_ofInt_eq hz (by simp)⟩
  | mul =>
    have hz : InI64 (l.toInt * r.toInt) := h _ rfl
    cases profile with
    | debug => exact checkedInt_of_inI64 hz "multiply"
    | release => exact ⟨l * r, rfl, toInt_ofInt_eq hz (by simp)⟩
  | div =>
    have heval : ArithOp.div.eval profile l r = evalIntOp l .div r := by
      cases profile <;> rfl
    rw [heval, evalIntOp]
    by_cases hr : r = 0
    · rw [if_pos hr, ArithOp.exact, if_pos (toInt_eq_zero_iff.mpr hr)]
      exact ⟨_, rfl⟩
    · have hr' : r.toInt ≠ 0 := mt toInt_eq_zero_iff.mp hr
      rw [ArithOp.exact, if_neg hr'] at h ⊢
      rw [if_neg hr]
      exact checkedInt_of_inI64 (h _ rfl) "divide"

/-- An operation that leaves the range panics in a debug build. -/
theorem ArithOp.eval_panics {op : ArithOp} {l r : Int64} {z : ℤ}
    (hz : op.exact l.toInt r.toInt = some z) (h : ¬ InI64 z) :
    ∃ msg, op.eval .debug l r = .error (.panic msg) := by
  cases op with
  | add => cases hz; exact ⟨_, checkedInt_of_not_inI64 h "add"⟩
  | sub => cases hz; exact ⟨_, checkedInt_of_not_inI64 h "subtract"⟩
  | mul => cases hz; exact ⟨_, checkedInt_of_not_inI64 h "multiply"⟩
  | div =>
    rw [ArithOp.exact] at hz
    split at hz
    · cases hz
    · next hr =>
      cases hz
      have hr' : r ≠ 0 := mt toInt_eq_zero_iff.mpr hr
      have heval : ArithOp.div.eval .debug l r = checkedInt "divide" (l.toInt.tdiv r.toInt) :=
        if_neg hr'
      rw [heval, checkedInt_of_not_inI64 h "divide"]
      exact ⟨_, rfl⟩

/-! ### Expressions -/

section

variable {ex : Executor} {tuple : Tuple} {a : Arith}

/-- A debug build evaluates what `eval_expr` does, whatever subqueries and writes there are:
arithmetic has none. -/
theorem Arith.eval_debug_with (a : Arith)
    (sub : Executor → PlanNode → Tuple → Except Fault (List Tuple))
    (write : Option InMemoryGraphStore) :
    a.eval ex tuple .debug = evalExprWith sub ex tuple write a.toExpr := by
  have hop : ∀ (op : ArithOp) (l r : Value),
      evalArithOp .debug l op r = evalBinaryOp l op.toBinOp r := by
    intro op l r
    unfold evalArithOp
    split
    · cases op <;> rfl
    · rfl
  induction a generalizing write with
  | binaryOp left op right ihl ihr =>
    rw [Arith.eval, Arith.toExpr, evalExprWith, ihl none, ihr none]
    simp only [hop]
  | _ => rfl

theorem Arith.eval_debug (a : Arith) (write : Option InMemoryGraphStore) :
    a.eval ex tuple .debug = evalExpr ex tuple write a.toExpr :=
  a.eval_debug_with _ write

/-- What is bound to an integer evaluates to it, and what is not bound is an error. -/
theorem follows_lookup (v? : Option Value) (msg : String) : (∀ v ∈ v?, ∃ i, v = .int i) →
    FollowsExact (v?.bind Value.toInt?)
      (match v? with
      | some v => .ok v
      | none => invalidArgument msg) := by
  intro h
  cases v? with
  | none => exact ⟨_, rfl⟩
  | some v =>
    obtain ⟨i, rfl⟩ := h v rfl
    exact ⟨i, rfl, rfl⟩

/-- **Where the operations fit, both builds are exact**, and an error only where there is no
exact result. -/
theorem Arith.eval_follows (profile : BuildProfile) (hints : a.OverInts ex tuple)
    (hfits : a.Fits ex tuple) : FollowsExact (a.exact ex tuple) (a.eval ex tuple profile) := by
  induction a with
  | binaryOp left op right ihl ihr =>
    obtain ⟨hintl, hintr⟩ := hints
    obtain ⟨hfitl, hfitr, hop⟩ := hfits
    have hl := ihl hintl hfitl
    rw [Arith.exact, Arith.eval]
    cases hx : left.exact ex tuple with
    | none =>
      rw [hx] at hl
      obtain ⟨e, he⟩ := hl
      rw [he]
      exact ⟨e, rfl⟩
    | some x =>
      rw [hx] at hl
      obtain ⟨i, hi, rfl⟩ := hl
      have hr := ihr hintr (hfitr (by rw [hx]; rfl))
      rw [hi]
      cases hy : right.exact ex tuple with
      | none =>
        rw [hy] at hr
        obtain ⟨e, he⟩ := hr
        rw [he]
        exact ⟨e, rfl⟩
      | some y =>
        rw [hy] at hr
        obtain ⟨j, hj, rfl⟩ := hr
        rw [hj]
        exact op.eval_follows profile (hop _ hx _ hy)
  | int i => exact ⟨i, rfl, rfl⟩
  | ident name => exact follows_lookup _ _ hints
  | property var prop => exact follows_lookup _ _ hints
  | parameter name => exact follows_lookup _ _ hints

/-- Where an operation that is reached leaves the range, a debug build panics. -/
theorem Arith.eval_panics (hints : a.OverInts ex tuple) (hfits : ¬ a.Fits ex tuple) :
    ∃ msg, a.eval ex tuple .debug = .error (.panic msg) := by
  induction a with
  | binaryOp left op right ihl ihr =>
    obtain ⟨hintl, hintr⟩ := hints
    rw [Arith.eval]
    by_cases hfitl : left.Fits ex tuple
    · have hl := Arith.eval_follows .debug hintl hfitl
      -- the left operand has a result: otherwise nothing else is reached
      cases hx : left.exact ex tuple with
      | none => exact absurd ⟨hfitl, by simp [hx], by simp [hx]⟩ hfits
      | some x =>
        rw [hx] at hl
        obtain ⟨i, hi, rfl⟩ := hl
        rw [hi]
        by_cases hfitr : right.Fits ex tuple
        · have hr := Arith.eval_follows .debug hintr hfitr
          cases hy : right.exact ex tuple with
          | none => exact absurd ⟨hfitl, fun _ => hfitr, by simp [hy]⟩ hfits
          | some y =>
            rw [hy] at hr
            obtain ⟨j, hj, rfl⟩ := hr
            rw [hj]
            -- both operands fit, so it is this operation
            have hop : ¬ ∀ z ∈ op.exact i.toInt j.toInt, InI64 z := by
              intro hall
              refine hfits ⟨hfitl, fun _ => hfitr, ?_⟩
              rintro x' hx' y' hy'
              rw [hx] at hx'
              rw [hy] at hy'
              cases hx'
              cases hy'
              exact hall
            push Not at hop
            obtain ⟨z, hz, hout⟩ := hop
            exact ArithOp.eval_panics hz hout
        · obtain ⟨msg, hmsg⟩ := ihr hintr hfitr
          rw [hmsg]
          exact ⟨msg, rfl⟩
    · obtain ⟨msg, hmsg⟩ := ihl hintl hfitl
      rw [hmsg]
      exact ⟨msg, rfl⟩
  | _ => exact absurd trivial hfits

/-- **When arithmetic is exact or an error**: exactly when no operation that is reached leaves
the range of an `i64`.  There a release build agrees with a debug build. -/
theorem evalExpr_exactOrErr_iff (hints : a.OverInts ex tuple)
    (write : Option InMemoryGraphStore) :
    (ExactOrErr (a.exact ex tuple) (evalExpr ex tuple write a.toExpr) ↔ a.Fits ex tuple) ∧
      (a.Fits ex tuple → ExactOrErr (a.exact ex tuple) (a.eval ex tuple .release)) := by
  rw [← a.eval_debug write]
  refine ⟨⟨fun h => ?_, fun h => (Arith.eval_follows .debug hints h).exactOrErr⟩,
    fun h => (Arith.eval_follows .release hints h).exactOrErr⟩
  by_contra hfits
  obtain ⟨msg, hmsg⟩ := Arith.eval_panics hints hfits
  rw [hmsg] at h
  rcases h with ⟨i, hi, -⟩ | ⟨e, he⟩
  · cases hi
  · cases he

end

/-! ### The ends of the range -/

/-- The tuple that binds `x`. -/
def intTuple (x : Int64) : Tuple := (∅ : Tuple).insert "x" (.int x)

/-- `x + 1`. -/
def plusOne : Arith := .binaryOp (.ident "x") .add (.int 1)

/-- `x / -1`. -/
def overMinusOne : Arith := .binaryOp (.ident "x") .div (.int (-1))

theorem overInts_plusOne (x : Int64) : plusOne.OverInts .newNoRead (intTuple x) := by
  have hx : (intTuple x).lookup "x" = some (.int x) := AList.lookup_insert _
  refine ⟨fun v hv => ⟨x, ?_⟩, fun v hv => ⟨1, ?_⟩⟩
  · exact (Option.some.inj (hx.symm.trans hv)).symm
  · exact (Option.some.inj hv).symm

/-- `x + 1` at 41. -/
theorem evalExpr_exactOrErr_fortyOne :
    ExactOrErr (some 42) (evalExpr .newNoRead (intTuple 41) none plusOne.toExpr) ∧
      ExactOrErr (some 42) (plusOne.eval .newNoRead (intTuple 41) .release) := by
  have hfits : plusOne.Fits .newNoRead (intTuple 41) := by
    refine ⟨trivial, fun _ => trivial, ?_⟩
    rintro x hx y hy z hz
    cases hx
    cases hy
    cases hz
    decide
  have h := evalExpr_exactOrErr_iff (overInts_plusOne 41) none
  exact ⟨h.1.mpr hfits, h.2 hfits⟩

/-- At the largest integer `x + 1` panics in a debug build and is the smallest one in a release
build; at the smallest integer `x / -1` panics in both. -/
theorem evalExpr_overflows :
    plusOne.exact .newNoRead (intTuple Int64.maxValue) = some (2 ^ 63) ∧
      evalExpr .newNoRead (intTuple Int64.maxValue) none plusOne.toExpr =
        .error (.panic "attempt to add with overflow") ∧
      plusOne.eval .newNoRead (intTuple Int64.maxValue) .release = .ok (.int Int64.minValue) ∧
      overMinusOne.eval .newNoRead (intTuple Int64.minValue) .release =
        .error (.panic "attempt to divide with overflow") ∧
      ¬ ExactOrErr (plusOne.exact .newNoRead (intTuple Int64.maxValue))
        (evalExpr .newNoRead (intTuple Int64.maxValue) none plusOne.toExpr) := by
  have hpanic : evalExpr .newNoRead (intTuple Int64.maxValue) none plusOne.toExpr =
      .error (.panic "attempt to add with overflow") := by rfl
  refine ⟨by rfl, hpanic, by rfl, by rfl, ?_⟩
  rw [hpanic]
  rintro (⟨i, hi, -⟩ | ⟨e, he⟩)
  · cases hi
  · cases he

end KuzuEventBus
