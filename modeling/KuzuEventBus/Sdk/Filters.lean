import KuzuEventBus.Lib.Runs
import KuzuEventBus.Sdk.QueryBuilder

/-!
# Several filters

What becomes of the predicates of several calls of `where` on one builder.  There are two slots:
`where` overwrites one of them, that for the time before `select()` or that for the time after it,
and building a text moves the first one to the second one.  So one predicate is left.  With
`select()` it is printed after WITH under the name of its parameter, where that name is the alias
of a column, the entity, or nothing at all.

Values and operators of the query language are parameters.

## Main definitions

* `Semantics.eval` — the value of a tree, of what its names stand for.
* `filters` — the predicates of a run, with the time at which they were added.
* `Filter.Holds` — a predicate holds as it was meant.
* `Builder.Condition` — the condition that the text asks for.
* `Conjoins` — that is all predicates and all EXISTS clauses.
* `OneStandsForAll` — the predicate that is left says as much as all of them.

## Main results

* `keeps_of_run` — what the two slots hold.
* `texts_of_keeps` — the condition is that of the text.
* `conjoins_iff` — **the filters are conjoined exactly when the last one stands for all.**
-/

namespace KuzuEventBus.Sdk

open Dsl Runs

/-! ### Values of trees -/

/-- Values and operators of the query language; an operator may fail. -/
structure Semantics (V : Type*) where
  literal : Dsl.Value → V
  operator : BinOp → V → V → Option V
  IsTrue : V → Prop

/-- What a name stands for: a value, or a node with its properties. -/
inductive Ref (V : Type*) where
  | value (v : V)
  | node (properties : String → Option V)

/-- What a variable is, and what its attributes are. -/
structure Scope (V : Type*) where
  self : Option (Ref V)
  attr : String → Option (Ref V)

section
variable {V : Type*}

/-- An attribute of a node is a property of it; a value has none. -/
def Ref.attr : Ref V → String → Option (Ref V)
  | .value _, _ => none
  | .node properties, name => (properties name).map .value

/-- A value, and no node. -/
def Ref.value? : Ref V → Option V
  | .value v => some v
  | .node _ => none

/-- A variable of the query language, with the attributes of what it stands for. -/
def Scope.of (ref : Option (Ref V)) : Scope V := ⟨ref, fun name => ref.bind (·.attr name)⟩

/-- The value of a tree; there is none if a name stands for nothing or an operator fails. -/
def Semantics.eval (sem : Semantics V) (scope : String → Scope V) : Dsl.Expr → Option (Ref V)
  | .var x => (scope x).self
  | .attr (.var x) name => (scope x).attr name
  | .attr base name => (sem.eval scope base).bind (·.attr name)
  | .lit value => some (.value (sem.literal value))
  | .bin left op right => do
    let l ← (sem.eval scope left).bind Ref.value?
    let r ← (sem.eval scope right).bind Ref.value?
    (sem.operator op l r).map .value

/-- A condition holds if its value is true. -/
def Semantics.Holds (sem : Semantics V) (scope : String → Scope V) (e : Dsl.Expr) : Prop :=
  ∃ v, sem.eval scope e = some (.value v) ∧ sem.IsTrue v

end

namespace Dsl.Expr

/-- A tree over one variable. -/
def renamed (v : String) : Dsl.Expr → Dsl.Expr
  | .var _ => .var v
  | .attr base name => .attr (base.renamed v) name
  | .lit value => .lit value
  | .bin left op right => .bin (left.renamed v) op (right.renamed v)

/-- A tree with a variable in it. -/
def HasVar : Dsl.Expr → Prop
  | .var _ => True
  | .attr base _ => base.HasVar
  | .lit _ => False
  | .bin left _ right => left.HasVar ∨ right.HasVar

/-- A tree without attributes. -/
def NoAttr : Dsl.Expr → Prop
  | .var _ | .lit _ => True
  | .attr _ _ => False
  | .bin left _ right => left.NoAttr ∧ right.NoAttr

end Dsl.Expr

section
variable {V : Type*} {sem : Semantics V}

/-- A tree over a variable depends on that variable alone. -/
theorem eval_renamed (scope : String → Scope V) (v : String) (e : Dsl.Expr) :
    sem.eval scope (e.renamed v) = sem.eval (fun _ => scope v) e := by
  induction e with
  | var x => rfl
  | attr base name ih =>
    cases base with
    | var x => rfl
    | lit value => rfl
    | attr base name' => exact congrArg (Option.bind · _) ih
    | bin left op right => exact congrArg (Option.bind · _) ih
  | lit value => rfl
  | bin left op right ihl ihr =>
    simp only [Dsl.Expr.renamed, Semantics.eval]
    rw [ihl, ihr]

/-- The value of a tree without attributes depends on what the variables are alone. -/
theorem eval_noAttr {scope scope' : String → Scope V} {e : Dsl.Expr} (he : e.NoAttr)
    (h : ∀ x, (scope x).self = (scope' x).self) : sem.eval scope e = sem.eval scope' e := by
  induction e with
  | var x => exact h x
  | attr base name _ => cases he
  | lit value => rfl
  | bin left op right ihl ihr =>
    simp only [Semantics.eval]
    rw [ihl he.1, ihr he.2]

/-- A tree over a variable that stands for nothing has no value. -/
theorem eval_of_hasVar {e : Dsl.Expr} (he : e.HasVar) :
    sem.eval (fun _ => .of none) e = none := by
  induction e with
  | var x => rfl
  | attr base name ih =>
    cases base with
    | var x => rfl
    | lit value => cases he
    | attr base name' => exact congrArg (Option.bind · _) (ih he)
    | bin left op right => exact congrArg (Option.bind · _) (ih he)
  | lit value => cases he
  | bin left op right ihl ihr =>
    simp only [Semantics.eval]
    rcases he with he | he
    · rw [ihl he]
      rfl
    · rw [ihr he]
      cases (sem.eval (fun _ => .of none) left).bind Ref.value? <;> rfl

end

/-! ### Predicates of a run -/

/-- A predicate that the DSL captures: called on a variable it gives a tree over that variable. -/
def Lambda.Captured (f : Lambda) : Prop := ∃ t : Dsl.Expr, ∀ v, f.call v = some (t.renamed v)

/-- A predicate, and whether it was added after `select()`. -/
structure Filter where
  predicate : Lambda
  afterSelect : Bool

/-- The predicate that a call adds. -/
def Builder.filterOf (b : Builder) : Call → List Filter
  | .where_ predicate => [⟨predicate, b.withItems ≠ []⟩]
  | _ => []

/-- The predicates that a run adds. -/
def filters : Builder → List Call → List Filter
  | _, [] => []
  | b, c :: cs => b.filterOf c ++ ((b.apply c).elim [] fun b => filters b cs)

/-- The last of the predicates that were added before `select()`, or after it. -/
def lastFilter (afterSelect : Bool) (fs : List Filter) : Option Lambda :=
  ((fs.filter fun f => f.afterSelect = afterSelect).map (·.predicate)).getLast?

/-- The two slots hold the last predicate of their times. -/
structure Builder.Keeps (b : Builder) (fs : List Filter) : Prop where
  before : b.whereClause = lastFilter false fs
  after : b.wherePostWith = lastFilter true fs

theorem keeps_new (cls : EntityClass) : (Builder.new cls).Keeps [] := ⟨rfl, rfl⟩

/-- The last predicate of a time is the one that was added, if it was added then. -/
theorem lastFilter_concat (afterSelect : Bool) (fs : List Filter) (f : Filter) :
    lastFilter afterSelect (fs ++ [f]) =
      if f.afterSelect = afterSelect then some f.predicate else lastFilter afterSelect fs := by
  unfold lastFilter
  rw [List.filter_append, List.map_append]
  by_cases h : f.afterSelect = afterSelect
  · simp [h]
  · simp [h]

/-- A call keeps it so. -/
theorem Builder.Keeps.apply {b b' : Builder} {fs : List Filter} (h : b.Keeps fs) {c : Call}
    (hc : b.apply c = some b') : b'.Keeps (fs ++ b.filterOf c) := by
  cases c with
  | where_ predicate =>
    cases hc
    unfold Builder.where_ filterOf
    -- the predicate goes to the slot of its time, and the other slot stays
    by_cases hitems : b.withItems = []
    · rw [if_neg (by simp [hitems])]
      constructor
      · rw [lastFilter_concat, if_pos (by simp [hitems])]
      · rw [lastFilter_concat, if_neg (by simp [hitems])]
        exact h.after
    · rw [if_pos hitems]
      constructor
      · rw [lastFilter_concat, if_neg (by simp [hitems])]
        exact h.before
      · rw [lastFilter_concat, if_pos (by simp [hitems])]
  | depth min max =>
    simp only [Builder.apply] at hc
    split at hc
    · cases hc
    · cases hc
      rw [← List.append_nil fs] at h
      exact ⟨h.before, h.after⟩
  | select selectors =>
    simp only [Builder.apply] at hc
    split at hc
    · cases hc
    · cases hc
      rw [← List.append_nil fs] at h
      exact ⟨h.before, h.after⟩
  | _ =>
    cases hc
    rw [← List.append_nil fs] at h
    exact ⟨h.before, h.after⟩

/-- **The two slots hold the last predicate of their times**, after any run. -/
theorem keeps_of_run {b b' : Builder} {fs : List Filter} {calls : List Call} (h : b.Keeps fs)
    (hrun : run Builder.apply b calls = some b') : b'.Keeps (fs ++ filters b calls) := by
  induction calls generalizing b fs with
  | nil =>
    cases hrun
    rw [filters, List.append_nil]
    exact h
  | cons c calls ih =>
    rw [run_cons, Option.bind_eq_some_iff] at hrun
    obtain ⟨b₁, hc, hrun⟩ := hrun
    rw [filters, hc, ← List.append_assoc]
    exact ih (h.apply hc) hrun

/-- The predicate that is left: the last one from before `select()`, or else the last one from
after it, if there still are columns. -/
def survivor (columns : Bool) (fs : List Filter) : Option Filter :=
  match lastFilter false fs with
  | some predicate => some ⟨predicate, false⟩
  | none => if columns then (lastFilter true fs).map (⟨·, true⟩) else none

theorem mem_of_lastFilter {afterSelect : Bool} {fs : List Filter} {predicate : Lambda}
    (h : lastFilter afterSelect fs = some predicate) : ⟨predicate, afterSelect⟩ ∈ fs := by
  obtain ⟨⟨predicate', time⟩, hf, hpredicate⟩ := List.mem_map.mp (List.mem_of_getLast? h)
  obtain ⟨hmem, htime⟩ := List.mem_filter.mp hf
  cases hpredicate
  cases of_decide_eq_true htime
  exact hmem

theorem survivor_mem {columns : Bool} {fs : List Filter} {f : Filter}
    (h : survivor columns fs = some f) : f ∈ fs := by
  unfold survivor at h
  split at h
  · next hlast =>
    cases h
    exact mem_of_lastFilter hlast
  · next =>
    split at h
    · obtain ⟨predicate, hlast, rfl⟩ := Option.map_eq_some_iff.mp h
      exact mem_of_lastFilter hlast
    · cases h

/-! ### What predicates mean -/

/-- A row that the MATCH clause gives: the properties of the entity, the column of each alias, and
the EXISTS clauses that the entity satisfies. -/
structure MatchRow (V : Type*) where
  entity : String → Option V
  column : String → Option (Ref V)
  Passes : ExistsEdge → Prop

section
variable {V : Type*}

/-- The aliases of the columns. -/
def Builder.aliases (b : Builder) : List String := b.withItems.map Prod.fst

/-- What an alias stands for. -/
def Builder.alias (b : Builder) (row : MatchRow V) (name : String) : Option (Ref V) :=
  if name ∈ b.aliases then row.column name else none

/-- What the parameter of a predicate means: the entity, or the columns.  A parameter that is used
without an attribute after `select()` means the column of its name. -/
def Filter.scope (f : Filter) (b : Builder) (row : MatchRow V) : Scope V :=
  if f.afterSelect then ⟨b.alias row f.predicate.param, b.alias row⟩
  else .of (some (.node row.entity))

/-- A predicate holds as it was meant. -/
def Filter.Holds (sem : Semantics V) (b : Builder) (row : MatchRow V) (f : Filter) : Prop :=
  ∃ e, f.predicate.call f.predicate.param = some e ∧ sem.Holds (fun _ => f.scope b row) e

/-! ### The condition of a text -/

/-- The tree of the predicate before WITH. -/
def Builder.beforeWith (b : Builder) : Option Dsl.Expr :=
  b.whereClause.bind fun f => f.call b.var

/-- The tree of the predicate after WITH. -/
def Builder.afterWith (b : Builder) : Option Dsl.Expr :=
  if b.withItems = [] then none else b.wherePostWith.bind fun f => f.call f.param

/-- What a name stands for in the text before WITH. -/
def Builder.nameBefore (b : Builder) (row : MatchRow V) (name : String) : Option (Ref V) :=
  if name = b.var then some (.node row.entity) else none

/-- What a name stands for in the text after WITH, which keeps the entity and the columns: an alias
hides the entity. -/
def Builder.nameAfter (b : Builder) (row : MatchRow V) (name : String) : Option (Ref V) :=
  if name ∈ b.aliases then row.column name else b.nameBefore row name

/-- A row is in the result of the text. -/
structure Builder.Condition (sem : Semantics V) (b : Builder) (row : MatchRow V) : Prop where
  before : ∀ e ∈ b.beforeWith, sem.Holds (fun x => .of (b.nameBefore row x)) e
  exists_ : ∀ clause ∈ b.existsClauses, row.Passes clause
  after : ∀ e ∈ b.afterWith, sem.Holds (fun x => .of (b.nameAfter row x)) e

/-- The text that is built asks for all predicates, as they were meant, and for all EXISTS
clauses. -/
def Conjoins (sem : Semantics V) (rows : Set (MatchRow V)) (b : Builder) (fs : List Filter) :
    Prop :=
  ∀ row ∈ rows, b.prepare.Condition sem row ↔
    (∀ f ∈ fs, f.Holds sem b row) ∧ ∀ clause ∈ b.existsClauses, row.Passes clause

end

/-- The trees are those that the text has. -/
theorem whereStr_eq {b : Builder} (h : ∀ f ∈ b.whereClause, f.Captured) :
    b.whereStr = b.beforeWith.elim [] Dsl.Expr.toGql := by
  unfold Builder.whereStr Builder.beforeWith
  cases hwhere : b.whereClause with
  | none => rfl
  | some f =>
    obtain ⟨t, ht⟩ := h f hwhere
    change b.cls.lambdaToGql f (some b.var) = (f.call b.var).elim [] Dsl.Expr.toGql
    rw [lambdaToGql_of_call (ht b.var), ht]
    rfl

theorem postStr_eq {b : Builder} (h : ∀ f ∈ b.wherePostWith, f.Captured)
    (hitems : b.withItems ≠ []) : b.postStr = b.afterWith.elim [] Dsl.Expr.toGql := by
  unfold Builder.postStr Builder.afterWith
  rw [if_neg hitems]
  cases hpost : b.wherePostWith with
  | none => rfl
  | some f =>
    obtain ⟨t, ht⟩ := h f hpost
    change b.cls.lambdaToGql f none = (f.call f.param).elim [] Dsl.Expr.toGql
    rw [lambdaToGql_of_call (ht f.param), ht]
    rfl

/-! ### One predicate for all -/

/-- A predicate is printed where its parameter is what was meant: before WITH; or after it, when it
was added before `select()` under the name of the entity, or when it was added after `select()` and
is about the column that its parameter names. -/
def InPlace (b : Builder) (f : Filter) : Prop :=
  b.withItems = [] ∨
    (f.afterSelect = false ∧ f.predicate.param = b.var ∧ b.var ∉ b.aliases) ∨
    (f.afterSelect = true ∧ f.predicate.param ∈ b.aliases ∧
      ∀ e ∈ f.predicate.call f.predicate.param, e.NoAttr)

/-- A predicate is printed after WITH under a name that stands for nothing there. -/
def Astray (b : Builder) (f : Filter) : Prop :=
  b.withItems ≠ [] ∧ f.predicate.param ∉ b.aliases ∧ f.predicate.param ≠ b.var ∧
    ∀ e ∈ f.predicate.call f.predicate.param, e.HasVar

section
variable {V : Type*}

/-- A predicate holds as it is printed after WITH. -/
def Filter.HoldsAfter (sem : Semantics V) (b : Builder) (row : MatchRow V) (f : Filter) : Prop :=
  ∀ e ∈ f.predicate.call f.predicate.param, sem.Holds (fun x => .of (b.nameAfter row x)) e

/-- On a row, the predicate that is left says as much as all of them.  When there is none, all of
them hold.  When it is in place, it implies the others.  When it names nothing, so that it never
holds, they do not all hold.  And when it names something else than was meant, what it says of that
is that all of them hold. -/
structure OneStandsForAll (sem : Semantics V) (b : Builder) (fs : List Filter)
    (row : MatchRow V) : Prop where
  dropped : survivor (b.withItems ≠ []) fs = none → ∀ f ∈ fs, f.Holds sem b row
  implies : ∀ s ∈ survivor (b.withItems ≠ []) fs, InPlace b s → s.Holds sem b row →
    ∀ f ∈ fs, f.Holds sem b row
  astray : ∀ s ∈ survivor (b.withItems ≠ []) fs, Astray b s → ¬ ∀ f ∈ fs, f.Holds sem b row
  misread : ∀ s ∈ survivor (b.withItems ≠ []) fs, ¬ InPlace b s → ¬ Astray b s →
    (s.HoldsAfter sem b row ↔ ∀ f ∈ fs, f.Holds sem b row)

/-- A predicate holds as it is printed. -/
def Filter.HoldsPrinted (sem : Semantics V) (b : Builder) (row : MatchRow V) (f : Filter) : Prop :=
  if b.withItems = [] then
    ∀ e ∈ f.predicate.call b.var, sem.Holds (fun x => .of (b.nameBefore row x)) e
  else f.HoldsAfter sem b row

variable {sem : Semantics V} {b : Builder} {fs : List Filter} {row : MatchRow V}

/-- The parts of a builder that building a text leaves as they are. -/
theorem Builder.prepare_eq (b : Builder) : b.prepare.cls = b.cls ∧
    b.prepare.withItems = b.withItems ∧ b.prepare.existsClauses = b.existsClauses := by
  unfold Builder.prepare
  dsimp only
  split <;> exact ⟨rfl, rfl, rfl⟩

/-- Names stand for the same things in the text. -/
theorem nameBefore_prepare (b : Builder) (row : MatchRow V) (x : String) :
    b.prepare.nameBefore row x = b.nameBefore row x := by
  unfold Builder.nameBefore Builder.var
  rw [b.prepare_eq.1]

theorem nameAfter_prepare (b : Builder) (row : MatchRow V) (x : String) :
    b.prepare.nameAfter row x = b.nameAfter row x := by
  unfold Builder.nameAfter Builder.aliases
  rw [nameBefore_prepare, b.prepare_eq.2.1]

/-- Before WITH is the predicate from before `select()`, if nothing was selected. -/
theorem beforeWith_prepare (b : Builder) :
    b.prepare.beforeWith = if b.withItems = [] then b.beforeWith else none := by
  have hvar : b.prepare.var = b.var := congrArg EntityClass.var b.prepare_eq.1
  unfold Builder.beforeWith
  rw [hvar]
  unfold Builder.prepare
  by_cases hitems : b.withItems = []
  · simp [hitems]
  · cases hwhere : b.whereClause <;> simp [hitems]

/-- After WITH is that predicate, or else the one from after `select()`, if something was. -/
theorem afterWith_prepare (b : Builder) : b.prepare.afterWith =
    if b.withItems = [] then none
    else (b.whereClause.or b.wherePostWith).bind fun f => f.call f.param := by
  unfold Builder.afterWith Builder.prepare
  by_cases hitems : b.withItems = []
  · simp [hitems]
  · cases hwhere : b.whereClause <;> simp [hitems]

/-- **The trees of the condition are those that the text of a run has**, if the DSL captures its
predicates. -/
theorem texts_of_keeps (h : b.Keeps fs) (hcaptured : ∀ f ∈ fs, f.predicate.Captured) :
    b.prepare.whereStr = b.prepare.beforeWith.elim [] Dsl.Expr.toGql ∧
      (b.withItems ≠ [] → b.prepare.postStr = b.prepare.afterWith.elim [] Dsl.Expr.toGql) := by
  have hbefore {f : Lambda} (hf : b.whereClause = some f) : f.Captured :=
    hcaptured _ (mem_of_lastFilter (h.before.symm.trans hf))
  have hafter {f : Lambda} (hf : b.wherePostWith = some f) : f.Captured :=
    hcaptured _ (mem_of_lastFilter (h.after.symm.trans hf))
  have hslots : (b.prepare.whereClause = none ∨ b.prepare.whereClause = b.whereClause) ∧
      (b.prepare.wherePostWith = b.whereClause ∨ b.prepare.wherePostWith = b.wherePostWith) := by
    unfold Builder.prepare
    dsimp only
    split
    · exact ⟨.inl rfl, .inl rfl⟩
    · exact ⟨.inr rfl, .inr rfl⟩
  refine ⟨whereStr_eq fun f hf => ?_, fun hitems => postStr_eq (fun f hf => ?_) ?_⟩
  · rcases hslots.1 with hnone | hwhere
    · rw [hnone] at hf
      cases hf
    · exact hbefore (hwhere.symm.trans hf)
  · rcases hslots.2 with hwhere | hpost
    · exact hbefore (hwhere.symm.trans hf)
    · exact hafter (hpost.symm.trans hf)
  · rwa [b.prepare_eq.2.1]

/-- **The text asks for the predicate that is left**, and for the EXISTS clauses. -/
theorem condition_prepare (h : b.Keeps fs) : b.prepare.Condition sem row ↔
    (∀ s ∈ survivor (b.withItems ≠ []) fs, s.HoldsPrinted sem b row) ∧
      ∀ clause ∈ b.existsClauses, row.Passes clause := by
  have hsurvivor : survivor (b.withItems ≠ []) fs = (b.whereClause.map fun f => ⟨f, false⟩).or
      (if b.withItems = [] then none else b.wherePostWith.map fun f => ⟨f, true⟩) := by
    unfold survivor
    rw [← h.before, ← h.after]
    cases b.whereClause <;> simp
  have hcondition : b.prepare.Condition sem row ↔
      (∀ e ∈ b.prepare.beforeWith, sem.Holds (fun x => .of (b.nameBefore row x)) e) ∧
        (∀ clause ∈ b.existsClauses, row.Passes clause) ∧
        ∀ e ∈ b.prepare.afterWith, sem.Holds (fun x => .of (b.nameAfter row x)) e := by
    have hparts : b.prepare.Condition sem row ↔
        (∀ e ∈ b.prepare.beforeWith, sem.Holds (fun x => .of (b.prepare.nameBefore row x)) e) ∧
          (∀ clause ∈ b.prepare.existsClauses, row.Passes clause) ∧
          ∀ e ∈ b.prepare.afterWith, sem.Holds (fun x => .of (b.prepare.nameAfter row x)) e :=
      ⟨fun h => ⟨h.before, h.exists_, h.after⟩, fun h => ⟨h.1, h.2.1, h.2.2⟩⟩
    simpa only [nameBefore_prepare, nameAfter_prepare, b.prepare_eq.2.2] using hparts
  rw [hcondition, hsurvivor, beforeWith_prepare, afterWith_prepare]
  unfold Filter.HoldsPrinted Filter.HoldsAfter
  by_cases hitems : b.withItems = []
  · -- only the predicate from before `select()` is printed
    cases hwhere : b.whereClause <;> simp [hitems, hwhere, Builder.beforeWith]
  · -- whichever predicate is left is printed after WITH
    cases hwhere : b.whereClause with
    | none => cases hpost : b.wherePostWith <;> simp [hitems, and_comm]
    | some f => simp [hitems, and_comm]

/-- A captured predicate holds by its tree. -/
theorem holds_iff_of_captured {f : Filter} {t : Dsl.Expr}
    (ht : ∀ v, f.predicate.call v = some (t.renamed v)) :
    f.Holds sem b row ↔ sem.Holds (fun _ => f.scope b row) t := by
  unfold Filter.Holds Semantics.Holds
  rw [ht]
  constructor
  · rintro ⟨e, he, hholds⟩
    cases he
    rwa [eval_renamed] at hholds
  · intro hholds
    refine ⟨_, rfl, ?_⟩
    rwa [eval_renamed]

/-- And as it is printed, by the tree under the name that it is printed with. -/
theorem holdsPrinted_iff_of_captured {f : Filter} {t : Dsl.Expr}
    (ht : ∀ v, f.predicate.call v = some (t.renamed v)) :
    f.HoldsPrinted sem b row ↔ sem.Holds (fun _ => .of (if b.withItems = [] then
      some (.node row.entity) else b.nameAfter row f.predicate.param)) t := by
  unfold Filter.HoldsPrinted Filter.HoldsAfter Semantics.Holds
  rw [ht, ht]
  by_cases hitems : b.withItems = []
  · simp [hitems, eval_renamed, Builder.nameBefore]
  · simp [hitems, eval_renamed]

/-- **In place, a predicate is printed as it was meant.** -/
theorem holdsPrinted_iff_of_inPlace {f : Filter} (hf : f.predicate.Captured) (h : InPlace b f)
    (htime : b.withItems = [] → f.afterSelect = false) :
    f.HoldsPrinted sem b row ↔ f.Holds sem b row := by
  obtain ⟨t, ht⟩ := hf
  rw [holdsPrinted_iff_of_captured ht, holds_iff_of_captured ht]
  unfold Filter.scope
  by_cases hitems : b.withItems = []
  · rw [if_pos hitems, htime hitems]
    rfl
  rw [if_neg hitems]
  rcases h with h | ⟨hbefore, hparam, halias⟩ | ⟨hafter, halias, hattr⟩
  · exact absurd h hitems
  · rw [hbefore, Builder.nameAfter, hparam, if_neg halias, Builder.nameBefore, if_pos rfl]
    rfl
  · -- of a column only the value is asked for, which is what the parameter means
    have hnoAttr := hattr _ (ht _)
    rw [hafter, if_pos rfl]
    unfold Semantics.Holds
    have heval (scope : Scope V) : sem.eval (fun _ => scope) t =
        sem.eval (fun _ => scope) (t.renamed f.predicate.param) :=
      (eval_renamed (fun _ => scope) _ t).symm
    rw [heval, heval, eval_noAttr hnoAttr fun _ => ?_]
    simp [Scope.of, Builder.nameAfter, Builder.alias, halias]

/-- **A predicate that names nothing never holds as it is printed.** -/
theorem not_holdsPrinted_of_astray {f : Filter} (hf : f.predicate.Captured) (h : Astray b f) :
    ¬ f.HoldsPrinted sem b row := by
  obtain ⟨t, ht⟩ := hf
  obtain ⟨hitems, halias, hvar, hhas⟩ := h
  rw [holdsPrinted_iff_of_captured ht, if_neg hitems, Builder.nameAfter, if_neg halias,
    Builder.nameBefore, if_neg hvar]
  rintro ⟨v, hv, -⟩
  have heval : sem.eval (fun _ => .of none) _ = none := eval_of_hasVar (hhas _ (ht _))
  rw [eval_renamed] at heval
  rw [heval] at hv
  cases hv

theorem not_inPlace_of_astray {f : Filter} (h : Astray b f) : ¬ InPlace b f := by
  rintro (hitems | ⟨-, hparam, -⟩ | ⟨-, halias, -⟩)
  · exact h.1 hitems
  · exact h.2.2.1 hparam
  · exact h.2.1 halias

/-- Without columns, the predicate that is left is from before `select()`. -/
theorem survivor_before {s : Filter} (hs : s ∈ survivor (b.withItems ≠ []) fs)
    (hitems : b.withItems = []) : s.afterSelect = false := by
  unfold survivor at hs
  split at hs
  · cases hs
    rfl
  · rw [if_neg (by simp [hitems])] at hs
    cases hs

/-- On a row with all EXISTS clauses, the text is right if the predicate that is left stands for
all. -/
theorem condition_iff_oneStandsForAll (h : b.Keeps fs)
    (hcaptured : ∀ f ∈ fs, f.predicate.Captured)
    (hpasses : ∀ clause ∈ b.existsClauses, row.Passes clause) :
    (b.prepare.Condition sem row ↔ ∀ f ∈ fs, f.Holds sem b row) ↔
      OneStandsForAll sem b fs row := by
  rw [condition_prepare h, and_iff_left hpasses]
  cases hs : survivor (b.withItems ≠ []) fs with
  | none =>
    constructor
    · intro hall
      exact ⟨fun _ => hall.mp nofun, fun s hs' => absurd (hs.symm.trans hs') nofun,
        fun s hs' => absurd (hs.symm.trans hs') nofun,
        fun s hs' => absurd (hs.symm.trans hs') nofun⟩
    · intro hone
      exact ⟨fun _ => hone.dropped hs, fun _ => nofun⟩
  | some s =>
    have hmem := survivor_mem hs
    have hprinted : (∀ s' ∈ some s, s'.HoldsPrinted sem b row) ↔ s.HoldsPrinted sem b row := by
      simp
    rw [hprinted]
    -- one of the conditions is about the predicate that is left
    have hone : OneStandsForAll sem b fs row ↔
        (InPlace b s → s.Holds sem b row → ∀ f ∈ fs, f.Holds sem b row) ∧
        (Astray b s → ¬ ∀ f ∈ fs, f.Holds sem b row) ∧
        (¬ InPlace b s → ¬ Astray b s →
          (s.HoldsAfter sem b row ↔ ∀ f ∈ fs, f.Holds sem b row)) := by
      constructor
      · exact fun h => ⟨h.implies s hs, h.astray s hs, h.misread s hs⟩
      · rintro ⟨himplies, hastray, hmisread⟩
        have heq {s'} (hs' : s' ∈ survivor (b.withItems ≠ []) fs) : s' = s :=
          Option.some.inj ((Option.mem_def.mp hs').symm.trans hs)
        refine ⟨fun hnone => absurd (hs.symm.trans hnone) nofun, fun s' hs' => ?_,
          fun s' hs' => ?_, fun s' hs' => ?_⟩
        · rwa [heq hs']
        · rwa [heq hs']
        · rwa [heq hs']
    rw [hone]
    have hcap := hcaptured s hmem
    by_cases hplace : InPlace b s
    · have hnot : ¬ Astray b s := fun h => not_inPlace_of_astray h hplace
      rw [holdsPrinted_iff_of_inPlace hcap hplace (survivor_before hs)]
      simp only [hplace, hnot, not_true_eq_false, true_implies, false_implies, and_true]
      exact ⟨fun hiff => hiff.mp, fun himplies => ⟨himplies, fun hall => hall s hmem⟩⟩
    by_cases hastray : Astray b s
    · have hnever : ¬ s.HoldsPrinted sem b row := not_holdsPrinted_of_astray hcap hastray
      simp only [hplace, hastray, not_true_eq_false, true_implies, false_implies, implies_true,
        and_true, true_and]
      exact ⟨fun hiff hall => hnever (hiff.mpr hall),
        fun hnot => ⟨fun hholds => absurd hholds hnever, fun hall => absurd hall hnot⟩⟩
    · have hitems : b.withItems ≠ [] := fun hitems => hplace (.inl hitems)
      have hafter : s.HoldsPrinted sem b row ↔ s.HoldsAfter sem b row := by
        unfold Filter.HoldsPrinted
        rw [if_neg hitems]
      simp only [hplace, hastray, hafter, false_implies, not_false_eq_true, true_implies, true_and]

/-- **The filters of a run are conjoined exactly when, on every row with all EXISTS clauses, the
one that is left stands for all.** -/
theorem conjoins_iff (rows : Set (MatchRow V)) (cls : EntityClass) (calls : List Call)
    (hrun : run Builder.apply (Builder.new cls) calls = some b)
    (hcaptured : ∀ f ∈ filters (Builder.new cls) calls, f.predicate.Captured) :
    Conjoins sem rows b (filters (Builder.new cls) calls) ↔
      ∀ row ∈ rows, (∀ clause ∈ b.existsClauses, row.Passes clause) →
        OneStandsForAll sem b (filters (Builder.new cls) calls) row := by
  have hkeeps : b.Keeps (filters (Builder.new cls) calls) := keeps_of_run (keeps_new cls) hrun
  refine forall₂_congr fun row _ => ?_
  by_cases hpasses : ∀ clause ∈ b.existsClauses, row.Passes clause
  · rw [and_iff_left hpasses, condition_iff_oneStandsForAll hkeeps hcaptured hpasses]
    exact ⟨fun h _ => h, fun h => h hpasses⟩
  · rw [condition_prepare hkeeps]
    simp [hpasses]

/-- A single predicate stands for itself, if it is printed in place. -/
theorem oneStandsForAll_of_single {s : Filter} (hs : survivor (b.withItems ≠ []) fs = some s)
    (hplace : InPlace b s) (hsingle : ∀ f ∈ fs, f = s) : OneStandsForAll sem b fs row := by
  have heq {s'} (hs' : s' ∈ survivor (b.withItems ≠ []) fs) : s' = s :=
    Option.some.inj ((Option.mem_def.mp hs').symm.trans hs)
  refine ⟨fun hnone => absurd (hs.symm.trans hnone) nofun, fun s' hs' _ hholds f hf => ?_,
    fun s' hs' hastray => ?_, fun s' hs' hnot => ?_⟩
  · rwa [hsingle f hf, ← heq hs']
  · rw [heq hs'] at hastray
    exact absurd hplace (not_inPlace_of_astray hastray)
  · rw [heq hs'] at hnot
    exact absurd hplace hnot

end

/-- Values of Python, with `=` and `>`. -/
def plainValues : Semantics Dsl.Value where
  literal := id
  operator
    | .eq, l, r => some (.bool (l = r))
    | .gt, .int l, .int r => some (.bool (l > r))
    | _, _, _ => none
  IsTrue v := v = .bool true

/-- `where(lambda p: p.age > 20)` alone is what the text asks for. -/
theorem conjoins_ageLambda :
    Conjoins plainValues Set.univ ((Builder.new personClass).where_ ageLambda)
      (filters (Builder.new personClass) [.where_ ageLambda]) := by
  refine (conjoins_iff Set.univ personClass [.where_ ageLambda] rfl ?_).mpr ?_
  · intro f hf
    cases List.mem_singleton.mp hf
    exact ⟨.bin (.attr (.var "p") "age") .gt (.lit (.int 20)), fun _ => rfl⟩
  · intro row _ _
    exact oneStandsForAll_of_single rfl (.inl rfl) fun f hf => List.mem_singleton.mp hf

/-- `lambda p: p.name == "Bob"`. -/
def bobLambda : Lambda :=
  .ofTree "p" fun v => .bin (.attr (.var v) "name") .eq (.lit (.str "Bob"))

/-- `lambda x: x.total > 100`. -/
def totalLambda : Lambda :=
  .ofTree "x" fun v => .bin (.attr (.var v) "total") .gt (.lit (.int 100))

/-- `where(lambda p: p.age > 20).where(lambda p: p.name == "Bob")`. -/
def bobCalls : List Call := [.where_ ageLambda, .where_ bobLambda]

/-- `select(total=lambda p: p.price).where(lambda x: x.total > 100)`. -/
def totalCalls : List Call :=
  [.select [("total", .ofTree "p" fun v => .attr (.var v) "price")], .where_ totalLambda]

/-- The second `where` takes the place of the first one; and after `select()` nothing has the name
of the parameter. -/
theorem not_conjoins :
    (∃ b, run Builder.apply (Builder.new personClass) bobCalls = some b ∧
      ¬ Conjoins plainValues Set.univ b (filters (Builder.new personClass) bobCalls)) ∧
    ∃ b, run Builder.apply (Builder.new personClass) totalCalls = some b ∧
      ¬ Conjoins plainValues Set.univ b (filters (Builder.new personClass) totalCalls) := by
  constructor
  · refine ⟨_, rfl, fun h => ?_⟩
    -- Bob is ten years old
    let row : MatchRow Dsl.Value :=
      { entity := fun name => if name = "age" then some (.int 10) else some (.str "Bob")
        column := fun _ => none
        Passes := fun _ => True }
    have hprinted : (((Builder.new personClass).where_ bobLambda).prepare).Condition
        plainValues row := by
      refine ⟨fun e he => ?_, nofun, nofun⟩
      cases he
      exact ⟨.bool true, rfl, rfl⟩
    have hall := ((h row trivial).mp hprinted).1 ⟨ageLambda, false⟩ (.head _)
    obtain ⟨e, he, v, hv, htrue⟩ := hall
    cases he
    cases htrue
    cases hv
  · refine ⟨_, rfl, fun h => ?_⟩
    let row : MatchRow Dsl.Value :=
      { entity := fun _ => none
        column := fun _ => some (.value (.int 200))
        Passes := fun _ => True }
    have hall : ∀ f ∈ filters (Builder.new personClass) totalCalls,
        f.Holds plainValues ((Builder.new personClass).selectItems
          [("total", "p.price".toList)]) row := by
      intro f hf
      cases List.mem_singleton.mp hf
      exact ⟨_, rfl, .bool true, rfl, rfl⟩
    have hprinted := ((h row trivial).mpr ⟨hall, nofun⟩).after
    obtain ⟨v, hv, -⟩ := hprinted _ rfl
    cases hv

end KuzuEventBus.Sdk
