import KuzuEventBus.Gql.Projection
import KuzuEventBus.Gql.WhereAlgebra

/-!
# WITH and substitution

`Planner::plan` makes a projection of WITH: the clauses that follow see a tuple of the aliases
alone.  An alias is found there under its name, with the value of its expression or not at all,
so an expression over the aliases means what it means with the aliases replaced.  A property of an
alias is looked up under `alias.key`, an entry that the projection never makes, so whatever reads
one fails: WHERE then keeps nothing, and a column of RETURN is null.

## Main definitions

* `aliasExpr`, `substExpr` — the expression of an alias, and aliases replaced.
* `Expr.references`, `Expr.readsProperty` — what an expression refers to.
* `Tracks` — an evaluation has the outcome of another one, or has lost it to an error.
* `WithQuery` — a query with a WITH clause whose aliases differ and are all that follows refers to;
  `WithQuery.direct` is the query without WITH, the aliases replaced.
* `WithQuery.KeepsRows` — no property that is read of an alias would have mattered.

## Main results

* `tracks_eval` — an expression over the aliases has the outcome of the replaced one, or reads a
  property and has no value.
* `WithQuery.rows_perm_iff` — when the rows of the two queries permute each other.
* `WithQuery.sameRows_iff` — **when WITH is substitution**.
-/

namespace KuzuEventBus

/-! ### References and aliases -/

/-- What an expression refers to. -/
inductive Reference where
  /-- A variable or an alias. -/
  | name (x : String)
  /-- A property of one. -/
  | property (x key : String)
  /-- An EXISTS, whose patterns have variables of their own. -/
  | subquery

mutual

/-- What an expression refers to, from left to right. -/
def Expr.references : Expr → List Reference
  | .literal _ | .parameter _ => []
  | .ident x => [.name x]
  | .property x key => [.property x key]
  | .binaryOp l _ r => l.references ++ r.references
  | .unaryOp _ e | .aggregate _ e | .isNull e | .isNotNull e => e.references
  | .functionCall _ args => argsReferences args
  | .exists _ => [.subquery]

/-- … and the arguments of a call. -/
def argsReferences : List Expr → List Reference
  | [] => []
  | e :: es => e.references ++ argsReferences es

end

/-- The reference is to a property. -/
def Reference.isProperty : Reference → Bool
  | .property _ _ => true
  | _ => false

/-- The expression reads a property. -/
def Expr.readsProperty (e : Expr) : Bool := e.references.any Reference.isProperty

/-- The expression of an alias. -/
def aliasExpr (items : List WithItem) (a : String) : Option Expr :=
  (items.find? fun item => item.aliasName = a).map WithItemOf.expr

/-- The reference is to an alias, or to a property of an alias of a variable. -/
def Reference.IsAlias (items : List WithItem) : Reference → Prop
  | .name a => ∃ e, aliasExpr items a = some e
  | .property a _ => ∃ x, aliasExpr items a = some (.ident x)
  | .subquery => False

mutual

/-- Replace each alias by its expression. -/
def substExpr (items : List WithItem) : Expr → Expr
  | .ident a => (aliasExpr items a).getD (.ident a)
  | .property a key =>
    match aliasExpr items a with
    | some (.ident x) => .property x key
    | _ => .property a key
  | .literal l => .literal l
  | .parameter name => .parameter name
  | .binaryOp l op r => .binaryOp (substExpr items l) op (substExpr items r)
  | .unaryOp op e => .unaryOp op (substExpr items e)
  | .aggregate func e => .aggregate func (substExpr items e)
  | .functionCall name args => .functionCall name (substArgs items args)
  | .isNull e => .isNull (substExpr items e)
  | .isNotNull e => .isNotNull (substExpr items e)
  | .exists q => .exists q

/-- … in the arguments of a call. -/
def substArgs (items : List WithItem) : List Expr → List Expr
  | [] => []
  | e :: es => substExpr items e :: substArgs items es

end

variable {items : List WithItem}

theorem aliasExpr_eq_some {a : String} {e : Expr} (h : aliasExpr items a = some e) :
    ∃ item ∈ items, item.aliasName = a ∧ item.expr = e := by
  obtain ⟨item, hitem, rfl⟩ := Option.map_eq_some_iff.mp h
  exact ⟨item, List.mem_of_find?_eq_some hitem, by simpa using List.find?_some hitem, rfl⟩

/-! ### Outcomes -/

section Outcomes

variable {α β : Type} {x y : Except Fault α}

theorem okOrNone_bind_of_none {f : α → Except Fault β} (h : okOrNone x = .ok none) :
    okOrNone (x >>= f) = .ok none := by
  rcases x with (e | msg) | a
  · rfl
  · cases h
  · cases h

/-- Outcomes that are the same up to the texts of errors are equal, or both errors. -/
theorem eq_or_errors (h : okOrNone x = okOrNone y) :
    x = y ∨ okOrNone x = .ok none ∧ okOrNone y = .ok none := by
  rcases x with (e | msg) | a <;> rcases y with (e' | msg') | b
  · exact .inr ⟨rfl, rfl⟩
  · cases h
  · cases h
  · cases h
  · cases h; exact .inl rfl
  · cases h
  · cases h
  · cases h
  · cases h; exact .inl rfl

/-- An evaluation has the outcome of another one, up to the texts of errors, or has lost it to an
error; a lossy one has no value at all. -/
structure Tracks (lossy : Bool) (x y : Except Fault α) : Prop where
  errorOr : okOrNone x = .ok none ∨ okOrNone x = okOrNone y
  same : lossy = false → okOrNone x = okOrNone y
  lost : lossy = true → x.toOption = none

theorem Tracks.refl (x : Except Fault α) : Tracks false x x := ⟨.inr rfl, fun _ => rfl, nofun⟩

theorem Tracks.errors {lossy : Bool} (e e' : EngineError) :
    Tracks lossy (.error (.error e) : Except Fault α) (.error (.error e')) :=
  ⟨.inl rfl, fun _ => rfl, fun _ => rfl⟩

/-- What has lost one of its parts has lost its value. -/
theorem Tracks.bind {lossy lossy' : Bool} {f g : α → Except Fault β} (hx : Tracks lossy x y)
    (hf : ∀ a, Tracks lossy' (f a) (g a)) : Tracks (lossy || lossy') (x >>= f) (y >>= g) where
  errorOr := by
    rcases hx.errorOr with h | h
    · exact .inl (okOrNone_bind_of_none h)
    · rcases eq_or_errors h with rfl | ⟨hx, -⟩
      · cases x with
        | error e => exact .inr rfl
        | ok a => exact (hf a).errorOr
      · exact .inl (okOrNone_bind_of_none hx)
  same := by
    intro h
    rw [Bool.or_eq_false_iff] at h
    rcases eq_or_errors (hx.same h.1) with rfl | ⟨hx, hy⟩
    · cases x with
      | error e => rfl
      | ok a => exact (hf a).same h.2
    · rw [okOrNone_bind_of_none hx, okOrNone_bind_of_none hy]
  lost := by
    intro h
    cases x with
    | error e => rfl
    | ok a =>
      rcases (Bool.or_eq_true _ _).mp h with h | h
      · exact absurd (hx.lost h) nofun
      · exact (hf a).lost h

/-- … also when the rest is the same. -/
theorem Tracks.bind_refl {lossy : Bool} (hx : Tracks lossy x y) (f : α → Except Fault β) :
    Tracks lossy (x >>= f) (y >>= f) := by
  rw [← Bool.or_false lossy]
  exact hx.bind fun a => .refl (f a)

/-- A value that is not lost is the value of the other evaluation. -/
theorem Tracks.eq_ok {lossy : Bool} {a : α} (h : Tracks lossy x y) (hx : x = .ok a) :
    y = .ok a := by
  subst hx
  rcases h.errorOr with h | h
  · cases h
  · rcases eq_or_errors h with h | ⟨h, -⟩
    · exact h.symm
    · cases h

/-- Nothing is lost where no property is read. -/
theorem Tracks.toOption_eq (h : Tracks false x y) : x.toOption = y.toOption := by
  rcases eq_or_errors (h.same rfl) with rfl | ⟨hx, hy⟩
  · rfl
  · rw [← (okOrNone_eq_ok hx).2, ← (okOrNone_eq_ok hy).2]

end Outcomes

/-! ### Evaluation over the aliases -/

/-- `u` is a tuple of the aliases: each has the value of its expression on `t`, if any, and there
are no properties. -/
structure AliasTuple (ev : Eval) (items : List WithItem) (t u : Tuple) : Prop where
  lookup_alias : ∀ a e, aliasExpr items a = some e →
    NoPanic (ev e t) ∧ u.lookup a = (ev e t).toOption
  lookup_property : ∀ a key, u.lookup (propKey a key) = none

variable {ex : Executor} {t u : Tuple}

theorem eval_ident (name : String) (t : Tuple) :
    ex.eval (.ident name) t =
      match t.lookup name with
      | some v => .ok v
      | none => invalidArgument ("variable not found: " ++ name) := rfl

theorem eval_property (var prop : String) (t : Tuple) :
    ex.eval (.property var prop) t =
      match t.lookup (propKey var prop) with
      | some v => .ok v
      | none => invalidArgument ("property not found: " ++ propKey var prop) := rfl

theorem eval_call (name : String) (arg : Expr) (t : Tuple) :
    ex.eval (.functionCall name [arg]) t =
      if isIdFunction name then ex.eval arg t >>= fun v =>
        match v with
        | .nodeId id => .ok (.int (Int64.ofNat id))
        | _ => invalidArgument "ID() requires a node argument"
      else invalidArgument ("unknown function: " ++ name) := by
  have harg := agreeUpTo_eval ex (Expr.functionCall name [arg]).existsDepth arg
    (Nat.le_max_left _ _) t
  rw [← harg]
  rfl

/-- A call with no or several arguments fails. -/
theorem eval_call_error (name : String) {args : List Expr} (h : args.length ≠ 1) :
    ∃ e, ∀ t, ex.eval (.functionCall name args) t = .error (.error e) := by
  match args with
  | [] =>
    have heval : ∀ t, ex.eval (.functionCall name []) t = if isIdFunction name then _ else _ :=
      fun t => rfl
    by_cases hid : isIdFunction name = true
    · exact ⟨_, fun t => by rw [heval, if_pos hid]; rfl⟩
    · exact ⟨_, fun t => by rw [heval, if_neg hid]; rfl⟩
  | [_] => exact absurd rfl h
  | a :: b :: rest =>
    have heval : ∀ t, ex.eval (.functionCall name (a :: b :: rest)) t =
        if isIdFunction name then _ else _ := fun t => rfl
    by_cases hid : isIdFunction name = true
    · exact ⟨_, fun t => by rw [heval, if_pos hid]; rfl⟩
    · exact ⟨_, fun t => by rw [heval, if_neg hid]; rfl⟩

theorem tracks_call_error {lossy : Bool} (name : String) {args args' : List Expr}
    (h : args.length ≠ 1) (h' : args'.length ≠ 1) :
    Tracks lossy (ex.eval (.functionCall name args) u) (ex.eval (.functionCall name args') t) := by
  obtain ⟨e, he⟩ := eval_call_error name h
  obtain ⟨e', he'⟩ := eval_call_error name h'
  rw [he, he']
  exact .errors e e'

/-- **An expression over the aliases has the outcome of the expression in which they are
replaced**, up to the texts of errors; one that reads a property has no value, where the other one
may have one. -/
theorem tracks_eval (hu : AliasTuple ex.eval items t u) : ∀ {e : Expr},
    (∀ r ∈ e.references, r.IsAlias items) →
      Tracks e.readsProperty (ex.eval e u) (ex.eval (substExpr items e) t)
  | .literal l, _ => .refl (.ok (evalLiteral l))
  | .parameter name, _ => .refl (ex.eval (.parameter name) t)
  | .ident a, h => by
    obtain ⟨e, he⟩ := h _ List.mem_cons_self
    obtain ⟨hret, hlookup⟩ := hu.lookup_alias a e he
    have hsame : okOrNone (ex.eval (.ident a) u) = okOrNone (ex.eval e t) := by
      rw [okOrNone_of_noPanic hret, ← hlookup, eval_ident]
      cases u.lookup a <;> rfl
    rw [substExpr, he]
    exact ⟨.inr hsame, fun _ => hsame, nofun⟩
  | .property a key, h => by
    have hlookup : ex.eval (.property a key) u =
        invalidArgument ("property not found: " ++ propKey a key) := by
      rw [eval_property, hu.lookup_property]
    rw [hlookup]
    exact ⟨.inl rfl, nofun, fun _ => rfl⟩
  | .binaryOp left op right, h => by
    rw [Expr.references, List.forall_mem_append] at h
    rw [substExpr, eval_binaryOp, eval_binaryOp, Expr.readsProperty, Expr.references,
      List.any_append]
    exact (tracks_eval hu h.1).bind fun l => (tracks_eval hu h.2).bind_refl _
  | .unaryOp .not e, h => (tracks_eval hu (e := e) h).bind_refl _
  | .isNull e, h => (tracks_eval hu (e := e) h).bind_refl _
  | .isNotNull e, h => (tracks_eval hu (e := e) h).bind_refl _
  | .aggregate _ _, _ => .errors _ _
  | .functionCall name [arg], h => by
    rw [Expr.references, argsReferences, argsReferences, List.append_nil] at h
    rw [substExpr, substArgs, substArgs, eval_call, eval_call, Expr.readsProperty, Expr.references,
      argsReferences, argsReferences, List.append_nil]
    split
    · exact (tracks_eval hu h).bind_refl _
    · exact .errors _ _
  | .functionCall name [], _ => tracks_call_error name (by simp) (by simp [substArgs])
  | .functionCall name (_ :: _ :: _), _ =>
    tracks_call_error name (by simp) (by simp [substArgs])
  | .exists _, h => (h _ List.mem_cons_self).elim

/-- Replacing aliases by expressions without aggregates makes no aggregate. -/
theorem hasAggregate_substExpr (hitems : ∀ item ∈ items, hasAggregate item.expr = false) :
    ∀ {e : Expr}, hasAggregate e = false → hasAggregate (substExpr items e) = false
  | .ident a, _ => by
    rw [substExpr]
    cases h : aliasExpr items a with
    | none => rfl
    | some e =>
      obtain ⟨item, hitem, -, rfl⟩ := aliasExpr_eq_some h
      exact hitems item hitem
  | .property a key, _ => by
    rw [substExpr]
    split <;> rfl
  | .binaryOp left op right, h => by
    rw [hasAggregate, Bool.or_eq_false_iff] at h
    rw [substExpr, hasAggregate, hasAggregate_substExpr hitems h.1,
      hasAggregate_substExpr hitems h.2, Bool.or_false]
  | .unaryOp op e, h => hasAggregate_substExpr (e := e) hitems h
  | .aggregate _ _, h => by cases h
  | .literal _, _ | .parameter _, _ | .functionCall _ _, _ | .isNull _, _ | .isNotNull _, _
  | .exists _, _ => rfl

/-! ### WHERE and RETURN -/

/-- The tuples of a MATCH clause. -/
def matchTuples (ex : Executor) (clause : MatchClause) : Except Fault (List Tuple) := do
  let source ← planMatch clause
  readNode ex.eval ex.read ∅ source

/-- The predicate, if there is one, is true on the tuple. -/
def PassesWhere (ev : Eval) (predicate : Option Expr) (t : Tuple) : Prop :=
  ∀ e ∈ predicate, ev e t = .ok (.bool true)

instance (ev : Eval) (predicate : Option Expr) (t : Tuple) :
    Decidable (PassesWhere ev predicate t) :=
  match predicate with
  | none => .isTrue nofun
  | some e => decidable_of_iff (ev e t = .ok (.bool true)) (by simp [PassesWhere])

/-- WHERE and RETURN panic: the predicate does on a tuple, or an item does on one that the
predicate is true on. -/
def SelectPanics (ev : Eval) (predicate : Option Expr) (items : List ReturnItem)
    (ts : List Tuple) : Prop :=
  ∃ t ∈ ts, (∃ e ∈ predicate, ¬ NoPanic (ev e t)) ∨
    PassesWhere ev predicate t ∧ ∃ item ∈ items, ¬ NoPanic (ev item.expr t)

/-- The rows a call returned, in no order; none where it failed. -/
def returnedRows (r : Except Fault QueryResult) : Option (Multiset (List Json)) :=
  r.toOption.map fun result => (result.rows : Multiset (List Json))

section Select

variable {predicate : Option Expr} {returned : List ReturnItem} {ts : List Tuple}

theorem whereTuples_eq_ok_iff {kept : List Tuple} :
    whereTuples ex.eval (predicate.map WhereClauseOf.mk) ts = .ok kept ↔
      (∀ t ∈ ts, ∀ e ∈ predicate, NoPanic (ex.eval e t)) ∧
        kept = ts.filter fun t => PassesWhere ex.eval predicate t := by
  cases predicate with
  | none =>
    have hall : ts.filter (fun t => decide (PassesWhere ex.eval none t)) = ts :=
      List.filter_eq_self.mpr fun t _ => decide_eq_true nofun
    rw [hall]
    show Except.ok ts = .ok kept ↔ _
    rw [Except.ok.injEq, eq_comm]
    exact ⟨fun h => ⟨fun _ _ => nofun, h⟩, And.right⟩
  | some e =>
    have hkept : ts.filter (fun t => decide (PassesWhere ex.eval (some e) t)) = trueOn ex e ts :=
      List.filter_congr fun t _ => decide_eq_decide.mpr (by simp [PassesWhere])
    rw [hkept]
    show keptBy ex e ts = .ok kept ↔ _
    rw [keptBy_eq_ok_iff]
    simp

/-- WHERE and RETURN give a row of each tuple on which the predicate is true. -/
theorem select_eq_ok_iff {rows : List Tuple} :
    (whereTuples ex.eval (predicate.map WhereClauseOf.mk) ts >>=
        List.mapM (projectTuple ex.eval returned)) = .ok rows ↔
      ¬ SelectPanics ex.eval predicate returned ts ∧
        rows = (ts.filter fun t => PassesWhere ex.eval predicate t).map
          (projected ex.eval returned) := by
  constructor
  · intro h
    obtain ⟨kept, hkept, h⟩ := bind_eq_ok h
    obtain ⟨hwhere, rfl⟩ := whereTuples_eq_ok_iff.mp hkept
    obtain ⟨hreturn, rfl⟩ := mapM_projectTuple_eq_ok_iff.mp h
    refine ⟨?_, rfl⟩
    rintro ⟨t, ht, ⟨e, he, hpanic⟩ | ⟨hpasses, item, hitem, hpanic⟩⟩
    · exact hpanic (hwhere t ht e he)
    · exact hpanic (hreturn t (by simp [ht, hpasses]) item hitem)
  · rintro ⟨hpanics, rfl⟩
    have hwhere : ∀ t ∈ ts, ∀ e ∈ predicate, NoPanic (ex.eval e t) := by
      intro t ht e he
      by_contra hpanic
      exact hpanics ⟨t, ht, .inl ⟨e, he, hpanic⟩⟩
    rw [whereTuples_eq_ok_iff.mpr ⟨hwhere, rfl⟩]
    refine mapM_projectTuple_eq_ok_iff.mpr ⟨?_, rfl⟩
    intro t ht item hitem
    obtain ⟨ht, hpasses⟩ := List.mem_filter.mp ht
    by_contra hpanic
    exact hpanics ⟨t, ht, .inr ⟨of_decide_eq_true hpasses, item, hitem, hpanic⟩⟩

end Select

/-- The result of a query of MATCH, WITH, WHERE and RETURN clauses without aggregates. -/
theorem executeQueryOnStore_match {store : InMemoryGraphStore}
    {params : Option (HashMap String Json)} {m : MatchClause} {w : Option WithClause}
    {wh : Option WhereClause} {returned : List ReturnItem}
    (hagg : ∀ item ∈ returned, hasAggregate item.expr = false) :
    (executeQueryOnStore store params ⟨some m, none, w, wh, some ⟨returned⟩, none, none⟩).1 =
      (matchTuples (readExecutor store params) m >>= fun ts =>
        withTuples (readExecutor store params).eval w ts >>= fun ts =>
          whereTuples (readExecutor store params).eval wh ts >>=
            List.mapM (projectTuple (readExecutor store params).eval returned)).map
        (toQueryResult (some (returned.map itemName))) := by
  have hany : ¬ returned.any (hasAggregate ·.expr) = true := by
    simpa using hagg
  rw [executeQueryOnStore_read rfl rfl, sourceTuples, matchTuples, returnNames, if_neg hany]
  cases hplan : planMatch m with
  | error fault =>
    simp only [planSource, hplan]
    rfl
  | ok source =>
    have hreturn : ∀ ts, returnTuples (readExecutor store params).eval ⟨returned⟩ ts =
        ts.mapM (projectTuple (readExecutor store params).eval returned) := fun ts => if_neg hany
    simp only [planSource, hplan]
    show (readNode _ _ ∅ (planPipeline _ source) >>= _) = Except.map _
      (readNode (readExecutor store params).eval (readExecutor store params).read ∅ source >>= _)
    rw [readNode_planPipeline]
    cases readNode (readExecutor store params).eval (readExecutor store params).read ∅ source with
    | error fault => rfl
    | ok ts =>
      show (withTuples _ w ts >>= whereTuples _ wh) >>= _ = Except.map _ (withTuples _ w ts >>= _)
      cases withTuples (readExecutor store params).eval w ts with
      | error fault => rfl
      | ok ts =>
        show whereTuples _ wh ts >>= _ = Except.map _ (whereTuples _ wh ts >>= _)
        cases whereTuples (readExecutor store params).eval wh ts with
        | error fault => rfl
        | ok ts =>
          show Except.map _ (returnTuples _ ⟨returned⟩ ts >>= _) = Except.map _ (List.mapM _ ts)
          rw [hreturn]
          cases ts.mapM (projectTuple (readExecutor store params).eval returned) <;> rfl

/-! ### Rows that lose nothing -/

/-- Two results are the same when they are none in the same case and the same otherwise. -/
theorem option_eq_iff {α : Type} {o o' : Option α} {P P' : Prop} {x x' : α}
    (h : ∀ a, o = some a ↔ ¬ P ∧ a = x) (h' : ∀ a, o' = some a ↔ ¬ P' ∧ a = x') :
    o = o' ↔ (P ↔ P') ∧ (¬ P' → x = x') := by
  have hnone : o = none ↔ P := by
    rw [Option.eq_none_iff_forall_ne_some]
    exact ⟨fun hne => by_contra fun hP => hne x ((h x).mpr ⟨hP, rfl⟩),
      fun hP a ha => ((h a).mp ha).1 hP⟩
  have hnone' : o' = none ↔ P' := by
    rw [Option.eq_none_iff_forall_ne_some]
    exact ⟨fun hne => by_contra fun hP => hne x' ((h' x').mpr ⟨hP, rfl⟩),
      fun hP a ha => ((h' a).mp ha).1 hP⟩
  constructor
  · rintro rfl
    refine ⟨hnone.symm.trans hnone', ?_⟩
    intro hP'
    exact ((h x').mp ((h' x').mpr ⟨hP', rfl⟩)).2.symm
  · rintro ⟨hiff, heq⟩
    by_cases hP' : P'
    · rw [hnone.mpr (hiff.mpr hP'), hnone'.mpr hP']
    · rw [(h x).mpr ⟨fun hP => hP' (hiff.mp hP), rfl⟩, (h' x').mpr ⟨hP', rfl⟩, heq hP']

/-- The nulls of a row. -/
def nulls (row : List Json) : ℕ := row.countP (· = .null)

/-- A row whose columns are null or those of another row is that row, or has more nulls. -/
theorem map_eq_or_nulls_lt {α : Type} {c c' : α → Json} {as : List α}
    (h : ∀ a ∈ as, c a = .null ∨ c a = c' a) :
    as.map c = as.map c' ∨ nulls (as.map c') < nulls (as.map c) := by
  induction as with
  | nil => exact .inl rfl
  | cons a as ih =>
    rw [List.forall_mem_cons] at h
    have ih := ih h.2
    simp only [nulls, List.map_cons, List.countP_cons] at ih ⊢
    by_cases heq : c a = c' a
    · rw [heq]
      rcases ih with ih | ih
      · exact .inl (by rw [ih])
      · exact .inr (by omega)
    · -- the column is lost, and no other one is won
      have hnull : c a = .null := h.1.resolve_right heq
      have hsome : c' a ≠ .null := fun h' => heq (hnull.trans h'.symm)
      have hle : (as.map c').countP (· = .null) ≤ (as.map c).countP (· = .null) := by
        rcases ih with ih | ih
        · rw [ih]
        · exact ih.le
      right
      simp only [hnull, hsome, decide_true, decide_false, if_true, Bool.false_eq_true, if_false]
      omega

/-- A lossy column is null. -/
theorem Tracks.cell_eq_null {ev : Eval} {e e' : Expr} {t u : Tuple}
    (h : Tracks true (ev e u) (ev e' t)) : cell ev e u = .null := by
  rw [cell, h.lost rfl]
  rfl

/-- … and another one is the column it stands for. -/
theorem Tracks.cell_eq {ev : Eval} {e e' : Expr} {t u : Tuple}
    (h : Tracks false (ev e u) (ev e' t)) : cell ev e u = cell ev e' t := by
  rw [cell, cell, h.toOption_eq]

/-! ### A query with WITH, and the query it stands for -/

/-- `MATCH … WITH x₁ AS a₁, … WHERE w RETURN r` without aggregates: the aliases differ, and what
follows WITH refers to aliases only. -/
structure WithQuery where
  patterns : MatchClause
  items : List WithItem
  predicate : Option Expr
  returned : List ReturnItem
  nodup : (items.map WithItemOf.aliasName).Nodup
  plain : ∀ item ∈ items, Plain item.aliasName
  items_noAggregate : ∀ item ∈ items, hasAggregate item.expr = false
  returned_noAggregate : ∀ item ∈ returned, hasAggregate item.expr = false
  predicate_alias : ∀ e ∈ predicate, ∀ r ∈ e.references, r.IsAlias items
  returned_alias : ∀ item ∈ returned, ∀ r ∈ item.expr.references, r.IsAlias items

namespace WithQuery

/-- The query. -/
def query (q : WithQuery) : Query :=
  ⟨some q.patterns, none, some ⟨q.items⟩, q.predicate.map .mk, some ⟨q.returned⟩, none, none⟩

/-- The predicate with the aliases replaced. -/
def directPredicate (q : WithQuery) : Option Expr := q.predicate.map (substExpr q.items)

/-- An item of RETURN with the aliases replaced. -/
def directItem (q : WithQuery) (item : ReturnItem) : ReturnItem :=
  ⟨substExpr q.items item.expr, item.aliasName⟩

/-- The query without WITH, the aliases replaced. -/
def direct (q : WithQuery) : Query :=
  ⟨some q.patterns, none, none, q.directPredicate.map .mk, some ⟨q.returned.map q.directItem⟩,
    none, none⟩

/-- Both queries return the same rows the same number of times, or fail. -/
def SameRows (q : WithQuery) (store : InMemoryGraphStore) (params : Option (HashMap String Json)) :
    Prop :=
  returnedRows (executeQueryOnStore store params q.query).1 =
    returnedRows (executeQueryOnStore store params q.direct).1

/-- The projection that WITH is planned as. -/
def withItems (q : WithQuery) : List ReturnItem :=
  q.items.map fun item => ⟨item.expr, some item.aliasName⟩

/-- The tuple that WITH makes of a tuple of MATCH. -/
def tuple (q : WithQuery) (ev : Eval) (t : Tuple) : Tuple := projected ev q.withItems t

/-- The query panics on the tuples of its MATCH. -/
def Panics (q : WithQuery) (ev : Eval) (ts : List Tuple) : Prop :=
  (∃ t ∈ ts, ∃ item ∈ q.items, ¬ NoPanic (ev item.expr t)) ∨
    SelectPanics ev q.predicate q.returned (ts.map (q.tuple ev))

/-- The query without WITH panics on them. -/
def DirectPanics (q : WithQuery) (ev : Eval) (ts : List Tuple) : Prop :=
  SelectPanics ev q.directPredicate (q.returned.map q.directItem) ts

variable {q : WithQuery} {ex : Executor} {t : Tuple} {ts : List Tuple}

theorem direct_noAggregate (q : WithQuery) :
    ∀ item ∈ q.returned.map q.directItem, hasAggregate item.expr = false := by
  intro item' hitem'
  obtain ⟨item, hitem, rfl⟩ := List.mem_map.mp hitem'
  exact hasAggregate_substExpr q.items_noAggregate (q.returned_noAggregate item hitem)

/-- Where the items do not panic, WITH makes a tuple of the aliases. -/
theorem aliasTuple (hret : ∀ item ∈ q.items, NoPanic (ex.eval item.expr t)) :
    AliasTuple ex.eval q.items t (q.tuple ex.eval t) where
  lookup_alias := by
    intro a e he
    obtain ⟨item, hitem, rfl, rfl⟩ := aliasExpr_eq_some he
    refine ⟨hret item hitem, ?_⟩
    cases hlookup : (q.tuple ex.eval t).lookup item.aliasName with
    | some v =>
      have hmem := (AList.lookup_insertAll_eq_some hlookup).resolve_right (by simp)
      obtain ⟨_, hmem', hname, hv⟩ := mem_namedValues.mp hmem
      obtain ⟨item', hitem', rfl⟩ := List.mem_map.mp hmem'
      -- an alias has one expression
      rw [List.inj_on_of_nodup_map q.nodup hitem' hitem hname] at hv
      rw [hv]
      rfl
    | none =>
      have hnone := (AList.lookup_insertAll_eq_none.mp hlookup).2
      cases hv : ex.eval item.expr t with
      | error fault => rfl
      | ok v =>
        have hmem : (item.aliasName, v) ∈ namedValues ex.eval q.withItems t :=
          mem_namedValues.mpr ⟨_, List.mem_map_of_mem hitem, rfl, hv⟩
        exact absurd rfl (hnone _ hmem)
  lookup_property := by
    intro a key
    cases hlookup : (q.tuple ex.eval t).lookup (propKey a key) with
    | none => rfl
    | some v =>
      -- no alias is the key of a property
      have hmem := (AList.lookup_insertAll_eq_some hlookup).resolve_right (by simp)
      obtain ⟨_, hmem', hname, -⟩ := mem_namedValues.mp hmem
      obtain ⟨item, hitem, rfl⟩ := List.mem_map.mp hmem'
      exact absurd hname ((q.plain item hitem).ne_propKey a key)

theorem tracks_predicate (hret : ∀ item ∈ q.items, NoPanic (ex.eval item.expr t)) {e : Expr}
    (he : e ∈ q.predicate) :
    Tracks e.readsProperty (ex.eval e (q.tuple ex.eval t)) (ex.eval (substExpr q.items e) t) :=
  tracks_eval (aliasTuple hret) (q.predicate_alias e he)

theorem tracks_returned (hret : ∀ item ∈ q.items, NoPanic (ex.eval item.expr t))
    {item : ReturnItem} (hitem : item ∈ q.returned) :
    Tracks item.expr.readsProperty (ex.eval item.expr (q.tuple ex.eval t))
      (ex.eval (substExpr q.items item.expr) t) :=
  tracks_eval (aliasTuple hret) (q.returned_alias item hitem)

/-- WHERE after WITH keeps no more than it does without. -/
theorem passesWhere_direct (hret : ∀ item ∈ q.items, NoPanic (ex.eval item.expr t))
    (h : PassesWhere ex.eval q.predicate (q.tuple ex.eval t)) :
    PassesWhere ex.eval q.directPredicate t := by
  intro e' he'
  obtain ⟨e, he, rfl⟩ := Option.map_eq_some_iff.mp he'
  exact (tracks_predicate hret he).eq_ok (h e he)

/-- … and no less, unless it reads a property. -/
theorem passesWhere_iff (hret : ∀ item ∈ q.items, NoPanic (ex.eval item.expr t))
    (hreads : ∀ e ∈ q.predicate, e.readsProperty = false) :
    PassesWhere ex.eval q.predicate (q.tuple ex.eval t) ↔
      PassesWhere ex.eval q.directPredicate t := by
  refine ⟨passesWhere_direct hret, ?_⟩
  intro h e he
  have hsame := (tracks_predicate hret he).same (hreads e he)
  rw [h _ (Option.mem_map_of_mem _ he)] at hsame
  rcases eq_or_errors hsame with heq | ⟨-, herror⟩
  · exact heq
  · cases herror

/-- A predicate that reads a property is true on no tuple of the aliases. -/
theorem not_passesWhere (hret : ∀ item ∈ q.items, NoPanic (ex.eval item.expr t)) {e : Expr}
    (he : e ∈ q.predicate) (hreads : e.readsProperty = true) :
    ¬ PassesWhere ex.eval q.predicate (q.tuple ex.eval t) := by
  intro h
  have hlost := (tracks_predicate hret he).lost hreads
  rw [h e he] at hlost
  cases hlost

/-! ### The rows of the two queries -/

theorem returnedRows_eq_some {x : Except Fault (List Tuple)} {names : Option (List String)}
    {rows : Multiset (List Json)} : returnedRows (x.map (toQueryResult names)) = some rows ↔
      ∃ ts, x = .ok ts ∧ rows = (toQueryResult names ts).rows := by
  cases x with
  | error fault => exact ⟨nofun, nofun⟩
  | ok ts =>
    show some _ = some rows ↔ _
    rw [Option.some.injEq]
    constructor
    · rintro rfl
      exact ⟨ts, rfl, rfl⟩
    · rintro ⟨_, ⟨⟩, rfl⟩
      rfl

/-- The rows the query returns, one for each tuple of MATCH that WHERE keeps. -/
def rows (q : WithQuery) (ev : Eval) (ts : List Tuple) : List (List Json) :=
  (ts.filter fun t => PassesWhere ev q.predicate (q.tuple ev t)).map fun t =>
    projectedRow ev q.returned (q.tuple ev t)

/-- The rows the query without WITH returns. -/
def directRows (q : WithQuery) (ev : Eval) (ts : List Tuple) : List (List Json) :=
  (ts.filter fun t => PassesWhere ev q.directPredicate t).map
    (projectedRow ev (q.returned.map q.directItem))

section Run

variable {store : InMemoryGraphStore} {params : Option (HashMap String Json)}

theorem returnedRows_query (hts : matchTuples (readExecutor store params) q.patterns = .ok ts)
    {rows : Multiset (List Json)} :
    returnedRows (executeQueryOnStore store params q.query).1 = some rows ↔
      ¬ q.Panics (readExecutor store params).eval ts ∧
        rows = q.rows (readExecutor store params).eval ts := by
  rw [query, executeQueryOnStore_match q.returned_noAggregate, hts, returnedRows_eq_some]
  constructor
  · rintro ⟨projectedTuples, hrun, rfl⟩
    obtain ⟨us, hus, hrun⟩ := bind_eq_ok hrun
    cases hus
    obtain ⟨us, hus, hrun⟩ := bind_eq_ok hrun
    have hwith : ts.mapM (projectTuple (readExecutor store params).eval q.withItems) = .ok us := hus
    obtain ⟨hret, rfl⟩ := mapM_projectTuple_eq_ok_iff.mp hwith
    obtain ⟨hpanics, rfl⟩ := select_eq_ok_iff.mp hrun
    constructor
    · rintro (⟨t, ht, item, hitem, hpanic⟩ | hpanic)
      · exact hpanic (hret t ht _ (List.mem_map_of_mem hitem))
      · exact hpanics hpanic
    · rw [toQueryResult_projected, List.filter_map, List.map_map]
      rfl
  · rintro ⟨hpanics, rfl⟩
    rw [Panics, not_or] at hpanics
    have hret : ∀ t ∈ ts, ∀ item ∈ q.withItems,
        NoPanic ((readExecutor store params).eval item.expr t) := by
      intro t ht item' hitem'
      obtain ⟨item, hitem, rfl⟩ := List.mem_map.mp hitem'
      by_contra hpanic
      exact hpanics.1 ⟨t, ht, item, hitem, hpanic⟩
    have hselect := select_eq_ok_iff.mpr ⟨hpanics.2, rfl⟩
    refine ⟨_, Eq.trans ?_ hselect, ?_⟩
    · show (ts.mapM (projectTuple (readExecutor store params).eval q.withItems) >>= _) = _
      rw [mapM_projectTuple_eq_ok_iff.mpr ⟨hret, rfl⟩]
      rfl
    · rw [toQueryResult_projected, List.filter_map, List.map_map]
      rfl

theorem returnedRows_direct (hts : matchTuples (readExecutor store params) q.patterns = .ok ts)
    {rows : Multiset (List Json)} :
    returnedRows (executeQueryOnStore store params q.direct).1 = some rows ↔
      ¬ q.DirectPanics (readExecutor store params).eval ts ∧
        rows = q.directRows (readExecutor store params).eval ts := by
  rw [direct, executeQueryOnStore_match q.direct_noAggregate, hts, returnedRows_eq_some]
  constructor
  · rintro ⟨projectedTuples, hrun, rfl⟩
    obtain ⟨hpanics, rfl⟩ := select_eq_ok_iff.mp hrun
    exact ⟨hpanics, by rw [toQueryResult_projected]; rfl⟩
  · rintro ⟨hpanics, rfl⟩
    exact ⟨_, select_eq_ok_iff.mpr ⟨hpanics, rfl⟩, by rw [toQueryResult_projected]; rfl⟩

/-- Where MATCH fails, both queries fail. -/
theorem sameRows_of_error {fault : Fault}
    (h : matchTuples (readExecutor store params) q.patterns = .error fault) :
    q.SameRows store params := by
  rw [SameRows, query, direct, executeQueryOnStore_match q.returned_noAggregate,
    executeQueryOnStore_match q.direct_noAggregate, h]
  rfl

end Run

/-! ### When WITH is substitution -/

/-- Columns of one name have one value, in either query. -/
def OwnColumns (q : WithQuery) (ev : Eval) (t : Tuple) : Prop :=
  NamesAgree ev q.returned (q.tuple ev t) ∧ NamesAgree ev (q.returned.map q.directItem) t

/-- Two columns have one name in one query when they have one name in the other. -/
def CollideAlike (q : WithQuery) : Prop :=
  ∀ item ∈ q.returned, ∀ item' ∈ q.returned,
    itemName item = itemName item' ↔ itemName (q.directItem item) = itemName (q.directItem item')

/-- The names of the columns do not tell the queries apart. -/
def ColumnsAgree (q : WithQuery) (ev : Eval) (t : Tuple) : Prop :=
  q.OwnColumns ev t ∨ q.CollideAlike ∧ ∀ item ∈ q.returned, item.expr.readsProperty = false

/-- Reading properties of aliases loses nothing on a tuple that WHERE should keep: WHERE reads
none, and an item of RETURN that reads one is null. -/
structure LosesNothing (q : WithQuery) (ev : Eval) (t : Tuple) : Prop where
  predicate : ∀ e ∈ q.predicate, e.readsProperty = false
  returned : ∀ item ∈ q.returned, item.expr.readsProperty = true →
    cell ev (substExpr q.items item.expr) t = .null

theorem cell_returned (hret : ∀ item ∈ q.items, NoPanic (ex.eval item.expr t)) {item : ReturnItem}
    (hitem : item ∈ q.returned) :
    (item.expr.readsProperty = true → cell ex.eval item.expr (q.tuple ex.eval t) = .null) ∧
      (item.expr.readsProperty = false → cell ex.eval item.expr (q.tuple ex.eval t) =
        cell ex.eval (substExpr q.items item.expr) t) := by
  have h := tracks_returned hret hitem
  constructor
  · intro hreads
    rw [hreads] at h
    exact h.cell_eq_null
  · intro hreads
    rw [hreads] at h
    exact h.cell_eq

theorem OwnColumns.row (h : q.OwnColumns ex.eval t) :
    projectedRow ex.eval q.returned (q.tuple ex.eval t) =
        q.returned.map (fun item => cell ex.eval item.expr (q.tuple ex.eval t)) ∧
      projectedRow ex.eval (q.returned.map q.directItem) t =
        q.returned.map fun item => cell ex.eval (substExpr q.items item.expr) t := by
  refine ⟨projectedRow_eq_iff.mpr h.1, ?_⟩
  rw [projectedRow_eq_iff.mpr h.2, List.map_map]
  rfl

/-- Columns that collide alike and read no property show the same values. -/
theorem CollideAlike.row (h : q.CollideAlike)
    (hreads : ∀ item ∈ q.returned, item.expr.readsProperty = false)
    (hret : ∀ item ∈ q.items, NoPanic (ex.eval item.expr t)) :
    projectedRow ex.eval q.returned (q.tuple ex.eval t) =
      projectedRow ex.eval (q.returned.map q.directItem) t := by
  rw [projectedRow, projectedRow, List.map_map, List.map_map, List.map_map]
  apply List.map_congr_left
  intro item hitem
  have hlookup : (projected ex.eval q.returned (q.tuple ex.eval t)).lookup (itemName item) =
      (projected ex.eval (q.returned.map q.directItem) t).lookup
        (itemName (q.directItem item)) := by
    apply lookup_projected_congr
    intro item' hitem'
    have htracks := tracks_returned hret hitem'
    rw [hreads item' hitem'] at htracks
    exact ⟨htracks.toOption_eq, h item' hitem' item hitem⟩
  exact congrArg (fun v? => (v?.getD .null).toJson) hlookup

/-- A row of the query is the row of the query without WITH, or has more nulls. -/
theorem row_eq_or_nulls_lt (hret : ∀ item ∈ q.items, NoPanic (ex.eval item.expr t))
    (hcolumns : q.ColumnsAgree ex.eval t) :
    projectedRow ex.eval q.returned (q.tuple ex.eval t) =
        projectedRow ex.eval (q.returned.map q.directItem) t ∨
      nulls (projectedRow ex.eval (q.returned.map q.directItem) t) <
        nulls (projectedRow ex.eval q.returned (q.tuple ex.eval t)) := by
  rcases hcolumns with hown | ⟨halike, hreads⟩
  · rw [hown.row.1, hown.row.2]
    apply map_eq_or_nulls_lt
    intro item hitem
    cases hreads : item.expr.readsProperty with
    | true => exact .inl ((cell_returned hret hitem).1 hreads)
    | false => exact .inr ((cell_returned hret hitem).2 hreads)
  · exact .inl (halike.row hreads hret)

/-- The rows are the same exactly if the items that read a property are null. -/
theorem row_eq_iff (hret : ∀ item ∈ q.items, NoPanic (ex.eval item.expr t))
    (hcolumns : q.ColumnsAgree ex.eval t) :
    projectedRow ex.eval q.returned (q.tuple ex.eval t) =
        projectedRow ex.eval (q.returned.map q.directItem) t ↔
      ∀ item ∈ q.returned, item.expr.readsProperty = true →
        cell ex.eval (substExpr q.items item.expr) t = .null := by
  rcases hcolumns with hown | ⟨halike, hreads⟩
  · rw [hown.row.1, hown.row.2, List.map_inj_left]
    constructor
    · intro h item hitem hreads
      rw [← h item hitem]
      exact (cell_returned hret hitem).1 hreads
    · intro h item hitem
      cases hreads : item.expr.readsProperty with
      | true => rw [(cell_returned hret hitem).1 hreads, h item hitem hreads]
      | false => exact (cell_returned hret hitem).2 hreads
  · constructor
    · intro _ item hitem h
      rw [hreads item hitem] at h
      cases h
    · exact fun _ => halike.row hreads hret

/-- Where nothing panics, the rows permute each other exactly if reading properties of aliases
loses nothing. -/
theorem rows_perm_iff (hret : ∀ t ∈ ts, ∀ item ∈ q.items, NoPanic (ex.eval item.expr t))
    (hcolumns : ∀ t ∈ ts, PassesWhere ex.eval q.directPredicate t → q.ColumnsAgree ex.eval t) :
    (q.rows ex.eval ts).Perm (q.directRows ex.eval ts) ↔
      ∀ t ∈ ts, PassesWhere ex.eval q.directPredicate t → q.LosesNothing ex.eval t := by
  constructor
  · intro hperm
    -- as many tuples are kept, so the same ones are
    have hlen := hperm.length_eq
    rw [rows, directRows, List.length_map, List.length_map] at hlen
    have hkept : ∀ t ∈ ts, PassesWhere ex.eval q.directPredicate t →
        PassesWhere ex.eval q.predicate (q.tuple ex.eval t) := by
      have hle := Lists.of_length_filter_eq (fun t ht h =>
        decide_eq_true (passesWhere_direct (hret t ht) (of_decide_eq_true h))) hlen
      exact fun t ht h => of_decide_eq_true (hle t ht (decide_eq_true h))
    have hfilter : (ts.filter fun t => PassesWhere ex.eval q.predicate (q.tuple ex.eval t)) =
        ts.filter fun t => PassesWhere ex.eval q.directPredicate t := by
      apply List.filter_congr
      intro t ht
      exact decide_eq_decide.mpr ⟨passesWhere_direct (hret t ht), hkept t ht⟩
    rw [rows, directRows, hfilter] at hperm
    -- a row that loses a column has more nulls
    have hrow := Lists.eq_of_perm_map nulls (fun t ht => by
      obtain ⟨ht, hpasses⟩ := List.mem_filter.mp ht
      exact row_eq_or_nulls_lt (hret t ht) (hcolumns t ht (of_decide_eq_true hpasses))) hperm
    intro t ht hpasses
    constructor
    · intro e he
      by_contra hreads
      exact not_passesWhere (hret t ht) he (Bool.not_eq_false _ ▸ hreads) (hkept t ht hpasses)
    · have hmem : t ∈ ts.filter fun t => PassesWhere ex.eval q.directPredicate t :=
        List.mem_filter.mpr ⟨ht, decide_eq_true hpasses⟩
      exact (row_eq_iff (hret t ht) (hcolumns t ht hpasses)).mp (hrow t hmem)
  · intro hloses
    have hfilter : (ts.filter fun t => PassesWhere ex.eval q.predicate (q.tuple ex.eval t)) =
        ts.filter fun t => PassesWhere ex.eval q.directPredicate t := by
      apply List.filter_congr
      intro t ht
      refine decide_eq_decide.mpr ⟨passesWhere_direct (hret t ht), ?_⟩
      exact fun h => (passesWhere_iff (hret t ht) (hloses t ht h).predicate).mpr h
    rw [rows, directRows, hfilter]
    refine List.Perm.of_eq (List.map_congr_left ?_)
    intro t ht
    obtain ⟨ht, hpasses⟩ := List.mem_filter.mp ht
    have hpasses := of_decide_eq_true hpasses
    exact (row_eq_iff (hret t ht) (hcolumns t ht hpasses)).mpr (hloses t ht hpasses).returned

theorem noPanic_items (h : ¬ q.Panics ex.eval ts) :
    ∀ t ∈ ts, ∀ item ∈ q.items, NoPanic (ex.eval item.expr t) := by
  intro t ht item hitem
  by_contra hpanic
  exact h (.inl ⟨t, ht, item, hitem, hpanic⟩)

/-- The queries panic alike on the tuples of MATCH, and where they do not, reading properties of
aliases loses nothing. -/
def KeepsRows (q : WithQuery) (ev : Eval) (ts : List Tuple) : Prop :=
  (q.Panics ev ts ↔ q.DirectPanics ev ts) ∧
    (¬ q.DirectPanics ev ts → ∀ t ∈ ts, PassesWhere ev q.directPredicate t → q.LosesNothing ev t)

/-- **WITH is substitution exactly if the queries panic alike and, on each tuple of MATCH on which
the replaced predicate is true, WHERE reads no property of an alias and the items of RETURN that
read one are null.** -/
theorem sameRows_iff (q : WithQuery) {store : InMemoryGraphStore}
    {params : Option (HashMap String Json)}
    (hcolumns : ∀ ts, matchTuples (readExecutor store params) q.patterns = .ok ts → ∀ t ∈ ts,
      PassesWhere (readExecutor store params).eval q.directPredicate t →
        q.ColumnsAgree (readExecutor store params).eval t) :
    q.SameRows store params ↔
      ∀ ts, matchTuples (readExecutor store params) q.patterns = .ok ts →
        q.KeepsRows (readExecutor store params).eval ts := by
  cases hts : matchTuples (readExecutor store params) q.patterns with
  | error fault =>
    have hsame := sameRows_of_error hts
    exact ⟨fun _ => nofun, fun _ => hsame⟩
  | ok ts =>
    rw [SameRows, option_eq_iff (fun _ => returnedRows_query hts) fun _ => returnedRows_direct hts,
      Multiset.coe_eq_coe]
    constructor
    · rintro ⟨hpanics, hrows⟩ _ ⟨⟩
      refine ⟨hpanics, ?_⟩
      intro hdirect
      exact (rows_perm_iff (noPanic_items (hpanics.not.mpr hdirect)) (hcolumns ts hts)).mp
        (hrows hdirect)
    · intro h
      obtain ⟨hpanics, hloses⟩ := h ts rfl
      refine ⟨hpanics, ?_⟩
      intro hdirect
      exact (rows_perm_iff (noPanic_items (hpanics.not.mpr hdirect)) (hcolumns ts hts)).mpr
        (hloses hdirect)

/-! ### An alias of a node -/

/-- `MATCH (n) WITH n AS m …`. -/
def nodeAs : List WithItem := [⟨.ident "n", "m"⟩]

theorem isAlias_nodeAs : Reference.IsAlias nodeAs (.name "m") ∧
    ∀ key, Reference.IsAlias nodeAs (.property "m" key) :=
  ⟨⟨_, rfl⟩, fun _ => ⟨_, rfl⟩⟩

/-- `MATCH (n) WITH n AS m WHERE m IS NOT NULL RETURN m`. -/
def renamedQuery : WithQuery where
  patterns := ⟨[.node ⟨some "n", [], ∅⟩]⟩
  items := nodeAs
  predicate := some (.isNotNull (.ident "m"))
  returned := [⟨.ident "m", none⟩]
  nodup := by decide
  plain := by unfold Plain; decide
  items_noAggregate := by decide
  returned_noAggregate := by decide
  predicate_alias := by
    rintro e ⟨⟩ r hr
    rw [List.mem_singleton.mp hr]
    exact isAlias_nodeAs.1
  returned_alias := by
    intro item hitem r hr
    rw [List.mem_singleton.mp hitem] at hr
    rw [List.mem_singleton.mp hr]
    exact isAlias_nodeAs.1

/-- `MATCH (n) WITH n AS m RETURN m.k`. -/
def propertyQuery : WithQuery where
  patterns := ⟨[.node ⟨some "n", [], ∅⟩]⟩
  items := nodeAs
  predicate := none
  returned := [⟨.property "m" "k", none⟩]
  nodup := by decide
  plain := by unfold Plain; decide
  items_noAggregate := by decide
  returned_noAggregate := by decide
  predicate_alias := nofun
  returned_alias := by
    intro item hitem r hr
    rw [List.mem_singleton.mp hitem] at hr
    rw [List.mem_singleton.mp hr]
    exact isAlias_nodeAs.2 "k"

/-- WHERE and RETURN without arithmetic do not panic. -/
theorem not_selectPanics {predicate : Option Expr} {returned : List ReturnItem}
    (hpredicate : ∀ e ∈ predicate, e.safe = true)
    (hreturned : ∀ item ∈ returned, item.expr.safe = true) (ex : Executor) (ts : List Tuple) :
    ¬ SelectPanics ex.eval predicate returned ts := by
  rintro ⟨t, -, ⟨e, he, hpanic⟩ | ⟨-, item, hitem, hpanic⟩⟩
  · exact hpanic (noPanic_evalExprWith t (hpredicate e he))
  · exact hpanic (noPanic_evalExprWith t (hreturned item hitem))

/-- A node under another name. -/
theorem sameRows_renamedQuery : renamedQuery.SameRows triangle none := by
  refine (sameRows_iff renamedQuery ?_).mpr ?_
  · intro ts _ t _ _
    right
    constructor
    · intro item hitem item' hitem'
      rw [List.mem_singleton.mp hitem, List.mem_singleton.mp hitem']
      simp
    · intro item hitem
      rw [List.mem_singleton.mp hitem]
      rfl
  · intro ts _
    have hquery : ¬ renamedQuery.Panics (readExecutor triangle none).eval ts := by
      rintro (⟨t, -, item, hitem, hpanic⟩ | hpanics)
      · rw [List.mem_singleton.mp hitem] at hpanic
        exact hpanic (noPanic_evalExprWith t rfl)
      · exact not_selectPanics (by decide) (by decide) _ _ hpanics
    have hdirect : ¬ renamedQuery.DirectPanics (readExecutor triangle none).eval ts :=
      not_selectPanics (by decide) (by decide) _ ts
    refine ⟨iff_of_false hquery hdirect, ?_⟩
    intro _ t _ _
    constructor
    · rintro e ⟨⟩
      rfl
    · intro item hitem hreads
      rw [List.mem_singleton.mp hitem] at hreads
      cases hreads

/-- `MATCH (n) WITH n AS m RETURN m.k` returns nulls alone, where `MATCH (n) RETURN n.k` returns
the property of node 1. -/
theorem with_loses_property :
    ¬ ∀ (q : WithQuery) (store : InMemoryGraphStore) (params : Option (HashMap String Json)),
      store.Reachable → q.SameRows store params := by
  intro hall
  have hsame := hall propertyQuery triangle none reachable_triangle
  have hrows : (executeQueryOnStore triangle none propertyQuery.query).1.map QueryResult.rows =
        .ok [[.null], [.null], [.null]] ∧
      (executeQueryOnStore triangle none propertyQuery.direct).1.map QueryResult.rows =
        .ok [[.null], [.null], [.number (.posInt 1)]] := by
    decide +kernel
  obtain ⟨result, hresult, hquery⟩ := map_eq_ok hrows.1
  obtain ⟨result', hresult', hdirect⟩ := map_eq_ok hrows.2
  rw [SameRows, hresult, hresult', returnedRows, returnedRows] at hsame
  have hperm : result.rows.Perm result'.rows := Multiset.coe_eq_coe.mp (Option.some.inj hsame)
  rw [hquery, hdirect] at hperm
  exact absurd hperm (by decide)

end WithQuery

end KuzuEventBus
