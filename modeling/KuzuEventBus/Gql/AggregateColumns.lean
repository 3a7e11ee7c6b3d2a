import KuzuEventBus.Gql.Aggregation

/-!
# The columns of an aggregation

A RETURN list with aggregates.  The planner splits it into grouping expressions and aggregates,
a row is a hash map from column names, and the columns of the result are the keys of the first
row in whatever order the map yields them.  So the order of the list is lost with its second
item, aliases of grouping expressions are not used, columns of one name collide, and a result
without rows has no columns.

## Main definitions

* `groupValue`, `groupCell` — the value of an item on a group.
* `Groups` — the groups a RETURN list asks for.
* `CanReturn` — the results the executor can return, by the order of the columns.
* `ReturnsAggregates` — the query returns, and every such result has the columns as written.

## Main results

* `evalAggregate_isOk_iff` — what `eval_aggregate` accepts.
* `aggregates_positional_iff` — **the columns are as written exactly if the RETURN list is a single
  aggregate, its evaluation does not panic, and the LIMIT is not 0**.
-/

namespace KuzuEventBus

open Grouping

/-! ### What the RETURN list asks for -/

/-- The value of an item on a group: aggregates and arithmetic over them run over the tuples of
the group, another expression has its value on the first one. -/
def groupValue (ev : Eval) (g : List Tuple) : Expr → Except Fault Value
  | .aggregate func arg => evalAggregate ev (.aggregate func arg) g
  | .binaryOp left op right =>
    if hasAggregate (.binaryOp left op right) then do
      let l ← groupValue ev g left
      let r ← groupValue ev g right
      evalBinaryOp l op r
    else onFirst (.binaryOp left op right)
  | .unaryOp .not operand =>
    if hasAggregate operand then do
      match ← groupValue ev g operand with
      | .bool b => .ok (.bool !b)
      | _ => invalidArgument "NOT requires boolean"
    else onFirst (.unaryOp .not operand)
  | e => onFirst e
where
  onFirst (e : Expr) : Except Fault Value :=
    match g.head? with
    | some t => ev e t
    | none => invalidArgument "empty group"

/-- The JSON of an item on a group, null where it fails. -/
def groupCell (ev : Eval) (g : List Tuple) (e : Expr) : Json :=
  ((groupValue ev g e).toOption.getD .null).toJson

/-- The grouping expressions of a RETURN list. -/
def groupingItems (clause : ReturnClause) : List Expr :=
  (clause.items.filter (!hasAggregate ·.expr)).map ReturnItemOf.expr

/-- The groups of the tuples: all of them without grouping expressions, and the parts by the
grouping values otherwise. -/
def Groups (ev : Eval) (groupBy : List Expr) (ts : List Tuple) (groups : List (List Tuple)) :
    Prop :=
  if groupBy = [] then groups = [ts] else IsPartition (groupingValues ev groupBy) ts groups

/-- The name of the column of an item. -/
def columnName (item : ReturnItem) : String :=
  if hasAggregate item.expr then aggregateAlias item else itemName item

/-! ### What the code returns -/

/-- The rows of a read query. -/
def returnPart (ev : Eval) (query : Query) (clause : ReturnClause) (ts : List Tuple) :
    Except Fault (List Tuple) :=
  (returnTuples ev clause ts >>= orderTuples ev query.orderBy).map (limitTuples query.limit)

/-- The results the executor can return on some rows of an aggregation: the columns are the keys of
the first row, in an order the hash map leaves open. -/
def CanReturn (rows : List Tuple) (r : QueryResult) : Prop :=
  ∃ columns : List String, columns.Perm ((rows.head?.map (·.keys)).getD []) ∧
    r = toQueryResult (some columns) rows

/-- The query returns rows, and whatever order their columns come in, the result has the columns as
written, and a row for each group, up to the LIMIT, with the value of each item. -/
def ReturnsAggregates (store : InMemoryGraphStore) (params : Option (HashMap String Json))
    (query : Query) (clause : ReturnClause) (ts : List Tuple) : Prop :=
  ∃ rows, returnPart (readExecutor store params).eval query clause ts = .ok rows ∧
    executeQueryOnStore store params query = (.ok (toQueryResult none rows), store) ∧
    ∀ r, CanReturn rows r → r.columns.map ColumnMeta.name = clause.items.map columnName ∧
      ∃ groups, Groups (readExecutor store params).eval (groupingItems clause) ts groups ∧
        r.rows = (limitTuples query.limit groups).map fun g =>
          clause.items.map fun item => groupCell (readExecutor store params).eval g item.expr

variable {ev : Eval} {ts : List Tuple} {store : InMemoryGraphStore}
  {params : Option (HashMap String Json)} {query : Query} {clause : ReturnClause}

theorem executeQueryOnStore_aggregate {rows : List Tuple} (hread : query.createClause = none)
    (hreturn : query.returnClause = some clause)
    (hagg : ∃ item ∈ clause.items, hasAggregate item.expr = true)
    (hts : sourceTuples (readExecutor store params) query = .ok ts)
    (hrows : returnPart (readExecutor store params).eval query clause ts = .ok rows) :
    executeQueryOnStore store params query = (.ok (toQueryResult none rows), store) := by
  have hnames : returnNames clause = none := if_pos (List.any_eq_true.2 hagg)
  obtain ⟨sorted, hsorted, rfl⟩ := map_eq_ok hrows
  rw [executeQueryOnStore_eq hread hreturn hts, hsorted, hnames]
  rfl

/-! ### Single aggregates -/

theorem numericValues_isOk_iff {arg : Expr} : (∃ xs, numericValues ev arg ts = .ok xs) ↔
    ∀ t ∈ ts, NoPanic (ev arg t) := by
  constructor
  · rintro ⟨xs, h⟩ t ht
    obtain ⟨values, hvalues, -⟩ := bind_eq_ok h
    obtain ⟨v, hv⟩ := exists_of_mapM_eq_ok hvalues t ht
    exact (okOrNone_eq_ok hv).1
  · intro h
    have hvalues : ts.mapM (fun t => okOrNone (ev arg t)) =
        .ok (ts.map fun t => (ev arg t).toOption) :=
      mapM_eq_ok fun t ht => okOrNone_of_noPanic (h t ht)
    rw [numericValues, hvalues]
    exact ⟨_, rfl⟩

theorem bind_pure_isOk_iff {α β : Type} {x : Except Fault α} {f : α → β} :
    (∃ b, (x >>= fun a => pure (f a)) = .ok b) ↔ ∃ a, x = .ok a := by
  cases x with
  | ok a => exact ⟨fun _ => ⟨a, rfl⟩, fun _ => ⟨f a, rfl⟩⟩
  | error e =>
    constructor
    · rintro ⟨b, h⟩
      cases h
    · rintro ⟨a, h⟩
      cases h

/-- **What `eval_aggregate` accepts**: an aggregate itself, whose argument, unless it counts, does
not panic on any tuple. -/
theorem evalAggregate_isOk_iff {e : Expr} : (∃ v, evalAggregate ev e ts = .ok v) ↔
    ∃ func arg, e = .aggregate func arg ∧ (func = .count ∨ ∀ t ∈ ts, NoPanic (ev arg t)) := by
  constructor
  · rintro ⟨v, h⟩
    cases e with
    | aggregate func arg =>
      refine ⟨func, arg, rfl, ?_⟩
      cases func with
      | count => exact .inl rfl
      | sum | avg | min | max =>
        exact .inr (numericValues_isOk_iff.1 (bind_pure_isOk_iff.1 ⟨v, h⟩))
    | _ => cases h
  · rintro ⟨func, arg, rfl, h⟩
    cases func with
    | count => exact ⟨_, rfl⟩
    | sum | avg | min | max =>
      exact bind_pure_isOk_iff.2 (numericValues_isOk_iff.2 (h.resolve_left nofun))

/-! ### The columns -/

/-- A list all of whose orders are one list has at most one element, if it repeats none. -/
theorem length_le_one_of_forall_perm {α : Type} {l l' : List α} (hnodup : l.Nodup)
    (h : ∀ k : List α, k.Perm l → k = l') : l.length ≤ 1 := by
  match l, hnodup, h with
  | [], _, _ => exact Nat.zero_le 1
  | [a], _, _ => exact le_rfl
  | a :: b :: l, hnodup, h =>
    have hswap : b :: a :: l = a :: b :: l :=
      (h _ (List.Perm.swap a b l)).trans (h _ (List.Perm.refl _)).symm
    rw [List.cons.injEq] at hswap
    exact absurd (hswap.1 ▸ List.mem_cons_self) (List.nodup_cons.1 hnodup).1

theorem columns_toQueryResult (columns : List String) (rows : List Tuple) :
    (toQueryResult (some columns) rows).columns.map ColumnMeta.name = columns := by
  simp [toQueryResult, Function.comp_def]

/-- The result has the columns as written in every order only if there is one item, and a row. -/
theorem single_item_of_columns {rows : List Tuple} {names : List String} (hne : names ≠ [])
    (h : ∀ r, CanReturn rows r → r.columns.map ColumnMeta.name = names) :
    names.length = 1 ∧ rows ≠ [] := by
  have hperm : ∀ k : List String, k.Perm ((rows.head?.map (·.keys)).getD []) → k = names := by
    intro k hk
    rw [← h _ ⟨k, hk, rfl⟩, columns_toQueryResult]
  cases rows with
  | nil => exact absurd (hperm [] (List.Perm.refl _)).symm hne
  | cons row rows =>
    have hkeys : row.keys = names := hperm _ (List.Perm.refl _)
    have hle := length_le_one_of_forall_perm row.keys_nodup hperm
    rw [hkeys] at hle
    have hpos := List.length_pos_of_ne_nil hne
    exact ⟨by omega, nofun⟩

theorem filter_single {item : ReturnItem} (h : hasAggregate item.expr = true) :
    [item].filter (!hasAggregate ·.expr) = [] ∧ [item].filter (hasAggregate ·.expr) = [item] := by
  simp [h]

/-- The row of a single aggregate. -/
theorem returnTuples_single {item : ReturnItem} (h : hasAggregate item.expr = true) :
    returnTuples ev ⟨[item]⟩ ts =
      (evalAggregate ev item.expr ts).map fun v =>
        [(∅ : Tuple).insert (aggregateAlias item) v] := by
  rw [returnTuples, if_pos (by simpa using h), (filter_single h).1, (filter_single h).2]
  show (aggregateColumns ev [(aggregateAlias item, item.expr)] ts >>= fun columns =>
    pure [(∅ : Tuple).insertAll columns]) = _
  rw [aggregateColumns, List.mapM_cons, List.mapM_nil]
  cases evalAggregate ev item.expr ts <;> rfl

theorem orderTuples_single (orderBy : Option OrderByClause) (row : Tuple) :
    orderTuples ev orderBy [row] = .ok [row] := by
  cases orderBy <;> rfl

theorem limitTuples_single {α : Type} {limit : Option ℕ} (h : limit ≠ some 0) (a : α) :
    limitTuples limit [a] = [a] := by
  cases limit with
  | none => rfl
  | some limit =>
    have hpos : limit ≠ 0 := fun h0 => h (by rw [h0])
    obtain ⟨k, rfl⟩ := Nat.exists_eq_succ_of_ne_zero hpos
    simp [limitTuples]

/-- **A read query with aggregates returns the columns as written, in whatever order the hash map
yields them, exactly if its RETURN list is a single aggregate, whose evaluation does not panic,
and its LIMIT is not 0.** -/
theorem aggregates_positional_iff (hread : query.createClause = none)
    (hreturn : query.returnClause = some clause)
    (hagg : ∃ item ∈ clause.items, hasAggregate item.expr = true)
    (hts : sourceTuples (readExecutor store params) query = .ok ts) :
    ReturnsAggregates store params query clause ts ↔
      (∃ item func arg, clause.items = [item] ∧ item.expr = .aggregate func arg ∧
        (func = .count ∨ ∀ t ∈ ts, NoPanic ((readExecutor store params).eval arg t))) ∧
      query.limit ≠ some 0 := by
  obtain ⟨items⟩ := clause
  constructor
  · rintro ⟨rows, hrows, -, hall⟩
    have hne : items.map columnName ≠ [] := by
      obtain ⟨item, hitem, -⟩ := hagg
      exact List.ne_nil_of_mem (List.mem_map_of_mem hitem)
    obtain ⟨hlength, hrowsne⟩ := single_item_of_columns hne fun r hr => (hall r hr).1
    rw [List.length_map] at hlength
    obtain ⟨item, rfl⟩ := List.length_eq_one_iff.1 hlength
    obtain ⟨item', hitem', hitem⟩ := hagg
    obtain rfl := List.mem_singleton.1 hitem'
    obtain ⟨sorted, hsorted, rfl⟩ := map_eq_ok hrows
    obtain ⟨rows, hreturn, -⟩ := bind_eq_ok hsorted
    rw [returnTuples_single hitem] at hreturn
    obtain ⟨v, hv, -⟩ := map_eq_ok hreturn
    obtain ⟨func, arg, hexpr, harg⟩ := evalAggregate_isOk_iff.1 ⟨v, hv⟩
    refine ⟨⟨item', func, arg, rfl, hexpr, harg⟩, ?_⟩
    intro hlimit
    rw [hlimit] at hrowsne
    exact hrowsne rfl
  · rintro ⟨⟨item, func, arg, hitems, hexpr, harg⟩, hlimit⟩
    obtain rfl : items = [item] := hitems
    have hitem : hasAggregate item.expr = true := by
      rw [hexpr]
      rfl
    obtain ⟨v, hv⟩ := evalAggregate_isOk_iff.2 ⟨func, arg, rfl, harg⟩
    have hrows : returnPart (readExecutor store params).eval query ⟨[item]⟩ ts =
        .ok [(∅ : Tuple).insert (aggregateAlias item) v] := by
      rw [returnPart, returnTuples_single hitem, hexpr, hv]
      show (orderTuples _ query.orderBy [_]).map _ = _
      rw [orderTuples_single]
      show Except.ok (limitTuples query.limit [_]) = _
      rw [limitTuples_single hlimit]
    refine ⟨_, hrows, executeQueryOnStore_aggregate hread hreturn hagg hts hrows, ?_⟩
    rintro r ⟨columns, hcolumns, rfl⟩
    -- one column has one order
    obtain rfl : columns = [aggregateAlias item] := List.perm_singleton.1 hcolumns
    rw [columns_toQueryResult]
    refine ⟨by simp [columnName, hitem], [ts], ?_, ?_⟩
    · rw [Groups, groupingItems, (filter_single hitem).1, if_pos (by rfl)]
    · rw [limitTuples_single hlimit]
      show [[((((∅ : Tuple).insert (aggregateAlias item) v).lookup (aggregateAlias item)).getD
        .null).toJson]] = [[groupCell _ ts item.expr]]
      rw [AList.lookup_insert, hexpr, groupCell, groupValue, hv]
      rfl

open InMemoryGraphStore (twoNodes)

/-- `MATCH (n) RETURN COUNT(n)` has its one column. -/
theorem aggregates_positional_count :
    ReturnsAggregates twoNodes none (matchReturn [⟨.aggregate .count (.ident "n"), none⟩])
      ⟨[⟨.aggregate .count (.ident "n"), none⟩]⟩ twoTuples :=
  (aggregates_positional_iff rfl rfl ⟨_, List.mem_cons_self, rfl⟩ (sourceTuples_matchReturn _)).2
    ⟨⟨_, .count, .ident "n", rfl, rfl, .inl rfl⟩, nofun⟩

/-- `MATCH (n) RETURN n, COUNT(n)` has its columns in one order or the other. -/
theorem aggregates_not_positional :
    ¬ ReturnsAggregates twoNodes none
      (matchReturn [⟨.ident "n", none⟩, ⟨.aggregate .count (.ident "n"), none⟩])
      ⟨[⟨.ident "n", none⟩, ⟨.aggregate .count (.ident "n"), none⟩]⟩ twoTuples := by
  rintro ⟨rows, -, -, hall⟩
  have hcolumns := fun r hr => (hall r hr).1
  have hlength := (single_item_of_columns (by simp) hcolumns).1
  exact absurd hlength (by decide)

end KuzuEventBus
