import KuzuEventBus.Gql.ExistsFast
import KuzuEventBus.Gql.OnStore
import KuzuEventBus.Gql.OrderBy

/-!
# Projection

A RETURN list without aggregates.  `Project` stores the value of an item under the name of
its column, and the result table looks the columns up by name again, so items whose columns
have one name share the value of the last one that evaluates.

## Main definitions

* `cell` — the JSON of an expression on a tuple, null where it fails.
* `Positional` — a result is, position by position, the items on the tuples.
* `projected`, `projectedRow` — what `Project` makes of a tuple, and its row in the result.
* `NamesAgree` — columns of one name have one value on a tuple.

## Main results

* `projectedRow_eq_iff` — a row is positional exactly if its columns of one name agree.
* `projection_positional_iff` — **the result is positional exactly if nothing panics and columns
  of one name agree on each tuple that reaches the projection**.
-/

namespace KuzuEventBus

/-! ### One tuple -/

/-- The JSON of an expression on a tuple, null where its evaluation fails. -/
def cell (ev : Eval) (e : Expr) (t : Tuple) : Json := ((ev e t).toOption.getD .null).toJson

/-- The columns of a tuple that evaluate, in the order of the items. -/
def namedValues (ev : Eval) (items : List ReturnItem) (t : Tuple) : List (String × Value) :=
  items.filterMap fun item => (ev item.expr t).toOption.map fun v => (itemName item, v)

/-- What `Project` makes of a tuple on which nothing panics. -/
def projected (ev : Eval) (items : List ReturnItem) (t : Tuple) : Tuple :=
  (∅ : Tuple).insertAll (namedValues ev items t)

/-- The row of a projected tuple. -/
def projectedRow (ev : Eval) (items : List ReturnItem) (t : Tuple) : List Json :=
  (items.map itemName).map fun name => (((projected ev items t).lookup name).getD .null).toJson

/-- Columns of one name have one value on the tuple. -/
def NamesAgree (ev : Eval) (items : List ReturnItem) (t : Tuple) : Prop :=
  ∀ item ∈ items, ∀ item' ∈ items, itemName item = itemName item' →
    cell ev item.expr t = cell ev item'.expr t

variable {ev : Eval} {items : List ReturnItem} {t row : Tuple}

theorem projectTuple_of_noPanic (h : ∀ item ∈ items, NoPanic (ev item.expr t)) :
    projectTuple ev items t = .ok (projected ev items t) := by
  have hfields : (items.mapM fun item => do
      let v ← okOrNone (ev item.expr t)
      pure (v.map fun v => (itemName item, v)) : Except Fault _) =
        .ok (items.map fun item => (ev item.expr t).toOption.map fun v => (itemName item, v)) := by
    apply mapM_eq_ok
    intro item hitem
    rw [okOrNone_of_noPanic (h item hitem)]
    rfl
  rw [projectTuple, hfields]
  show Except.ok _ = _
  rw [List.filterMap_map]
  rfl

theorem projectTuple_eq_ok_iff : projectTuple ev items t = .ok row ↔
    (∀ item ∈ items, NoPanic (ev item.expr t)) ∧ row = projected ev items t := by
  constructor
  · intro h
    have hret : ∀ item ∈ items, NoPanic (ev item.expr t) := by
      intro item hitem
      obtain ⟨fields, hfields, -⟩ := bind_eq_ok h
      obtain ⟨field, hfield⟩ := exists_of_mapM_eq_ok hfields item hitem
      obtain ⟨v, hv, -⟩ := bind_eq_ok hfield
      exact (okOrNone_eq_ok hv).1
    rw [projectTuple_of_noPanic hret] at h
    exact ⟨hret, (Except.ok.inj h).symm⟩
  · rintro ⟨hret, rfl⟩
    exact projectTuple_of_noPanic hret

theorem mem_namedValues {name : String} {v : Value} : (name, v) ∈ namedValues ev items t ↔
    ∃ item ∈ items, itemName item = name ∧ ev item.expr t = .ok v := by
  simp only [namedValues, List.mem_filterMap, Option.map_eq_some_iff, Prod.mk.injEq]
  constructor
  · rintro ⟨item, hitem, v, hv, rfl, rfl⟩
    refine ⟨item, hitem, rfl, ?_⟩
    cases he : ev item.expr t with
    | ok w =>
      rw [he] at hv
      exact congrArg Except.ok (Option.some.inj hv)
    | error e =>
      rw [he] at hv
      cases hv
  · rintro ⟨item, hitem, rfl, hv⟩
    exact ⟨item, hitem, v, by rw [hv]; rfl, rfl, rfl⟩

/-- The column of a name is the column of another name in another projection, when the items of
the one name are those of the other and evaluate alike. -/
theorem lookup_projected_congr {f : ReturnItem → ReturnItem} {t u : Tuple} {name name' : String}
    (h : ∀ item ∈ items, (ev item.expr t).toOption = (ev (f item).expr u).toOption ∧
      (itemName item = name ↔ itemName (f item) = name')) :
    (projected ev items t).lookup name = (projected ev (items.map f) u).lookup name' := by
  rw [projected, projected, namedValues, namedValues]
  induction items with
  | nil => rfl
  | cons item items ih =>
    rw [List.forall_mem_cons] at h
    obtain ⟨⟨hvalue, hname⟩, h⟩ := h
    have ih := ih h
    rw [List.map_cons, List.filterMap_cons, List.filterMap_cons, ← hvalue]
    cases (ev item.expr t).toOption with
    | none => exact ih
    | some v =>
      simp only [Option.map_some, AList.insertAll_cons]
      rw [AList.lookup_insertAll, AList.lookup_insertAll _ name', ih, AList.lookup_insert_eq,
        AList.lookup_insert_eq]
      simp only [eq_comm (a := name), eq_comm (a := name'), hname]
      rfl

/-- Where the columns of one name agree, the column of an item has its value. -/
theorem lookup_projected (h : NamesAgree ev items t) {item : ReturnItem} (hitem : item ∈ items) :
    (((projected ev items t).lookup (itemName item)).getD .null).toJson =
      cell ev item.expr t := by
  cases hlookup : (projected ev items t).lookup (itemName item) with
  | some v =>
    -- the value of an item of that name
    have hmem := (AList.lookup_insertAll_eq_some hlookup).resolve_right (by simp)
    obtain ⟨item', hitem', hname, hv⟩ := mem_namedValues.1 hmem
    rw [h item hitem item' hitem' hname.symm, cell, hv]
    rfl
  | none =>
    -- no item of that name evaluates
    have hnone := (AList.lookup_insertAll_eq_none.1 hlookup).2
    cases hv : ev item.expr t with
    | ok v => exact absurd rfl (hnone _ (mem_namedValues.2 ⟨item, hitem, rfl, hv⟩))
    | error e =>
      rw [cell, hv]
      rfl

/-- **A row is positional exactly if its columns of one name agree.** -/
theorem projectedRow_eq_iff :
    projectedRow ev items t = items.map (fun item => cell ev item.expr t) ↔
      NamesAgree ev items t := by
  rw [projectedRow, List.map_map, List.map_inj_left]
  constructor
  · intro h item hitem item' hitem' hname
    have h₁ := h item hitem
    have h₂ := h item' hitem'
    simp only [Function.comp_apply] at h₁ h₂
    rw [← h₁, ← h₂, hname]
  · intro h item hitem
    exact lookup_projected h hitem

/-- A positional row has one value in columns of one name, on whatever tuple. -/
theorem namesAgree_of_row_eq {u : Tuple}
    (h : items.map (fun item => cell ev item.expr t) = projectedRow ev items u) :
    NamesAgree ev items t := by
  rw [projectedRow, List.map_map, List.map_inj_left] at h
  intro item hitem item' hitem' hname
  have h₁ := h item hitem
  have h₂ := h item' hitem'
  simp only [Function.comp_apply] at h₁ h₂
  rw [h₁, h₂, hname]

/-! ### The result -/

/-- The result has a column for each item, and its rows are the items on the tuples, in some
order. -/
structure Positional (ev : Eval) (items : List ReturnItem) (ts : List Tuple) (r : QueryResult) :
    Prop where
  columns : r.columns.length = items.length
  rows : ∃ order : List Tuple, order.Perm ts ∧
    r.rows = order.map fun t => items.map fun item => cell ev item.expr t

theorem toQueryResult_projected {ts : List Tuple} :
    (toQueryResult (some (items.map itemName)) (ts.map (projected ev items))).rows =
      ts.map (projectedRow ev items) := by
  simp [toQueryResult, projectedRow, Function.comp_def]

/-- LIMIT takes the first rows of the result. -/
theorem toQueryResult_limit (names : List String) (limit : Option ℕ) (ts : List Tuple) :
    toQueryResult (some names) (limitTuples limit ts) =
      ⟨(toQueryResult (some names) ts).columns,
        limitTuples limit (toQueryResult (some names) ts).rows⟩ := by
  cases limit with
  | none => rfl
  | some limit => simp [toQueryResult, limitTuples]

/-- ORDER BY puts the rows of some elements in another order. -/
theorem orderTuples_map_eq_ok {α : Type} {orderBy : Option OrderByClause} {row : α → Tuple}
    {as : List α} {sorted : List Tuple} (h : orderTuples ev orderBy (as.map row) = .ok sorted) :
    ∃ order : List α, order.Perm as ∧ sorted = order.map row := by
  cases orderBy with
  | none =>
    cases h
    exact ⟨as, List.Perm.refl as, rfl⟩
  | some orderBy =>
    rw [orderTuples, sortTuples_map] at h
    obtain ⟨order, horder, rfl⟩ := map_eq_ok h
    exact ⟨order, Comparators.sortE_perm horder, rfl⟩

/-- A projection returns where nothing panics. -/
theorem mapM_projectTuple_eq_ok_iff {ts rows : List Tuple} :
    ts.mapM (projectTuple ev items) = .ok rows ↔
      (∀ t ∈ ts, ∀ item ∈ items, NoPanic (ev item.expr t)) ∧
        rows = ts.map (projected ev items) := by
  constructor
  · intro h
    have hret : ∀ t ∈ ts, ∀ item ∈ items, NoPanic (ev item.expr t) := by
      intro t ht
      obtain ⟨row, hrow⟩ := exists_of_mapM_eq_ok h t ht
      exact (projectTuple_eq_ok_iff.1 hrow).1
    rw [mapM_eq_ok fun t ht => projectTuple_of_noPanic (hret t ht)] at h
    exact ⟨hret, (Except.ok.inj h).symm⟩
  · rintro ⟨hret, rfl⟩
    exact mapM_eq_ok fun t ht => projectTuple_of_noPanic (hret t ht)

/-- The query returns; without its LIMIT the result is positional on the tuples that reach the
projection, and the LIMIT takes the first of its rows. -/
def ReturnsPositional (store : InMemoryGraphStore) (params : Option (HashMap String Json))
    (query : Query) (items : List ReturnItem) (ts : List Tuple) : Prop :=
  ∃ full : QueryResult,
    executeQueryOnStore store params { query with limit := none } = (.ok full, store) ∧
    Positional (readExecutor store params).eval items ts full ∧
    executeQueryOnStore store params query =
      (.ok ⟨full.columns, limitTuples query.limit full.rows⟩, store)

/-- **A read query without aggregates returns a positional result exactly if nothing panics and,
on each tuple that reaches the projection, columns of one name have one value.** -/
theorem projection_positional_iff {store : InMemoryGraphStore}
    {params : Option (HashMap String Json)} {query : Query} {clause : ReturnClause}
    {ts : List Tuple} (hread : query.createClause = none)
    (hreturn : query.returnClause = some clause)
    (hagg : ∀ item ∈ clause.items, hasAggregate item.expr = false)
    (hts : sourceTuples (readExecutor store params) query = .ok ts) :
    ReturnsPositional store params query clause.items ts ↔
      (∀ t ∈ ts, ∀ item ∈ clause.items, NoPanic ((readExecutor store params).eval item.expr t)) ∧
      (∃ sorted, orderTuples (readExecutor store params).eval query.orderBy
        (ts.map (projected (readExecutor store params).eval clause.items)) = .ok sorted) ∧
      ∀ t ∈ ts, NamesAgree (readExecutor store params).eval clause.items t := by
  have hany : ¬ clause.items.any (hasAggregate ·.expr) = true := by
    simpa using hagg
  have hrun : ∀ limit, executeQueryOnStore store params { query with limit := limit } =
      ((ts.mapM (projectTuple (readExecutor store params).eval clause.items) >>=
          orderTuples (readExecutor store params).eval query.orderBy).map
        fun rows => toQueryResult (some (clause.items.map itemName)) (limitTuples limit rows),
          store) := by
    intro limit
    have h : executeQueryOnStore store params { query with limit := limit } = _ :=
      executeQueryOnStore_eq hread hreturn hts
    rw [h, returnTuples, if_neg hany, returnNames, if_neg hany]
  constructor
  · rintro ⟨full, hfull, hpos, -⟩
    rw [hrun, Prod.mk.injEq] at hfull
    obtain ⟨sorted, hsorted, rfl⟩ := map_eq_ok hfull.1
    obtain ⟨rows, hrows, hsorted⟩ := bind_eq_ok hsorted
    obtain ⟨hret, rfl⟩ := mapM_projectTuple_eq_ok_iff.1 hrows
    refine ⟨hret, ⟨sorted, hsorted⟩, ?_⟩
    intro t ht
    -- the row of the tuple in the positional result is the row of a projected tuple
    obtain ⟨order, hperm, rfl⟩ := orderTuples_map_eq_ok hsorted
    obtain ⟨order', hperm', hrows'⟩ := hpos.rows
    have hmem : clause.items.map (fun item => cell (readExecutor store params).eval item.expr t) ∈
        order.map (projectedRow (readExecutor store params).eval clause.items) := by
      rw [← toQueryResult_projected]
      exact hrows' ▸ List.mem_map_of_mem (hperm'.mem_iff.2 ht)
    obtain ⟨u, -, hu⟩ := List.mem_map.1 hmem
    exact namesAgree_of_row_eq hu.symm
  · rintro ⟨hret, ⟨sorted, hsorted⟩, hnames⟩
    obtain ⟨order, hperm, rfl⟩ := orderTuples_map_eq_ok hsorted
    have hok : (ts.mapM (projectTuple (readExecutor store params).eval clause.items) >>=
        orderTuples (readExecutor store params).eval query.orderBy) =
          .ok (order.map (projected (readExecutor store params).eval clause.items)) := by
      rw [mapM_projectTuple_eq_ok_iff.2 ⟨hret, rfl⟩]
      exact hsorted
    refine ⟨toQueryResult (some (clause.items.map itemName))
      (order.map (projected (readExecutor store params).eval clause.items)), ?_, ?_, ?_⟩
    · rw [hrun, hok]
      rfl
    · refine ⟨by simp [toQueryResult], order, hperm, ?_⟩
      rw [toQueryResult_projected]
      apply List.map_congr_left
      intro t ht
      exact projectedRow_eq_iff.2 (hnames t (hperm.mem_iff.1 ht))
    · rw [hrun query.limit, hok]
      exact congrArg (fun r => (Except.ok r, store)) (toQueryResult_limit _ query.limit _)

/-! ### Two nodes -/

open InMemoryGraphStore (twoNodes)

/-- `MATCH (n)` with a RETURN list. -/
def matchReturn (items : List ReturnItem) : Query :=
  ⟨some ⟨[.node ⟨some "n", [], ∅⟩]⟩, none, none, none, some ⟨items⟩, none, none⟩

/-- The tuples of the two nodes. -/
def twoTuples : List Tuple :=
  twoNodes.scanAll.map fun n => bindNode ∅ "n" n.id n.properties

theorem sourceTuples_matchReturn (items : List ReturnItem) :
    sourceTuples (readExecutor twoNodes none) (matchReturn items) = .ok twoTuples := rfl

/-- `MATCH (n) RETURN n, n.name` is positional. -/
theorem projection_positional_two_columns :
    ReturnsPositional twoNodes none (matchReturn [⟨.ident "n", none⟩, ⟨.property "n" "name", none⟩])
      [⟨.ident "n", none⟩, ⟨.property "n" "name", none⟩] twoTuples := by
  refine (projection_positional_iff rfl rfl (by decide) (sourceTuples_matchReturn _)).2
    ⟨?_, ⟨_, rfl⟩, ?_⟩
  · intro t _ item hitem
    apply noPanic_evalExprWith
    rcases List.mem_pair.1 hitem with rfl | rfl <;> rfl
  · intro t _ item hitem item' hitem' hname
    rcases List.mem_pair.1 hitem with rfl | rfl <;> rcases List.mem_pair.1 hitem' with rfl | rfl
    · rfl
    · exact absurd hname (by decide)
    · exact absurd hname (by decide)
    · rfl

/-- `MATCH (n) RETURN 1, 2` returns 2 in both columns: each is named `?`. -/
theorem projection_not_positional :
    ¬ ReturnsPositional twoNodes none
      (matchReturn [⟨.literal (.int 1), none⟩, ⟨.literal (.int 2), none⟩])
      [⟨.literal (.int 1), none⟩, ⟨.literal (.int 2), none⟩] twoTuples := by
  rintro ⟨full, hfull, hpos, -⟩
  obtain ⟨order, hperm, hrows⟩ := hpos.rows
  have hrun : (executeQueryOnStore twoNodes none
      (matchReturn [⟨.literal (.int 1), none⟩, ⟨.literal (.int 2), none⟩])).1.map
        QueryResult.rows = .ok (List.replicate 2 [.number (.posInt 2), .number (.posInt 2)]) := by
    decide +kernel
  have hret : Except.ok full.rows = _ :=
    (congrArg (fun r => r.1.map QueryResult.rows) hfull).symm.trans hrun
  -- a positional result has a row that starts with 1
  cases order with
  | nil => exact absurd hperm.length_eq (by decide +kernel)
  | cons t order =>
    rw [hrows, List.map_cons] at hret
    have hcell : some (Json.number (.posInt 1)) = some (.number (.posInt 2)) :=
      congrArg (fun r => r.toOption.bind fun rows => rows.head?.bind List.head?) hret
    exact absurd hcell (by decide)

end KuzuEventBus
