import KuzuEventBus.Gql.AggregateColumns

/-!
# ORDER BY over the rows of a result

The planner puts `OrderBy` over the projection or the aggregation, so a key is evaluated on the
returned row, where only the columns are left; a key that is no column fails there and counts as
equal.  A row comes from one tuple, or from one group of tuples, on which the keys have the values
the query asks to sort by.

## Main definitions

* `returnUnits`, `unitRow` — the tuples or groups the rows come from, and their rows.
* `unitKeys` — the ORDER BY keys on a tuple or a group.
* `OrdersRows` — the returned rows are sorted by these keys, whatever order they come in.

## Main results

* `returnTuples_eq_units` — RETURN makes a row of each tuple or group.
* `orderBy_sorts_iff` — **the rows are sorted by their keys exactly if the comparison on the rows
  puts each two in the order their keys have**.
-/

namespace KuzuEventBus

open Comparators Grouping

/-! ### What the rows come from -/

/-- The aggregates of a RETURN list. -/
def aggregateItems (clause : ReturnClause) : List (String × Expr) :=
  (clause.items.filter (hasAggregate ·.expr)).map fun item => (aggregateAlias item, item.expr)

/-- The groups the rows come from; a projection has each tuple for itself. -/
def returnUnits (ev : Eval) (clause : ReturnClause) (ts : List Tuple) :
    Except Fault (List (List Tuple)) :=
  if clause.items.any (hasAggregate ·.expr) then
    if groupingItems clause = [] then .ok [ts]
    else (groupTuples ev (groupingItems clause) ts).map (·.values)
  else .ok (ts.map fun t => [t])

/-- The row of a group. -/
def unitRow (ev : Eval) (clause : ReturnClause) (u : List Tuple) : Except Fault Tuple :=
  if clause.items.any (hasAggregate ·.expr) then
    groupRow ev (groupingItems clause) (aggregateItems clause) u
  else projectTuple ev clause.items (u.headD ∅)

/-- The row of a group that has one. -/
def rowOf (ev : Eval) (clause : ReturnClause) (u : List Tuple) : Tuple :=
  (unitRow ev clause u).toOption.getD ∅

variable {ev : Eval} {clause : ReturnClause} {ts : List Tuple} {us : List (List Tuple)}

theorem groupRow_nil (aggregates : List (String × Expr)) (u : List Tuple) :
    groupRow ev [] aggregates u = (aggregateColumns ev aggregates u).map (∅ : Tuple).insertAll := by
  have hkeys : groupColumns ev [] u = .ok [] := by
    cases u <;> rfl
  rw [groupRow, hkeys]
  cases aggregateColumns ev aggregates u <;> rfl

/-- **RETURN makes a row of each tuple or group.** -/
theorem returnTuples_eq_units : returnTuples ev clause ts =
    returnUnits ev clause ts >>= fun us => us.mapM (unitRow ev clause) := by
  rw [returnTuples, returnUnits]
  by_cases hagg : clause.items.any (hasAggregate ·.expr) = true
  · have hrow : unitRow ev clause =
        groupRow ev (groupingItems clause) (aggregateItems clause) := by
      funext u
      rw [unitRow, if_pos hagg]
    rw [if_pos hagg, if_pos hagg, hrow]
    change aggregateTuples ev (groupingItems clause) (aggregateItems clause) ts = _
    by_cases hgroup : groupingItems clause = []
    · rw [hgroup, if_pos rfl]
      show _ = [ts].mapM (groupRow ev [] (aggregateItems clause))
      rw [List.mapM_cons, List.mapM_nil, groupRow_nil, aggregateTuples, if_pos (by rfl)]
      cases aggregateColumns ev (aggregateItems clause) ts <;> rfl
    · rw [if_neg hgroup, aggregateTuples_of_ne_nil hgroup]
      cases groupTuples ev (groupingItems clause) ts <;> rfl
  · rw [if_neg hagg, if_neg hagg]
    show _ = (ts.map fun t => [t]).mapM (unitRow ev clause)
    have hrow : ∀ t : Tuple, unitRow ev clause [t] = projectTuple ev clause.items t := by
      intro t
      rw [unitRow, if_neg hagg]
      rfl
    rw [List.mapM_map]
    exact mapM_congr fun t _ => (hrow t).symm

theorem mapM_unitRow (hrows : ∀ u ∈ us, ∃ row, unitRow ev clause u = .ok row) :
    us.mapM (unitRow ev clause) = .ok (us.map (rowOf ev clause)) := by
  apply mapM_eq_ok
  intro u hu
  obtain ⟨row, hrow⟩ := hrows u hu
  rw [rowOf, hrow]
  rfl

/-! ### The keys -/

/-- The ORDER BY items as keys of the tuples and groups. -/
def unitKeys (ev : Eval) (items : List OrderByItem) : List (Key (List Tuple)) :=
  items.map fun item => valueKey (fun u => (groupValue ev u item.expr).toOption) item.descending

/-- Each key is an integer on all of them, or a string on all of them. -/
def SortableKeys (ev : Eval) (items : List OrderByItem) (us : List (List Tuple)) : Prop :=
  ∀ item ∈ items, (∀ u ∈ us, ∃ i, groupValue ev u item.expr = .ok (.int i)) ∨
    ∀ u ∈ us, ∃ s, groupValue ev u item.expr = .ok (.string s)

theorem SortableKeys.mono {items : List OrderByItem} {us' : List (List Tuple)}
    (h : SortableKeys ev items us) (hsub : us' ⊆ us) : SortableKeys ev items us' := by
  intro item hitem
  rcases h item hitem with h | h
  · exact .inl fun u hu => h u (hsub hu)
  · exact .inr fun u hu => h u (hsub hu)

/-- Keys of one type on all of them compare all of them. -/
theorem comparable_unitKeys {items : List OrderByItem} (h : SortableKeys ev items us)
    {key : Key (List Tuple)} (hkey : key ∈ unitKeys ev items) {u v : List Tuple} (hu : u ∈ us)
    (hv : v ∈ us) : key.Comparable u v := by
  obtain ⟨item, hitem, rfl⟩ := List.mem_map.1 hkey
  show (sortKey (groupValue ev u item.expr).toOption).Comparable
    (sortKey (groupValue ev v item.expr).toOption)
  rcases h item hitem with h | h
  · obtain ⟨i, hi⟩ := h u hu
    obtain ⟨j, hj⟩ := h v hv
    rw [hi, hj]
    trivial
  · obtain ⟨s, hs⟩ := h u hu
    obtain ⟨s', hs'⟩ := h v hv
    rw [hs, hs']
    trivial

/-- Such keys put the tuples and groups in a total preorder. -/
theorem preorderOn_unitKeys {items : List OrderByItem} (h : SortableKeys ev items us) :
    PreorderOn (lexCmp (unitKeys ev items)) {u | u ∈ us} := by
  rw [preorderOn_lexCmp_iff]
  intro x hx y _ z hz
  rintro ⟨before, key, after, heq, -, -, hnot, -⟩
  have hkey : key ∈ unitKeys ev items := by
    rw [heq]
    exact List.mem_append_right before List.mem_cons_self
  exact hnot (comparable_unitKeys h hkey hx hz)

/-- The first is not behind the second. -/
def InKeyOrder (ev : Eval) (items : List OrderByItem) (u v : List Tuple) : Prop :=
  ¬ Precedes (unitKeys ev items) v u

theorem inKeyOrder_trans {items : List OrderByItem} (h : SortableKeys ev items us) :
    ∀ u ∈ us, ∀ v ∈ us, ∀ w ∈ us, InKeyOrder ev items u v → InKeyOrder ev items v w →
      InKeyOrder ev items u w := by
  intro u hu v hv w hw huv hvw
  have hle := (preorderOn_iff_isLE (lexCmp_swap _)).1 (preorderOn_unitKeys h)
  exact isLE_lexCmp_iff.1
    (hle u hu v hv w hw (isLE_lexCmp_iff.2 huv) (isLE_lexCmp_iff.2 hvw))

/-! ### The sorted rows -/

/-- The query without its ORDER BY returns a row of each tuple or group, and with it, in whatever
order they come, their rows in the order of the keys. -/
structure OrdersRows (store : InMemoryGraphStore) (params : Option (HashMap String Json))
    (query : Query) (clause : ReturnClause) (items : List OrderByItem) (us : List (List Tuple)) :
    Prop where
  unordered : executeQueryOnStore store params { query with orderBy := none } =
    (.ok (toQueryResult (returnNames clause) (limitTuples query.limit
      (us.map (rowOf (readExecutor store params).eval clause)))), store)
  sorts : ∀ us' : List (List Tuple), us'.Perm us → ∃ out,
    sortByRow (readExecutor store params).eval items
      (rowOf (readExecutor store params).eval clause) us' = .ok out ∧
    out.Perm us' ∧ out.Pairwise (InKeyOrder (readExecutor store params).eval items)
  ordered : ∃ out, sortByRow (readExecutor store params).eval items
      (rowOf (readExecutor store params).eval clause) us = .ok out ∧
    executeQueryOnStore store params query =
      (.ok (toQueryResult (returnNames clause) (limitTuples query.limit
        (out.map (rowOf (readExecutor store params).eval clause)))), store)

/-- The comparison of two rows returns, and puts them in the order their keys have. -/
def ComparesByKeys (ev : Eval) (clause : ReturnClause) (items : List OrderByItem)
    (u v : List Tuple) : Prop :=
  ∃ o, compareTuples ev (rowOf ev clause u) (rowOf ev clause v) items = .ok o ∧
    (Precedes (unitKeys ev items) u v → o ≠ .gt) ∧ (Precedes (unitKeys ev items) v u → o = .gt)

theorem comparesByKeys_iff_agrees {items : List OrderByItem} {u v : List Tuple} :
    ComparesByKeys ev clause items u v ↔
      Agrees (fun u v => compareTuples ev (rowOf ev clause u) (rowOf ev clause v) items)
        (InKeyOrder ev items) u v := by
  constructor
  · rintro ⟨o, ho, huv, hvu⟩
    exact ⟨o, ho, fun hgt hp => huv hp hgt, fun hne hp => hne (hvu hp)⟩
  · rintro ⟨o, ho, hgt, hne⟩
    refine ⟨o, ho, fun hp heq => hgt heq hp, ?_⟩
    intro hp
    by_contra h
    exact hne h hp

variable {store : InMemoryGraphStore} {params : Option (HashMap String Json)} {query : Query}
  {orderBy : OrderByClause}

theorem executeQueryOnStore_units (hread : query.createClause = none)
    (hreturn : query.returnClause = some clause)
    (hts : sourceTuples (readExecutor store params) query = .ok ts)
    (hus : returnUnits (readExecutor store params).eval clause ts = .ok us)
    (hrows : ∀ u ∈ us, ∃ row, unitRow (readExecutor store params).eval clause u = .ok row) :
    executeQueryOnStore store params query =
      ((orderTuples (readExecutor store params).eval query.orderBy
          (us.map (rowOf (readExecutor store params).eval clause))).map fun rows =>
        toQueryResult (returnNames clause) (limitTuples query.limit rows), store) := by
  have hreturned : returnTuples (readExecutor store params).eval clause ts =
      .ok (us.map (rowOf (readExecutor store params).eval clause)) := by
    rw [returnTuples_eq_units, hus]
    exact mapM_unitRow hrows
  rw [executeQueryOnStore_eq hread hreturn hts, hreturned]
  rfl

/-- **ORDER BY sorts by its keys exactly if the comparison of any two returned rows returns and puts
them in the order which the keys have on the tuples or groups the rows come from.** -/
theorem orderBy_sorts_iff (hread : query.createClause = none)
    (hreturn : query.returnClause = some clause) (horder : query.orderBy = some orderBy)
    (hts : sourceTuples (readExecutor store params) query = .ok ts)
    (hus : returnUnits (readExecutor store params).eval clause ts = .ok us)
    (hrows : ∀ u ∈ us, ∃ row, unitRow (readExecutor store params).eval clause u = .ok row)
    (hkeys : SortableKeys (readExecutor store params).eval orderBy.items us) :
    OrdersRows store params query clause orderBy.items us ↔
      ∀ u v, List.Subperm [u, v] us →
        ComparesByKeys (readExecutor store params).eval clause orderBy.items u v := by
  have hsort : (∀ us' : List (List Tuple), us'.Perm us → ∃ out,
      sortByRow (readExecutor store params).eval orderBy.items
        (rowOf (readExecutor store params).eval clause) us' = .ok out ∧
      out.Pairwise (InKeyOrder (readExecutor store params).eval orderBy.items)) ↔ _ :=
    forall_perm_sortE_iff (inKeyOrder_trans hkeys)
  simp only [comparesByKeys_iff_agrees]
  rw [← hsort]
  constructor
  · intro h us' hperm
    obtain ⟨out, hout, -, hpair⟩ := h.sorts us' hperm
    exact ⟨out, hout, hpair⟩
  · intro h
    refine ⟨?_, ?_, ?_⟩
    · have hrun : executeQueryOnStore store params { query with orderBy := none } = _ :=
        executeQueryOnStore_units hread hreturn hts hus hrows
      exact hrun
    · intro us' hperm
      obtain ⟨out, hout, hpair⟩ := h us' hperm
      exact ⟨out, hout, sortE_perm hout, hpair⟩
    · obtain ⟨out, hout, -⟩ := h us (List.Perm.refl us)
      refine ⟨out, hout, ?_⟩
      rw [executeQueryOnStore_units hread hreturn hts hus hrows, horder, orderTuples,
        sortTuples_map, hout]
      rfl

/-! ### Keys that are columns -/

section Columns

variable {ex : Executor} {items : List OrderByItem} {t t' : Tuple}

/-- The key of an item is a column of the RETURN list, and no other expression has that column. -/
def IsColumn (clause : ReturnClause) (item : OrderByItem) : Prop :=
  ∃ column, columnOf item.expr = some column ∧
    (∃ r ∈ clause.items, r.expr = item.expr ∧ itemName r = column) ∧
    ∀ r ∈ clause.items, itemName r = column → r.expr = item.expr

/-- A key that is a column has the same value on the tuple and on its row. -/
theorem eval_projected {item : OrderByItem} (hcolumn : IsColumn clause item) {v : Value}
    (hv : ex.eval item.expr t = .ok v) :
    ex.eval item.expr (projected ex.eval clause.items t) = .ok v := by
  obtain ⟨column, hkey, ⟨r, hr, hexpr, hname⟩, honly⟩ := hcolumn
  rw [eval_eq_ok_iff_lookup hkey]
  have hmem : (column, v) ∈ namedValues ex.eval clause.items t :=
    mem_namedValues.2 ⟨r, hr, hname, by rw [hexpr, hv]⟩
  cases hlookup : (projected ex.eval clause.items t).lookup column with
  | none => exact absurd rfl ((AList.lookup_insertAll_eq_none.1 hlookup).2 _ hmem)
  | some w =>
    -- the value of that column comes from the same expression
    have hw := (AList.lookup_insertAll_eq_some hlookup).resolve_right (by simp)
    obtain ⟨r', hr', hname', hval⟩ := mem_namedValues.1 hw
    rw [honly r' hr' hname', hv] at hval
    exact congrArg some (Except.ok.inj hval).symm

theorem groupValue_singleton {e : Expr} {column : String} (h : columnOf e = some column) :
    groupValue ev [t] e = ev e t := by
  cases e with
  | ident name => rfl
  | property var prop => rfl
  | _ => cases h

theorem lexCmp_projected (hcolumns : ∀ item ∈ items, IsColumn clause item)
    (hv : ∀ item ∈ items, ∃ v, ex.eval item.expr t = .ok v)
    (hv' : ∀ item ∈ items, ∃ v, ex.eval item.expr t' = .ok v) :
    lexCmp (itemKeys ex.eval items) (projected ex.eval clause.items t)
        (projected ex.eval clause.items t') =
      lexCmp (unitKeys ex.eval items) [t] [t'] := by
  induction items with
  | nil => rfl
  | cons item items ih =>
    rw [List.forall_mem_cons] at hcolumns hv hv'
    obtain ⟨v, hv₁⟩ := hv.1
    obtain ⟨w, hw₁⟩ := hv'.1
    obtain ⟨column, hkey, -⟩ := hcolumns.1
    have hcmp : (itemKey ex.eval item).cmp (projected ex.eval clause.items t)
        (projected ex.eval clause.items t') =
          directed item.descending ((sortKey (some v)).cmp (sortKey (some w))) := by
      show directed _ ((sortKey (ex.eval _ _).toOption).cmp (sortKey (ex.eval _ _).toOption)) = _
      rw [eval_projected hcolumns.1 hv₁, eval_projected hcolumns.1 hw₁]
      rfl
    rw [itemKeys_cons, lexCmp, hcmp, ih hcolumns.2 hv.2 hv'.2]
    show _ = (directed _ ((sortKey (groupValue _ [t] _).toOption).cmp
      (sortKey (groupValue _ [t'] _).toOption))).then _
    rw [groupValue_singleton hkey, groupValue_singleton hkey, hv₁, hw₁]
    rfl

/-- **Keys that are columns sort the rows of a projection.** -/
theorem comparesByKeys_of_columns (hagg : ∀ item ∈ clause.items, hasAggregate item.expr = false)
    (hret : ∀ item ∈ clause.items, NoPanic (ex.eval item.expr t))
    (hret' : ∀ item ∈ clause.items, NoPanic (ex.eval item.expr t'))
    (hcolumns : ∀ item ∈ items, IsColumn clause item)
    (hkeys : SortableKeys ex.eval items [[t], [t']]) :
    ComparesByKeys ex.eval clause items [t] [t'] := by
  have hrow : ∀ u : Tuple, (∀ item ∈ clause.items, NoPanic (ex.eval item.expr u)) →
      rowOf ex.eval clause [u] = projected ex.eval clause.items u := by
    intro u hu
    rw [rowOf, unitRow, if_neg (by simpa using hagg)]
    show (projectTuple ex.eval clause.items u).toOption.getD ∅ = _
    rw [projectTuple_of_noPanic hu]
    rfl
  have hvalue : ∀ u ∈ [t, t'], ∀ item ∈ items, ∃ v, ex.eval item.expr u = .ok v ∧
      ∀ f, v ≠ .float f := by
    intro u hu item hitem
    obtain ⟨column, hkey, -⟩ := hcolumns item hitem
    have hmem : [u] ∈ [[t], [t']] := by simpa using hu
    rcases hkeys item hitem with h | h
    · obtain ⟨i, hi⟩ := h [u] hmem
      exact ⟨.int i, (groupValue_singleton hkey).symm.trans hi, nofun⟩
    · obtain ⟨s, hs⟩ := h [u] hmem
      exact ⟨.string s, (groupValue_singleton hkey).symm.trans hs, nofun⟩
  have hkeysReturn : ∀ u ∈ [t, t'],
      KeysReturn ex.eval items (projected ex.eval clause.items u) := by
    intro u hu item hitem
    obtain ⟨v, hv, -⟩ := hvalue u hu item hitem
    rw [eval_projected (hcolumns item hitem) hv]
    exact .ok v
  have hnoFloat : NoFloatKeys ex.eval items (projected ex.eval clause.items t) := by
    intro item hitem f hf
    obtain ⟨v, hv, hne⟩ := hvalue t (by simp) item hitem
    rw [eval_projected (hcolumns item hitem) hv] at hf
    exact hne f (Except.ok.inj hf)
  have hcmp := compareTuples_eq_lexCmp (hkeysReturn t (by simp)) (hkeysReturn t' (by simp)) hnoFloat
  rw [lexCmp_projected hcolumns
    (fun item hitem => (hvalue t (by simp) item hitem).imp fun _ h => h.1)
    (fun item hitem => (hvalue t' (by simp) item hitem).imp fun _ h => h.1)] at hcmp
  refine ⟨_, by rw [hrow t hret, hrow t' hret', hcmp], ?_, ?_⟩
  · intro h
    rw [← lexCmp_eq_lt_iff] at h
    rw [h]
    simp
  · intro h
    rw [← lexCmp_eq_lt_iff] at h
    rw [lexCmp_swap _ [t'] [t], h]
    rfl

end Columns

/-! ### Two people -/

/-- Two nodes, aged 30 and 25. -/
def twoPeople : InMemoryGraphStore :=
  ((InMemoryGraphStore.new.applyWrites
    [.node [] ((∅ : Properties).insert "age" (.int 30)),
      .node [] ((∅ : Properties).insert "age" (.int 25))]).toOption).getD .new

/-- The tuple of a person. -/
def person (id : NodeId) (age : Int64) : Tuple :=
  bindNode ∅ "n" id ((∅ : Properties).insert "age" (.int age))

/-- `MATCH (n)` with a RETURN list, `ORDER BY n.age`. -/
def matchOrdered (items : List ReturnItem) : Query :=
  { matchReturn items with orderBy := some ⟨byAge⟩ }

theorem sourceTuples_matchOrdered (items : List ReturnItem) :
    sourceTuples (readExecutor twoPeople none) (matchOrdered items) =
      .ok [person 2 25, person 1 30] := rfl

theorem eval_person (ex : Executor) (id : NodeId) (age : Int64) :
    ex.eval (.property "n" "age") (person id age) = .ok (.int age) := by
  have hcolumn : columnOf (.property "n" "age") = some (propKey "n" "age") := rfl
  rw [eval_eq_ok_iff_lookup hcolumn, person, lookup_bindNode_propKey, AList.lookup_insert]
  rfl

theorem sortableKeys_people (ex : Executor) :
    SortableKeys ex.eval byAge [[person 2 25], [person 1 30]] := by
  intro item hitem
  obtain rfl := List.mem_singleton.1 hitem
  left
  intro u hu
  rcases List.mem_pair.1 hu with rfl | rfl
  · exact ⟨25, eval_person ex 2 25⟩
  · exact ⟨30, eval_person ex 1 30⟩

/-- `MATCH (n) RETURN n.age ORDER BY n.age` is sorted. -/
theorem orderBy_sorts_ages :
    OrdersRows twoPeople none (matchOrdered [⟨.property "n" "age", none⟩])
      ⟨[⟨.property "n" "age", none⟩]⟩ byAge [[person 2 25], [person 1 30]] := by
  have hret : ∀ t, ∀ item ∈ [(⟨.property "n" "age", none⟩ : ReturnItem)],
      NoPanic ((readExecutor twoPeople none).eval item.expr t) := by
    intro t item hitem
    obtain rfl := List.mem_singleton.1 hitem
    exact noPanic_evalExprWith t rfl
  refine (orderBy_sorts_iff rfl rfl rfl (sourceTuples_matchOrdered _) rfl ?_
    (sortableKeys_people _)).2 ?_
  · intro u hu
    rcases List.mem_pair.1 hu with rfl | rfl <;>
      exact ⟨_, projectTuple_of_noPanic (hret _)⟩
  · intro u v huv
    have hsingle : ∀ w ∈ [u, v], ∃ t, w = [t] := by
      intro w hw
      rcases List.mem_pair.1 (huv.subset hw) with h | h <;> exact ⟨_, h⟩
    obtain ⟨t, rfl⟩ := hsingle u (by simp)
    obtain ⟨t', rfl⟩ := hsingle v (by simp)
    refine comparesByKeys_of_columns (by simp [hasAggregate]) (hret t) (hret t') ?_
      ((sortableKeys_people _).mono huv.subset)
    intro item hitem
    obtain rfl := List.mem_singleton.1 hitem
    exact ⟨"n.age", rfl, ⟨_, List.mem_cons_self, rfl, rfl⟩, by simp⟩

/-- `MATCH (n) RETURN n ORDER BY n.age` is not sorted: the rows have no ages. -/
theorem orderBy_not_sorted :
    ¬ OrdersRows twoPeople none (matchOrdered [⟨.ident "n", none⟩]) ⟨[⟨.ident "n", none⟩]⟩ byAge
      [[person 2 25], [person 1 30]] := by
  intro h
  obtain ⟨out, hout, -, hpair⟩ := h.sorts [[person 1 30], [person 2 25]] (List.Perm.swap _ _ _)
  obtain ⟨o, ho, -, hle⟩ := agrees_of_sortE_pair hout hpair
  have hcmp : compareTuples (readExecutor twoPeople none).eval
      (rowOf (readExecutor twoPeople none).eval ⟨[⟨.ident "n", none⟩]⟩ [person 1 30])
      (rowOf (readExecutor twoPeople none).eval ⟨[⟨.ident "n", none⟩]⟩ [person 2 25]) byAge =
        .ok .eq := by
    decide +kernel
  -- the rows are equal to the comparison, the ages are not
  obtain rfl := Except.ok.inj (ho.symm.trans hcmp)
  apply hle nofun
  rw [← lexCmp_eq_lt_iff]
  decide +kernel

end KuzuEventBus
