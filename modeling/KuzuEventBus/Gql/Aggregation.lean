import KuzuEventBus.Gql.Projection
import KuzuEventBus.Lib.Grouping

/-!
# Aggregation

Aggregates over groups of tuples.  A tuple is grouped under the JSON of the grouping
expressions; unlike in a projection, where a missing property becomes null, a grouping
expression that fails on one tuple fails the whole query.

## Main definitions

* `columnOf` — the column a variable or a property reads.
* `groupingValues` — the values a tuple is grouped by, null where they are missing.
* `CountsGroups` — the rows count the parts of a partition of the tuples.

## Main results

* `groupTuples_eq_ok_iff` — grouping returns the groups of the loop, where every grouping
  expression has a value.
* `aggregate_counts_groups_iff` — **grouping partitions the rows exactly if every grouping
  expression is bound in every tuple**.
-/

namespace KuzuEventBus

open Grouping

/-! ### Groups -/

variable {ev : Eval} {groupBy : List Expr} {ts : List Tuple} {t : Tuple}

/-- The values a tuple is grouped by, null where they are missing. -/
def groupingValues (ev : Eval) (groupBy : List Expr) (t : Tuple) : List Value :=
  groupBy.map fun e => (ev e t).toOption.getD .null

/-- The key a tuple is grouped under, where every grouping expression has a value. -/
def groupingCells (ev : Eval) (groupBy : List Expr) (t : Tuple) : List Json :=
  groupBy.map fun e => cell ev e t

theorem groupKey_eq_ok_iff {key : List Json} : groupKey ev groupBy t = .ok key ↔
    (∀ e ∈ groupBy, ∃ v, ev e t = .ok v) ∧ key = groupingCells ev groupBy t := by
  have hcells : (∀ e ∈ groupBy, ∃ v, ev e t = .ok v) →
      groupKey ev groupBy t = .ok (groupingCells ev groupBy t) := by
    intro h
    apply mapM_eq_ok
    intro e he
    obtain ⟨v, hv⟩ := h e he
    rw [cell, hv]
    rfl
  constructor
  · intro h
    have hvalues : ∀ e ∈ groupBy, ∃ v, ev e t = .ok v := by
      intro e he
      obtain ⟨c, hc⟩ := exists_of_mapM_eq_ok h e he
      obtain ⟨v, hv, -⟩ := bind_eq_ok hc
      exact ⟨v, hv⟩
    rw [hcells hvalues] at h
    exact ⟨hvalues, (Except.ok.inj h).symm⟩
  · rintro ⟨hvalues, rfl⟩
    exact hcells hvalues

/-- **Grouping returns the groups by key, where every grouping expression has a value.** -/
theorem groupTuples_eq_ok_iff {groups : HashMap (List Json) (List Tuple)} :
    groupTuples ev groupBy ts = .ok groups ↔
      (∀ t ∈ ts, ∀ e ∈ groupBy, ∃ v, ev e t = .ok v) ∧
        groups = groupOn (groupingCells ev groupBy) ts := by
  rw [groupTuples, groupOn]
  generalize (∅ : HashMap (List Json) (List Tuple)) = m
  induction ts generalizing m with
  | nil =>
    rw [List.foldlM_nil, List.foldl_nil]
    simp [pure, Except.pure, eq_comm]
  | cons t ts ih =>
    rw [List.foldlM_cons, List.forall_mem_cons, List.foldl_cons]
    constructor
    · intro h
      obtain ⟨m', hm', h⟩ := bind_eq_ok h
      obtain ⟨key, hkey, hpush⟩ := bind_eq_ok hm'
      obtain ⟨hvalues, rfl⟩ := groupKey_eq_ok_iff.1 hkey
      cases hpush
      obtain ⟨hrest, rfl⟩ := (ih _).1 h
      exact ⟨⟨hvalues, hrest⟩, rfl⟩
    · rintro ⟨⟨hvalues, hrest⟩, rfl⟩
      rw [groupKey_eq_ok_iff.2 ⟨hvalues, rfl⟩]
      exact (ih _).2 ⟨hrest, rfl⟩

/-- The row of a group. -/
def groupRow (ev : Eval) (groupBy : List Expr) (aggregates : List (String × Expr))
    (g : List Tuple) : Except Fault Tuple := do
  let keys ← groupColumns ev groupBy g
  let columns ← aggregateColumns ev aggregates g
  pure ((∅ : Tuple).insertAll (keys ++ columns))

/-- With grouping expressions there is a row for each group. -/
theorem aggregateTuples_of_ne_nil (hgroup : groupBy ≠ []) (aggregates : List (String × Expr)) :
    aggregateTuples ev groupBy aggregates ts =
      groupTuples ev groupBy ts >>= fun groups =>
        groups.values.mapM (groupRow ev groupBy aggregates) := by
  rw [aggregateTuples, if_neg (by simpa using hgroup)]
  rfl

/-- The grouping columns of a group are there where every grouping expression has a value. -/
theorem groupColumns_isOk {g : List Tuple} (h : ∀ t ∈ g, ∀ e ∈ groupBy, ∃ v, ev e t = .ok v) :
    ∃ columns, groupColumns ev groupBy g = .ok columns := by
  rw [groupColumns]
  cases g with
  | nil => exact ⟨[], rfl⟩
  | cons first g =>
    apply exists_mapM_eq_ok
    intro ei hei
    obtain ⟨v, hv⟩ := h first List.mem_cons_self ei.1 (List.fst_mem_of_mem_zipIdx hei)
    exact ⟨(groupColumn ei.2 ei.1, v), by rw [hv]; rfl⟩

/-! ### Variables and properties -/

/-- The column a variable or a property reads. -/
def columnOf : Expr → Option String
  | .ident name => some name
  | .property var prop => some (propKey var prop)
  | _ => none

/-- A variable or a property has the value of its column. -/
theorem eval_eq_ok_iff_lookup {ex : Executor} {e : Expr} {column : String}
    (h : columnOf e = some column) {v : Value} :
    ex.eval e t = .ok v ↔ t.lookup column = some v := by
  cases e with
  | ident name =>
    obtain rfl := Option.some.inj h
    rw [Executor.eval, evalExpr, evalExprWith]
    cases t.lookup name <;> simp [invalidArgument]
  | property var prop =>
    obtain rfl := Option.some.inj h
    rw [Executor.eval, evalExpr, evalExprWith]
    cases t.lookup (propKey var prop) <;> simp [invalidArgument]
  | _ => cases h

/-- Values that a segment can hold are told apart by their JSON. -/
theorem toJson_inj {v w : Value} (hv : v.Storable) (hw : w.Storable) (h : v.toJson = w.toJson) :
    v = w := by
  have hback := congrArg Value.fromJson h
  rw [Value.fromJson_toJson hv, Value.fromJson_toJson hw] at hback
  exact Option.some.inj hback

/-- Tuples with equal keys have equal grouping values. -/
theorem groupingCells_eq_iff {u : Tuple}
    (ht : ∀ e ∈ groupBy, ((ev e t).toOption.getD .null).Storable)
    (hu : ∀ e ∈ groupBy, ((ev e u).toOption.getD .null).Storable) :
    groupingCells ev groupBy t = groupingCells ev groupBy u ↔
      groupingValues ev groupBy t = groupingValues ev groupBy u := by
  rw [groupingCells, groupingCells, groupingValues, groupingValues, List.map_inj_left,
    List.map_inj_left]
  constructor
  · intro h e he
    exact toJson_inj (ht e he) (hu e he) (h e he)
  · intro h e he
    rw [cell, cell, h e he]

/-! ### Counting -/

/-- The rows count the groups of a partition of the tuples by their grouping values: each row holds
the size of its group under the name of each COUNT, and the sizes add up. -/
def CountsGroups (ev : Eval) (groupBy : List Expr) (aggregates : List (String × Expr))
    (ts rows : List Tuple) : Prop :=
  ∃ groups : List (List Tuple), IsPartition (groupingValues ev groupBy) ts groups ∧
    List.Forall₂ (fun g row => ∀ a ∈ aggregates,
      AList.lookup a.1 row = some (.int (Int64.ofNat g.length))) groups rows ∧
    (groups.map List.length).sum = ts.length

/-- The columns of some COUNTs over a group. -/
theorem aggregateColumns_count {aggregates : List (String × Expr)}
    (hcount : ∀ a ∈ aggregates, ∃ arg, a.2 = .aggregate .count arg) (g : List Tuple) :
    aggregateColumns ev aggregates g =
      .ok (aggregates.map fun a => (a.1, .int (Int64.ofNat g.length))) := by
  apply mapM_eq_ok
  intro a ha
  obtain ⟨arg, harg⟩ := hcount a ha
  rw [harg]
  rfl

/-- The COUNT columns win over the grouping columns, and each of one name holds the same count. -/
theorem lookup_count {aggregates : List (String × Expr)} {columns : List (String × Value)}
    {v : Value} {a : String × Expr} (ha : a ∈ aggregates) :
    ((∅ : Tuple).insertAll (columns ++ aggregates.map fun a => (a.1, v))).lookup a.1 = some v := by
  rw [AList.insertAll, List.foldl_append]
  change (AList.insertAll (AList.insertAll ∅ columns)
    (aggregates.map fun a => (a.1, v))).lookup a.1 = _
  rw [AList.lookup_insertAll]
  cases hlookup : ((∅ : Tuple).insertAll (aggregates.map fun a => (a.1, v))).lookup a.1 with
  | none =>
    have hnone := (AList.lookup_insertAll_eq_none.1 hlookup).2
    exact absurd rfl (hnone (a.1, v) (List.mem_map_of_mem (f := fun a => (a.1, v)) ha))
  | some w =>
    have hmem := (AList.lookup_insertAll_eq_some hlookup).resolve_right (by simp)
    obtain ⟨b, -, hb⟩ := List.mem_map.1 hmem
    rw [(Prod.mk.inj hb).2]
    rfl

/-- The row of a group under some COUNTs. -/
theorem groupRow_count {aggregates : List (String × Expr)} {g : List Tuple}
    (hcount : ∀ a ∈ aggregates, ∃ arg, a.2 = .aggregate .count arg)
    (hvalues : ∀ t ∈ g, ∀ e ∈ groupBy, ∃ v, ev e t = .ok v) :
    ∃ row, groupRow ev groupBy aggregates g = .ok row ∧
      ∀ a ∈ aggregates, AList.lookup a.1 row = some (.int (Int64.ofNat g.length)) := by
  obtain ⟨columns, hcolumns⟩ := groupColumns_isOk hvalues
  refine ⟨(∅ : Tuple).insertAll (columns ++
    aggregates.map fun a => (a.1, .int (Int64.ofNat g.length))), ?_, ?_⟩
  · rw [groupRow, hcolumns, aggregateColumns_count hcount]
    rfl
  · intro a ha
    exact lookup_count ha

/-- The rows of an aggregation of COUNTs, one for each group. -/
theorem aggregateTuples_count {aggregates : List (String × Expr)} (hgroup : groupBy ≠ [])
    (hcount : ∀ a ∈ aggregates, ∃ arg, a.2 = .aggregate .count arg)
    (hvalues : ∀ t ∈ ts, ∀ e ∈ groupBy, ∃ v, ev e t = .ok v) :
    ∃ rows, aggregateTuples ev groupBy aggregates ts = .ok rows ∧
      List.Forall₂ (fun g row => ∀ a ∈ aggregates,
        AList.lookup a.1 row = some (.int (Int64.ofNat g.length)))
          (groupOn (groupingCells ev groupBy) ts).values rows := by
  have hgroups : ∀ g ∈ (groupOn (groupingCells ev groupBy) ts).values, ∀ t ∈ g, t ∈ ts := by
    intro g hg t ht
    exact (isPartition_groupOn (groupingCells ev groupBy) ts).flatten.mem_iff.1
      (List.mem_flatten.2 ⟨g, hg, ht⟩)
  rw [aggregateTuples_of_ne_nil hgroup, groupTuples_eq_ok_iff.2 ⟨hvalues, rfl⟩]
  show ∃ rows, (groupOn (groupingCells ev groupBy) ts).values.mapM
    (groupRow ev groupBy aggregates) = Except.ok rows ∧ _
  generalize (groupOn (groupingCells ev groupBy) ts).values = groups at hgroups
  induction groups with
  | nil => exact ⟨[], rfl, .nil⟩
  | cons g groups ih =>
    obtain ⟨hg, hgroups⟩ := List.forall_mem_cons.1 hgroups
    obtain ⟨row, hrow, hlookup⟩ := groupRow_count hcount fun t ht => hvalues t (hg t ht)
    obtain ⟨rows, hrows, hforall⟩ := ih hgroups
    exact ⟨row :: rows, by rw [List.mapM_cons, hrow, hrows]; rfl, .cons hlookup hforall⟩

/-- **Grouping by variables and properties partitions the rows exactly if each of them is bound in
every tuple.** -/
theorem aggregate_counts_groups_iff {ex : Executor} {aggregates : List (String × Expr)}
    (hgroup : groupBy ≠ []) (hcolumns : ∀ e ∈ groupBy, ∃ column, columnOf e = some column)
    (hcount : ∀ a ∈ aggregates, ∃ arg, a.2 = .aggregate .count arg)
    (hvalues : ∀ t ∈ ts, ∀ (column : String) (v : Value),
      t.lookup column = some v → v.Storable) :
    (∃ rows, aggregateTuples ex.eval groupBy aggregates ts = .ok rows ∧
      CountsGroups ex.eval groupBy aggregates ts rows) ↔
      ∀ t ∈ ts, ∀ e ∈ groupBy, ∀ column, columnOf e = some column →
        ∃ v, t.lookup column = some v := by
  have hstorable : ∀ t ∈ ts, ∀ e ∈ groupBy,
      ((ex.eval e t).toOption.getD .null).Storable := by
    intro t ht e he
    obtain ⟨column, hcolumn⟩ := hcolumns e he
    cases hv : ex.eval e t with
    | ok v => exact hvalues t ht column v ((eval_eq_ok_iff_lookup hcolumn).1 hv)
    | error e => trivial
  constructor
  · rintro ⟨rows, hrows, -⟩ t ht e he column hcolumn
    rw [aggregateTuples_of_ne_nil hgroup] at hrows
    obtain ⟨groups, hgroups, -⟩ := bind_eq_ok hrows
    obtain ⟨v, hv⟩ := (groupTuples_eq_ok_iff.1 hgroups).1 t ht e he
    exact ⟨v, (eval_eq_ok_iff_lookup hcolumn).1 hv⟩
  · intro hbound
    have hev : ∀ t ∈ ts, ∀ e ∈ groupBy, ∃ v, ex.eval e t = .ok v := by
      intro t ht e he
      obtain ⟨column, hcolumn⟩ := hcolumns e he
      obtain ⟨v, hv⟩ := hbound t ht e he column hcolumn
      exact ⟨v, (eval_eq_ok_iff_lookup hcolumn).2 hv⟩
    obtain ⟨rows, hrows, hforall⟩ := aggregateTuples_count hgroup hcount hev
    -- the JSON of the grouping values tells them apart
    have hpart : IsPartition (groupingValues ex.eval groupBy) ts
        (groupOn (groupingCells ex.eval groupBy) ts).values :=
      (isPartition_groupOn _ ts).congr fun t ht u hu =>
        groupingCells_eq_iff (hstorable t ht) (hstorable u hu)
    exact ⟨rows, hrows, _, hpart, hforall, hpart.sum_length⟩

/-- A tuple with a city. -/
def inCity (city : String) : Tuple := (∅ : Tuple).insert "n.city" (.string city)

/-- `RETURN n.city, COUNT(n)` over three tuples with a city. -/
theorem aggregate_counts_groups_cities :
    ∃ rows, aggregateTuples (Executor.eval .newNoRead) [.property "n" "city"]
        [("count", .aggregate .count (.ident "n"))]
        [inCity "Paris", inCity "Rome", inCity "Paris"] = .ok rows ∧
      CountsGroups (Executor.eval .newNoRead) [.property "n" "city"]
        [("count", .aggregate .count (.ident "n"))]
        [inCity "Paris", inCity "Rome", inCity "Paris"] rows := by
  have hlookup : ∀ city column v, (inCity city).lookup column = some v →
      column = "n.city" ∧ v = .string city := by
    intro city column v h
    rw [inCity, AList.lookup_insert_eq] at h
    split at h
    · next heq => exact ⟨heq, (Option.some.inj h).symm⟩
    · cases h
  refine (aggregate_counts_groups_iff (by simp) ?_ ?_ ?_).2 ?_
  · intro e he
    obtain rfl := List.mem_singleton.1 he
    exact ⟨"n.city", rfl⟩
  · intro a ha
    obtain rfl := List.mem_singleton.1 ha
    exact ⟨.ident "n", rfl⟩
  · intro t ht column v h
    simp only [List.mem_cons, List.not_mem_nil, or_false] at ht
    rcases ht with rfl | rfl | rfl <;> rw [(hlookup _ _ _ h).2] <;> trivial
  · intro t ht e he column hcolumn
    obtain rfl := List.mem_singleton.1 he
    obtain rfl := Option.some.inj hcolumn
    simp only [List.mem_cons, List.not_mem_nil, or_false] at ht
    rcases ht with rfl | rfl | rfl <;> exact ⟨_, AList.lookup_insert _⟩

/-- One tuple without a city fails the whole query. -/
theorem aggregate_missing_city :
    ¬ ∃ rows, aggregateTuples (Executor.eval .newNoRead) [.property "n" "city"]
        [("count", .aggregate .count (.ident "n"))] [inCity "Paris", ∅] = .ok rows ∧
      CountsGroups (Executor.eval .newNoRead) [.property "n" "city"]
        [("count", .aggregate .count (.ident "n"))] [inCity "Paris", ∅] rows := by
  rintro ⟨rows, hrows, -⟩
  have hfail : aggregateTuples (Executor.eval .newNoRead) [.property "n" "city"]
      [("count", .aggregate .count (.ident "n"))] [inCity "Paris", ∅] =
        invalidArgument "property not found: n.city" := rfl
  rw [hfail] at hrows
  cases hrows

end KuzuEventBus
