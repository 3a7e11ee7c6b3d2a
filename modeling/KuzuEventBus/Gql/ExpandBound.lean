import KuzuEventBus.Gql.Executor

/-!
# Expand with a bound end variable

An Expand whose `to_var` is bound should join: keep the neighbours that are the
bound node.  The operator does the opposite.  It passes over exactly those
neighbours and rebinds `to_var` to every other one, so it joins correctly only
where it finds no neighbour at all.

## Main definitions

* `tupleTargets` — the neighbour occurrences Expand draws from for a tuple.
* `JoinsBound` — what a join with the bound node outputs.
* `overwritten` — the value an edge's own bindings leave at `to_var`.

## Main results

* `expandTuple_joinsBound_iff` — when Expand joins.
* `executeNode_expand_joinsBound_iff` — the same for the operator in any plan.
-/

namespace KuzuEventBus

variable (store : InMemoryGraphStore) (spec : ExpandSpec) (tuple : Tuple) (m : NodeId)

/-- The neighbour occurrences Expand draws from for a tuple. -/
def tupleTargets : List (Option Edge × Node) :=
  ((boundNode tuple spec.fromVar).map (expandTargets store spec)).getD []

/-- The outputs of a join with the node `m` bound to `to_var`: one for each neighbour
occurrence equal to `m`, with `to_var` bound to `m`. -/
structure JoinsBound (out : List Tuple) : Prop where
  count : out.length = (tupleTargets store spec tuple).countP (·.2.id = m)
  bound : ∀ t ∈ out, t.lookup spec.toVar = some (.nodeId m)

/-- The value the bindings of the edge variable leave at `to_var`, if they touch it. -/
def overwritten (target : Option Edge × Node) : Option Value :=
  match target.1, spec.edgeVar with
  | some edge, some var => ((∅ : Tuple).insertAll (edgeBindings var edge)).lookup spec.toVar
  | _, _ => none

/-- The end variable of an extended tuple. -/
theorem lookup_extendTuple_toVar (target : Option Edge × Node) :
    (extendTuple spec tuple target).lookup spec.toVar =
      some ((overwritten spec target).getD (.nodeId target.2.id)) := by
  have hself := lookup_bindNode_self tuple spec.toVar target.2.id target.2.properties
  unfold extendTuple overwritten
  rcases target with ⟨_ | edge, node⟩
  · exact hself
  · cases spec.edgeVar with
    | none => exact hself
    | some var =>
      simp only [bindEdge]
      rw [AList.lookup_insertAll, hself]
      cases ((∅ : Tuple).insertAll (edgeBindings var edge)).lookup spec.toVar <;> rfl

theorem expandTuple_of_bound (hbound : tuple.lookup spec.toVar = some (.nodeId m)) :
    expandTuple store spec tuple =
      ((tupleTargets store spec tuple).filter (·.2.id ≠ m)).map (extendTuple spec tuple) := by
  have hto : boundNode tuple spec.toVar = some m := boundNode_eq_some.mpr hbound
  unfold expandTuple tupleTargets
  cases boundNode tuple spec.fromVar with
  | none => rfl
  | some fromId =>
    rw [hto]
    simp only [Option.map_some, Option.getD_some]
    congr 1
    apply List.filter_congr
    intro target _
    by_cases h : target.2.id = m
    · simp [h]
    · simp [h, Ne.symm h]

/-- **When Expand joins with a bound end variable**: exactly where every neighbour
other than `m` comes over an edge whose own bindings put `m` back, and there are
as many of those as there are occurrences of `m`. -/
theorem expandTuple_joinsBound_iff (hbound : tuple.lookup spec.toVar = some (.nodeId m)) :
    JoinsBound store spec tuple m (expandTuple store spec tuple) ↔
      (tupleTargets store spec tuple).countP (·.2.id ≠ m) =
          (tupleTargets store spec tuple).countP (·.2.id = m) ∧
        ∀ target ∈ tupleTargets store spec tuple, target.2.id ≠ m →
          overwritten spec target = some (.nodeId m) := by
  have hout := expandTuple_of_bound store spec tuple m hbound
  have hlen : (expandTuple store spec tuple).length =
      (tupleTargets store spec tuple).countP (·.2.id ≠ m) := by
    rw [hout, List.length_map, List.countP_eq_length_filter]
  have hval : ∀ target : Option Edge × Node, target.2.id ≠ m →
      ((extendTuple spec tuple target).lookup spec.toVar = some (.nodeId m) ↔
        overwritten spec target = some (.nodeId m)) := by
    intro target hne
    rw [lookup_extendTuple_toVar]
    cases overwritten spec target with
    | none => simp [hne]
    | some v => simp
  constructor
  · rintro ⟨hcount, hkeep⟩
    refine ⟨by rw [← hlen, hcount], fun target hmem hne => (hval target hne).mp (hkeep _ ?_)⟩
    rw [hout]
    exact List.mem_map_of_mem (List.mem_filter.mpr ⟨hmem, by simpa using hne⟩)
  · rintro ⟨hcount, hover⟩
    refine ⟨by rw [hlen, hcount], fun t ht => ?_⟩
    rw [hout] at ht
    obtain ⟨target, htarget, rfl⟩ := List.mem_map.mp ht
    obtain ⟨hmem, hne⟩ := List.mem_filter.mp htarget
    have hne' : target.2.id ≠ m := by simpa using hne
    exact (hval target hne').mpr (hover target hmem hne')

/-- **The Expand operator of a plan** expands its input tuples one by one, and joins
with a bound end variable exactly under the condition of `expandTuple_joinsBound_iff`. -/
theorem executeNode_expand_joinsBound_iff {ex : Executor} {parent : Tuple} {input : PlanNode}
    {write write' : Option InMemoryGraphStore} {tuples : List Tuple}
    (hinput : runExec (executeNode ex parent input) write = (.ok tuples, write'))
    (hreader : ex.reader write' = some store) :
    runExec (executeNode ex parent (.expand input spec.fromVar spec.edgeVar spec.toVar
        spec.edgeType spec.direction spec.depth)) write =
          (.ok (tuples.flatMap (expandTuple store spec)), write') ∧
      ∀ tuple ∈ tuples, ∀ m, tuple.lookup spec.toVar = some (.nodeId m) →
        (JoinsBound store spec tuple m (expandTuple store spec tuple) ↔
          (tupleTargets store spec tuple).countP (·.2.id ≠ m) =
              (tupleTargets store spec tuple).countP (·.2.id = m) ∧
            ∀ target ∈ tupleTargets store spec tuple, target.2.id ≠ m →
              overwritten spec target = some (.nodeId m)) := by
  refine ⟨?_, fun tuple _ m hbound => expandTuple_joinsBound_iff store spec tuple m hbound⟩
  refine (runExec_bind_ok hinput).trans ?_
  rw [runExec_readOnly, hreader]

/-! ### Two nodes and an edge -/

open InMemoryGraphStore (twoNodes)

/-- `(a)-[:R]->(b)`. -/
def hopSpec : ExpandSpec := ⟨"a", none, "b", some "R", .right, none⟩

/-- `a` bound to node 1 and `b` to node `m`. -/
def boundTuple (m : NodeId) : Tuple :=
  ((∅ : Tuple).insert "a" (.nodeId 1)).insert "b" (.nodeId m)

/-- The operator over a scan of `a`, with `b` bound to node 2 by the parent tuple. -/
theorem executeNode_expand_joinsBound_iff_twoNodes :
    let parent : Tuple := (∅ : Tuple).insert "b" (.nodeId 2)
    let tuple := bindNode parent "a" 1 ∅
    runExec (executeNode (.new twoNodes) parent
        (.expand (.labelScan "a" "A") "a" none "b" (some "R") .right none)) none =
          (.ok ([tuple].flatMap (expandTuple twoNodes hopSpec)), none) ∧
      ∀ t ∈ [tuple], ∀ m, t.lookup "b" = some (.nodeId m) →
        (JoinsBound twoNodes hopSpec t m (expandTuple twoNodes hopSpec t) ↔
          (tupleTargets twoNodes hopSpec t).countP (·.2.id ≠ m) =
              (tupleTargets twoNodes hopSpec t).countP (·.2.id = m) ∧
            ∀ target ∈ tupleTargets twoNodes hopSpec t, target.2.id ≠ m →
              overwritten hopSpec target = some (.nodeId m)) :=
  executeNode_expand_joinsBound_iff twoNodes hopSpec rfl rfl

/-- The neighbour `b` is bound to is passed over, and a neighbour it is not bound to
takes its place. -/
theorem expandTuple_bound_twoNodes :
    ¬ JoinsBound twoNodes hopSpec (boundTuple 2) 2 (expandTuple twoNodes hopSpec (boundTuple 2)) ∧
      ¬ JoinsBound twoNodes hopSpec (boundTuple 1) 1
        (expandTuple twoNodes hopSpec (boundTuple 1)) ∧
      (expandTuple twoNodes hopSpec (boundTuple 1)).map (AList.lookup "b") =
        [some (.nodeId 2)] :=
  ⟨fun h => absurd h.count (by decide), fun h => absurd h.count (by decide), by decide⟩

end KuzuEventBus
