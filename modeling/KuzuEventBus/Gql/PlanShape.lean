import KuzuEventBus.Gql.Planner

/-!
# What plans are made of

The planner makes a tree of scans, hops, products and filters out of the patterns of a MATCH, with
predicates that compare literals and ids, and puts the expressions of the other clauses over it.  So
what holds of a plan is shown along its operators, and what holds of its expressions is shown for
those of the query and for the predicates of the planner.

## Main definitions

* `QueryOf.exprs`, `PlanNode.exprs` — the expressions of the clauses, and of the operators.
* `PlannerMade` — the predicates of the planner.
* `PlanNode.OfMatch` — the plans of patterns.

## Main results

* `planMatch_ofMatch` — the plan of a MATCH is one of patterns.
* `plan_exprs` — **the expressions of a plan are those of the query, and predicates of the
  planner**.
-/

namespace KuzuEventBus

/-! ### Expressions -/

/-- The expressions of the clauses of a query. -/
def QueryOf.exprs {E : Type} (query : QueryOf E) : List E :=
  ((query.withClause.map WithClauseOf.items).getD []).map WithItemOf.expr ++
    (query.whereClause.map WhereClauseOf.expr).toList ++
    ((query.returnClause.map ReturnClauseOf.items).getD []).map ReturnItemOf.expr ++
    ((query.orderBy.map OrderByClauseOf.items).getD []).map OrderByItemOf.expr

/-- The expressions of the operators of a plan. -/
def PlanNode.exprs : PlanNode → List Expr
  | .labelScan _ _ | .fullScan _ | .create _ => []
  | .matchCreate input _ | .limit input _ | .expand input _ _ _ _ _ _ => input.exprs
  | .filter input predicate => predicate :: input.exprs
  | .project input items => items.map ReturnItemOf.expr ++ input.exprs
  | .orderBy input items => items.map OrderByItemOf.expr ++ input.exprs
  | .aggregate input groupBy aggregates => groupBy ++ aggregates.map Prod.snd ++ input.exprs
  | .cartesianProduct left right => left.exprs ++ right.exprs

/-- The predicates the planner makes: inline properties, their conjunctions, and the ends of a path
that differ. -/
inductive PlannerMade : Expr → Prop
  | propEq (var key : String) (lit : Literal) : PlannerMade (propEq var key lit)
  | and {a b : Expr} (ha : PlannerMade a) (hb : PlannerMade b) : PlannerMade (.binaryOp a .and b)
  | endsDiffer (fromVar toVar : String) : PlannerMade (endsDiffer fromVar toVar)

/-- The plans of the patterns of a MATCH. -/
inductive PlanNode.OfMatch : PlanNode → Prop
  | labelScan (var label : String) : OfMatch (.labelScan var label)
  | fullScan (var : String) : OfMatch (.fullScan var)
  | filter {input : PlanNode} {predicate : Expr} (h : OfMatch input)
      (hpred : PlannerMade predicate) : OfMatch (.filter input predicate)
  | expand {input : PlanNode} (h : OfMatch input) (fromVar : String) (edgeVar : Option String)
      (toVar : String) (edgeType : Option String) (direction : Direction)
      (depth : Option DepthRange) :
      OfMatch (.expand input fromVar edgeVar toVar edgeType direction depth)
  | cartesianProduct {left right : PlanNode} (hl : OfMatch left) (hr : OfMatch right) :
      OfMatch (.cartesianProduct left right)

/-! ### The predicates of the planner -/

theorem plannerMade_inlinePredicate (var : String) (ps : HashMap String Literal) :
    ∀ e ∈ inlinePredicate var ps, PlannerMade e := by
  intro e he
  unfold inlinePredicate at he
  split at he
  · simp at he
  · next key lit rest _ =>
    cases he
    exact List.foldlRecOn (motive := PlannerMade) rest _ (.propEq var key lit)
      fun _ h kv _ => .and h (.propEq var kv.1 kv.2)

theorem plannerMade_conjoin {p q : Option Expr} (hp : ∀ e ∈ p, PlannerMade e)
    (hq : ∀ e ∈ q, PlannerMade e) : ∀ e ∈ conjoin p q, PlannerMade e := by
  cases p with
  | none => exact hq
  | some a =>
    cases q with
    | none => exact hp
    | some b =>
      rintro e ⟨⟩
      exact .and (hp a rfl) (hq b rfl)

theorem plannerMade_adjacentPredicate (toVar : String) (p : Option Pattern) :
    ∀ e ∈ adjacentPredicate toVar p, PlannerMade e := by
  intro e he
  unfold adjacentPredicate at he
  split at he
  · split at he
    · exact plannerMade_inlinePredicate _ _ e he
    · simp at he
  · simp at he

theorem plannerMade_globalPredicate (patterns : List Pattern) :
    ∀ e ∈ globalPredicate patterns, PlannerMade e := by
  -- a pattern adds a predicate of the planner, or nothing
  refine List.foldlRecOn (motive := fun pred => ∀ e ∈ pred, PlannerMade e) patterns _ (by simp) ?_
  intro pred h p _
  cases p with
  | edge edge => exact h
  | node node =>
    simp only
    split
    · exact plannerMade_conjoin h (plannerMade_inlinePredicate _ _)
    · exact h

/-! ### The walk over the patterns -/

theorem PlanNode.OfMatch.filterBy {input : PlanNode} {pred : Option Expr} (h : input.OfMatch)
    (hpred : ∀ e ∈ pred, PlannerMade e) : (filterBy input pred).OfMatch := by
  cases pred with
  | none => exact h
  | some e => exact .filter h (hpred e rfl)

theorem ofMatch_scanNode (var : String) (node : NodePattern) : (scanNode var node).OfMatch := by
  unfold scanNode
  split
  · exact .labelScan _ _
  · exact .fullScan _

/-- The plan so far is one of patterns. -/
def PlanState.OfMatch (st : PlanState) : Prop := ∀ p ∈ st.planOpt, p.OfMatch

theorem planNodePattern_ofMatch {toVars : List String} {st st' : PlanState}
    {prev next : Option Pattern} {node : NodePattern}
    (h : planNodePattern toVars st prev next node = .ok st') (hst : st.OfMatch) : st'.OfMatch := by
  unfold planNodePattern at h
  split at h
  · simp [invalidArgument] at h
  · next var _ =>
    split at h
    · split at h
      · cases h; exact hst
      · next pred plan hpred hplan =>
        cases h
        rintro p ⟨⟩
        exact .filter (hst plan hplan) (plannerMade_inlinePredicate _ _ pred hpred)
      · simp at h
    · split at h
      · cases h; exact hst
      · split at h
        · cases h; exact hst
        · have hnode := (ofMatch_scanNode var node).filterBy
            (plannerMade_inlinePredicate var node.properties)
          cases h
          rintro p ⟨⟩
          cases hplan : st.planOpt with
          | none => exact hnode
          | some left => exact .cartesianProduct (hst left hplan) hnode

theorem planEdgePattern_ofMatch {i : ℕ} {st st' : PlanState} {prev next : Option Pattern}
    {edge : EdgePattern} (h : planEdgePattern i st prev next edge = .ok st') (hst : st.OfMatch) :
    st'.OfMatch := by
  obtain ⟨fromVar, toVar, -, -, rfl⟩ := planEdgePattern_eq_ok h
  have hinput : (edgeInput st.planOpt edge fromVar).OfMatch := by
    refine PlanNode.OfMatch.filterBy ?_ (plannerMade_inlinePredicate _ _)
    cases hplan : st.planOpt with
    | none => exact ofMatch_scanNode fromVar edge.fromNode
    | some plan => exact hst plan hplan
  have hpred : ∀ e ∈ edgePredicate prev next edge fromVar toVar, PlannerMade e :=
    plannerMade_conjoin
      (plannerMade_conjoin (plannerMade_adjacentPredicate toVar prev)
        (plannerMade_adjacentPredicate toVar next))
      (plannerMade_inlinePredicate fromVar edge.fromNode.properties)
  have hplan := (PlanNode.OfMatch.expand hinput fromVar edge.var toVar edge.edgeType edge.direction
    edge.depth).filterBy hpred
  rintro p ⟨⟩
  unfold edgePlan
  split
  · split
    · exact .filter hplan (.endsDiffer fromVar toVar)
    · exact hplan
  · exact hplan

theorem planPatterns_ofMatch {toVars : List String} {patterns : List Pattern} :
    ∀ {i : ℕ} {st st' : PlanState} {prev : Option Pattern},
      planPatterns toVars i st prev patterns = .ok st' → st.OfMatch → st'.OfMatch := by
  induction patterns with
  | nil => intro i st st' prev h hst; cases h; exact hst
  | cons pattern rest ih =>
    intro i st st' prev h hst
    cases pattern with
    | node node =>
      obtain ⟨st₁, h₁, hrest⟩ := bind_eq_ok h
      exact ih hrest (planNodePattern_ofMatch h₁ hst)
    | edge edge =>
      obtain ⟨st₁, h₁, hrest⟩ := bind_eq_ok h
      exact ih hrest (planEdgePattern_ofMatch h₁ hst)

/-- **The plan of a MATCH is one of patterns.** -/
theorem planMatch_ofMatch {clause : MatchClause} {node : PlanNode}
    (h : planMatch clause = .ok node) : node.OfMatch := by
  unfold planMatch at h
  split at h
  · simp [invalidArgument] at h
  · obtain ⟨st, hst, hplan⟩ := bind_eq_ok h
    have hpatterns := planPatterns_ofMatch hst (by simp [PlanState.OfMatch])
    split at hplan
    · next plan heq =>
      cases hplan
      exact (hpatterns plan heq).filterBy (plannerMade_globalPredicate _)
    · simp [invalidArgument] at hplan

/-! ### The plan of a query -/

theorem PlanNode.OfMatch.exprs {node : PlanNode} (h : node.OfMatch) :
    ∀ e ∈ node.exprs, PlannerMade e := by
  induction h with
  | labelScan | fullScan => exact fun _ he => absurd he List.not_mem_nil
  | filter _ hpred ih => exact List.forall_mem_cons.mpr ⟨hpred, ih⟩
  | expand _ _ _ _ _ _ _ ih => exact ih
  | cartesianProduct _ _ ihl ihr => exact List.forall_mem_append.mpr ⟨ihl, ihr⟩

theorem planSource_exprs {query : Query} {node : PlanNode} (h : planSource query = .ok node) :
    ∀ e ∈ node.exprs, PlannerMade e := by
  unfold planSource at h
  split at h
  · obtain ⟨m, hm, hnode⟩ := bind_eq_ok h
    cases hnode
    exact (planMatch_ofMatch hm).exprs
  · exact (planMatch_ofMatch h).exprs
  · unfold planCreate at h
    split at h
    · simp [invalidArgument] at h
    · cases h
      exact fun _ he => absurd he List.not_mem_nil
  · simp [invalidArgument] at h

theorem mem_exprs_filterBy {node : PlanNode} {pred : Option Expr} {e : Expr} :
    e ∈ (filterBy node pred).exprs ↔ e ∈ pred ∨ e ∈ node.exprs := by
  cases pred with
  | none => simp [filterBy]
  | some p => simp [filterBy, PlanNode.exprs, eq_comm]

/-- WITH and WHERE add the expressions of their clauses. -/
theorem mem_exprs_planPipeline {query : Query} {node : PlanNode} {e : Expr}
    (h : e ∈ (planPipeline query node).exprs) : e ∈ query.exprs ∨ e ∈ node.exprs := by
  unfold planPipeline at h
  rcases mem_exprs_filterBy.mp h with hwhere | h
  · left
    simp [QueryOf.exprs, Option.mem_def.mp hwhere]
  · cases hw : query.withClause with
    | none =>
      rw [hw] at h
      exact .inr h
    | some w =>
      rw [hw] at h
      rcases List.mem_append.mp h with hitem | h
      · left
        rw [List.map_map] at hitem
        have hitems : (ReturnItemOf.expr ∘ fun item : WithItem =>
            (⟨item.expr, some item.aliasName⟩ : ReturnItem)) = WithItemOf.expr := rfl
        rw [hitems] at hitem
        simp only [QueryOf.exprs, hw, Option.map_some, Option.getD_some, List.mem_append]
        exact .inl (.inl (.inl hitem))
      · exact .inr h

/-- RETURN adds the expressions of its items. -/
theorem mem_exprs_planReturn {node : PlanNode} {clause : ReturnClause} {e : Expr}
    (h : e ∈ (planReturn node clause).exprs) :
    e ∈ clause.items.map ReturnItemOf.expr ∨ e ∈ node.exprs := by
  unfold planReturn at h
  split at h
  · rcases List.mem_append.mp h with h | h
    · rcases List.mem_append.mp h with hgroup | haggregate
      · obtain ⟨item, hitem, rfl⟩ := List.mem_map.mp hgroup
        exact .inl (List.mem_map_of_mem (List.mem_of_mem_filter hitem))
      · rw [List.map_map] at haggregate
        obtain ⟨item, hitem, rfl⟩ := List.mem_map.mp haggregate
        exact .inl (List.mem_map_of_mem (List.mem_of_mem_filter hitem))
    · exact .inr h
  · exact List.mem_append.mp h

/-- **The expressions of a plan are those of the query, and predicates of the planner.** -/
theorem plan_exprs {query : Query} {p : ExecutionPlan} (h : plan query = .ok p) :
    ∀ e ∈ p.root.exprs, e ∈ query.exprs ∨ PlannerMade e := by
  obtain ⟨source, hsource, h⟩ := bind_eq_ok h
  have hpipeline : ∀ e ∈ (planPipeline query source).exprs, e ∈ query.exprs ∨ PlannerMade e :=
    fun e he => (mem_exprs_planPipeline he).imp_right (planSource_exprs hsource e)
  cases hr : query.returnClause with
  | none =>
    rw [hr] at h
    cases h
    exact hpipeline
  | some clause =>
    rw [hr] at h
    have hreturn : ∀ e ∈ (planReturn (planPipeline query source) clause).exprs,
        e ∈ query.exprs ∨ PlannerMade e := by
      intro e he
      rcases mem_exprs_planReturn he with hitem | he
      · left
        simp only [QueryOf.exprs, hr, Option.map_some, Option.getD_some, List.mem_append]
        exact .inl (.inr hitem)
      · exact hpipeline e he
    cases h
    -- LIMIT has no expressions
    cases ho : query.orderBy with
    | none => cases query.limit <;> exact hreturn
    | some orderBy =>
      have horder : ∀ e ∈ (PlanNode.orderBy (planReturn (planPipeline query source) clause)
          orderBy.items).exprs, e ∈ query.exprs ∨ PlannerMade e := by
        intro e he
        rcases List.mem_append.mp he with hitem | he
        · left
          simp only [QueryOf.exprs, ho, Option.map_some, Option.getD_some, List.mem_append]
          exact .inr hitem
        · exact hreturn e he
      cases query.limit <;> exact horder

end KuzuEventBus
