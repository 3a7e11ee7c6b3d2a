import KuzuEventBus.Gql.MatchPatterns
import KuzuEventBus.Gql.Planner

/-!
# The walk of the planner

`plan_match` walks the patterns once and decides at each of them, by looking at its
neighbours, whether to scan, to filter, to expand or to do nothing.  On chained
patterns the decisions come to this: a node pattern is scanned unless its variable is
bound, or is the end of some edge, or starts an edge while there is a plan; an edge
pattern is an Expand, over a scan of its start if there is no plan.

## Main definitions

* `WalkStep`, `matchSteps` — the scans and hops of a list of patterns, each hop with the
  variables bound before it.
* `Built` — the plans that take given steps.

## Main results

* `planMatch_built` — **`plan_match` takes the steps of the patterns**.
* `matchSteps_edges` — each edge pattern is one hop, in order.
-/

namespace KuzuEventBus

/-! ### Steps -/

/-- A step of the walk that binds a variable. -/
inductive WalkStep where
  /-- A scan of the nodes that `node` describes. -/
  | scan (var : String) (node : NodePattern)
  /-- A hop along an edge; `bound` are the variables bound before it. -/
  | hop (bound : List String) (edge : EdgePattern) (fromVar toVar : String)

/-- The variable a step binds to a node. -/
def WalkStep.var : WalkStep → String
  | .scan var _ => var
  | .hop _ _ _ toVar => toVar

/-- The edge pattern of a hop. -/
def WalkStep.edge? : WalkStep → Option EdgePattern
  | .scan _ _ => none
  | .hop _ edge _ _ => some edge

/-- The edge pattern that a pattern is. -/
def Pattern.edge? : Pattern → Option EdgePattern
  | .node _ => none
  | .edge e => some e

/-- The variables bound by steps, in order. -/
def boundBy (steps : List WalkStep) : List String := steps.map WalkStep.var

/-- The steps of one pattern, the `i`-th one, where `bound` are the variables bound so far. -/
def patternSteps (toVars : List String) (i : ℕ) (bound : List String) (next : Option Pattern) :
    Pattern → List WalkStep
  | .node node =>
    match node.var with
    | none => []
    | some var =>
      if var ∈ bound ∨ var ∈ toVars ∨ (bound ≠ [] ∧ (next.bind Pattern.edge?).isSome) then []
      else [.scan var node]
  | .edge edge =>
    match edge.fromNode.var, edgeToVar i next edge with
    | some fromVar, .ok toVar =>
      if bound = [] then [.scan fromVar edge.fromNode, .hop [fromVar] edge fromVar toVar]
      else [.hop bound edge fromVar toVar]
    | _, _ => []

/-- The steps of the patterns from the `i`-th one on. -/
def walkSteps (toVars : List String) : ℕ → List String → List Pattern → List WalkStep
  | _, _, [] => []
  | i, bound, pattern :: rest =>
    let steps := patternSteps toVars i bound rest.head? pattern
    steps ++ walkSteps toVars (i + 1) (bound ++ boundBy steps) rest

/-- The steps of the patterns of a MATCH clause. -/
def matchSteps (patterns : List Pattern) : List WalkStep :=
  walkSteps (toNodeVars patterns) 0 [] patterns

@[simp] theorem boundBy_nil : boundBy [] = [] := rfl

@[simp] theorem boundBy_append (steps steps' : List WalkStep) :
    boundBy (steps ++ steps') = boundBy steps ++ boundBy steps' := List.map_append

@[simp] theorem boundBy_cons (step : WalkStep) (steps : List WalkStep) :
    boundBy (step :: steps) = step.var :: boundBy steps := rfl

/-! ### Plans that take steps -/

/-- The plans that take the steps: scans and hops in this order, and filters by inline
properties anywhere. -/
inductive Built (patterns : List Pattern) : List WalkStep → PlanNode → Prop
  /-- The scan of a node pattern. -/
  | scan {node : NodePattern} {var : String} (hmem : .node node ∈ patterns)
      (hvar : node.var = some var) :
      Built patterns [.scan var node]
        (filterBy (scanNode var node) (inlinePredicate var node.properties))
  /-- The scan of the start of an edge pattern. -/
  | start {edge : EdgePattern} {fromVar : String} (hmem : .edge edge ∈ patterns)
      (hfrom : edge.fromNode.var = some fromVar) :
      Built patterns [.scan fromVar edge.fromNode] (scanNode fromVar edge.fromNode)
  /-- The scan of one more node pattern. -/
  | product {steps : List WalkStep} {left : PlanNode} {node : NodePattern} {var : String}
      (h : Built patterns steps left) (hmem : .node node ∈ patterns) (hvar : node.var = some var)
      (hfresh : var ∉ boundBy steps) :
      Built patterns (steps ++ [.scan var node]) (.cartesianProduct left
        (filterBy (scanNode var node) (inlinePredicate var node.properties)))
  /-- The inline properties of a node pattern whose variable is bound. -/
  | filter {steps : List WalkStep} {plan : PlanNode} {node : NodePattern} {var : String}
      {predicate : Expr} (h : Built patterns steps plan) (hmem : .node node ∈ patterns)
      (hvar : node.var = some var) (hbound : var ∈ boundBy steps)
      (hpred : inlinePredicate var node.properties = some predicate) :
      Built patterns steps (.filter plan predicate)
  /-- An edge pattern. -/
  | hop {steps : List WalkStep} {input : PlanNode} {prev next : Option Pattern}
      {edge : EdgePattern} {fromVar toVar : String} (h : Built patterns steps input)
      (hmem : .edge edge ∈ patterns) (hfrom : edge.fromNode.var = some fromVar)
      (hto : ∀ v ∈ edge.toNode.var, v = toVar) (hprev : ∀ p ∈ prev, p ∈ patterns)
      (hnext : ∀ p ∈ next, p ∈ patterns) :
      Built patterns (steps ++ [.hop (boundBy steps) edge fromVar toVar])
        (edgePlan (edgeInput (some input) edge fromVar) prev next edge fromVar toVar)

variable {patterns : List Pattern} {toVars : List String} {steps : List WalkStep}

theorem Built.steps_ne_nil {plan : PlanNode} (h : Built patterns steps plan) : steps ≠ [] := by
  induction h with
  | scan | start => simp
  | product | hop => simp
  | filter _ _ _ _ _ ih => exact ih

/-- What the steps say about the patterns they come from. -/
theorem Built.hop_mem {plan : PlanNode} (h : Built patterns steps plan) {bound : List String}
    {edge : EdgePattern} {fromVar toVar : String}
    (hmem : .hop bound edge fromVar toVar ∈ steps) :
    .edge edge ∈ patterns ∧ edge.fromNode.var = some fromVar ∧
      ∀ v ∈ edge.toNode.var, v = toVar := by
  induction h with
  | scan | start => simp at hmem
  | product _ _ _ _ ih =>
    rcases List.mem_append.mp hmem with hmem | hmem
    · exact ih hmem
    · simp at hmem
  | filter _ _ _ _ _ ih => exact ih hmem
  | hop _ hedge hfrom hto _ _ ih =>
    rcases List.mem_append.mp hmem with hmem | hmem
    · exact ih hmem
    · obtain ⟨-, rfl, rfl, rfl⟩ := WalkStep.hop.inj (List.mem_singleton.mp hmem)
      exact ⟨hedge, hfrom, hto⟩

/-! ### The walk -/

theorem mem_toNodeVars {edge : EdgePattern} (h : .edge edge ∈ patterns) {v : String}
    (hv : edge.toNode.var = some v) : v ∈ toNodeVars patterns := by
  induction patterns with
  | nil => simp at h
  | cons pattern rest ih =>
    rcases List.mem_cons.mp h with rfl | h
    · unfold toNodeVars
      simp [hv]
    · have hrest := ih h
      cases pattern with
      | node node => exact hrest
      | edge edge' =>
        unfold toNodeVars
        split
        · exact List.mem_cons_of_mem _ hrest
        · exact List.mem_append_right _ hrest
        · exact hrest

/-- The state of the walk and the steps taken so far; `prev` is the pattern walked last. -/
structure WalkInv (patterns : List Pattern) (toVars : List String) (st : PlanState)
    (prev : Option Pattern) (steps : List WalkStep) : Prop where
  /-- No plan, no steps. -/
  noPlan : st.planOpt = none → steps = []
  /-- The plan takes the steps. -/
  built : ∀ plan, st.planOpt = some plan → Built patterns steps plan
  /-- What the planner knows to be bound is bound, -/
  bound : ∀ v ∈ st.boundVars, v ∈ boundBy steps
  /-- and what is bound it knows, or it is the end of an edge. -/
  known : ∀ v ∈ boundBy steps, v ∈ st.boundVars ∨ v ∈ toVars
  /-- As long as there is no plan, node patterns are ends of edges. -/
  skipped : st.planOpt = none → ∀ p ∈ prev, ∃ node, p = .node node ∧ ∀ v ∈ node.var, v ∈ toVars

theorem WalkInv.init : WalkInv patterns toVars ⟨none, []⟩ none [] where
  noPlan _ := rfl
  built _ h := by simp at h
  bound _ h := by simp at h
  known _ h := by simp at h
  skipped _ _ h := by simp at h

theorem WalkInv.bound_ne_nil {st : PlanState} {prev : Option Pattern}
    (h : WalkInv patterns toVars st prev steps) (hplan : st.planOpt.isSome) :
    boundBy steps ≠ [] := by
  obtain ⟨plan, hplan⟩ := Option.isSome_iff_exists.mp hplan
  have hne := (h.built plan hplan).steps_ne_nil
  simpa [boundBy] using hne

/-- A node pattern. -/
theorem WalkInv.node {st st' : PlanState} {prev next : Option Pattern} {node : NodePattern}
    (h : WalkInv patterns toVars st prev steps) (hmem : .node node ∈ patterns)
    (htoVars : ∀ edge, .edge edge ∈ patterns → ∀ v ∈ edge.toNode.var, v ∈ toVars)
    (hprev : ∀ p ∈ prev, p ∈ patterns) (hnext : ∀ p ∈ next, p ∈ patterns)
    (hchain : ∀ edge, next = some (.edge edge) → edge.fromNode = node) (i : ℕ)
    (hplan : planNodePattern toVars st prev next node = .ok st') :
    WalkInv patterns toVars st' (some (.node node))
      (steps ++ patternSteps toVars i (boundBy steps) next (.node node)) := by
  cases hvar : node.var with
  | none => simp [planNodePattern, hvar, invalidArgument] at hplan
  | some var =>
    simp only [planNodePattern, hvar] at hplan
    simp only [patternSteps, hvar]
    by_cases hb : var ∈ st.boundVars
    · have hbound := h.bound var hb
      rw [if_pos hb] at hplan
      rw [if_pos (.inl hbound), List.append_nil]
      have hnone : st.planOpt ≠ none := by
        intro hnone
        rw [h.noPlan hnone] at hbound
        simp at hbound
      split at hplan
      · cases hplan
        exact ⟨h.noPlan, h.built, h.bound, h.known, fun hn => absurd hn hnone⟩
      · next pred plan hpred hsome =>
        cases hplan
        refine ⟨by simp, ?_, h.bound, h.known, by simp⟩
        intro plan' heq
        cases heq
        exact .filter (h.built plan hsome) hmem hvar hbound hpred
      · cases hplan
    · rw [if_neg hb] at hplan
      by_cases ht : var ∈ toVars
      · rw [if_pos ht] at hplan
        rw [if_pos (.inr (.inl ht)), List.append_nil]
        cases hplan
        refine ⟨h.noPlan, h.built, h.bound, h.known, fun _ p hp => ?_⟩
        cases hp
        refine ⟨node, rfl, fun v hv => ?_⟩
        rw [hvar] at hv
        cases hv
        exact ht
      · rw [if_neg ht] at hplan
        have hfresh : var ∉ boundBy steps := fun hmem => (h.known var hmem).elim hb ht
        cases hskip : skipScan st prev next var with
        | true =>
          -- not for an edge that ends in the variable, so an edge starts from it
          obtain ⟨hsome, hedge⟩ : st.planOpt.isSome ∧ (next.bind Pattern.edge?).isSome := by
            unfold skipScan at hskip
            rw [Bool.or_eq_true] at hskip
            rcases hskip with hskip | hskip
            · split at hskip
              · next edge =>
                exact absurd (htoVars edge (hprev _ rfl) var (beq_iff_eq.mp hskip)) ht
              · cases hskip
            · split at hskip
              · next edge =>
                rw [Bool.or_eq_true, Bool.and_eq_true] at hskip
                rcases hskip with hskip | ⟨hskip, -⟩
                · exact absurd (htoVars edge (hnext _ rfl) var (beq_iff_eq.mp hskip)) ht
                · exact ⟨hskip, rfl⟩
              · cases hskip
          rw [if_pos hskip] at hplan
          rw [if_pos (.inr (.inr ⟨h.bound_ne_nil hsome, hedge⟩)), List.append_nil]
          cases hplan
          refine ⟨h.noPlan, h.built, h.bound, h.known, fun hn => ?_⟩
          rw [hn] at hsome
          cases hsome
        | false =>
          rw [hskip, if_neg Bool.false_ne_true] at hplan
          rw [if_neg ?_]
          · cases hplan
            refine ⟨by simp, fun plan heq => ?_, fun v hv => ?_, fun v hv => ?_, by simp⟩
            · cases heq
              cases hst : st.planOpt with
              | none =>
                rw [h.noPlan hst]
                exact .scan hmem hvar
              | some left => exact .product (h.built left hst) hmem hvar hfresh
            · rw [boundBy_append]
              rcases List.mem_cons.mp hv with rfl | hv
              · simp [WalkStep.var]
              · exact List.mem_append_left _ (h.bound v hv)
            · rw [boundBy_append] at hv
              rcases List.mem_append.mp hv with hv | hv
              · exact (h.known v hv).imp_left (List.mem_cons_of_mem _)
              · simp only [boundBy_cons, boundBy_nil, List.mem_singleton, WalkStep.var] at hv
                exact .inl (hv ▸ List.mem_cons_self)
          · rintro (hmem | hmem | ⟨hne, hedge⟩)
            · exact hfresh hmem
            · exact ht hmem
            · -- the edge would start from the variable
              obtain ⟨edge, hedge⟩ := Option.isSome_iff_exists.mp hedge
              obtain ⟨pattern, hpattern, hedge⟩ := Option.bind_eq_some_iff.mp hedge
              cases pattern with
              | node _ => cases hedge
              | edge edge' =>
                have hsome : st.planOpt.isSome := by
                  rw [Option.isSome_iff_ne_none]
                  intro hn
                  rw [h.noPlan hn] at hne
                  exact hne rfl
                have hfrom : edge'.fromNode.var = some var := by
                  rw [hchain edge' hpattern, hvar]
                simp [skipScan, hpattern, hsome, hfrom] at hskip

/-- On chained patterns an edge starts from the variable its start is written with. -/
theorem fromNode_var_of_edgeFromVar {prev : Option Pattern} {edge : EdgePattern}
    {fromVar : String} (hchain : prev.map Pattern.endNode = some edge.fromNode)
    (h : edgeFromVar prev edge = .ok fromVar) : edge.fromNode.var = some fromVar := by
  unfold edgeFromVar at h
  split at h
  · next var hvar => cases h; exact hvar
  · next node hnone =>
    obtain rfl : node = edge.fromNode := by simpa [Pattern.endNode] using hchain
    rw [hnone] at h
    simp [invalidArgument] at h
  · simp [invalidArgument] at h

theorem toVar_of_edgeToVar {i : ℕ} {next : Option Pattern} {edge : EdgePattern} {toVar : String}
    (h : edgeToVar i next edge = .ok toVar) : ∀ v ∈ edge.toNode.var, v = toVar := by
  intro v hv
  unfold edgeToVar at h
  rw [Option.mem_def.mp hv] at h
  cases h
  rfl

/-- An edge pattern. -/
theorem WalkInv.edge {i : ℕ} {st st' : PlanState} {prev next : Option Pattern} {edge : EdgePattern}
    (h : WalkInv patterns toVars st prev steps) (hmem : .edge edge ∈ patterns)
    (hprev : ∀ p ∈ prev, p ∈ patterns) (hnext : ∀ p ∈ next, p ∈ patterns)
    (hchain : prev.map Pattern.endNode = some edge.fromNode)
    (hplan : planEdgePattern i st prev next edge = .ok st') :
    WalkInv patterns toVars st' (some (.edge edge))
      (steps ++ patternSteps toVars i (boundBy steps) next (.edge edge)) := by
  obtain ⟨fromVar, toVar, hfromVar, htoVar, rfl⟩ := planEdgePattern_eq_ok hplan
  have hfrom := fromNode_var_of_edgeFromVar hchain hfromVar
  have hto := toVar_of_edgeToVar htoVar
  simp only [patternSteps, hfrom, htoVar]
  cases hst : st.planOpt with
  | none =>
    have hsteps := h.noPlan hst
    subst hsteps
    -- the node pattern before the edge was skipped, so its variable is the end of an edge
    have hknown : fromVar ∈ toVars := by
      obtain ⟨pattern, hpattern, hend⟩ := Option.map_eq_some_iff.mp hchain
      obtain ⟨node, rfl, hnode⟩ := h.skipped hst pattern hpattern
      apply hnode
      rw [show node = edge.fromNode from hend]
      exact hfrom
    rw [boundBy_nil, if_pos rfl]
    refine ⟨by simp, fun plan heq => ?_, fun v hv => ?_, fun v hv => ?_, by simp⟩
    · cases heq
      exact (Built.start hmem hfrom).hop hmem hfrom hto hprev hnext
    · rcases List.mem_cons.mp hv with rfl | hv
      · simp [WalkStep.var]
      · exact absurd (h.bound v hv) (by simp)
    · simp only [List.nil_append, boundBy_cons, boundBy_nil, WalkStep.var, List.mem_cons,
        List.not_mem_nil, or_false] at hv
      rcases hv with rfl | rfl
      · exact .inr hknown
      · exact .inl List.mem_cons_self
  | some input =>
    rw [if_neg (h.bound_ne_nil (by rw [hst]; rfl))]
    refine ⟨by simp, fun plan heq => ?_, fun v hv => ?_, fun v hv => ?_, by simp⟩
    · cases heq
      exact (h.built input hst).hop hmem hfrom hto hprev hnext
    · rw [boundBy_append]
      rcases List.mem_cons.mp hv with rfl | hv
      · simp [WalkStep.var]
      · exact List.mem_append_left _ (h.bound v hv)
    · rw [boundBy_append] at hv
      rcases List.mem_append.mp hv with hv | hv
      · exact (h.known v hv).imp_left (List.mem_cons_of_mem _)
      · simp only [boundBy_cons, boundBy_nil, List.mem_singleton, WalkStep.var] at hv
        exact .inl (hv ▸ List.mem_cons_self)

/-- What a walk that returns went through at its first pattern. -/
theorem planPatterns_cons_eq_ok {i : ℕ} {st st' : PlanState} {prev : Option Pattern}
    {pattern : Pattern} {rest : List Pattern}
    (h : planPatterns toVars i st prev (pattern :: rest) = .ok st') :
    ∃ st₁, (match pattern with
        | .node node => planNodePattern toVars st prev rest.head? node
        | .edge edge => planEdgePattern i st prev rest.head? edge) = .ok st₁ ∧
      planPatterns toVars (i + 1) st₁ (some pattern) rest = .ok st' := by
  cases pattern with
  | node node =>
    unfold planPatterns at h
    exact bind_eq_ok h
  | edge edge =>
    unfold planPatterns at h
    exact bind_eq_ok h

/-- **The walk takes the steps of the patterns.** -/
theorem WalkInv.run (htoVars : ∀ edge, .edge edge ∈ patterns → ∀ v ∈ edge.toNode.var, v ∈ toVars)
    {rest : List Pattern} : ∀ {i : ℕ} {st st' : PlanState} {prev : Option Pattern}
      {steps : List WalkStep}, WalkInv patterns toVars st prev steps →
      rest ⊆ patterns → (∀ p ∈ prev, p ∈ patterns) → Chained prev rest →
      planPatterns toVars i st prev rest = .ok st' →
      ∃ last, WalkInv patterns toVars st' last
        (steps ++ walkSteps toVars i (boundBy steps) rest) := by
  induction rest with
  | nil =>
    intro i st st' prev steps h _ _ _ hplan
    cases hplan
    exact ⟨prev, by rw [walkSteps, List.append_nil]; exact h⟩
  | cons pattern rest ih =>
    intro i st st' prev steps h hsub hprev hchain hplan
    obtain ⟨hmem, hrest⟩ := List.cons_subset.mp hsub
    have hnext : ∀ p ∈ rest.head?, p ∈ patterns := fun p hp => hrest (List.mem_of_head? hp)
    obtain ⟨st₁, hstep, hplan⟩ := planPatterns_cons_eq_ok hplan
    have hthis : ∀ p ∈ some pattern, p ∈ patterns := by
      intro p hp
      cases hp
      exact hmem
    have hinv : WalkInv patterns toVars st₁ (some pattern)
        (steps ++ patternSteps toVars i (boundBy steps) rest.head? pattern) := by
      cases pattern with
      | node node =>
        refine h.node hmem htoVars hprev hnext (fun edge hedge => ?_) i hstep
        obtain ⟨tail, rfl⟩ := List.head?_eq_some_iff.mp hedge
        exact (Option.some.inj hchain.1).symm
      | edge edge => exact h.edge hmem hprev hnext hchain.1 hstep
    have hchain' : Chained (some pattern) rest := by
      cases pattern with
      | node node => exact hchain
      | edge edge => exact hchain.2
    obtain ⟨last, hlast⟩ := ih hinv hrest hthis hchain' hplan
    refine ⟨last, ?_⟩
    rw [walkSteps, ← List.append_assoc, ← boundBy_append]
    exact hlast

/-- **`plan_match` takes the steps of the patterns**, and filters by the inline properties of
all node patterns at the end. -/
theorem planMatch_built {plan : PlanNode} (hchain : Chained none patterns)
    (h : planMatch ⟨patterns⟩ = .ok plan) :
    ∃ inner, Built patterns (matchSteps patterns) inner ∧
      plan = filterBy inner (globalPredicate patterns) := by
  unfold planMatch at h
  split at h
  · simp [invalidArgument] at h
  · obtain ⟨st, hwalk, h⟩ := bind_eq_ok h
    obtain ⟨last, hinv⟩ := WalkInv.init.run (fun edge hedge v hv => mem_toNodeVars hedge hv)
      (List.Subset.refl patterns) (by simp) hchain hwalk
    split at h
    · next inner hinner =>
      cases h
      exact ⟨inner, hinv.built inner hinner, rfl⟩
    · simp [invalidArgument] at h

/-! ### The edge patterns of the steps -/

theorem patternSteps_edges {i : ℕ} {st st' : PlanState} {prev next : Option Pattern}
    {edge : EdgePattern} (hchain : prev.map Pattern.endNode = some edge.fromNode)
    (hplan : planEdgePattern i st prev next edge = .ok st') (bound : List String) :
    (patternSteps toVars i bound next (.edge edge)).filterMap WalkStep.edge? = [edge] := by
  obtain ⟨fromVar, toVar, hfromVar, htoVar, -⟩ := planEdgePattern_eq_ok hplan
  simp only [patternSteps, fromNode_var_of_edgeFromVar hchain hfromVar, htoVar]
  split <;> rfl

theorem walkSteps_edges {rest : List Pattern} : ∀ {i : ℕ} {st st' : PlanState}
    {prev : Option Pattern} {bound : List String}, Chained prev rest →
    planPatterns toVars i st prev rest = .ok st' →
    (walkSteps toVars i bound rest).filterMap WalkStep.edge? = rest.filterMap Pattern.edge? := by
  induction rest with
  | nil => intro i st st' prev bound _ _; rfl
  | cons pattern rest ih =>
    intro i st st' prev bound hchain hplan
    obtain ⟨st₁, hstep, hplan⟩ := planPatterns_cons_eq_ok hplan
    rw [walkSteps, List.filterMap_append]
    cases pattern with
    | node node =>
      rw [ih hchain hplan, List.filterMap_cons_none rfl]
      have hscan : (patternSteps toVars i bound rest.head? (.node node)).filterMap
          WalkStep.edge? = [] := by
        simp only [patternSteps]
        split
        · rfl
        · split <;> rfl
      rw [hscan, List.nil_append]
    | edge edge =>
      rw [ih hchain.2 hplan, patternSteps_edges hchain.1 hstep]
      rfl

/-- **Each edge pattern is one hop, in order.** -/
theorem matchSteps_edges {plan : PlanNode} (hchain : Chained none patterns)
    (h : planMatch ⟨patterns⟩ = .ok plan) :
    (matchSteps patterns).filterMap WalkStep.edge? = patterns.filterMap Pattern.edge? := by
  unfold planMatch at h
  split at h
  · simp [invalidArgument] at h
  · obtain ⟨st, hwalk, -⟩ := bind_eq_ok h
    exact walkSteps_edges hchain hwalk

/-! ### The names of the steps -/

/-- The name of an end that has none has no full stop either. -/
theorem plain_anon (i : ℕ) : Plain ("__anon_to_" ++ toString i) := by
  unfold Plain
  rw [String.toList_append, List.mem_append, not_or]
  refine ⟨by decide, fun hmem => ?_⟩
  rw [Nat.toString_eq_repr, Nat.toList_repr] at hmem
  have hdigit : Char.isDigit '.' = true :=
    Nat.isDigit_of_mem_toDigits (by decide) (by decide) hmem
  cases hdigit

theorem plain_of_edgeToVar {i : ℕ} {next : Option Pattern} {edge : EdgePattern} {toVar : String}
    (hedge : PlainPattern (.edge edge)) (hnext : ∀ p ∈ next, PlainPattern p)
    (h : edgeToVar i next edge = .ok toVar) : Plain toVar := by
  unfold edgeToVar at h
  split at h
  · next var hvar =>
    cases h
    exact hedge toVar (by simp [Pattern.names, hvar])
  · next node hnone =>
    split at h
    · next var hvar =>
      cases h
      exact hnext _ rfl toVar (by simp [Pattern.names, hvar])
    · simp [invalidArgument] at h
  · cases h
    exact plain_anon i

theorem patternSteps_plain {i : ℕ} {bound : List String} {next : Option Pattern}
    {pattern : Pattern} (hpattern : PlainPattern pattern) (hnext : ∀ p ∈ next, PlainPattern p) :
    ∀ step ∈ patternSteps toVars i bound next pattern, Plain step.var := by
  intro step hstep
  unfold patternSteps at hstep
  split at hstep
  · next node =>
    split at hstep
    · cases hstep
    · next var hvar =>
      split at hstep
      · cases hstep
      · obtain rfl := List.mem_singleton.mp hstep
        exact hpattern var (by simp [Pattern.names, hvar])
  · next edge =>
    split at hstep
    · next fromVar toVar hfrom hto =>
      have hto' : Plain toVar := plain_of_edgeToVar hpattern hnext hto
      split at hstep
      · rcases List.mem_cons.mp hstep with rfl | hstep
        · exact hpattern fromVar (by simp [Pattern.names, hfrom])
        · obtain rfl := List.mem_singleton.mp hstep
          exact hto'
      · obtain rfl := List.mem_singleton.mp hstep
        exact hto'
    · cases hstep

/-- The variables of the steps have no full stops. -/
theorem walkSteps_plain {rest : List Pattern} : ∀ {i : ℕ} {bound : List String},
    (∀ p ∈ rest, PlainPattern p) → ∀ step ∈ walkSteps toVars i bound rest, Plain step.var := by
  induction rest with
  | nil => intro i bound _ step hstep; cases hstep
  | cons pattern rest ih =>
    intro i bound hplain step hstep
    obtain ⟨hpattern, hrest⟩ := List.forall_mem_cons.mp hplain
    rcases List.mem_append.mp hstep with hstep | hstep
    · exact patternSteps_plain hpattern (fun p hp => hrest p (List.mem_of_head? hp)) step hstep
    · exact ih hrest step hstep

end KuzuEventBus
