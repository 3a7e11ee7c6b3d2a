import KuzuEventBus.Gql.MatchPlan
import KuzuEventBus.Gql.ReadPath

/-!
# The tuples of a MATCH plan

The tuples of a plan made of scans, filters, hops and products, as a relation that
also says which edges a tuple was hopped along; the inline properties the planner's
predicates ask for, as a list; and the tuples that the steps of a walk make, whatever
the plan that takes them.

## Main definitions

* `Yields` — a plan yields a tuple, along a list of edges.
* `PropClaim`, `HoldsIn` — an inline property of a variable, and that a tuple has it.
* `Conjunction` — a predicate asks for a list of inline properties.
* `Row` — the tuples that steps make.

## Main results

* `mem_readNode_iff_yields` — **the tuples of a plan are the ones it yields**.
* `Conjunction.accepts` — a filter keeps the tuples that have the properties.
* `conj_globalPredicate`, `conj_edgePredicate` — what the planner's predicates ask for.
* `Built.row` — **the tuples of a plan are rows of its steps**.
* `Row.bound`, `Row.starts` — what is bound in a row.
-/

namespace KuzuEventBus

/-! ### Tuples and the edges they were hopped along -/

/-- The plan consists of LabelScan, FullScan, Filter, Expand and CartesianProduct. -/
def PlanNode.isMatch : PlanNode → Bool
  | .labelScan _ _ | .fullScan _ => true
  | .filter input _ | .expand input _ _ _ _ _ _ => input.isMatch
  | .cartesianProduct left right => left.isMatch && right.isMatch
  | .create _ | .matchCreate _ _ | .project _ _ | .orderBy _ _ | .aggregate _ _ _
  | .limit _ _ => false

/-- A plan yields a tuple, for an empty parent tuple, along the edges of its hops; a hop of
variable length has no edge of its own. -/
inductive Yields (ev : Eval) (store : InMemoryGraphStore) :
    PlanNode → Tuple → List (Option Edge) → Prop
  | labelScan {var label : String} {n : Node} (h : n ∈ store.scanByLabel label) :
      Yields ev store (.labelScan var label) (bindNode ∅ var n.id n.properties) []
  | fullScan {var : String} {n : Node} (h : n ∈ store.scanAll) :
      Yields ev store (.fullScan var) (bindNode ∅ var n.id n.properties) []
  | filter {input : PlanNode} {predicate : Expr} {t : Tuple} {es : List (Option Edge)}
      (h : Yields ev store input t es) (hok : accepts ev predicate t = .ok true) :
      Yields ev store (.filter input predicate) t es
  | expand {input : PlanNode} {spec : ExpandSpec} {t : Tuple} {es : List (Option Edge)}
      {fromId : NodeId} {target : Option Edge × Node} (h : Yields ev store input t es)
      (hfrom : boundNode t spec.fromVar = some fromId)
      (htarget : target ∈ expandTargets store spec fromId)
      (hto : boundNode t spec.toVar ≠ some target.2.id) :
      Yields ev store (.expand input spec.fromVar spec.edgeVar spec.toVar spec.edgeType
        spec.direction spec.depth) (extendTuple spec t target) (es ++ [target.1])
  | product {left right : PlanNode} {l r : Tuple} {es es' : List (Option Edge)}
      (hl : Yields ev store left l es) (hr : Yields ev store right r es') :
      Yields ev store (.cartesianProduct left right) (l.insertAll r.toPairs) (es ++ es')

variable {ev : Eval} {store : InMemoryGraphStore}

/-- The tuples a hop makes of one tuple. -/
theorem mem_expandTuple {spec : ExpandSpec} {t t' : Tuple} :
    t' ∈ expandTuple store spec t ↔ ∃ fromId target, boundNode t spec.fromVar = some fromId ∧
      target ∈ expandTargets store spec fromId ∧ boundNode t spec.toVar ≠ some target.2.id ∧
      t' = extendTuple spec t target := by
  unfold expandTuple
  cases hfrom : boundNode t spec.fromVar with
  | none => simp
  | some fromId =>
    simp only [List.mem_map, List.mem_filter, bne_iff_ne]
    constructor
    · rintro ⟨target, ⟨htarget, hto⟩, rfl⟩
      exact ⟨fromId, target, rfl, htarget, hto, rfl⟩
    · rintro ⟨id, target, hid, htarget, hto, rfl⟩
      cases hid
      exact ⟨target, ⟨htarget, hto⟩, rfl⟩

/-- **The tuples of a plan are the ones it yields.** -/
theorem mem_readNode_iff_yields {plan : PlanNode} (hmatch : plan.isMatch) :
    ∀ {tuples : List Tuple}, readNode ev (some store) ∅ plan = .ok tuples →
      ∀ t, t ∈ tuples ↔ ∃ es, Yields ev store plan t es := by
  induction plan with
  | create | matchCreate | project | orderBy | aggregate | limit =>
    simp [PlanNode.isMatch] at hmatch
  | labelScan var label =>
    intro tuples h t
    cases h
    change t ∈ (store.scanByLabel label).map _ ↔ _
    rw [List.mem_map]
    constructor
    · rintro ⟨n, hn, rfl⟩
      exact ⟨[], .labelScan hn⟩
    · rintro ⟨es, hy⟩
      cases hy with
      | labelScan hn => exact ⟨_, hn, rfl⟩
  | fullScan var =>
    intro tuples h t
    cases h
    change t ∈ store.scanAll.map _ ↔ _
    rw [List.mem_map]
    constructor
    · rintro ⟨n, hn, rfl⟩
      exact ⟨[], .fullScan hn⟩
    · rintro ⟨es, hy⟩
      cases hy with
      | fullScan hn => exact ⟨_, hn, rfl⟩
  | filter input predicate ih =>
    intro tuples h t
    obtain ⟨inputs, hinput, h⟩ := bind_eq_ok h
    rw [mem_filterE h, ih hmatch hinput]
    constructor
    · rintro ⟨⟨es, hy⟩, hok⟩
      exact ⟨es, hy.filter hok⟩
    · rintro ⟨es, hy⟩
      cases hy with
      | filter hy hok => exact ⟨⟨es, hy⟩, hok⟩
  | expand input fromVar edgeVar toVar edgeType direction depth ih =>
    intro tuples h t
    obtain ⟨inputs, hinput, h⟩ := bind_eq_ok h
    cases h
    rw [List.mem_flatMap]
    constructor
    · rintro ⟨t₀, ht₀, ht⟩
      obtain ⟨es, hy⟩ := (ih hmatch hinput t₀).mp ht₀
      obtain ⟨fromId, target, hfrom, htarget, hto, rfl⟩ := mem_expandTuple.mp ht
      exact ⟨_, .expand hy hfrom htarget hto⟩
    · rintro ⟨es, hy⟩
      cases hy with
      | expand hy hfrom htarget hto =>
        exact ⟨_, (ih hmatch hinput _).mpr ⟨_, hy⟩,
          mem_expandTuple.mpr ⟨_, _, hfrom, htarget, hto, rfl⟩⟩
  | cartesianProduct left right ihl ihr =>
    intro tuples h t
    obtain ⟨hml, hmr⟩ := Bool.and_eq_true_iff.mp hmatch
    obtain ⟨lefts, hleft, h⟩ := bind_eq_ok h
    obtain ⟨rights, hright, h⟩ := bind_eq_ok h
    cases h
    rw [productTuples, List.mem_flatMap]
    constructor
    · rintro ⟨l, hl, ht⟩
      obtain ⟨r, hr, rfl⟩ := List.mem_map.mp ht
      obtain ⟨es, hyl⟩ := (ihl hml hleft l).mp hl
      obtain ⟨es', hyr⟩ := (ihr hmr hright r).mp hr
      exact ⟨_, hyl.product hyr⟩
    · rintro ⟨es, hy⟩
      cases hy with
      | product hyl hyr =>
        exact ⟨_, (ihl hml hleft _).mpr ⟨_, hyl⟩,
          List.mem_map.mpr ⟨_, (ihr hmr hright _).mpr ⟨_, hyr⟩, rfl⟩⟩

/-! ### Plans of MATCH clauses -/

theorem PlanNode.isMatch_filterBy (plan : PlanNode) (predicate : Option Expr) :
    (filterBy plan predicate).isMatch = plan.isMatch := by
  cases predicate <;> rfl

theorem PlanNode.isMatch_scanNode (var : String) (node : NodePattern) :
    (scanNode var node).isMatch = true := by
  unfold scanNode
  split <;> rfl

theorem Built.isMatch {patterns : List Pattern} {steps : List WalkStep} {plan : PlanNode}
    (h : Built patterns steps plan) : plan.isMatch := by
  induction h with
  | scan => rw [PlanNode.isMatch_filterBy, PlanNode.isMatch_scanNode]
  | start => exact PlanNode.isMatch_scanNode _ _
  | product _ _ _ _ ih =>
    rw [PlanNode.isMatch, ih, PlanNode.isMatch_filterBy, PlanNode.isMatch_scanNode]
    rfl
  | filter _ _ _ _ _ ih => exact ih
  | @hop steps input prev next edge fromVar toVar _ _ _ _ _ _ ih =>
    have hinput : (edgeInput (some input) edge fromVar).isMatch = true := by
      rw [edgeInput, PlanNode.isMatch_filterBy]
      exact ih
    unfold edgePlan
    dsimp only
    split
    · split
      · rw [PlanNode.isMatch, PlanNode.isMatch_filterBy]
        exact hinput
      · rw [PlanNode.isMatch_filterBy]
        exact hinput
    · rw [PlanNode.isMatch_filterBy]
      exact hinput

theorem planMatch_isMatch {patterns : List Pattern} {plan : PlanNode}
    (hchain : Chained none patterns) (h : planMatch ⟨patterns⟩ = .ok plan) : plan.isMatch := by
  obtain ⟨inner, hbuilt, rfl⟩ := planMatch_built hchain h
  rw [PlanNode.isMatch_filterBy]
  exact hbuilt.isMatch

theorem PlanNode.writes_of_isMatch {plan : PlanNode} (h : plan.isMatch) : plan.writes = false := by
  induction plan with
  | create | matchCreate | project | orderBy | aggregate | limit => simp [isMatch] at h
  | labelScan | fullScan => rfl
  | filter _ _ ih | expand _ _ _ _ _ _ _ ih => exact ih h
  | cartesianProduct left right ihl ihr =>
    obtain ⟨hl, hr⟩ := Bool.and_eq_true_iff.mp h
    rw [writes, ihl hl, ihr hr]
    rfl

/-- The evaluation of the predicates of a plan. -/
abbrev planEval (ex : Executor) (plan : PlanNode) : Eval :=
  fun e t => evalExprWith (subqueryAt plan.existsDepth) ex t none e

/-- Executing a plan of a MATCH clause returns the rows of the store it reads. -/
theorem executeNode_eq_readNode {ex : Executor} {plan : PlanNode} (h : plan.isMatch)
    (write : Option InMemoryGraphStore) : runExec (executeNode ex ∅ plan) write =
      (readNode (planEval ex plan) (ex.reader write) ∅ plan, write) :=
  executeNodeWith_eq_readNode (.inl (PlanNode.writes_of_isMatch h))

/-! ### What the operators yield -/

/-- What a hop yields. -/
theorem yields_expand_iff {input : PlanNode} (spec : ExpandSpec) {t : Tuple}
    {es : List (Option Edge)} : Yields ev store (.expand input spec.fromVar spec.edgeVar
        spec.toVar spec.edgeType spec.direction spec.depth) t es ↔
      ∃ t₀ es₀ fromId target, Yields ev store input t₀ es₀ ∧
        boundNode t₀ spec.fromVar = some fromId ∧ target ∈ expandTargets store spec fromId ∧
        boundNode t₀ spec.toVar ≠ some target.2.id ∧ t = extendTuple spec t₀ target ∧
        es = es₀ ++ [target.1] := by
  constructor
  · intro hy
    obtain ⟨fromVar, edgeVar, toVar, edgeType, direction, depth⟩ := spec
    cases hy with
    | expand h hfrom htarget hto => exact ⟨_, _, _, _, h, hfrom, htarget, hto, rfl, rfl⟩
  · rintro ⟨t₀, es₀, fromId, target, h, hfrom, htarget, hto, rfl, rfl⟩
    exact .expand h hfrom htarget hto

theorem yields_filterBy_iff {plan : PlanNode} {predicate : Option Expr} {t : Tuple}
    {es : List (Option Edge)} : Yields ev store (filterBy plan predicate) t es ↔
      Yields ev store plan t es ∧ ∀ e ∈ predicate, accepts ev e t = .ok true := by
  cases predicate with
  | none => simp [filterBy]
  | some e =>
    constructor
    · intro hy
      cases hy with
      | filter hy hok => exact ⟨hy, by rintro _ ⟨⟩; exact hok⟩
    · rintro ⟨hy, hok⟩
      exact hy.filter (hok e rfl)

/-- A scan yields the nodes with the first label of the pattern. -/
theorem yields_scanNode_iff (hwf : store.Wf) {var : String} {node : NodePattern} {t : Tuple}
    {es : List (Option Edge)} : Yields ev store (scanNode var node) t es ↔
      es = [] ∧ ∃ n, store.getNode n.id = some n ∧ (∀ label ∈ node.labels.head?, label ∈ n.labels) ∧
        t = bindNode ∅ var n.id n.properties := by
  unfold scanNode
  cases hlabel : node.labels.head? with
  | none =>
    constructor
    · intro hy
      cases hy with
      | fullScan hn => exact ⟨rfl, _, hwf.mem_scanAll.mp hn, by simp, rfl⟩
    · rintro ⟨rfl, n, hn, -, rfl⟩
      exact .fullScan (hwf.mem_scanAll.mpr hn)
  | some label =>
    constructor
    · intro hy
      cases hy with
      | labelScan hn =>
        obtain ⟨hget, hl⟩ := hwf.mem_scanByLabel.mp hn
        exact ⟨rfl, _, hget, by rintro _ ⟨⟩; exact hl, rfl⟩
    · rintro ⟨rfl, n, hn, hl, rfl⟩
      exact .labelScan (hwf.mem_scanByLabel.mpr ⟨hn, hl label rfl⟩)

/-! ### Inline properties -/

/-- An inline property: a variable, a key and a literal. -/
structure PropClaim where
  var : String
  key : String
  lit : Literal
  deriving DecidableEq

/-- A value meets a literal. -/
def Value.meets (x : Value) (lit : Literal) : Prop :=
  evalBinaryOp x .eq (evalLiteral lit) = .ok (.bool true)

instance (x : Value) (lit : Literal) : Decidable (x.meets lit) :=
  inferInstanceAs (Decidable (evalBinaryOp x .eq (evalLiteral lit) = .ok (.bool true)))

/-- The tuple has the property under the key of the variable. -/
def HoldsIn (t : Tuple) (claim : PropClaim) : Prop :=
  ∃ x, t.lookup (propKey claim.var claim.key) = some x ∧ x.meets claim.lit

/-- The inline properties written at a node pattern that has a variable. -/
def NodePattern.claims (node : NodePattern) : List PropClaim :=
  node.var.toList.flatMap fun var => node.properties.toPairs.map fun kv => ⟨var, kv.1, kv.2⟩

theorem NodePattern.mem_claims {node : NodePattern} {claim : PropClaim} :
    claim ∈ node.claims ↔ node.var = some claim.var ∧
      node.properties.lookup claim.key = some claim.lit := by
  rw [claims, List.mem_flatMap]
  constructor
  · rintro ⟨var, hvar, hmem⟩
    obtain ⟨kv, hkv, rfl⟩ := List.mem_map.mp hmem
    exact ⟨Option.mem_toList.mp hvar, AList.mem_toPairs.mp hkv⟩
  · rintro ⟨hvar, hlit⟩
    exact ⟨claim.var, Option.mem_toList.mpr hvar,
      List.mem_map.mpr ⟨(claim.key, claim.lit), AList.mem_toPairs.mpr hlit, rfl⟩⟩

/-- The predicate asks for each of the properties and for nothing else. -/
inductive Conjunction : Expr → List PropClaim → Prop
  | propEq (claim : PropClaim) : Conjunction (propEq claim.var claim.key claim.lit) [claim]
  | and {e e' : Expr} {claims claims' : List PropClaim} (h : Conjunction e claims)
      (h' : Conjunction e' claims') : Conjunction (.binaryOp e .and e') (claims ++ claims')

/-- … where there may be no predicate. -/
def Conj : Option Expr → List PropClaim → Prop
  | none, claims => claims = []
  | some e, claims => Conjunction e claims

/-- A comparison is true, false or an error, and never a panic. -/
theorem evalBinaryOp_eq_cases (x y : Value) :
    (∃ b, evalBinaryOp x .eq y = .ok (.bool b)) ∨
      ∃ e, evalBinaryOp x .eq y = .error (.error e) := by
  cases x <;> cases y <;>
    first
    | exact .inl ⟨_, rfl⟩
    | exact .inr ⟨_, rfl⟩

section
variable {sub : Executor → PlanNode → Tuple → Except Fault (List Tuple)} {ex : Executor}

/-- What a conjunction evaluates to: true where the tuple has the properties, and false or
an error where it does not. -/
theorem Conjunction.eval {e : Expr} {claims : List PropClaim} (h : Conjunction e claims)
    (t : Tuple) :
    (∃ b, evalExprWith sub ex t none e = .ok (.bool b) ∧ (b = true ↔ ∀ c ∈ claims, HoldsIn t c)) ∨
      (∃ err, evalExprWith sub ex t none e = .error (.error err)) ∧
        ¬ ∀ c ∈ claims, HoldsIn t c := by
  induction h with
  | propEq claim =>
    have hone : (∀ c ∈ [claim], HoldsIn t c) ↔ HoldsIn t claim := by simp
    rw [hone]
    unfold KuzuEventBus.propEq HoldsIn Value.meets
    rw [evalExprWith, evalExprWith, evalExprWith]
    cases hx : t.lookup (propKey claim.var claim.key) with
    | none =>
      refine .inr ⟨⟨_, rfl⟩, ?_⟩
      rintro ⟨x, hx', -⟩
      cases hx'
    | some x =>
      change (∃ b, evalBinaryOp x .eq (evalLiteral claim.lit) = _ ∧ _) ∨
        (∃ err, evalBinaryOp x .eq (evalLiteral claim.lit) = _) ∧ _
      rcases evalBinaryOp_eq_cases x (evalLiteral claim.lit) with ⟨b, hb⟩ | ⟨err, herr⟩
      · refine .inl ⟨b, hb, ?_⟩
        constructor
        · rintro rfl
          exact ⟨x, rfl, hb⟩
        · rintro ⟨y, hy, hmeets⟩
          cases hy
          rw [hb] at hmeets
          simpa using hmeets
      · refine .inr ⟨⟨err, herr⟩, ?_⟩
        rintro ⟨y, hy, hmeets⟩
        cases hy
        rw [herr] at hmeets
        cases hmeets
  | @and e e' claims claims' _ _ ih ih' =>
    simp only [List.forall_mem_append]
    rw [evalExprWith]
    rcases ih with ⟨b, hb, hiff⟩ | ⟨⟨err, herr⟩, hnot⟩
    · rcases ih' with ⟨b', hb', hiff'⟩ | ⟨⟨err, herr⟩, hnot⟩
      · refine .inl ⟨b && b', ?_, ?_⟩
        · rw [hb, hb']
          rfl
        · rw [Bool.and_eq_true, hiff, hiff']
      · refine .inr ⟨⟨err, ?_⟩, fun h => hnot h.2⟩
        rw [hb, herr]
        rfl
    · refine .inr ⟨⟨err, ?_⟩, fun h => hnot h.1⟩
      rw [herr]
      rfl

/-- **A filter keeps the tuples that have the properties.** -/
theorem Conjunction.accepts {e : Expr} {claims : List PropClaim} (h : Conjunction e claims)
    (t : Tuple) : ∃ b, accepts (fun e t => evalExprWith sub ex t none e) e t = .ok b ∧
      (b = true ↔ ∀ c ∈ claims, HoldsIn t c) := by
  simp only [KuzuEventBus.accepts]
  rcases h.eval t with ⟨b, hb, hiff⟩ | ⟨⟨err, herr⟩, hnot⟩
  · rw [hb]
    exact ⟨decide (some (Value.bool b) = some (.bool true)), rfl, by simpa using hiff⟩
  · rw [herr]
    exact ⟨false, rfl, by simpa using hnot⟩

theorem Conj.accepts_iff {predicate : Option Expr} {claims : List PropClaim}
    (h : Conj predicate claims) (t : Tuple) :
    (∀ e ∈ predicate, KuzuEventBus.accepts (fun e t => evalExprWith sub ex t none e) e t =
      .ok true) ↔ ∀ c ∈ claims, HoldsIn t c := by
  cases predicate with
  | none =>
    rw [show claims = [] from h]
    simp
  | some e =>
    have hconj : Conjunction e claims := h
    obtain ⟨b, hb, hiff⟩ := hconj.accepts t
    rw [← hiff]
    constructor
    · intro hall
      have htrue := hall e rfl
      rw [hb] at htrue
      exact Except.ok.inj htrue
    · rintro rfl _ ⟨⟩
      exact hb

end

/-! ### The predicates of the planner -/

theorem conj_inlinePredicate (var : String) (properties : HashMap String Literal) :
    Conj (inlinePredicate var properties)
      (properties.toPairs.map fun kv => ⟨var, kv.1, kv.2⟩) := by
  have hfold : ∀ (rest : List (String × Literal)) (pred : Expr) (claims : List PropClaim),
      Conjunction pred claims →
      Conjunction (rest.foldl (fun pred kv => .binaryOp pred .and (propEq var kv.1 kv.2)) pred)
        (claims ++ rest.map fun kv => ⟨var, kv.1, kv.2⟩) := by
    intro rest
    induction rest with
    | nil => intro pred claims h; simpa using h
    | cons kv rest ih =>
      intro pred claims h
      have hstep := ih _ _ (h.and (.propEq ⟨var, kv.1, kv.2⟩))
      rw [List.append_assoc] at hstep
      exact hstep
  unfold inlinePredicate
  cases properties.toPairs with
  | nil => rfl
  | cons kv rest => exact hfold rest _ _ (.propEq ⟨var, kv.1, kv.2⟩)

/-- The inline properties of a node pattern, over its variable. -/
theorem NodePattern.conj_claims {node : NodePattern} {var : String} (h : node.var = some var) :
    Conj (inlinePredicate var node.properties) node.claims := by
  have hclaims := conj_inlinePredicate var node.properties
  unfold NodePattern.claims
  rw [h]
  simpa using hclaims

theorem Conj.conjoin {pred pred' : Option Expr} {claims claims' : List PropClaim}
    (h : Conj pred claims) (h' : Conj pred' claims') :
    Conj (conjoin pred pred') (claims ++ claims') := by
  cases pred with
  | none =>
    rw [show claims = [] from h, List.nil_append]
    exact h'
  | some e =>
    cases pred' with
    | none =>
      rw [show claims' = [] from h', List.append_nil]
      exact h
    | some e' => exact Conjunction.and h h'

/-- The properties the global filter asks for. -/
def Pattern.nodeClaims : Pattern → List PropClaim
  | .node n => n.claims
  | .edge _ => []

/-- A fold that asks for the properties of one node pattern after the other. -/
theorem conj_foldl {op : Option Expr → Pattern → Option Expr}
    (hop : ∀ pred claims pattern, Conj pred claims →
      Conj (op pred pattern) (claims ++ pattern.nodeClaims)) (patterns : List Pattern) :
    ∀ (pred : Option Expr) (claims : List PropClaim), Conj pred claims →
      Conj (patterns.foldl op pred) (claims ++ patterns.flatMap Pattern.nodeClaims) := by
  induction patterns with
  | nil => intro pred claims h; simpa using h
  | cons pattern rest ih =>
    intro pred claims h
    rw [List.foldl_cons, List.flatMap_cons, ← List.append_assoc]
    exact ih _ _ (hop _ _ pattern h)

/-- **The global filter asks for the inline properties of all node patterns.** -/
theorem conj_globalPredicate (patterns : List Pattern) :
    Conj (globalPredicate patterns) (patterns.flatMap Pattern.nodeClaims) := by
  refine conj_foldl (fun pred claims pattern h => ?_) patterns none [] rfl
  cases pattern with
  | edge edge => simpa [Pattern.nodeClaims] using h
  | node node =>
    cases hvar : node.var with
    | none => simpa [Pattern.nodeClaims, NodePattern.claims, hvar] using h
    | some var =>
      simp only [hvar]
      exact h.conjoin (NodePattern.conj_claims hvar)

/-- The properties of an adjacent node pattern that names `toVar`. -/
def adjacentClaims (toVar : String) : Option Pattern → List PropClaim
  | some (.node node) => if node.var = some toVar then node.claims else []
  | _ => []

theorem conj_adjacentPredicate (toVar : String) (pattern : Option Pattern) :
    Conj (adjacentPredicate toVar pattern) (adjacentClaims toVar pattern) := by
  rcases pattern with _ | node | edge
  · rfl
  · simp only [adjacentPredicate, adjacentClaims]
    by_cases hvar : node.var = some toVar
    · rw [if_pos hvar, if_pos hvar]
      exact NodePattern.conj_claims hvar
    · rw [if_neg hvar, if_neg hvar]
      rfl
  · rfl

theorem mem_adjacentClaims {toVar : String} {pattern : Option Pattern} {claim : PropClaim}
    (h : claim ∈ adjacentClaims toVar pattern) :
    ∃ node, pattern = some (.node node) ∧ node.var = some toVar ∧ claim ∈ node.claims := by
  unfold adjacentClaims at h
  split at h
  · next node =>
    split at h
    · next hvar => exact ⟨node, rfl, hvar, h⟩
    · cases h
  · cases h

/-- **The filter after an Expand asks for the inline properties of its start**, and of the
node patterns beside the edge that name its end. -/
theorem conj_edgePredicate {edge : EdgePattern} {fromVar : String}
    (hfrom : edge.fromNode.var = some fromVar) (prev next : Option Pattern) (toVar : String) :
    Conj (edgePredicate prev next edge fromVar toVar)
      (adjacentClaims toVar prev ++ adjacentClaims toVar next ++ edge.fromNode.claims) :=
  ((conj_adjacentPredicate toVar prev).conjoin (conj_adjacentPredicate toVar next)).conjoin
    (NodePattern.conj_claims hfrom)

/-! ### Rows -/

/-- The Expand of a hop. -/
def EdgePattern.spec (edge : EdgePattern) (fromVar toVar : String) : ExpandSpec :=
  ⟨fromVar, edge.var, toVar, edge.edgeType, edge.direction, edge.depth⟩

/-- The tuples that steps make, with the edges they hop along. -/
inductive Row (store : InMemoryGraphStore) :
    List WalkStep → Tuple → List (Option Edge) → Prop
  /-- No step, the empty tuple. -/
  | nil : Row store [] ∅ []
  /-- A scan binds a fresh variable to a node with the first label of its pattern. -/
  | scan {steps : List WalkStep} {t t' : Tuple} {es : List (Option Edge)} {node : NodePattern}
      {var : String} {n : Node} (h : Row store steps t es) (hfresh : var ∉ boundBy steps)
      (hn : store.getNode n.id = some n) (hlabel : ∀ label ∈ node.labels.head?, label ∈ n.labels)
      (ht' : AList.SameMap t' (bindNode t var n.id n.properties)) :
      Row store (steps ++ [.scan var node]) t' es
  /-- A hop, after which the tuple has the properties written at its start. -/
  | hop {steps : List WalkStep} {t : Tuple} {es : List (Option Edge)} {edge : EdgePattern}
      {fromVar toVar : String} {fromId : NodeId} {target : Option Edge × Node}
      (h : Row store steps t es) (hfrom : boundNode t fromVar = some fromId)
      (htarget : target ∈ expandTargets store (edge.spec fromVar toVar) fromId)
      (hclaims : ∀ c ∈ edge.fromNode.claims,
        HoldsIn (extendTuple (edge.spec fromVar toVar) t target) c) :
      Row store (steps ++ [.hop (boundBy steps) edge fromVar toVar])
        (extendTuple (edge.spec fromVar toVar) t target) (es ++ [target.1])

variable {store : InMemoryGraphStore} {patterns : List Pattern} {steps : List WalkStep}
  {t : Tuple} {es : List (Option Edge)} {v : String}

/-- Merging with the tuple of a scan binds its variable. -/
theorem sameMap_insertAll_bindNode (t : Tuple) (var : String) (id : NodeId) (ps : Properties) :
    AList.SameMap (t.insertAll (bindNode ∅ var id ps).toPairs) (bindNode t var id ps) := by
  intro key
  rw [AList.lookup_insertAll_toPairs]
  by_cases hself : key = var
  · rw [hself, lookup_bindNode_self, lookup_bindNode_self]
    rfl
  · by_cases hprop : ∃ k, key = propKey var k
    · obtain ⟨k, rfl⟩ := hprop
      rw [lookup_bindNode_propKey, lookup_bindNode_propKey]
      simp
    · have hne : ∀ k, key ≠ propKey var k := fun k hk => hprop ⟨k, hk⟩
      rw [lookup_bindNode_of_ne hself hne, lookup_bindNode_of_ne hself hne]
      simp

section
variable {sub : Executor → PlanNode → Tuple → Except Fault (List Tuple)} {ex : Executor}

/-- **The tuples of a plan are rows of its steps.** -/
theorem Built.row (hwf : store.Wf) {plan : PlanNode} (h : Built patterns steps plan) :
    ∀ {t : Tuple} {es : List (Option Edge)},
      Yields (fun e t => evalExprWith sub ex t none e) store plan t es → Row store steps t es := by
  induction h with
  | scan hmem hvar =>
    intro t es hy
    obtain ⟨rfl, n, hn, hlabel, rfl⟩ :=
      (yields_scanNode_iff hwf).mp (yields_filterBy_iff.mp hy).1
    exact Row.nil.scan (by simp) hn hlabel (AList.SameMap.refl _)
  | start hmem hfrom =>
    intro t es hy
    obtain ⟨rfl, n, hn, hlabel, rfl⟩ := (yields_scanNode_iff hwf).mp hy
    exact Row.nil.scan (by simp) hn hlabel (AList.SameMap.refl _)
  | @product steps left node var hleft hmem hvar hfresh ih =>
    intro t es hy
    cases hy with
    | product hl hr =>
      obtain ⟨rfl, n, hn, hlabel, rfl⟩ :=
        (yields_scanNode_iff hwf).mp (yields_filterBy_iff.mp hr).1
      rw [List.append_nil]
      exact (ih hl).scan hfresh hn hlabel (sameMap_insertAll_bindNode _ _ _ _)
  | filter _ _ _ _ _ ih =>
    intro t es hy
    cases hy with
    | filter hy _ => exact ih hy
  | @hop steps input prev next edge fromVar toVar hinput hmem hfrom hto hprev hnext ih =>
    intro t es hy
    have hfilter : Yields (fun e t => evalExprWith sub ex t none e) store
        (filterBy (.expand (edgeInput (some input) edge fromVar) fromVar edge.var toVar
          edge.edgeType edge.direction edge.depth) (edgePredicate prev next edge fromVar toVar))
        t es := by
      unfold edgePlan at hy
      dsimp only at hy
      split at hy
      · split at hy
        · cases hy with
          | filter hy _ => exact hy
        · exact hy
      · exact hy
    obtain ⟨hexpand, hpred⟩ := yields_filterBy_iff.mp hfilter
    have hclaims := ((conj_edgePredicate hfrom prev next toVar).accepts_iff t).mp hpred
    obtain ⟨t₀, es₀, fromId, target, hin, hfromId, htarget, -, rfl, rfl⟩ :=
      (yields_expand_iff (edge.spec fromVar toVar)).mp hexpand
    exact (ih (yields_filterBy_iff.mp hin).1).hop hfromId htarget
      fun c hc => hclaims c (List.mem_append_right _ hc)

end

/-! ### What a row keeps -/

/-- The names in steps have no full stops. -/
def PlainSteps (steps : List WalkStep) : Prop :=
  ∀ step ∈ steps, Plain step.var ∧ ∀ edge ∈ step.edge?, ∀ v ∈ edge.var, Plain v

theorem PlainSteps.init {step : WalkStep} (h : PlainSteps (steps ++ [step])) : PlainSteps steps :=
  fun s hs => h s (List.mem_append_left _ hs)

theorem PlainSteps.last {step : WalkStep} (h : PlainSteps (steps ++ [step])) :
    Plain step.var ∧ ∀ edge ∈ step.edge?, ∀ v ∈ edge.var, Plain v :=
  h step (by simp)

/-- Binding another variable touches no key of `v`. -/
theorem lookup_bindNode_frame {w key : String} (hv : Plain v) (hw : Plain w) (hne : v ≠ w)
    (hkey : KeyOf v key) (t : Tuple) (id : NodeId) (ps : Properties) :
    (bindNode t w id ps).lookup key = t.lookup key := by
  apply lookup_bindNode_of_ne
  · rintro rfl
    exact hne (hkey.eq hv hw (.inl rfl))
  · intro k hk
    exact hne (hkey.eq hv hw (.inr ⟨k, hk⟩))

/-- Binding an edge of another name touches no key of `v`. -/
theorem lookup_extendTuple_eq_bindNode {spec : ExpandSpec} {target : Option Edge × Node}
    {key : String} (hv : Plain v) (hedge : ∀ w ∈ spec.edgeVar, Plain w)
    (hne : spec.edgeVar ≠ some v) (hkey : KeyOf v key) (t : Tuple) :
    (extendTuple spec t target).lookup key =
      (bindNode t spec.toVar target.2.id target.2.properties).lookup key := by
  unfold extendTuple
  split
  · next edge _ =>
    cases hvar : spec.edgeVar with
    | none => rfl
    | some w =>
      have hw : v ≠ w := by
        rintro rfl
        exact hne hvar
      apply lookup_insertAll_edgeBindings_of_ne
      · intro hk
        exact hw (hkey.eq hv (hedge w hvar) (.inl hk))
      · intro k hk
        exact hw (hkey.eq hv (hedge w hvar) (.inr ⟨k, hk⟩))
  · rfl

/-- A hop to another variable along an edge of another name touches no key of `v`. -/
theorem lookup_extendTuple_frame {spec : ExpandSpec} {target : Option Edge × Node} {key : String}
    (hv : Plain v) (hto : Plain spec.toVar) (hedge : ∀ w ∈ spec.edgeVar, Plain w)
    (hne : v ≠ spec.toVar) (hne' : spec.edgeVar ≠ some v) (hkey : KeyOf v key) (t : Tuple) :
    (extendTuple spec t target).lookup key = t.lookup key := by
  rw [lookup_extendTuple_eq_bindNode hv hedge hne' hkey, lookup_bindNode_frame hv hto hne hkey]

/-- A variable that the edge of a single hop is named by is bound to that edge. -/
theorem boundNode_extendTuple_edgeVar {spec : ExpandSpec} {target : Option Edge × Node}
    (hv : spec.edgeVar = some v) (hsome : target.1.isSome) (t : Tuple) :
    boundNode (extendTuple spec t target) v = none := by
  obtain ⟨edge, hedge⟩ := Option.isSome_iff_exists.mp hsome
  unfold boundNode extendTuple
  simp only [hedge, hv, bindEdge, lookup_insertAll_edgeBindings_self]

/-- A hop that binds neither `v` nor, as a node, anything under its name, binds it to no
other node than before. -/
theorem boundNode_extendTuple_of_ne {spec : ExpandSpec} {target : Option Edge × Node}
    (hv : Plain v) (hto : Plain spec.toVar) (hedge : ∀ w ∈ spec.edgeVar, Plain w)
    (hne : v ≠ spec.toVar) {t : Tuple} {id : NodeId}
    (h : (extendTuple spec t target).lookup v = some (.nodeId id)) :
    t.lookup v = some (.nodeId id) := by
  by_cases hvar : spec.edgeVar = some v
  · cases htarget : target.1 with
    | none =>
      rw [extendTuple, htarget] at h
      rw [← lookup_bindNode_frame hv hto hne (.inl rfl)]
      exact h
    | some edge =>
      have hnone : boundNode (extendTuple spec t target) v = none :=
        boundNode_extendTuple_edgeVar hvar (by rw [htarget]; rfl) t
      rw [boundNode_eq_some.mpr h] at hnone
      cases hnone
  · rw [← lookup_extendTuple_frame hv hto hedge hne hvar (.inl rfl)]
    exact h

/-- **Only what a step binds is bound to a node.** -/
theorem Row.bound (h : Row store steps t es) (hsteps : PlainSteps steps) (hv : Plain v)
    {id : NodeId} (hid : t.lookup v = some (.nodeId id)) : v ∈ boundBy steps := by
  induction h generalizing id with
  | nil => simp at hid
  | @scan steps t t' es node var n _ _ _ _ ht' ih =>
    rw [boundBy_append, List.mem_append]
    by_cases heq : v = var
    · simp [heq, WalkStep.var]
    · have hvar : Plain var := hsteps.last.1
      rw [ht', lookup_bindNode_frame hv hvar heq (.inl rfl)] at hid
      exact .inl (ih hsteps.init hid)
  | @hop steps t es edge fromVar toVar fromId target _ _ _ _ ih =>
    rw [boundBy_append, List.mem_append]
    by_cases heq : v = toVar
    · simp [heq, WalkStep.var]
    · have hid' := boundNode_extendTuple_of_ne hv hsteps.last.1 (hsteps.last.2 edge rfl) heq hid
      exact .inl (ih hsteps.init hid')

/-- **A hop starts from a variable that is bound.** -/
theorem Row.starts (h : Row store steps t es) (hsteps : PlainSteps steps)
    (hfrom : ∀ bound edge fromVar toVar, .hop bound edge fromVar toVar ∈ steps → Plain fromVar) :
    ∀ bound edge fromVar toVar, .hop bound edge fromVar toVar ∈ steps →
      fromVar ∈ bound ∧ bound ⊆ boundBy steps := by
  induction h with
  | nil => intro bound edge fromVar toVar hmem; cases hmem
  | @scan steps _ _ _ node var _ _ _ _ _ _ ih =>
    intro bound edge fromVar toVar hmem
    have hmem' : .hop bound edge fromVar toVar ∈ steps := by simpa using hmem
    obtain ⟨hb, hsub⟩ := ih hsteps.init
      (fun b e f t hm => hfrom b e f t (List.mem_append_left _ hm)) bound edge fromVar toVar hmem'
    rw [boundBy_append]
    exact ⟨hb, List.subset_append_of_subset_left _ hsub⟩
  | @hop steps t es edge fromVar toVar fromId target hrow hfromId _ _ ih =>
    intro bound edge' fromVar' toVar' hmem
    rw [boundBy_append]
    rcases List.mem_append.mp hmem with hmem | hmem
    · obtain ⟨hb, hsub⟩ := ih hsteps.init
        (fun b e f t hm => hfrom b e f t (List.mem_append_left _ hm)) bound edge' fromVar' toVar'
        hmem
      exact ⟨hb, List.subset_append_of_subset_left _ hsub⟩
    · obtain ⟨rfl, rfl, rfl, rfl⟩ := WalkStep.hop.inj (List.mem_singleton.mp hmem)
      refine ⟨hrow.bound hsteps.init ?_ (boundNode_eq_some.mp hfromId),
        List.subset_append_left _ _⟩
      exact hfrom _ _ _ _ (List.mem_append_right _ (List.mem_singleton_self _))

theorem IsPath.plainSteps {plan : PlanNode} (hpath : IsPath patterns)
    (h : Built patterns (matchSteps patterns) plan) : PlainSteps (matchSteps patterns) := by
  intro step hstep
  refine ⟨walkSteps_plain hpath.plain step hstep, fun edge hedge v hv => ?_⟩
  cases step with
  | scan => cases hedge
  | hop bound edge' fromVar toVar =>
    cases hedge
    exact hpath.plain _ (h.hop_mem hstep).1 v (by simp [Pattern.names, Option.mem_def.mp hv])

end KuzuEventBus
