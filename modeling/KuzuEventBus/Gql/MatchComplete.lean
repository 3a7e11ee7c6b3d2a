import KuzuEventBus.Gql.MatchSound

/-!
# Completeness of MATCH

Which assignments of nodes to variables a MATCH plan finds.  A hop finds the nodes at
the other end of the edges, provided that its start is bound and its end is not: from
an unbound start it finds nothing, and at a bound end it passes over the very node
that the end is bound to.

## Main definitions

* `Pattern.SatisfiedBy` — an assignment satisfies a pattern.
* `WalkStep.joins` — a hop goes from a bound variable to one that is not.
* `AgreesAt` — a tuple binds a variable as an assignment does.
* `PlanNode.StartsBound`, `MatchComplete` — what a complete MATCH returns.

## Main results

* `Built.yields` — **a plan whose hops join yields every assignment** to what it binds.
* `mem_boundBy_matchSteps` — the steps of the patterns bind all their node variables.
* `Built.startsBound` — **every Expand starts from a bound variable** in such a plan.
* `matchComplete_of_joins` — a MATCH whose hops join is complete.
* `incomplete_triangle` — assignments that are missed.
-/

namespace KuzuEventBus

/-! ### Assignments -/

/-- The edge leads from `a` to `b` in a direction. -/
def Edge.Leads (e : Edge) (a b : NodeId) : Direction → Prop
  | .right => e.fromNode = a ∧ e.toNode = b
  | .left => e.fromNode = b ∧ e.toNode = a
  | .both => (e.fromNode = a ∧ e.toNode = b) ∨ (e.fromNode = b ∧ e.toNode = a)

instance (e : Edge) (a b : NodeId) : ∀ direction, Decidable (e.Leads a b direction)
  | .right | .left => inferInstanceAs (Decidable (_ ∧ _))
  | .both => inferInstanceAs (Decidable (_ ∨ _))

/-- The edge meets an edge pattern from `a` to `b`: it has one of the types and the properties
between the brackets. -/
def Edge.Along (e : Edge) (pattern : EdgePattern) (a b : NodeId) : Prop :=
  (∀ types ∈ pattern.edgeType, e.edgeType ∈ Text.splitTrim '|' types) ∧
    Meet e.properties pattern.properties ∧ e.Leads a b pattern.direction

instance (e : Edge) (pattern : EdgePattern) (a b : NodeId) : Decidable (e.Along pattern a b) :=
  inferInstanceAs (Decidable (_ ∧ _ ∧ _))

/-- The node that `σ` assigns to the variable of a node pattern carries what it says. -/
def NodePattern.SatisfiedBy (store : InMemoryGraphStore) (σ : String → NodeId)
    (pattern : NodePattern) : Prop :=
  ∀ var ∈ pattern.var, ∃ n ∈ store.getNode (σ var), n.Carries pattern

instance (store : InMemoryGraphStore) (σ : String → NodeId) (pattern : NodePattern) :
    Decidable (pattern.SatisfiedBy store σ) :=
  inferInstanceAs (Decidable (∀ var ∈ pattern.var, ∃ n ∈ store.getNode (σ var), n.Carries pattern))

/-- An assignment satisfies an edge pattern: so it does its ends, and there is an edge. -/
def EdgePattern.SatisfiedBy (store : InMemoryGraphStore) (σ : String → NodeId)
    (pattern : EdgePattern) : Prop :=
  pattern.fromNode.SatisfiedBy store σ ∧ pattern.toNode.SatisfiedBy store σ ∧
    ∀ a ∈ pattern.fromNode.var, ∀ b ∈ pattern.toNode.var,
      ∃ e ∈ store.edges.values, e.Along pattern (σ a) (σ b)

instance (store : InMemoryGraphStore) (σ : String → NodeId) (pattern : EdgePattern) :
    Decidable (pattern.SatisfiedBy store σ) :=
  inferInstanceAs (Decidable (_ ∧ _ ∧ _))

/-- An assignment satisfies a pattern. -/
def Pattern.SatisfiedBy (store : InMemoryGraphStore) (σ : String → NodeId) : Pattern → Prop
  | .node n => n.SatisfiedBy store σ
  | .edge e => e.SatisfiedBy store σ

instance (store : InMemoryGraphStore) (σ : String → NodeId) :
    ∀ pattern : Pattern, Decidable (pattern.SatisfiedBy store σ)
  | .node n => inferInstanceAs (Decidable (n.SatisfiedBy store σ))
  | .edge e => inferInstanceAs (Decidable (e.SatisfiedBy store σ))

/-- A tuple binds the node variables as `σ` assigns them. -/
def Follows (patterns : List Pattern) (σ : String → NodeId) (t : Tuple) : Prop :=
  ∀ pattern ∈ patterns, ∀ node ∈ pattern.occurrences, ∀ var ∈ node.var,
    boundNode t var = some (σ var)

instance (patterns : List Pattern) (σ : String → NodeId) (t : Tuple) :
    Decidable (Follows patterns σ t) :=
  inferInstanceAs (Decidable (∀ pattern ∈ patterns, ∀ node ∈ pattern.occurrences,
    ∀ var ∈ node.var, boundNode t var = some (σ var)))

/-- A hop joins on to what is bound: it starts from a bound variable, and neither its end nor
its edge has the name of one. -/
def WalkStep.joins : WalkStep → Bool
  | .scan _ _ => true
  | .hop bound edge fromVar toVar =>
    fromVar ∈ bound ∧ toVar ∉ bound ∧ edge.var ≠ some toVar ∧ ∀ v ∈ edge.var, v ∉ bound

variable {store : InMemoryGraphStore} {patterns : List Pattern} {steps : List WalkStep}
  {t : Tuple} {es : List (Option Edge)} {v : String} {σ : String → NodeId}

theorem NodePattern.SatisfiedBy.claim {node : NodePattern} (h : node.SatisfiedBy store σ)
    {c : PropClaim} (hc : c ∈ node.claims) :
    ∃ n, store.getNode (σ c.var) = some n ∧ ∃ x ∈ n.properties.lookup c.key, x.meets c.lit := by
  obtain ⟨hvar, hlit⟩ := NodePattern.mem_claims.mp hc
  obtain ⟨n, hn, -, hmeet⟩ := h c.var hvar
  exact ⟨n, hn, hmeet (c.key, c.lit) (AList.mem_toPairs.mpr hlit)⟩

/-! ### A hop finds the other end -/

/-- **A single hop draws from the other ends of the edges that meet its pattern.** -/
theorem mem_expandTargets_of_along (hwf : store.Wf) {edge : EdgePattern}
    (hsingle : edge.depth = none) {fromVar toVar : String} {a b : NodeId} {e : Edge} {n : Node}
    (he : e ∈ store.edges.values) (halong : e.Along edge a b) (hn : store.getNode b = some n) :
    (some e, n) ∈ expandTargets store (edge.spec fromVar toVar) a := by
  obtain ⟨htypes, -, hdir⟩ := halong
  obtain ⟨id, hid⟩ := AList.mem_values_iff.mp he
  have hedge : store.edges.lookup e.id = some e := by
    rw [hwf.edge_id hid]
    exact hid
  have hout : e.fromNode = a ∧ e.toNode = b → (e, n) ∈ store.getNeighbors a none := by
    rintro ⟨hfrom, hto⟩
    exact hwf.mem_getNeighbors.mpr ⟨hedge, hfrom, by rw [hto]; exact hn⟩
  have hin : e.fromNode = b ∧ e.toNode = a → (e, n) ∈ store.getNeighborsIncoming a none := by
    rintro ⟨hfrom, hto⟩
    exact hwf.mem_getNeighborsIncoming.mpr ⟨hedge, hto, by rw [hfrom]; exact hn⟩
  have hneighbor : (e, n) ∈ directedNeighbors store a none edge.direction := by
    cases hd : edge.direction with
    | right =>
      rw [hd] at hdir
      exact hout hdir
    | left =>
      rw [hd] at hdir
      exact hin hdir
    | both =>
      rw [hd] at hdir
      exact List.mem_append.mpr (hdir.imp hout hin)
  have htype : (unionTypes true edge.edgeType).isEmpty ∨
      e.edgeType ∈ unionTypes true edge.edgeType := by
    cases hty : edge.edgeType with
    | none => exact .inl rfl
    | some types =>
      right
      simp only [unionTypes, Bool.true_or, List.filter_true]
      exact htypes types hty
  rw [expandTargets, show (edge.spec fromVar toVar).depth = none from hsingle]
  refine List.mem_map.mpr ⟨(e, n), List.mem_filter.mpr ⟨hneighbor, ?_⟩, rfl⟩
  rw [Bool.or_eq_true, decide_eq_true_iff]
  exact htype

/-! ### Rows that follow an assignment -/

/-- The tuple binds `v` to the node that `σ` assigns to it, and holds its properties. -/
def AgreesAt (store : InMemoryGraphStore) (σ : String → NodeId) (t : Tuple) (v : String) : Prop :=
  ∃ n, store.getNode (σ v) = some n ∧ t.lookup v = some (.nodeId (σ v)) ∧
    ∀ k x, n.properties.lookup k = some x → t.lookup (propKey v k) = some x

/-- Agreement at `v` is about the keys of `v`. -/
theorem AgreesAt.congr {t t' : Tuple} (h : AgreesAt store σ t v)
    (heq : ∀ key, KeyOf v key → t'.lookup key = t.lookup key) : AgreesAt store σ t' v := by
  obtain ⟨n, hn, hself, hprops⟩ := h
  refine ⟨n, hn, (heq v (.inl rfl)).trans hself, fun k x hx => ?_⟩
  rw [heq _ (.inr ⟨k, rfl⟩)]
  exact hprops k x hx

/-- Binding a variable as `σ` does. -/
theorem agreesAt_bindNode (hwf : store.Wf) (t : Tuple) {n : Node}
    (hn : store.getNode (σ v) = some n) :
    AgreesAt store σ (bindNode t v n.id n.properties) v := by
  refine ⟨n, hn, ?_, fun k x hx => ?_⟩
  · rw [lookup_bindNode_self, hwf.node_id hn]
  · rw [lookup_bindNode_propKey, hx, Option.some_or]

/-- Binding another variable. -/
theorem AgreesAt.bindNode {w : String} (h : AgreesAt store σ t v) (hv : Plain v) (hw : Plain w)
    (hne : v ≠ w) (id : NodeId) (ps : Properties) :
    AgreesAt store σ (bindNode t w id ps) v :=
  h.congr fun _ hkey => lookup_bindNode_frame hv hw hne hkey t id ps

/-- A tuple that follows an assignment has the properties that the assignment has. -/
theorem AgreesAt.holdsIn {c : PropClaim} (h : AgreesAt store σ t c.var)
    (hc : ∃ n, store.getNode (σ c.var) = some n ∧ ∃ x ∈ n.properties.lookup c.key, x.meets c.lit) :
    HoldsIn t c := by
  obtain ⟨n, hn, -, hprops⟩ := h
  obtain ⟨n', hn', x, hx, hmeets⟩ := hc
  cases hn.symm.trans hn'
  exact ⟨x, hprops c.key x hx, hmeets⟩

/-- … and a filter by what satisfied node patterns say keeps it. -/
theorem holdsIn_of_satisfied {node : NodePattern} (hsat : node.SatisfiedBy store σ)
    (hagrees : ∀ var ∈ node.var, AgreesAt store σ t var) : ∀ c ∈ node.claims, HoldsIn t c := by
  intro c hc
  exact (hagrees c.var (NodePattern.mem_claims.mp hc).1).holdsIn (hsat.claim hc)

/-! ### Plans of single hops -/

/-- A single hop has no filter of its own for its ends. -/
theorem edgePlan_single {edge : EdgePattern} (h : edge.depth = none) (input : PlanNode)
    (prev next : Option Pattern) (fromVar toVar : String) :
    edgePlan input prev next edge fromVar toVar =
      filterBy (.expand input fromVar edge.var toVar edge.edgeType edge.direction edge.depth)
        (edgePredicate prev next edge fromVar toVar) := by
  unfold edgePlan
  simp only [h]

/-- A test that does not fail does not make a filter fail. -/
theorem filterE_isOk {α : Type} {test : α → Except Fault Bool} (h : ∀ a, ∃ b, test a = .ok b) :
    ∀ as, ∃ kept, filterE test as = .ok kept
  | [] => ⟨[], rfl⟩
  | a :: as => by
    obtain ⟨keep, hkeep⟩ := h a
    obtain ⟨kept, hkept⟩ := filterE_isOk h as
    exact ⟨if keep then a :: kept else kept, by rw [filterE, hkeep, hkept]; rfl⟩

section
variable {sub : Executor → PlanNode → Tuple → Except Fault (List Tuple)} {ex : Executor}

/-- A filter by inline properties does not fail. -/
theorem Conj.readNode_filterBy {predicate : Option Expr} {claims : List PropClaim}
    (h : Conj predicate claims) {plan : PlanNode} (hplan : ∃ tuples,
      readNode (fun e t => evalExprWith sub ex t none e) (some store) ∅ plan = .ok tuples) :
    ∃ tuples, readNode (fun e t => evalExprWith sub ex t none e) (some store) ∅
      (filterBy plan predicate) = .ok tuples := by
  cases predicate with
  | none => exact hplan
  | some e =>
    obtain ⟨tuples, htuples⟩ := hplan
    have hconj : Conjunction e claims := h
    have htest : ∀ t, ∃ b,
        accepts (fun e t => evalExprWith sub ex t none e) e t = .ok b := by
      intro t
      obtain ⟨b, hb, -⟩ := hconj.accepts t
      exact ⟨b, hb⟩
    obtain ⟨kept, hkept⟩ := filterE_isOk htest tuples
    exact ⟨kept, by rw [filterBy, readNode, htuples]; exact hkept⟩

/-- **A plan of single hops does not fail.** -/
theorem Built.readNode_isOk (hsingle : ∀ edge, .edge edge ∈ patterns → edge.depth = none)
    {plan : PlanNode} (h : Built patterns steps plan) : ∃ tuples,
      readNode (fun e t => evalExprWith sub ex t none e) (some store) ∅ plan = .ok tuples := by
  have hscan : ∀ var node, ∃ tuples, readNode (fun e t => evalExprWith sub ex t none e)
      (some store) ∅ (scanNode var node) = .ok tuples := by
    intro var node
    unfold scanNode
    split <;> exact ⟨_, rfl⟩
  induction h with
  | @scan node var _ hvar => exact (NodePattern.conj_claims hvar).readNode_filterBy (hscan var node)
  | @start edge fromVar => exact hscan fromVar edge.fromNode
  | @product steps left node var _ _ hvar _ ih =>
    obtain ⟨lefts, hleft⟩ := ih
    obtain ⟨rights, hright⟩ := (NodePattern.conj_claims hvar).readNode_filterBy (hscan var node)
    exact ⟨productTuples lefts rights, by rw [readNode, hleft, hright]; rfl⟩
  | filter _ _ hvar _ hpred ih =>
    have hfilter := (NodePattern.conj_claims hvar).readNode_filterBy ih
    rw [hpred] at hfilter
    exact hfilter
  | @hop steps input prev next edge fromVar toVar _ hmem hfrom _ _ _ ih =>
    rw [edgePlan_single (hsingle edge hmem)]
    apply (conj_edgePredicate hfrom prev next toVar).readNode_filterBy
    obtain ⟨inputs, hinput⟩ := (NodePattern.conj_claims hfrom).readNode_filterBy ih
    exact ⟨_, by rw [readNode, edgeInput, Option.getD_some, hinput]; rfl⟩

/-! ### The assignments are found -/

theorem PlainSteps.plain (h : PlainSteps steps) (hv : v ∈ boundBy steps) : Plain v := by
  obtain ⟨step, hstep, rfl⟩ := List.mem_map.mp hv
  exact (h step hstep).1

/-- The scan of a node pattern finds the node assigned to its variable. -/
theorem yields_scan_of_satisfied (hwf : store.Wf) {node : NodePattern} (hvar : node.var = some v)
    (hsat : node.SatisfiedBy store σ) :
    ∃ n, store.getNode (σ v) = some n ∧ Yields (fun e t => evalExprWith sub ex t none e) store
      (filterBy (scanNode v node) (inlinePredicate v node.properties))
      (bindNode ∅ v n.id n.properties) [] := by
  obtain ⟨n, hn, hlabels, -⟩ := hsat v hvar
  refine ⟨n, hn, yields_filterBy_iff.mpr ⟨(yields_scanNode_iff hwf).mpr ⟨rfl, n, ?_, ?_, rfl⟩, ?_⟩⟩
  · rw [hwf.node_id hn]
    exact hn
  · exact fun label hlabel => hlabels label (List.mem_of_head? hlabel)
  · apply ((NodePattern.conj_claims hvar).accepts_iff _).mpr
    apply holdsIn_of_satisfied hsat
    intro var hvar'
    cases hvar.symm.trans hvar'
    exact agreesAt_bindNode hwf ∅ hn

/-- A hop that joins on binds its end as `σ` does, and keeps what is bound. -/
theorem agreesAt_extendTuple (hwf : store.Wf) {edge : EdgePattern} {fromVar toVar : String}
    {bound : List String} (hjoins : (WalkStep.hop bound edge fromVar toVar).joins)
    (hto : Plain toVar) (hedge : ∀ w ∈ edge.var, Plain w) (hbound : ∀ w ∈ bound, Plain w)
    (ht : ∀ w ∈ bound, AgreesAt store σ t w) (target : Option Edge × Node)
    (hn : store.getNode (σ toVar) = some target.2) :
    ∀ w ∈ bound ++ [toVar],
      AgreesAt store σ (extendTuple (edge.spec fromVar toVar) t target) w := by
  obtain ⟨-, hfresh, hname, hnames⟩ := of_decide_eq_true hjoins
  intro w hw
  rcases List.mem_append.mp hw with hw | hw
  · have hne : w ≠ toVar := fun heq => hfresh (heq ▸ hw)
    have hne' : edge.var ≠ some w := fun heq => hnames w heq hw
    exact (ht w hw).congr fun key hkey =>
      lookup_extendTuple_frame (hbound w hw) hto hedge hne hne' hkey t
  · rw [List.mem_singleton.mp hw]
    exact (agreesAt_bindNode hwf t hn).congr fun key hkey =>
      lookup_extendTuple_eq_bindNode hto hedge hname hkey t

/-- What the filter after a hop asks for is what satisfied patterns say about its ends. -/
theorem holdsIn_edgePredicate (hsat : ∀ p ∈ patterns, p.SatisfiedBy store σ) {edge : EdgePattern}
    (hmem : .edge edge ∈ patterns) {prev next : Option Pattern} (hprev : ∀ p ∈ prev, p ∈ patterns)
    (hnext : ∀ p ∈ next, p ∈ patterns) {fromVar toVar : String}
    (hfrom : edge.fromNode.var = some fromVar) (hfromAgrees : AgreesAt store σ t fromVar)
    (htoAgrees : AgreesAt store σ t toVar) :
    ∀ c ∈ adjacentClaims toVar prev ++ adjacentClaims toVar next ++ edge.fromNode.claims,
      HoldsIn t c := by
  have hadjacent : ∀ p : Option Pattern, (∀ q ∈ p, q ∈ patterns) →
      ∀ c ∈ adjacentClaims toVar p, HoldsIn t c := by
    intro p hp c hc
    obtain ⟨node, rfl, hvar, hc⟩ := mem_adjacentClaims hc
    refine holdsIn_of_satisfied (hsat _ (hp _ rfl)) (fun v hv => ?_) c hc
    cases hvar.symm.trans hv
    exact htoAgrees
  intro c hc
  rcases List.mem_append.mp hc with hc | hc
  · rcases List.mem_append.mp hc with hc | hc
    · exact hadjacent prev hprev c hc
    · exact hadjacent next hnext c hc
  · refine holdsIn_of_satisfied (hsat _ hmem).1 (fun v hv => ?_) c hc
    cases hfrom.symm.trans hv
    exact hfromAgrees

/-- **A plan whose hops join yields every assignment to what it binds.** -/
theorem Built.yields (hwf : store.Wf) (hsat : ∀ p ∈ patterns, p.SatisfiedBy store σ)
    (hsingle : ∀ edge, .edge edge ∈ patterns → edge.depth = none)
    (hnamed : ∀ edge, .edge edge ∈ patterns → edge.toNode.var.isSome) {plan : PlanNode}
    (h : Built patterns steps plan) : PlainSteps steps → (∀ step ∈ steps, step.joins) →
    ∃ t es, Yields (fun e t => evalExprWith sub ex t none e) store plan t es ∧
      ∀ v ∈ boundBy steps, AgreesAt store σ t v := by
  induction h with
  | @scan node var hmem hvar =>
    intro _ _
    obtain ⟨n, hn, hy⟩ := yields_scan_of_satisfied hwf hvar (hsat _ hmem)
    refine ⟨_, _, hy, fun v hv => ?_⟩
    rw [List.mem_singleton.mp hv]
    exact agreesAt_bindNode hwf ∅ hn
  | @start edge fromVar hmem hfrom =>
    intro _ _
    obtain ⟨n, hn, hy⟩ := yields_scan_of_satisfied hwf hfrom (hsat _ hmem).1
    refine ⟨_, _, (yields_filterBy_iff.mp hy).1, fun v hv => ?_⟩
    rw [List.mem_singleton.mp hv]
    exact agreesAt_bindNode hwf ∅ hn
  | @product steps left node var hleft hmem hvar hfresh ih =>
    intro hsteps hjoins
    obtain ⟨l, es, hl, hagrees⟩ :=
      ih hsteps.init fun step hs => hjoins step (List.mem_append_left _ hs)
    obtain ⟨n, hn, hr⟩ := yields_scan_of_satisfied hwf hvar (hsat _ hmem)
    refine ⟨_, _, hl.product hr, fun v hv => ?_⟩
    have hsame := sameMap_insertAll_bindNode l var n.id n.properties
    rw [boundBy_append] at hv
    rcases List.mem_append.mp hv with hv | hv
    · have hne : v ≠ var := fun heq => hfresh (heq ▸ hv)
      have hkeep := (hagrees v hv).bindNode (hsteps.init.plain hv) hsteps.last.1 hne n.id
        n.properties
      exact hkeep.congr fun key _ => hsame key
    · rw [List.mem_singleton.mp hv]
      exact (agreesAt_bindNode hwf l hn).congr fun key _ => hsame key
  | @filter steps plan node var predicate _ hmem hvar hbound hpred ih =>
    intro hsteps hjoins
    obtain ⟨t, es, hy, hagrees⟩ := ih hsteps hjoins
    have hclaims : ∀ c ∈ node.claims, HoldsIn t c := by
      apply holdsIn_of_satisfied (hsat _ hmem)
      intro v hv
      cases hvar.symm.trans hv
      exact hagrees var hbound
    have hy' := hy.filter (((NodePattern.conj_claims hvar).accepts_iff t).mpr hclaims _ hpred)
    exact ⟨t, es, hy', hagrees⟩
  | @hop steps input prev next edge fromVar toVar hinput hmem hfrom hto hprev hnext ih =>
    intro hsteps hjoins
    have hinit : ∀ step ∈ steps, step.joins := fun step hs =>
      hjoins step (List.mem_append_left _ hs)
    have hlast : (WalkStep.hop (boundBy steps) edge fromVar toVar).joins := hjoins _ (by simp)
    obtain ⟨hstart, hfresh, -, -⟩ := of_decide_eq_true hlast
    obtain ⟨t, es, hy, hagrees⟩ := ih hsteps.init hinit
    obtain ⟨w, hw⟩ := Option.isSome_iff_exists.mp (hnamed edge hmem)
    obtain rfl : w = toVar := hto w hw
    obtain ⟨hfromSat, htoSat, hedges⟩ := hsat _ hmem
    obtain ⟨e, he, halong⟩ := hedges fromVar hfrom w hw
    obtain ⟨n, hn, -⟩ := htoSat w hw
    -- the start is bound to its node, the end is bound to none
    obtain ⟨-, -, hfromId, -⟩ := hagrees fromVar hstart
    have hnotBound : boundNode t w ≠ some n.id := by
      intro hid
      have hrow := hinput.row hwf hy
      exact hfresh (hrow.bound hsteps.init hsteps.last.1 (boundNode_eq_some.mp hid))
    have hafter := agreesAt_extendTuple hwf hlast hsteps.last.1 (hsteps.last.2 edge rfl)
      (fun v hv => hsteps.init.plain hv) hagrees (some e, n) hn
    have hstartAgrees : ∀ v ∈ edge.fromNode.var, AgreesAt store σ t v := by
      intro v hv
      cases hfrom.symm.trans hv
      exact hagrees fromVar hstart
    have hinputYields : Yields (fun e t => evalExprWith sub ex t none e) store
        (edgeInput (some input) edge fromVar) t es :=
      yields_filterBy_iff.mpr ⟨hy, ((NodePattern.conj_claims hfrom).accepts_iff t).mpr
        (holdsIn_of_satisfied hfromSat hstartAgrees)⟩
    have hexpand := (yields_expand_iff (edge.spec fromVar w)).mpr ⟨t, es, σ fromVar, (some e, n),
      hinputYields, boundNode_eq_some.mpr hfromId,
      mem_expandTargets_of_along hwf (hsingle edge hmem) he halong hn, hnotBound, rfl, rfl⟩
    refine ⟨extendTuple (edge.spec fromVar w) t (some e, n), es ++ [some e], ?_, ?_⟩
    · rw [edgePlan_single (hsingle edge hmem)]
      refine yields_filterBy_iff.mpr ⟨hexpand, ?_⟩
      apply ((conj_edgePredicate hfrom prev next w).accepts_iff _).mpr
      exact holdsIn_edgePredicate hsat hmem hprev hnext hfrom
        (hafter fromVar (List.mem_append_left _ hstart)) (hafter w (by simp))
    · intro v hv
      apply hafter
      rw [boundBy_append] at hv
      exact hv

end

/-! ### Every node variable is bound -/

/-- The ends of edges are the ends of edge patterns. -/
theorem exists_edge_of_mem_toNodeVars
    (hnamed : ∀ edge, .edge edge ∈ patterns → edge.toNode.var.isSome)
    (hv : v ∈ toNodeVars patterns) : ∃ edge, .edge edge ∈ patterns ∧ edge.toNode.var = some v := by
  induction patterns with
  | nil => cases hv
  | cons pattern rest ih =>
    have hrest : v ∈ toNodeVars rest →
        ∃ edge, .edge edge ∈ pattern :: rest ∧ edge.toNode.var = some v := by
      intro hv
      obtain ⟨edge, hmem, hto⟩ :=
        ih (fun edge hmem => hnamed edge (List.mem_cons_of_mem _ hmem)) hv
      exact ⟨edge, List.mem_cons_of_mem _ hmem, hto⟩
    cases pattern with
    | node node => exact hrest hv
    | edge edge =>
      obtain ⟨w, hw⟩ := Option.isSome_iff_exists.mp (hnamed edge List.mem_cons_self)
      unfold toNodeVars at hv
      simp only [hw, List.mem_cons] at hv
      rcases hv with rfl | hv
      · exact ⟨edge, List.mem_cons_self, hw⟩
      · exact hrest hv

/-- A node pattern is scanned, unless its variable is bound, or is the end of an edge, or an
edge starts from it. -/
theorem mem_boundBy_walkSteps {toVars : List String} {node : NodePattern}
    (hvar : node.var = some v) {rest : List Pattern} :
    ∀ {i : ℕ} {bound : List String} {prev : Option Pattern}, Chained prev rest →
      .node node ∈ rest →
      v ∈ bound ++ boundBy (walkSteps toVars i bound rest) ∨ v ∈ toVars ∨
        ∃ edge, .edge edge ∈ rest ∧ edge.fromNode.var = some v := by
  induction rest with
  | nil => intro i bound prev _ hmem; cases hmem
  | cons pattern rest ih =>
    intro i bound prev hchain hmem
    rw [walkSteps, boundBy_append, ← List.append_assoc]
    rcases List.mem_cons.mp hmem with rfl | hmem
    · simp only [patternSteps, hvar]
      by_cases hbound : v ∈ bound
      · exact .inl (List.mem_append_left _ (List.mem_append_left _ hbound))
      by_cases hto : v ∈ toVars
      · exact .inr (.inl hto)
      split
      · next hskip =>
        -- the next pattern is an edge, and it starts from the variable
        have hedge := ((hskip.resolve_left hbound).resolve_left hto).2
        cases rest with
        | nil => cases hedge
        | cons next rest =>
          cases next with
          | node _ => cases hedge
          | edge edge =>
            have hstart : node = edge.fromNode := Option.some.inj hchain.1
            exact .inr (.inr ⟨edge, by simp, by rw [← hstart, hvar]⟩)
      · left
        apply List.mem_append_left
        simp [WalkStep.var]
    · have hchain' : Chained (some pattern) rest := by
        cases pattern with
        | node node => exact hchain
        | edge edge => exact hchain.2
      rcases ih hchain' hmem with hv | hv | ⟨edge, hedge, hfrom⟩
      · exact .inl hv
      · exact .inr (.inl hv)
      · exact .inr (.inr ⟨edge, List.mem_cons_of_mem _ hedge, hfrom⟩)

/-- **The steps of the patterns bind all their node variables**, if their hops join. -/
theorem mem_boundBy_matchSteps (hpath : IsPath patterns) {plan : PlanNode}
    (hplan : planMatch ⟨patterns⟩ = .ok plan)
    (hnamed : ∀ edge, .edge edge ∈ patterns → edge.toNode.var.isSome)
    (hrow : Row store (matchSteps patterns) t es) {pattern : Pattern} (hmem : pattern ∈ patterns)
    {node : NodePattern} (hnode : node ∈ pattern.occurrences) (hvar : v ∈ node.var) :
    v ∈ boundBy (matchSteps patterns) := by
  obtain ⟨inner, hbuilt, -⟩ := planMatch_built (hpath.chained none) hplan
  have hhop : ∀ edge, .edge edge ∈ patterns → ∃ bound fromVar toVar,
      .hop bound edge fromVar toVar ∈ matchSteps patterns := by
    intro edge hedge
    have hstep : edge ∈ (matchSteps patterns).filterMap WalkStep.edge? := by
      rw [matchSteps_edges (hpath.chained none) hplan]
      exact List.mem_filterMap.mpr ⟨_, hedge, rfl⟩
    obtain ⟨step, hstep, heq⟩ := List.mem_filterMap.mp hstep
    cases step with
    | scan => cases heq
    | hop bound edge' fromVar toVar =>
      cases heq
      exact ⟨bound, fromVar, toVar, hstep⟩
  have hto : ∀ edge, .edge edge ∈ patterns → edge.toNode.var = some v →
      v ∈ boundBy (matchSteps patterns) := by
    intro edge hedge hv
    obtain ⟨bound, fromVar, toVar, hstep⟩ := hhop edge hedge
    obtain rfl : v = toVar := (hbuilt.hop_mem hstep).2.2 v hv
    exact List.mem_map.mpr ⟨_, hstep, rfl⟩
  have hfrom : ∀ edge, .edge edge ∈ patterns → edge.fromNode.var = some v →
      v ∈ boundBy (matchSteps patterns) := by
    intro edge hedge hv
    obtain ⟨bound, fromVar, toVar, hstep⟩ := hhop edge hedge
    have hplain : ∀ bound edge fromVar toVar,
        .hop bound edge fromVar toVar ∈ matchSteps patterns → Plain fromVar := by
      intro bound edge fromVar toVar hmem
      obtain ⟨hedge, hvar, -⟩ := hbuilt.hop_mem hmem
      exact hpath.plain _ hedge fromVar (by simp [Pattern.names, hvar])
    obtain ⟨hbound, hsub⟩ := hrow.starts (hpath.plainSteps hbuilt) hplain _ _ _ _ hstep
    cases hv.symm.trans (hbuilt.hop_mem hstep).2.1
    exact hsub hbound
  cases pattern with
  | node n =>
    obtain rfl := List.mem_singleton.mp hnode
    have hwalk : v ∈ [] ++ boundBy (matchSteps patterns) ∨ v ∈ toNodeVars patterns ∨
        ∃ edge, .edge edge ∈ patterns ∧ edge.fromNode.var = some v :=
      mem_boundBy_walkSteps hvar (hpath.chained none) hmem
    -- a node that is not scanned is one that a hop leads to, or starts from
    rcases hwalk with hv | hv | ⟨edge, hedge, hv⟩
    · exact hv
    · obtain ⟨edge, hedge, hv⟩ := exists_edge_of_mem_toNodeVars hnamed hv
      exact hto edge hedge hv
    · exact hfrom edge hedge hv
  | edge e =>
    rcases List.mem_cons.mp hnode with rfl | hnode
    · exact hfrom e hmem hvar
    · rw [List.mem_singleton.mp hnode] at hvar
      exact hto e hmem hvar

/-! ### Every Expand starts from a bound variable -/

/-- What steps that join bind is bound in every row. -/
theorem Row.isBound (h : Row store steps t es) (hsteps : PlainSteps steps)
    (hjoins : ∀ step ∈ steps, step.joins) (hv : v ∈ boundBy steps) : (boundNode t v).isSome := by
  suffices hlookup : ∃ id, t.lookup v = some (.nodeId id) by
    obtain ⟨id, hid⟩ := hlookup
    rw [boundNode_eq_some.mpr hid]
    rfl
  induction h with
  | nil => cases hv
  | @scan steps t t' es node var n _ hfresh _ _ ht' ih =>
    have hvar : Plain var := hsteps.last.1
    rw [boundBy_append] at hv
    rcases List.mem_append.mp hv with hv | hv
    · have hne : v ≠ var := fun heq => hfresh (heq ▸ hv)
      rw [ht', lookup_bindNode_frame (hsteps.init.plain hv) hvar hne (.inl rfl)]
      exact ih hsteps.init (fun step hs => hjoins step (List.mem_append_left _ hs)) hv
    · rw [List.mem_singleton.mp hv]
      exact ⟨n.id, (ht' var).trans (lookup_bindNode_self _ _ _ _)⟩
  | @hop steps t es edge fromVar toVar fromId target _ _ _ _ ih =>
    have hlast : (WalkStep.hop (boundBy steps) edge fromVar toVar).joins := hjoins _ (by simp)
    obtain ⟨-, hfresh, hname, hnames⟩ := of_decide_eq_true hlast
    have hto : Plain toVar := hsteps.last.1
    have hedge : ∀ w ∈ edge.var, Plain w := hsteps.last.2 edge rfl
    rw [boundBy_append] at hv
    rcases List.mem_append.mp hv with hv | hv
    · have hne : v ≠ toVar := fun heq => hfresh (heq ▸ hv)
      have hne' : edge.var ≠ some v := fun heq => hnames v heq hv
      have hframe : (extendTuple (edge.spec fromVar toVar) t target).lookup v = t.lookup v :=
        lookup_extendTuple_frame (hsteps.init.plain hv) hto hedge hne hne' (.inl rfl) t
      rw [hframe]
      exact ih hsteps.init (fun step hs => hjoins step (List.mem_append_left _ hs)) hv
    · rw [List.mem_singleton.mp hv]
      have hself : (extendTuple (edge.spec fromVar toVar) t target).lookup toVar =
          (bindNode t toVar target.2.id target.2.properties).lookup toVar :=
        lookup_extendTuple_eq_bindNode hto hedge hname (.inl rfl) t
      exact ⟨target.2.id, hself.trans (lookup_bindNode_self _ _ _ _)⟩

/-- Every Expand of the plan starts from a variable that is bound in each tuple of its input;
`rows` are the tuples of a plan. -/
def PlanNode.StartsBound (rows : PlanNode → Except Fault (List Tuple)) : PlanNode → Prop
  | .expand input fromVar _ _ _ _ _ => input.StartsBound rows ∧
      ∀ tuples, rows input = .ok tuples → ∀ t ∈ tuples, (boundNode t fromVar).isSome
  | .filter input _ | .project input _ | .orderBy input _ | .aggregate input _ _
  | .limit input _ | .matchCreate input _ => input.StartsBound rows
  | .cartesianProduct left right => left.StartsBound rows ∧ right.StartsBound rows
  | .labelScan _ _ | .fullScan _ | .create _ => True

theorem PlanNode.startsBound_filterBy {rows : PlanNode → Except Fault (List Tuple)}
    {plan : PlanNode} {predicate : Option Expr} :
    (filterBy plan predicate).StartsBound rows ↔ plan.StartsBound rows := by
  cases predicate <;> exact Iff.rfl

theorem PlanNode.startsBound_scanNode {rows : PlanNode → Except Fault (List Tuple)} (var : String)
    (node : NodePattern) : (scanNode var node).StartsBound rows := by
  unfold scanNode
  split <;> trivial

/-- Where a plan starts from depends on the rows of MATCH plans only. -/
theorem PlanNode.StartsBound.congr {rows rows' : PlanNode → Except Fault (List Tuple)}
    (hrows : ∀ plan : PlanNode, plan.isMatch → rows plan = rows' plan) {plan : PlanNode}
    (hmatch : plan.isMatch) (h : plan.StartsBound rows) : plan.StartsBound rows' := by
  induction plan with
  | create | matchCreate | project | orderBy | aggregate | limit => simp [isMatch] at hmatch
  | labelScan | fullScan => trivial
  | filter input _ ih => exact ih hmatch h
  | expand input _ _ _ _ _ _ ih =>
    refine ⟨ih hmatch h.1, fun tuples htuples => h.2 tuples ?_⟩
    rw [hrows input hmatch]
    exact htuples
  | cartesianProduct left right ihl ihr =>
    obtain ⟨hl, hr⟩ := Bool.and_eq_true_iff.mp hmatch
    exact ⟨ihl hl h.1, ihr hr h.2⟩

/-- **Every Expand of a plan whose hops join starts from a bound variable.** -/
theorem Built.startsBound {sub : Executor → PlanNode → Tuple → Except Fault (List Tuple)}
    {ex : Executor} (hwf : store.Wf)
    (hsingle : ∀ edge, .edge edge ∈ patterns → edge.depth = none) {plan : PlanNode}
    (h : Built patterns steps plan) : PlainSteps steps → (∀ step ∈ steps, step.joins) →
    plan.StartsBound (readNode (fun e t => evalExprWith sub ex t none e) (some store) ∅) := by
  induction h with
  | scan =>
    intro _ _
    exact PlanNode.startsBound_filterBy.mpr (PlanNode.startsBound_scanNode _ _)
  | start =>
    intro _ _
    exact PlanNode.startsBound_scanNode _ _
  | product _ _ _ _ ih =>
    intro hsteps hjoins
    exact ⟨ih hsteps.init fun step hs => hjoins step (List.mem_append_left _ hs),
      PlanNode.startsBound_filterBy.mpr (PlanNode.startsBound_scanNode _ _)⟩
  | filter _ _ _ _ _ ih => exact ih
  | @hop steps input prev next edge fromVar toVar hinput hmem hfrom _ _ _ ih =>
    intro hsteps hjoins
    have hinit : ∀ step ∈ steps, step.joins := fun step hs =>
      hjoins step (List.mem_append_left _ hs)
    have hlast : (WalkStep.hop (boundBy steps) edge fromVar toVar).joins := hjoins _ (by simp)
    obtain ⟨hstart, -⟩ := of_decide_eq_true hlast
    rw [edgePlan_single (hsingle edge hmem)]
    refine PlanNode.startsBound_filterBy.mpr ⟨?_, fun tuples htuples t ht => ?_⟩
    · exact PlanNode.startsBound_filterBy.mpr (ih hsteps.init hinit)
    · have hmatch : (edgeInput (some input) edge fromVar).isMatch := by
        rw [edgeInput, PlanNode.isMatch_filterBy]
        exact hinput.isMatch
      obtain ⟨es, hy⟩ := (mem_readNode_iff_yields hmatch htuples t).mp ht
      have hrow := hinput.row hwf (yields_filterBy_iff.mp hy).1
      exact hrow.isBound hsteps.init hinit hstart

/-! ### Completeness -/

/-- Each node pattern names its node, and each edge pattern is a single hop. -/
structure NamedHops (patterns : List Pattern) : Prop where
  named : ∀ pattern ∈ patterns, ∀ node ∈ pattern.occurrences, node.var.isSome
  single : ∀ edge ∈ patterns.filterMap Pattern.edge?, edge.depth = none

instance (patterns : List Pattern) : Decidable (NamedHops patterns) :=
  decidable_of_iff (_ ∧ _) ⟨fun h => ⟨h.1, h.2⟩, fun h => ⟨h.named, h.single⟩⟩

/-- The plan returns tuples; among them is one for each assignment that satisfies all patterns;
and every Expand in it starts from a bound variable. -/
def MatchComplete (ex : Executor) (write : Option InMemoryGraphStore) (store : InMemoryGraphStore)
    (patterns : List Pattern) (plan : PlanNode) : Prop :=
  ∃ tuples, runExec (executeNode ex ∅ plan) write = (.ok tuples, write) ∧
    (∀ σ, (∀ pattern ∈ patterns, pattern.SatisfiedBy store σ) →
      ∃ t ∈ tuples, Follows patterns σ t) ∧
    plan.StartsBound fun node => (runExec (executeNodeAt plan.existsDepth ex ∅ node) write).1

/-- **A MATCH whose hops join is complete**: each goes from a bound variable to one that is
not bound, along an edge that takes no name of a bound variable. -/
theorem matchComplete_of_joins {tables : CharTables} (hdot : tables.isAlphanumeric '.' = false)
    {input : String} (hparse : ParsesMatch tables input patterns) (hnamed : NamedHops patterns)
    {plan : PlanNode} (hplan : planMatch ⟨patterns⟩ = .ok plan)
    (hjoins : ∀ step ∈ matchSteps patterns, step.joins) (hwf : store.Wf) {ex : Executor}
    {write : Option InMemoryGraphStore} (hreader : ex.reader write = some store) :
    MatchComplete ex write store patterns plan := by
  have hpath := hparse.isPath hdot
  have hmatch := planMatch_isMatch (hpath.chained none) hplan
  obtain ⟨inner, hbuilt, heq⟩ := planMatch_built (hpath.chained none) hplan
  have hsteps := hpath.plainSteps hbuilt
  have hsingle : ∀ edge, .edge edge ∈ patterns → edge.depth = none := fun edge hmem =>
    hnamed.single edge (List.mem_filterMap.mpr ⟨_, hmem, rfl⟩)
  have htoNamed : ∀ edge, .edge edge ∈ patterns → edge.toNode.var.isSome := fun edge hmem =>
    hnamed.named _ hmem edge.toNode (by simp [Pattern.occurrences])
  obtain ⟨tuples, htuples⟩ : ∃ tuples,
      readNode (planEval ex plan) (some store) ∅ plan = .ok tuples := by
    have hinner : ∃ tuples, readNode (planEval ex plan) (some store) ∅ inner = .ok tuples :=
      hbuilt.readNode_isOk hsingle
    have hread : ∃ tuples, readNode (planEval ex plan) (some store) ∅
        (filterBy inner (globalPredicate patterns)) = .ok tuples :=
      (conj_globalPredicate patterns).readNode_filterBy hinner
    rw [← heq] at hread
    exact hread
  refine ⟨tuples, ?_, fun σ hsat => ?_, ?_⟩
  · rw [executeNode_eq_readNode hmatch, hreader, htuples]
  · obtain ⟨t, es, hy, hagrees⟩ : ∃ t es, Yields (planEval ex plan) store inner t es ∧
        ∀ v ∈ boundBy (matchSteps patterns), AgreesAt store σ t v :=
      hbuilt.yields hwf hsat hsingle htoNamed hsteps hjoins
    -- the tuple agrees with the assignment on every variable of the patterns
    have hbound : ∀ pattern ∈ patterns, ∀ node ∈ pattern.occurrences, ∀ v ∈ node.var,
        AgreesAt store σ t v := fun pattern hmem node hnode v hvar =>
      hagrees v (mem_boundBy_matchSteps hpath hplan htoNamed (hbuilt.row hwf hy) hmem hnode hvar)
    have hglobal : ∀ c ∈ patterns.flatMap Pattern.nodeClaims, HoldsIn t c := by
      intro c hc
      obtain ⟨pattern, hmem, hc⟩ := List.mem_flatMap.mp hc
      cases pattern with
      | node node =>
        exact holdsIn_of_satisfied (hsat _ hmem)
          (hbound _ hmem node (List.mem_singleton_self node)) c hc
      | edge edge => cases hc
    have hyields : Yields (planEval ex plan) store plan t es := by
      have hfilter := yields_filterBy_iff.mpr
        ⟨hy, ((conj_globalPredicate patterns).accepts_iff t).mpr hglobal⟩
      rw [← heq] at hfilter
      exact hfilter
    refine ⟨t, (mem_readNode_iff_yields hmatch htuples t).mpr ⟨es, hyields⟩, ?_⟩
    intro pattern hmem node hnode v hvar
    obtain ⟨n, -, hself, -⟩ := hbound pattern hmem node hnode v hvar
    exact boundNode_eq_some.mpr hself
  · have hstarts : inner.StartsBound (readNode (planEval ex plan) (some store) ∅) :=
      hbuilt.startsBound hwf hsingle hsteps hjoins
    have hall : plan.StartsBound (readNode (planEval ex plan) (some store) ∅) := by
      rw [heq, PlanNode.startsBound_filterBy, ← heq]
      exact hstarts
    refine hall.congr (fun node hnode => ?_) hmatch
    have hexec : runExec (executeNodeAt plan.existsDepth ex ∅ node) write =
        (readNode (planEval ex plan) (ex.reader write) ∅ node, write) :=
      executeNodeWith_eq_readNode (.inl (PlanNode.writes_of_isMatch hnode))
    rw [hexec, hreader]

/-- Two paths that meet in `c`: all hops join. -/
theorem matchComplete_of_joins_twoPaths :
    ∃ patterns plan, ParsesMatch .ascii
        "MATCH (a:A {k: 1})-[:R]->(b)-[:R]->(c), (c)-[:R {k: 1}]->(d)" patterns ∧
      planMatch ⟨patterns⟩ = .ok plan ∧
        MatchComplete (.new triangle) none triangle patterns plan := by
  have hok : (planMatch ⟨textPatterns .ascii
      "MATCH (a:A {k: 1})-[:R]->(b)-[:R]->(c), (c)-[:R {k: 1}]->(d)"⟩).isOk = true := by
    decide +kernel
  have hparse : ParsesMatch .ascii
      "MATCH (a:A {k: 1})-[:R]->(b)-[:R]->(c), (c)-[:R {k: 1}]->(d)" (textPatterns .ascii
        "MATCH (a:A {k: 1})-[:R]->(b)-[:R]->(c), (c)-[:R {k: 1}]->(d)") :=
    parsesMatch_textPatterns (by decide +kernel)
  obtain ⟨plan, hplan⟩ := exists_ok hok
  refine ⟨_, plan, hparse, hplan, ?_⟩
  exact matchComplete_of_joins rfl hparse (by decide +kernel) hplan (by decide +kernel)
    reachable_triangle.wf rfl

/-- A text with named nodes and single hops whose MATCH clause misses an assignment of nodes of
a store. -/
def Incomplete (store : InMemoryGraphStore) (input : String) : Prop :=
  ∃ patterns plan, ParsesMatch .ascii input patterns ∧ NamedHops patterns ∧
    planMatch ⟨patterns⟩ = .ok plan ∧ ¬ MatchComplete (.new store) none store patterns plan

/-- An assignment satisfies the patterns, and no row follows it. -/
theorem incomplete_of_missed {store : InMemoryGraphStore} {input : String} (σ : String → NodeId)
    (h : textPatterns .ascii input ≠ [] ∧ NamedHops (textPatterns .ascii input) ∧
      (∀ pattern ∈ textPatterns .ascii input, pattern.SatisfiedBy store σ) ∧
        someRow (fun patterns t => decide (Follows patterns σ t)) store input = .ok false) :
    Incomplete store input := by
  obtain ⟨hparse, hnamed, hsat, hrow⟩ := h
  obtain ⟨plan, hplan, hrest⟩ := bind_eq_ok hrow
  obtain ⟨tuples, hrun, hnone⟩ := bind_eq_ok hrest
  refine ⟨_, plan, parsesMatch_textPatterns hparse, hnamed, hplan, ?_⟩
  rintro ⟨tuples', hrun', hall, -⟩
  rw [hrun'] at hrun
  cases hrun
  obtain ⟨t, ht, hfollows⟩ := hall σ hsat
  have hany := List.any_eq_false.mp (Except.ok.inj hnone) t ht
  exact hany (decide_eq_true hfollows)

/-- **Four ways to miss an assignment**: a second path from an unbound variable, a path back to
its start, a path written twice, and an edge with the name of a node. -/
theorem incomplete_triangle :
    Incomplete triangle "MATCH (a), (b)-[:R]->(c)" ∧
      Incomplete triangle "MATCH (a)-[:R]->(b)-[:R]->(c)-[:R]->(a)" ∧
      Incomplete triangle "MATCH (a)-[:R]->(b), (a)-[:R]->(b)" ∧
      Incomplete triangle "MATCH (a)-[a:R]->(b)" :=
  ⟨incomplete_of_missed (fun v => if v = "c" then 2 else 1) (by decide +kernel),
    incomplete_of_missed (fun v => if v = "a" then 1 else if v = "b" then 2 else 3)
      (by decide +kernel),
    incomplete_of_missed (fun v => if v = "b" then 2 else 1) (by decide +kernel),
    incomplete_of_missed (fun v => if v = "b" then 2 else 1) (by decide +kernel)⟩

end KuzuEventBus
