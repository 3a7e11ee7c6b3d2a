import KuzuEventBus.Gql.MatchRows
import KuzuEventBus.Lib.Lists

/-!
# Soundness of MATCH

What a tuple of a MATCH plan says about the patterns it was planned from.  A label is
checked by the scan that binds a variable and nowhere else; an inline property is
checked in the tuple, at the node patterns and at the starts of the edges; what stands
between the brackets of an edge is not checked at all.  And the tuple speaks for the
node only as long as its variable is bound once.

## Main definitions

* `Node.Carries`, `SoundRow` — a node meets what is written at a node pattern; a tuple, and
  the edges it was hopped along, meet what is written in the patterns.
* `Enforced` — each label is that of the scan, each property is written where it is checked,
  and no edge has properties.

## Main results

* `Row.coherent`, `Row.label`, `Row.property` — what a run of steps preserves.
* `matchSound_of_enforced` — **a MATCH that writes its constraints where they are checked
  is sound**.
* `unsound_triangle` — constraints that are not checked.
-/

namespace KuzuEventBus

/-! ### What is written in the patterns -/

/-- Properties that meet each literal of a pattern. -/
def Meet (properties : Properties) (literals : HashMap String Literal) : Prop :=
  ∀ kv ∈ literals.toPairs, ∃ x ∈ properties.lookup kv.1, x.meets kv.2

instance (properties : Properties) (literals : HashMap String Literal) :
    Decidable (Meet properties literals) :=
  inferInstanceAs (Decidable (∀ kv ∈ literals.toPairs, ∃ x ∈ properties.lookup kv.1, x.meets kv.2))

/-- The node carries the labels and the inline properties of a node pattern. -/
def Node.Carries (n : Node) (pattern : NodePattern) : Prop :=
  (∀ label ∈ pattern.labels, label ∈ n.labels) ∧ Meet n.properties pattern.properties

instance (n : Node) (pattern : NodePattern) : Decidable (n.Carries pattern) :=
  inferInstanceAs (Decidable (_ ∧ _))

/-- The node bound to the variable of a node pattern carries what the pattern says. -/
def NodeSound (store : InMemoryGraphStore) (t : Tuple) (pattern : NodePattern) : Prop :=
  ∀ var ∈ pattern.var, ∀ id ∈ boundNode t var, ∃ n ∈ store.getNode id, n.Carries pattern

instance (store : InMemoryGraphStore) (t : Tuple) (pattern : NodePattern) :
    Decidable (NodeSound store t pattern) :=
  inferInstanceAs (Decidable (∀ var ∈ pattern.var, ∀ id ∈ boundNode t var,
    ∃ n ∈ store.getNode id, n.Carries pattern))

/-- The edge used for an edge pattern has the properties between its brackets; a hop of
variable length has no edge that could have them. -/
def EdgeSound (pattern : EdgePattern) : Option Edge → Prop
  | some e => Meet e.properties pattern.properties
  | none => pattern.properties.toPairs = []

/-- A tuple and the edges it was hopped along meet what is written in the patterns: the nodes
what any occurrence of their variable says, and one edge for each edge pattern. -/
structure SoundRow (store : InMemoryGraphStore) (patterns : List Pattern) (t : Tuple)
    (es : List (Option Edge)) : Prop where
  nodes : ∀ pattern ∈ patterns, ∀ node ∈ pattern.occurrences, NodeSound store t node
  edges : List.Forall₂ EdgeSound (patterns.filterMap Pattern.edge?) es

/-! ### Where it is checked -/

/-- The node patterns whose inline properties are checked. -/
def Pattern.starts : Pattern → List NodePattern
  | .node n => [n]
  | .edge e => [e.fromNode]

/-- The step is a scan by `label`. -/
def WalkStep.scansBy (label : String) : WalkStep → Bool
  | .scan _ node => node.labels.head? = some label
  | .hop _ _ _ _ => false

/-- The step is a hop that ends in `var` where it is bound already, or along an edge named `var`. -/
def WalkStep.rebinds (var : String) : WalkStep → Bool
  | .scan _ _ => false
  | .hop bound edge _ toVar => edge.var = some var ∨ (toVar = var ∧ var ∈ bound)

/-- The step is a hop from a variable that is not bound. -/
def WalkStep.startsUnbound : WalkStep → Bool
  | .scan _ _ => false
  | .hop bound _ fromVar _ => fromVar ∉ bound

/-- What the patterns say is written where it is checked: no edge has properties; each label
is the one its variable is scanned by; each property of a node is written at a node
pattern or at the start of an edge, too, and its variable is bound once. -/
structure Enforced (patterns : List Pattern) : Prop where
  edges : ∀ edge ∈ patterns.filterMap Pattern.edge?, edge.properties.toPairs = []
  labels : ∀ pattern ∈ patterns, ∀ node ∈ pattern.occurrences, ∀ var ∈ node.var,
    ∀ label ∈ node.labels, ∀ step ∈ matchSteps patterns, step.var = var → step.scansBy label
  properties : ∀ pattern ∈ patterns, ∀ node ∈ pattern.occurrences, ∀ claim ∈ node.claims,
    (∃ p ∈ patterns, ∃ start ∈ p.starts, claim ∈ start.claims) ∧
      ∀ step ∈ matchSteps patterns, step.rebinds claim.var = false

instance (patterns : List Pattern) : Decidable (Enforced patterns) :=
  decidable_of_iff (_ ∧ _ ∧ _)
    ⟨fun h => ⟨h.1, h.2.1, h.2.2⟩, fun h => ⟨h.edges, h.labels, h.properties⟩⟩

/-- Some edge starts from a variable that no step before it binds. -/
def StartsUnbound (patterns : List Pattern) : Prop :=
  ∃ step ∈ matchSteps patterns, step.startsUnbound

instance (patterns : List Pattern) : Decidable (StartsUnbound patterns) :=
  inferInstanceAs (Decidable (∃ step ∈ matchSteps patterns, step.startsUnbound = true))

variable {store : InMemoryGraphStore} {patterns : List Pattern} {steps : List WalkStep}
  {t : Tuple} {es : List (Option Edge)} {v : String}

/-! ### What a row says -/

/-- A variable that no step binds has no keys. -/
theorem Row.absent (h : Row store steps t es) (hsteps : PlainSteps steps) (hv : Plain v)
    (hfresh : v ∉ boundBy steps)
    (hedge : ∀ bound edge fromVar toVar, .hop bound edge fromVar toVar ∈ steps →
      edge.var ≠ some v) {key : String} (hkey : KeyOf v key) : t.lookup key = none := by
  induction h with
  | nil => simp
  | @scan steps t t' es node var n _ _ _ _ ht' ih =>
    rw [boundBy_append, List.mem_append, not_or] at hfresh
    have hvar : Plain var := hsteps.last.1
    have hne : v ≠ var := by simpa [WalkStep.var] using hfresh.2
    rw [ht', lookup_bindNode_frame hv hvar hne hkey]
    exact ih hsteps.init hfresh.1 fun b e f t hm => hedge b e f t (List.mem_append_left _ hm)
  | @hop steps t es edge fromVar toVar fromId target _ _ _ _ ih =>
    rw [boundBy_append, List.mem_append, not_or] at hfresh
    have hne : v ≠ toVar := by simpa [WalkStep.var] using hfresh.2
    have hedge' : edge.var ≠ some v := hedge (boundBy steps) edge fromVar toVar (by simp)
    rw [lookup_extendTuple_frame hv hsteps.last.1 (hsteps.last.2 edge rfl) hne hedge' hkey]
    exact ih hsteps.init hfresh.1 fun b e f t hm => hedge b e f t (List.mem_append_left _ hm)

/-- No step binds `v` again. -/
def BoundOnce (v : String) (steps : List WalkStep) : Prop :=
  ∀ step ∈ steps, step.rebinds v = false

theorem BoundOnce.init {step : WalkStep} (h : BoundOnce v (steps ++ [step])) : BoundOnce v steps :=
  fun s hs => h s (List.mem_append_left _ hs)

theorem BoundOnce.hop (h : BoundOnce v steps) {bound : List String} {edge : EdgePattern}
    {fromVar toVar : String} (hmem : .hop bound edge fromVar toVar ∈ steps) :
    edge.var ≠ some v ∧ (toVar = v → v ∉ bound) := by
  have hstep := h _ hmem
  simp only [WalkStep.rebinds, decide_eq_false_iff_not, not_or, not_and] at hstep
  exact hstep

/-- The tuple speaks for the node that `v` is bound to. -/
def CoherentAt (store : InMemoryGraphStore) (t : Tuple) (v : String) : Prop :=
  ∀ id, t.lookup v = some (.nodeId id) → ∃ n, store.getNode id = some n ∧
    ∀ k, t.lookup (propKey v k) = n.properties.lookup k

/-- Binding a variable that has no keys. -/
theorem coherentAt_bindNode {t : Tuple} (habsent : ∀ key, KeyOf v key → t.lookup key = none)
    {n : Node} (hn : store.getNode n.id = some n) :
    CoherentAt store (bindNode t v n.id n.properties) v := by
  intro id hid
  rw [lookup_bindNode_self] at hid
  cases hid
  refine ⟨n, hn, fun k => ?_⟩
  rw [lookup_bindNode_propKey, habsent _ (.inr ⟨k, rfl⟩), Option.or_none]

/-- Coherence at `v` is about the keys of `v`. -/
theorem CoherentAt.congr {t t' : Tuple} (h : CoherentAt store t v)
    (heq : ∀ key, KeyOf v key → t'.lookup key = t.lookup key) : CoherentAt store t' v := by
  intro id hid
  rw [heq v (.inl rfl)] at hid
  obtain ⟨n, hn, hprops⟩ := h id hid
  exact ⟨n, hn, fun k => (heq _ (.inr ⟨k, rfl⟩)).trans (hprops k)⟩

/-- **The tuple speaks for a node whose variable is bound once.** -/
theorem Row.coherent (hwf : store.Wf) (h : Row store steps t es) (hsteps : PlainSteps steps)
    (hv : Plain v) (honce : BoundOnce v steps) : CoherentAt store t v := by
  induction h with
  | nil => intro id hid; simp at hid
  | @scan steps t t' es node var n hrow hfresh hn _ ht' ih =>
    have hvar : Plain var := hsteps.last.1
    by_cases heq : v = var
    · subst heq
      have habsent : ∀ key, KeyOf v key → t.lookup key = none := fun key =>
        hrow.absent hsteps.init hv hfresh fun b e f t hm => (honce.init.hop hm).1
      exact (coherentAt_bindNode habsent hn).congr fun key _ => ht' key
    · refine (ih hsteps.init honce.init).congr fun key hkey => ?_
      rw [ht', lookup_bindNode_frame hv hvar heq hkey]
  | @hop steps t es edge fromVar toVar fromId target hrow _ htarget _ ih =>
    have hto : Plain toVar := hsteps.last.1
    have hnames : ∀ w ∈ edge.var, Plain w := hsteps.last.2 edge rfl
    obtain ⟨hedge, hbound⟩ := honce.hop (List.mem_append_right _ (List.mem_singleton_self _))
    by_cases heq : v = toVar
    · subst heq
      have habsent : ∀ key, KeyOf v key → t.lookup key = none := fun key =>
        hrow.absent hsteps.init hv (hbound rfl) fun b e f t hm => (honce.init.hop hm).1
      have hn : store.getNode target.2.id = some target.2 :=
        hwf.mem_scanAll.mp (mem_scanAll_of_mem_expandTargets htarget)
      refine (coherentAt_bindNode habsent hn).congr fun key hkey => ?_
      exact lookup_extendTuple_eq_bindNode hv hnames hedge hkey t
    · refine (ih hsteps.init honce.init).congr fun key hkey => ?_
      exact lookup_extendTuple_frame hv hto hnames heq hedge hkey t

/-- A variable is bound to nodes of the store. -/
theorem Row.exists_node (hwf : store.Wf) (h : Row store steps t es) (hsteps : PlainSteps steps)
    (hv : Plain v) {id : NodeId} (hid : t.lookup v = some (.nodeId id)) :
    ∃ n, store.getNode id = some n := by
  induction h with
  | nil => simp at hid
  | @scan steps t t' es node var n _ _ hn _ ht' ih =>
    have hvar : Plain var := hsteps.last.1
    rw [ht'] at hid
    by_cases heq : v = var
    · subst heq
      rw [lookup_bindNode_self] at hid
      cases hid
      exact ⟨n, hn⟩
    · rw [lookup_bindNode_frame hv hvar heq (.inl rfl)] at hid
      exact ih hsteps.init hid
  | @hop steps t es edge fromVar toVar fromId target _ _ htarget _ ih =>
    have hnames : ∀ w ∈ edge.var, Plain w := hsteps.last.2 edge rfl
    by_cases heq : v = toVar
    · subst heq
      have hn : store.getNode target.2.id = some target.2 :=
        hwf.mem_scanAll.mp (mem_scanAll_of_mem_expandTargets htarget)
      by_cases hedge : edge.var = some v
      · -- the edge of a single hop takes the place of the node
        cases htarget' : target.1 with
        | none =>
          rw [extendTuple, htarget'] at hid
          have hself := lookup_bindNode_self t v target.2.id target.2.properties
          cases hself.symm.trans hid
          exact ⟨_, hn⟩
        | some e =>
          have hnone : boundNode (extendTuple (edge.spec fromVar v) t target) v = none :=
            boundNode_extendTuple_edgeVar hedge (by rw [htarget']; rfl) t
          rw [boundNode_eq_some.mpr hid] at hnone
          cases hnone
      · have hself := lookup_bindNode_self t v target.2.id target.2.properties
        have hsame : (extendTuple (edge.spec fromVar v) t target).lookup v =
            (bindNode t v target.2.id target.2.properties).lookup v :=
          lookup_extendTuple_eq_bindNode hv hnames hedge (.inl rfl) t
        rw [hid, hself] at hsame
        cases hsame
        exact ⟨_, hn⟩
    · exact ih hsteps.init (boundNode_extendTuple_of_ne hv hsteps.last.1 hnames heq hid)

/-- **A scan checks its label**, and the node stays bound. -/
theorem Row.label (h : Row store steps t es) (hsteps : PlainSteps steps) (hv : Plain v)
    {label : String} (hscan : ∀ step ∈ steps, step.var = v → step.scansBy label) {id : NodeId}
    (hid : t.lookup v = some (.nodeId id)) :
    ∃ n, store.getNode id = some n ∧ label ∈ n.labels := by
  induction h with
  | nil => simp at hid
  | @scan steps t t' es node var n _ _ hn hlabel ht' ih =>
    have hvar : Plain var := hsteps.last.1
    rw [ht'] at hid
    by_cases heq : v = var
    · subst heq
      have hhead : node.labels.head? = some label := by
        simpa [WalkStep.scansBy] using hscan (.scan v node) (by simp) rfl
      rw [lookup_bindNode_self] at hid
      cases hid
      exact ⟨n, hn, hlabel label hhead⟩
    · rw [lookup_bindNode_frame hv hvar heq (.inl rfl)] at hid
      exact ih hsteps.init (fun step hs => hscan step (List.mem_append_left _ hs)) hid
  | @hop steps t es edge fromVar toVar fromId target _ _ _ _ ih =>
    have heq : v ≠ toVar := by
      rintro rfl
      have hscans := hscan (.hop (boundBy steps) edge fromVar v) (by simp) rfl
      simp [WalkStep.scansBy] at hscans
    exact ih hsteps.init (fun step hs => hscan step (List.mem_append_left _ hs))
      (boundNode_extendTuple_of_ne hv hsteps.last.1 (hsteps.last.2 edge rfl) heq hid)

/-- A property that the tuple has is one of the node. -/
theorem CoherentAt.has {t : Tuple} {c : PropClaim} (h : CoherentAt store t c.var)
    (hc : HoldsIn t c) {id : NodeId} (hid : t.lookup c.var = some (.nodeId id)) :
    ∃ n, store.getNode id = some n ∧ ∃ x ∈ n.properties.lookup c.key, x.meets c.lit := by
  obtain ⟨n, hn, hprops⟩ := h id hid
  obtain ⟨x, hx, hmeets⟩ := hc
  rw [hprops] at hx
  exact ⟨n, hn, x, hx, hmeets⟩

/-- **A hop checks the properties at its start**, and the node stays bound. -/
theorem Row.property (hwf : store.Wf) (h : Row store steps t es) (hsteps : PlainSteps steps)
    {c : PropClaim} (hv : Plain c.var) (honce : BoundOnce c.var steps)
    (hfrom : ∀ bound edge fromVar toVar, .hop bound edge fromVar toVar ∈ steps →
      edge.fromNode.var = some fromVar ∧ Plain fromVar)
    (hclaim : ∃ bound edge fromVar toVar, .hop bound edge fromVar toVar ∈ steps ∧
      c ∈ edge.fromNode.claims) {id : NodeId} (hid : t.lookup c.var = some (.nodeId id)) :
    ∃ n, store.getNode id = some n ∧ ∃ x ∈ n.properties.lookup c.key, x.meets c.lit := by
  obtain ⟨bound, edge, fromVar, toVar, hmem, hc⟩ := hclaim
  -- the hop that checks the property starts from its variable, which is bound by then
  have hboundVar : ∀ {steps' t' es'}, Row store steps' t' es' → PlainSteps steps' →
      (∀ b e f t, .hop b e f t ∈ steps' → e.fromNode.var = some f ∧ Plain f) →
      .hop bound edge fromVar toVar ∈ steps' → c.var ∈ boundBy steps' := by
    intro steps' t' es' hrow hplain hstarts hmem'
    obtain ⟨hb, hsub⟩ := hrow.starts hplain (fun b e f t hm => (hstarts b e f t hm).2) _ _ _ _ hmem'
    have hvar := (hstarts _ _ _ _ hmem').1
    rw [(NodePattern.mem_claims.mp hc).1] at hvar
    cases hvar
    exact hsub hb
  induction h with
  | nil => cases hmem
  | @scan steps t t' es node var n hrow hfresh _ _ ht' ih =>
    have hmem' : .hop bound edge fromVar toVar ∈ steps := by simpa using hmem
    have hfrom' : ∀ b e f t, .hop b e f t ∈ steps → e.fromNode.var = some f ∧ Plain f :=
      fun b e f t hm => hfrom b e f t (List.mem_append_left _ hm)
    have hvar : Plain var := hsteps.last.1
    have hne : c.var ≠ var := by
      rintro heq
      exact hfresh (heq ▸ hboundVar hrow hsteps.init hfrom' hmem')
    rw [ht', lookup_bindNode_frame hv hvar hne (.inl rfl)] at hid
    exact ih hsteps.init honce.init hfrom' hid hmem'
  | @hop steps t es edge' fromVar' toVar' fromId target hrow hfromId htarget hclaims ih =>
    rcases List.mem_append.mp hmem with hmem' | hmem'
    · have hfrom' : ∀ b e f t, .hop b e f t ∈ steps → e.fromNode.var = some f ∧ Plain f :=
        fun b e f t hm => hfrom b e f t (List.mem_append_left _ hm)
      have hne : c.var ≠ toVar' := by
        intro heq
        have hlast := honce.hop (List.mem_append_right _ (List.mem_singleton_self _))
        exact hlast.2 heq.symm (hboundVar hrow hsteps.init hfrom' hmem')
      have hid' := boundNode_extendTuple_of_ne hv hsteps.last.1 (hsteps.last.2 edge' rfl) hne hid
      exact ih hsteps.init honce.init hfrom' hid' hmem'
    · obtain ⟨rfl, rfl, rfl, rfl⟩ := WalkStep.hop.inj (List.mem_singleton.mp hmem')
      have hcoherent := (hrow.hop hfromId htarget hclaims).coherent hwf hsteps hv honce
      exact hcoherent.has (hclaims c hc) hid

/-- Where no edge has properties, every edge has them all. -/
theorem Row.edges (h : Row store steps t es)
    (hempty : ∀ edge ∈ steps.filterMap WalkStep.edge?, edge.properties.toPairs = []) :
    List.Forall₂ EdgeSound (steps.filterMap WalkStep.edge?) es := by
  induction h with
  | nil => exact .nil
  | @scan steps t t' es node var n _ _ _ _ _ ih =>
    rw [List.filterMap_append] at hempty ⊢
    rw [show [WalkStep.scan var node].filterMap WalkStep.edge? = [] from rfl,
      List.append_nil] at hempty ⊢
    exact ih hempty
  | @hop steps t es edge fromVar toVar fromId target _ _ _ _ ih =>
    rw [List.filterMap_append] at hempty ⊢
    have hlast : edge.properties.toPairs = [] := hempty edge (List.mem_append_right _ (by
      simp [WalkStep.edge?]))
    refine List.rel_append (ih fun e he => hempty e (List.mem_append_left _ he)) ?_
    refine List.Forall₂.cons ?_ .nil
    cases target.1 with
    | none => exact hlast
    | some e =>
      intro kv hkv
      rw [hlast] at hkv
      cases hkv

/-- The edges hopped along are edges of the store. -/
theorem Row.mem_edges (h : Row store steps t es) :
    ∀ e, some e ∈ es → e ∈ store.edges.values := by
  induction h with
  | nil => simp
  | scan _ _ _ _ _ ih => exact ih
  | hop _ _ htarget _ ih =>
    intro e he
    rcases List.mem_append.mp he with he | he
    · exact ih e he
    · exact mem_edges_of_mem_expandTargets htarget (List.mem_singleton.mp he).symm

/-! ### Soundness -/

/-- **A MATCH that writes its constraints where they are checked is sound**, and so is one
that starts an edge where nothing is bound: it returns no tuples. -/
theorem soundRow_of_enforced {sub : Executor → PlanNode → Tuple → Except Fault (List Tuple)}
    {ex : Executor} (hwf : store.Wf) (hpath : IsPath patterns) {plan : PlanNode}
    (hplan : planMatch ⟨patterns⟩ = .ok plan) (hcond : StartsUnbound patterns ∨ Enforced patterns)
    (hy : Yields (fun e t => evalExprWith sub ex t none e) store plan t es) :
    SoundRow store patterns t es := by
  obtain ⟨inner, hbuilt, rfl⟩ := planMatch_built (hpath.chained none) hplan
  obtain ⟨hy, hglobal⟩ := yields_filterBy_iff.mp hy
  have hclaims := ((conj_globalPredicate patterns).accepts_iff t).mp hglobal
  have hrow := hbuilt.row hwf hy
  have hsteps := hpath.plainSteps hbuilt
  have hfrom : ∀ bound edge fromVar toVar, .hop bound edge fromVar toVar ∈ matchSteps patterns →
      edge.fromNode.var = some fromVar ∧ Plain fromVar := by
    intro bound edge fromVar toVar hmem
    obtain ⟨hedge, hvar, -⟩ := hbuilt.hop_mem hmem
    exact ⟨hvar, hpath.plain _ hedge fromVar (by simp [Pattern.names, hvar])⟩
  rcases hcond with ⟨step, hmem, hunbound⟩ | henforced
  -- a hop from a variable that nothing binds returns no tuples
  · cases step with
    | scan => cases hunbound
    | hop bound edge fromVar toVar =>
      have hstart := hrow.starts hsteps (fun b e f t hm => (hfrom b e f t hm).2) _ _ _ _ hmem
      exact absurd hstart.1 (of_decide_eq_true hunbound)
  · constructor
    · intro pattern hpattern node hnode var hvar id hid
      have hid := boundNode_eq_some.mp hid
      have hv : Plain var := hpath.plain pattern hpattern var (mem_names_of_occurrence hnode hvar)
      obtain ⟨n, hn⟩ := hrow.exists_node hwf hsteps hv hid
      refine ⟨n, hn, fun label hlabel => ?_, ?_⟩
      · obtain ⟨n', hn', hcarries⟩ := hrow.label hsteps hv
          (henforced.labels pattern hpattern node hnode var hvar label hlabel) hid
        cases hn.symm.trans hn'
        exact hcarries
      · rintro ⟨key, lit⟩ hlit
        have hclaim : ⟨var, key, lit⟩ ∈ node.claims :=
          NodePattern.mem_claims.mpr ⟨hvar, AList.mem_toPairs.mp hlit⟩
        obtain ⟨⟨p, hp, start, hstart, hchecked⟩, honce⟩ :=
          henforced.properties pattern hpattern node hnode _ hclaim
        have hhas : ∃ n, store.getNode id = some n ∧
            ∃ x ∈ n.properties.lookup key, x.meets lit := by
          cases p with
          | node start' =>
            obtain rfl := List.mem_singleton.mp hstart
            have hholds := hclaims _ (List.mem_flatMap.mpr ⟨_, hp, hchecked⟩)
            exact (hrow.coherent hwf hsteps hv honce).has hholds hid
          | edge edge =>
            obtain rfl := List.mem_singleton.mp hstart
            have hedge : edge ∈ (matchSteps patterns).filterMap WalkStep.edge? := by
              rw [matchSteps_edges (hpath.chained none) hplan]
              exact List.mem_filterMap.mpr ⟨_, hp, rfl⟩
            obtain ⟨step, hstep, hstep'⟩ := List.mem_filterMap.mp hedge
            cases step with
            | scan => cases hstep'
            | hop bound edge' fromVar toVar =>
              cases hstep'
              exact hrow.property hwf hsteps hv honce hfrom ⟨_, _, _, _, hstep, hchecked⟩ hid
        obtain ⟨n', hn', hmeets⟩ := hhas
        cases hn.symm.trans hn'
        exact hmeets
    · rw [← matchSteps_edges (hpath.chained none) hplan]
      refine hrow.edges fun edge hedge => henforced.edges edge ?_
      rw [matchSteps_edges (hpath.chained none) hplan] at hedge
      exact hedge

/-- Every tuple the plan returns is sound, along whatever edges it was hopped. -/
def MatchSound (ex : Executor) (write : Option InMemoryGraphStore) (store : InMemoryGraphStore)
    (patterns : List Pattern) (plan : PlanNode) : Prop :=
  ∀ tuples write', runExec (executeNode ex ∅ plan) write = (.ok tuples, write') →
    ∀ t ∈ tuples, (∃ es, Yields (planEval ex plan) store plan t es) ∧
      ∀ es, Yields (planEval ex plan) store plan t es → SoundRow store patterns t es

/-- **The tuples of a parsed MATCH clause are sound** where its constraints are written where
they are checked. -/
theorem matchSound_of_enforced {tables : CharTables} (hdot : tables.isAlphanumeric '.' = false)
    {input : String} (hparse : ParsesMatch tables input patterns) {plan : PlanNode}
    (hplan : planMatch ⟨patterns⟩ = .ok plan) (hcond : StartsUnbound patterns ∨ Enforced patterns)
    (hwf : store.Wf) {ex : Executor} {write : Option InMemoryGraphStore}
    (hreader : ex.reader write = some store) : MatchSound ex write store patterns plan := by
  intro tuples write' hrun t ht
  have hpath := hparse.isPath hdot
  have hmatch := planMatch_isMatch (hpath.chained none) hplan
  rw [executeNode_eq_readNode hmatch, hreader] at hrun
  have hrows : readNode (planEval ex plan) (some store) ∅ plan = .ok tuples :=
    congrArg Prod.fst hrun
  refine ⟨(mem_readNode_iff_yields hmatch hrows t).mp ht, fun es hy => ?_⟩
  exact soundRow_of_enforced hwf hpath hplan hcond hy

/-! ### A triangle -/

/-- `(1:A {k: 1})-[:R]->(2:B)-[:R]->(3:A)-[:R {k: 1}]->(1)`. -/
def triangle : InMemoryGraphStore :=
  let k : Properties := (∅ : Properties).insert "k" (.int 1)
  ((InMemoryGraphStore.new.applyWrites [.node ["A"] k, .node ["B"] ∅, .node ["A"] ∅,
    .edge 1 2 "R" ∅, .edge 2 3 "R" ∅, .edge 3 1 "R" k]).toOption).getD .new

theorem reachable_triangle : triangle.Reachable := by
  have hok : (InMemoryGraphStore.new.applyWrites
    [.node ["A"] ((∅ : Properties).insert "k" (.int 1)),
    .node ["B"] ∅, .node ["A"] ∅, .edge 1 2 "R" ∅, .edge 2 3 "R" ∅,
    .edge 3 1 "R" ((∅ : Properties).insert "k" (.int 1))]) = .ok triangle := rfl
  exact InMemoryGraphStore.Reachable.new.applyWrites hok

/-- Whether some row of a text on a store passes a check, which may look at the patterns. -/
def someRow (check : List Pattern → Tuple → Bool) (store : InMemoryGraphStore) (input : String) :
    Except Fault Bool := do
  let patterns := textPatterns .ascii input
  let plan ← planMatch ⟨patterns⟩
  let tuples ← (runExec (executeNode (.new store) ∅ plan) none).1
  pure (tuples.any (check patterns))

theorem someRow_eq_true {check : List Pattern → Tuple → Bool} {store : InMemoryGraphStore}
    {input : String} (h : someRow check store input = .ok true) :
    ∃ plan tuples write', planMatch ⟨textPatterns .ascii input⟩ = .ok plan ∧
      runExec (executeNode (.new store) ∅ plan) none = (.ok tuples, write') ∧
      ∃ t ∈ tuples, check (textPatterns .ascii input) t := by
  obtain ⟨plan, hplan, h⟩ := bind_eq_ok h
  obtain ⟨tuples, hrun, h⟩ := bind_eq_ok h
  exact ⟨plan, tuples, _, hplan, Prod.ext hrun rfl,
    List.any_eq_true.mp (Except.ok.inj h)⟩

/-- `MATCH (a:A {k: 1})-[:R]->(b)` has its constraints at the start of the path. -/
theorem matchSound_of_enforced_start :
    ∃ patterns plan, ParsesMatch .ascii "MATCH (a:A {k: 1})-[:R]->(b)" patterns ∧
      planMatch ⟨patterns⟩ = .ok plan ∧ MatchSound (.new triangle) none triangle patterns plan ∧
      someRow (fun _ t => boundNode t "b" = some 2) triangle "MATCH (a:A {k: 1})-[:R]->(b)" =
        .ok true := by
  have hok : (planMatch ⟨textPatterns .ascii "MATCH (a:A {k: 1})-[:R]->(b)"⟩).isOk = true := by
    decide +kernel
  have hparse : ParsesMatch .ascii "MATCH (a:A {k: 1})-[:R]->(b)"
      (textPatterns .ascii "MATCH (a:A {k: 1})-[:R]->(b)") :=
    parsesMatch_textPatterns (by decide +kernel)
  obtain ⟨plan, hplan⟩ := exists_ok hok
  refine ⟨_, plan, hparse, hplan, ?_, by decide +kernel⟩
  exact matchSound_of_enforced rfl hparse hplan (.inr (by decide +kernel))
    reachable_triangle.wf rfl

/-- A text whose MATCH clause returns an unsound tuple from a store. -/
def Unsound (store : InMemoryGraphStore) (input : String) : Prop :=
  ∃ patterns plan, ParsesMatch .ascii input patterns ∧ planMatch ⟨patterns⟩ = .ok plan ∧
    ¬ MatchSound (.new store) none store patterns plan

/-- A tuple speaks of a node that does not carry what a pattern says. -/
theorem unsound_of_node {store : InMemoryGraphStore} {input : String}
    (hparse : textPatterns .ascii input ≠ [])
    (hrow : someRow (fun patterns t => patterns.any fun pattern => pattern.occurrences.any
      fun node => !decide (NodeSound store t node)) store input = .ok true) :
    Unsound store input := by
  obtain ⟨plan, tuples, write', hplan, hrun, t, ht, hbad⟩ := someRow_eq_true hrow
  refine ⟨_, plan, parsesMatch_textPatterns hparse, hplan, fun hsound => ?_⟩
  obtain ⟨⟨es, hy⟩, hall⟩ := hsound tuples write' hrun t ht
  obtain ⟨pattern, hpattern, hbad⟩ := List.any_eq_true.mp hbad
  obtain ⟨node, hnode, hbad⟩ := List.any_eq_true.mp hbad
  rw [Bool.not_eq_true', decide_eq_false_iff_not] at hbad
  exact hbad ((hall es hy).nodes pattern hpattern node hnode)

/-- The properties of an edge pattern are not those of any edge there is. -/
theorem unsound_of_edge {store : InMemoryGraphStore} (hwf : store.Wf) {input : String}
    (hparse : textPatterns .ascii input ≠ [])
    (hrow : someRow (fun _ _ => true) store input = .ok true)
    (hbad : ∃ edge ∈ (textPatterns .ascii input).filterMap Pattern.edge?,
      edge.properties.toPairs ≠ [] ∧
        ∀ e ∈ store.edges.values, ¬ Meet e.properties edge.properties) :
    Unsound store input := by
  obtain ⟨plan, tuples, write', hplan, hrun, t, ht, -⟩ := someRow_eq_true hrow
  have hpatterns := parsesMatch_textPatterns hparse
  refine ⟨_, plan, hpatterns, hplan, fun hsound => ?_⟩
  obtain ⟨⟨es, hy⟩, hall⟩ := hsound tuples write' hrun t ht
  obtain ⟨inner, hbuilt, rfl⟩ := planMatch_built ((hpatterns.isPath rfl).chained none) hplan
  have hrow := hbuilt.row hwf (yields_filterBy_iff.mp hy).1
  obtain ⟨edge, hedge, hne, hnone⟩ := hbad
  obtain ⟨e, he, hmeets⟩ := Lists.exists_mem_of_forall₂ (hall es hy).edges hedge
  cases e with
  | none => exact hne hmeets
  | some e => exact hnone e (hrow.mem_edges e he) hmeets

/-- **Four ways to an unsound tuple**: a label at the end of an edge, a property there, a
property between the brackets of an edge, and a property of a variable that is bound
twice.  In the last one `a` is node 3 at the end, under the `k` of node 1. -/
theorem unsound_triangle :
    Unsound triangle "MATCH (a)-[:R]->(b:C)" ∧
      Unsound triangle "MATCH (a)-[:R]->(b {k: 2})" ∧
      Unsound triangle "MATCH (a)-[:R {k: 2}]->(b)" ∧
      Unsound triangle "MATCH (a {k: 1})-[:R]->(b)-[:R]->(a)" :=
  ⟨unsound_of_node (by decide +kernel) (by decide +kernel),
    unsound_of_node (by decide +kernel) (by decide +kernel),
    unsound_of_edge reachable_triangle.wf (by decide +kernel) (by decide +kernel)
      (by decide +kernel),
    unsound_of_node (by decide +kernel) (by decide +kernel)⟩

end KuzuEventBus
