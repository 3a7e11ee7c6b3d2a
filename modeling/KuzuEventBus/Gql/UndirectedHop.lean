import Mathlib.Data.List.Forall2
import Mathlib.Data.Multiset.Filter
import KuzuEventBus.Gql.WalkEnds
import KuzuEventBus.Gql.ExpandBound
import KuzuEventBus.Engine.GraphRuns

/-!
# Undirected hops

One hop of `(a)-[:T]-(b)`.  Expand puts the incoming neighbours of a node after the
outgoing ones and filters the result by type.  An edge between two nodes is in the
list of one direction only, so it is found once.  An edge from a node to itself is
in both lists, and nothing takes it out of one of them.

## Main definitions

* `Edge.otherEnd`, `incidentEdges` — the edges at a node, and where they lead.
* `HopsOnce` — one output for every incident edge, bound to its other end.

## Main results

* `map_fst_allowedNeighbors_perm` — **the edges hopped over**: the incident ones, and
  those from the node to itself once more.
* `expandTuple_hopsOnce_iff` — when an undirected hop counts each edge once.
-/

namespace KuzuEventBus

open InMemoryGraphStore

variable {store : InMemoryGraphStore} {spec : ExpandSpec} {tuple : Tuple} {a : NodeId}

/-! ### Incident edges -/

/-- Where an edge at `a` leads: its end that is not `a`, or `a` if both are. -/
def Edge.otherEnd (e : Edge) (a : NodeId) : NodeId :=
  if e.fromNode = a then e.toNode else e.fromNode

/-- An edge of one of the types of a hop, or any edge if it names none. -/
def ExpandSpec.Allows (spec : ExpandSpec) (e : Edge) : Prop :=
  unionTypes true spec.edgeType = [] ∨ e.edgeType ∈ unionTypes true spec.edgeType

instance : DecidablePred spec.Allows := fun _ => inferInstanceAs (Decidable (_ ∨ _))

/-- The edges a hop allows that have an end at `a`, each once. -/
def incidentEdges (store : InMemoryGraphStore) (spec : ExpandSpec) (a : NodeId) : List Edge :=
  store.edges.values.filter fun e => spec.Allows e ∧ (e.fromNode = a ∨ e.toNode = a)

/-- The edges a hop allows from `a` to itself. -/
def loopEdges (store : InMemoryGraphStore) (spec : ExpandSpec) (a : NodeId) : List Edge :=
  store.edges.values.filter fun e => spec.Allows e ∧ e.fromNode = a ∧ e.toNode = a

/-- `t` is the output of a hop over `e`, bound to the other end of `e`. -/
structure HopOver (store : InMemoryGraphStore) (spec : ExpandSpec) (tuple : Tuple) (a : NodeId)
    (e : Edge) (t : Tuple) : Prop where
  extends_tuple : ∃ n, store.getNode (e.otherEnd a) = some n ∧
    t = extendTuple spec tuple (some e, n)
  bound : t.lookup spec.toVar = some (.nodeId (e.otherEnd a))

/-- One output for every incident edge, the hop over that edge. -/
def HopsOnce (store : InMemoryGraphStore) (spec : ExpandSpec) (tuple : Tuple) (a : NodeId)
    (out : List Tuple) : Prop :=
  ∃ es, es.Perm (incidentEdges store spec a) ∧ List.Forall₂ (HopOver store spec tuple a) es out

/-! ### The edges hopped over -/

/-- The loop over an adjacency list finds the edges that have their end at the node. -/
theorem InMemoryGraphStore.Wf.map_fst_neighborsVia_perm (hwf : store.Wf)
    {adjacency : HashMap NodeId (List EdgeId)} {own other : Edge → NodeId}
    (hcount : ∀ a id, (adjacency.listAt a).count id = store.endCount own a id)
    (hends : ∀ e ∈ store.edges.values, (store.getNode (other e)).isSome) (a : NodeId) :
    ((store.neighborsVia (adjacency.listAt a) other none).map Prod.fst).Perm
      (store.edges.values.filter (own · = a)) := by
  have hedges : store.edges.values.Nodup := by
    have hids : (store.edges.values.map Edge.id).Nodup :=
      AList.nodup_values_key fun _ _ he => hwf.edge_id he
    exact hids.of_map
  -- the node is determined by the edge
  have hnodup : ((store.neighborsVia (adjacency.listAt a) other none).map Prod.fst).Nodup := by
    refine (hwf.nodup_neighborsVia hcount a other none).map_on ?_
    rintro ⟨e, n⟩ hen ⟨e', n'⟩ hen' rfl
    obtain ⟨-, -, -, hn⟩ := (hwf.mem_neighborsVia_iff hcount).mp hen
    obtain ⟨-, -, -, hn'⟩ := (hwf.mem_neighborsVia_iff hcount).mp hen'
    rw [hn] at hn'
    rw [Option.some.inj hn']
  rw [List.perm_ext_iff_of_nodup hnodup (hedges.filter _)]
  intro e
  rw [List.mem_filter, decide_eq_true_iff, List.mem_map]
  constructor
  · rintro ⟨⟨e, n⟩, hen, rfl⟩
    obtain ⟨he, hown, -, -⟩ := (hwf.mem_neighborsVia_iff hcount).mp hen
    exact ⟨AList.mem_values_iff.mpr ⟨e.id, he⟩, hown⟩
  · rintro ⟨he, hown⟩
    obtain ⟨n, hn⟩ := Option.isSome_iff_exists.mp (hends e he)
    obtain ⟨id, hid⟩ := AList.mem_values_iff.mp he
    have hedge : store.edges.lookup e.id = some e := by
      rw [hwf.edge_id hid]
      exact hid
    exact ⟨(e, n), (hwf.mem_neighborsVia_iff hcount).mpr ⟨hedge, hown, by simp, hn⟩, rfl⟩

/-- **The edges an undirected hop is made over** are the incident ones, and those from the node
to itself once more. -/
theorem map_fst_allowedNeighbors_perm (hwf : store.Wf) (hends : NoDangling store) (a : NodeId) :
    ((allowedNeighbors store a .both (unionTypes true spec.edgeType)).map Prod.fst).Perm
      (incidentEdges store spec a ++ loopEdges store spec a) := by
  have hout : ((store.getNeighbors a none).map Prod.fst).Perm
      (store.edges.values.filter (Edge.fromNode · = a)) :=
    hwf.map_fst_neighborsVia_perm hwf.out_count (fun e he => (hends e he).2) a
  have hin : ((store.getNeighborsIncoming a none).map Prod.fst).Perm
      (store.edges.values.filter (Edge.toNode · = a)) :=
    hwf.map_fst_neighborsVia_perm hwf.in_count (fun e he => (hends e he).1) a
  have hfilter : (allowedNeighbors store a .both (unionTypes true spec.edgeType)).map Prod.fst =
      ((store.getNeighbors a none ++ store.getNeighborsIncoming a none).map Prod.fst).filter
        (spec.Allows ·) := by
    rw [List.filter_map]
    congr 1
    apply List.filter_congr
    intro en _
    rw [Function.comp_apply, Bool.eq_iff_iff, Bool.or_eq_true, List.isEmpty_iff,
      decide_eq_true_iff, decide_eq_true_iff, ExpandSpec.Allows]
  rw [hfilter, List.map_append]
  refine ((hout.append hin).filter _).trans ?_
  -- the edges from `a` and those to `a`: those at either end, and those at both
  have hsplit := Multiset.filter_add_filter (fun e : Edge => e.fromNode = a)
    (fun e => e.toNode = a)
    ((store.edges.values.filter (spec.Allows ·) : List Edge) : Multiset Edge)
  rw [Multiset.filter_coe, Multiset.filter_coe, Multiset.filter_coe, Multiset.filter_coe,
    Multiset.coe_add, Multiset.coe_add, Multiset.coe_eq_coe] at hsplit
  have hcomm : ∀ (p : Edge → Prop) [DecidablePred p],
      (store.edges.values.filter (spec.Allows ·)).filter (p ·) =
        store.edges.values.filter fun e => spec.Allows e ∧ p e := by
    intro p _
    simp [List.filter_filter, Bool.and_comm]
  rw [hcomm, hcomm, hcomm, hcomm] at hsplit
  simpa [List.filter_filter, incidentEdges, loopEdges] using hsplit

/-! ### One output for every edge -/

/-- The edge's own bindings leave its other end at the end variable. -/
def ExpandSpec.KeepsEnd (spec : ExpandSpec) (a : NodeId) (e : Edge) : Prop :=
  ∀ n, ∀ v ∈ overwritten spec (some e, n), v = .nodeId (e.otherEnd a)

theorem otherEnd_of_mem_allowedNeighbors (hwf : store.Wf) {types : List String} {e : Edge}
    {n : Node} (h : (e, n) ∈ allowedNeighbors store a .both types) :
    n.id = e.otherEnd a ∧ store.getNode (e.otherEnd a) = some n := by
  obtain ⟨-, hleads, hn⟩ := (mem_directedNeighbors hwf).mp (List.mem_filter.mp h).1
  have hid : n.id = e.otherEnd a := by
    unfold Edge.otherEnd
    rcases hleads with ⟨hfrom, hto⟩ | ⟨hfrom, hto⟩
    · rw [if_pos hfrom, hto]
    · split
      · next ha => rw [hto, ← ha, hfrom]
      · exact hfrom.symm
  rw [← hid]
  exact ⟨rfl, hn⟩

/-- An undirected hop with an unbound end extends the tuple by every neighbour. -/
theorem expandTuple_both (hfrom : boundNode tuple spec.fromVar = some a)
    (hto : tuple.lookup spec.toVar = none) (hboth : spec.direction = .both)
    (hdepth : spec.depth = none) : expandTuple store spec tuple =
      (allowedNeighbors store a .both (unionTypes true spec.edgeType)).map fun en =>
        extendTuple spec tuple (some en.1, en.2) := by
  have hfree : boundNode tuple spec.toVar = none := by
    rw [boundNode, hto]
  rw [expandTuple, hfrom]
  simp only
  rw [expandTargets, hdepth, hboth, hfree, List.filter_eq_self.mpr, List.map_map]
  · rfl
  · intro target _
    rfl

/-- The other end is bound in the output of a hop exactly when the edge's bindings leave it. -/
theorem lookup_extendTuple_otherEnd_iff {e : Edge} {n : Node} (hid : n.id = e.otherEnd a) :
    (extendTuple spec tuple (some e, n)).lookup spec.toVar = some (.nodeId (e.otherEnd a)) ↔
      spec.KeepsEnd a e := by
  rw [lookup_extendTuple_toVar, Option.some.injEq, hid]
  -- the bindings do not depend on the node
  have hsame : spec.KeepsEnd a e ↔
      ∀ v ∈ overwritten spec (some e, n), v = .nodeId (e.otherEnd a) :=
    ⟨fun h => h n, fun h _ => h⟩
  rw [hsame]
  cases overwritten spec (some e, n) with
  | none => simp
  | some v => simp

theorem HopOver.keepsEnd (hwf : store.Wf) {e : Edge} {t : Tuple}
    (h : HopOver store spec tuple a e t) : spec.KeepsEnd a e := by
  obtain ⟨n, hn, rfl⟩ := h.extends_tuple
  exact (lookup_extendTuple_otherEnd_iff (hwf.node_id hn)).mp h.bound

/-- **When an undirected hop counts each edge once**: exactly when no edge it allows leads from
the node to itself, and the bindings of the edge variable leave the end variable alone. -/
theorem expandTuple_hopsOnce_iff (hwf : store.Wf) (hends : NoDangling store)
    (hfrom : boundNode tuple spec.fromVar = some a) (hto : tuple.lookup spec.toVar = none)
    (hboth : spec.direction = .both) (hdepth : spec.depth = none) :
    HopsOnce store spec tuple a (expandTuple store spec tuple) ↔
      ∀ e ∈ incidentEdges store spec a, e.fromNode ≠ e.toNode ∧ spec.KeepsEnd a e := by
  have hperm : ((allowedNeighbors store a .both (unionTypes true spec.edgeType)).map
      Prod.fst).Perm (incidentEdges store spec a ++ loopEdges store spec a) :=
    map_fst_allowedNeighbors_perm hwf hends a
  rw [expandTuple_both hfrom hto hboth hdepth]
  constructor
  · rintro ⟨es, hes, hhops⟩ e he
    -- as many outputs as incident edges leave no second hop for any of them
    have hlen := hperm.length_eq
    have hlen' := hhops.length_eq
    rw [List.length_append, List.length_map] at hlen
    rw [List.length_map, hes.length_eq, hlen] at hlen'
    have hnone : loopEdges store spec a = [] := List.length_eq_zero_iff.mp (by omega)
    have hkeeps : ∀ e ∈ es, spec.KeepsEnd a e :=
      ((List.forall₂_and_left _ _).mp (hhops.imp fun _ _ hop => ⟨hop.keepsEnd hwf, hop⟩)).1
    refine ⟨fun hloop => ?_, hkeeps e (hes.mem_iff.mpr he)⟩
    obtain ⟨hmem, hspec⟩ := List.mem_filter.mp he
    obtain ⟨hallows, hat⟩ := of_decide_eq_true hspec
    have hboth : e.fromNode = a ∧ e.toNode = a := by
      rcases hat with ha | ha
      · exact ⟨ha, by rw [← hloop, ha]⟩
      · exact ⟨by rw [hloop, ha], ha⟩
    have hin : e ∈ loopEdges store spec a :=
      List.mem_filter.mpr ⟨hmem, decide_eq_true ⟨hallows, hboth⟩⟩
    rw [hnone] at hin
    cases hin
  · intro h
    have hnone : loopEdges store spec a = [] := by
      rw [loopEdges, List.filter_eq_nil_iff]
      rintro e hmem hspec
      obtain ⟨hallows, hfrom, hto⟩ := of_decide_eq_true hspec
      have he : e ∈ incidentEdges store spec a :=
        List.mem_filter.mpr ⟨hmem, decide_eq_true ⟨hallows, .inl hfrom⟩⟩
      exact (h e he).1 (by rw [hfrom, hto])
    rw [hnone, List.append_nil] at hperm
    refine ⟨_, hperm, ?_⟩
    rw [List.forall₂_map_left_iff, List.forall₂_map_right_iff, List.forall₂_same]
    rintro ⟨e, n⟩ hen
    obtain ⟨hid, hn⟩ := otherEnd_of_mem_allowedNeighbors hwf hen
    have he : e ∈ incidentEdges store spec a := hperm.mem_iff.mp (List.mem_map_of_mem hen)
    exact ⟨⟨n, hn, rfl⟩, (lookup_extendTuple_otherEnd_iff hid).mpr (h e he).2⟩

/-- Only an edge variable of the same name overwrites a plain end variable. -/
theorem ExpandSpec.keepsEnd_iff_of_plain (hplain : Plain spec.toVar) (e : Edge) :
    spec.KeepsEnd a e ↔ spec.edgeVar ≠ some spec.toVar := by
  unfold ExpandSpec.KeepsEnd overwritten
  cases hvar : spec.edgeVar with
  | none => simp
  | some var =>
    simp only
    by_cases hname : spec.toVar = var
    · rw [hname, lookup_insertAll_edgeBindings_self]
      exact iff_of_false (fun h => nomatch h ⟨0, [], ∅⟩ _ rfl) (by simp)
    · rw [lookup_insertAll_edgeBindings_of_ne hname (hplain.ne_propKey var)]
      simp [Ne.symm hname]

/-! ### An edge between two nodes, and one from a node to itself -/

/-- `(a)-[r:R]-(b)`. -/
def bothSpec : ExpandSpec := ⟨"a", some "r", "b", some "R", .both, none⟩

/-- The hop from node 1 of `(1)-[:R]->(2)`. -/
theorem expandTuple_hopsOnce_twoNodes :
    HopsOnce twoNodes bothSpec ((∅ : Tuple).insert "a" (.nodeId 1)) 1
      (expandTuple twoNodes bothSpec ((∅ : Tuple).insert "a" (.nodeId 1))) := by
  have hplain : Plain bothSpec.toVar := by unfold Plain; decide
  have hends : ∀ e ∈ incidentEdges twoNodes bothSpec 1, e.fromNode ≠ e.toNode := by
    decide +kernel
  refine (expandTuple_hopsOnce_iff reachable_twoNodes.wf (by unfold NoDangling; decide +kernel)
    rfl rfl rfl rfl).mpr fun e he => ⟨hends e he, ?_⟩
  exact (ExpandSpec.keepsEnd_iff_of_plain hplain e).mpr (by decide)

/-- The store of a node with an edge to itself. -/
def selfLoop : InMemoryGraphStore :=
  ((new.applyWrites [.node ["A"] ∅, .edge 1 1 "R" ∅]).toOption).getD new

/-- The edge from a node to itself is hopped over twice. -/
theorem expandTuple_selfLoop :
    (incidentEdges selfLoop bothSpec 1).length = 1 ∧
      (expandTuple selfLoop bothSpec ((∅ : Tuple).insert "a" (.nodeId 1))).length = 2 ∧
      ¬ HopsOnce selfLoop bothSpec ((∅ : Tuple).insert "a" (.nodeId 1)) 1
        (expandTuple selfLoop bothSpec ((∅ : Tuple).insert "a" (.nodeId 1))) := by
  have hone : (incidentEdges selfLoop bothSpec 1).length = 1 := by decide +kernel
  have htwo : (expandTuple selfLoop bothSpec
      ((∅ : Tuple).insert "a" (.nodeId 1))).length = 2 := by decide +kernel
  refine ⟨hone, htwo, fun ⟨es, hes, hhops⟩ => ?_⟩
  have hlen := hhops.length_eq
  rw [hes.length_eq, hone, htwo] at hlen
  cases hlen

end KuzuEventBus
