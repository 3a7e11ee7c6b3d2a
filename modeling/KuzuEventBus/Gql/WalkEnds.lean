import KuzuEventBus.Gql.MatchComplete
import KuzuEventBus.Lib.Walks

/-!
# Paths of variable length

The end nodes of `MATCH (a)-[:T*min..max]-(b)` compared with the walks of `min` to
`max` hops.  `traverse_variable_length` is a breadth-first search: it finds a node at
the length of its shortest walks and passes it over afterwards, so a node that is
also reached in fewer than `min` hops is missed.  The start node is never found.

## Main definitions

* `Hop`, `NoDangling` — the hops a pattern allows; every edge has both its ends.
* `Mirrors` — the state of the search as a state of the general one.
* `pathPatterns`, `matchEnds` — the patterns, and the end nodes the executor returns.
* `EndsAreWalks` — what the documentation says of them.

## Main results

* `mem_traverseVariableLength_iff` — **the search finds the nodes whose distance is in range**.
* `matchEnds_eq` — the rows of the MATCH clause are the nodes the search finds.
* `endsAreWalks_matchEnds_iff` — **when the end nodes are those of the walks**.
-/

namespace KuzuEventBus

open Walks

variable {store : InMemoryGraphStore} {types : List String} {direction : Direction}

/-! ### Hops -/

/-- Both ends of every edge are nodes of the store. -/
def NoDangling (store : InMemoryGraphStore) : Prop :=
  ∀ e ∈ store.edges.values,
    (store.getNode e.fromNode).isSome ∧ (store.getNode e.toNode).isSome

/-- One hop along an edge of one of the types, or of any type if there are none. -/
def Hop (store : InMemoryGraphStore) (types : List String) (direction : Direction)
    (a b : NodeId) : Prop :=
  ∃ e ∈ store.edges.values, (types = [] ∨ e.edgeType ∈ types) ∧ e.Leads a b direction

/-- An edge leads to a node of the store. -/
theorem NoDangling.isSome_of_leads (hends : NoDangling store) {e : Edge}
    (he : e ∈ store.edges.values) {a b : NodeId} (h : e.Leads a b direction) :
    (store.getNode b).isSome := by
  cases direction with
  | right => rw [← h.2]; exact (hends e he).2
  | left => rw [← h.1]; exact (hends e he).1
  | both =>
    rcases h with h | h
    · rw [← h.2]; exact (hends e he).2
    · rw [← h.1]; exact (hends e he).1

/-- The nodes one hop away, as the search looks at them. -/
def nextIds (store : InMemoryGraphStore) (types : List String) (direction : Direction)
    (a : NodeId) : List NodeId :=
  (allowedNeighbors store a direction types).map fun en => en.2.id

theorem mem_directedNeighbors (hwf : store.Wf) {a : NodeId} {e : Edge} {n : Node} :
    (e, n) ∈ directedNeighbors store a none direction ↔
      store.edges.lookup e.id = some e ∧ e.Leads a n.id direction ∧
        store.getNode n.id = some n := by
  have hid {id : NodeId} (hn : store.nodes.lookup id = some n) : id = n.id := (hwf.node_id hn).symm
  have hout : (e, n) ∈ store.getNeighbors a none ↔ store.edges.lookup e.id = some e ∧
      (e.fromNode = a ∧ e.toNode = n.id) ∧ store.getNode n.id = some n := by
    rw [hwf.mem_getNeighbors]
    constructor
    · rintro ⟨he, ha, hn⟩
      have hto := hid hn
      exact ⟨he, ⟨ha, hto⟩, by rw [← hto]; exact hn⟩
    · rintro ⟨he, ⟨ha, hto⟩, hn⟩
      exact ⟨he, ha, by rw [hto]; exact hn⟩
  have hin : (e, n) ∈ store.getNeighborsIncoming a none ↔ store.edges.lookup e.id = some e ∧
      (e.fromNode = n.id ∧ e.toNode = a) ∧ store.getNode n.id = some n := by
    rw [hwf.mem_getNeighborsIncoming]
    constructor
    · rintro ⟨he, ha, hn⟩
      have hfrom := hid hn
      exact ⟨he, ⟨hfrom, ha⟩, by rw [← hfrom]; exact hn⟩
    · rintro ⟨he, ⟨hfrom, ha⟩, hn⟩
      exact ⟨he, ha, by rw [hfrom]; exact hn⟩
  cases direction with
  | right => exact hout
  | left => exact hin
  | both =>
    rw [directedNeighbors, List.mem_append, hout, hin, Edge.Leads]
    tauto

/-- The search looks at the nodes that a hop leads to and that are there. -/
theorem mem_nextIds (hwf : store.Wf) {a b : NodeId} : b ∈ nextIds store types direction a ↔
    Hop store types direction a b ∧ (store.getNode b).isSome := by
  unfold nextIds allowedNeighbors Hop
  simp only [List.mem_map, List.mem_filter, Prod.exists, Bool.or_eq_true, List.isEmpty_iff,
    decide_eq_true_iff]
  constructor
  · rintro ⟨e, n, ⟨hmem, htype⟩, rfl⟩
    obtain ⟨he, hleads, hn⟩ := (mem_directedNeighbors hwf).mp hmem
    exact ⟨⟨e, AList.mem_values_iff.mpr ⟨e.id, he⟩, htype, hleads⟩, by rw [hn]; rfl⟩
  · rintro ⟨⟨e, he, htype, hleads⟩, hb⟩
    obtain ⟨n, hn⟩ := Option.isSome_iff_exists.mp hb
    obtain ⟨id, hid⟩ := AList.mem_values_iff.mp he
    have hedge : store.edges.lookup e.id = some e := by
      rw [hwf.edge_id hid]
      exact hid
    obtain rfl : n.id = b := hwf.node_id hn
    exact ⟨e, n, ⟨(mem_directedNeighbors hwf).mpr ⟨hedge, hleads, hn⟩, htype⟩, rfl⟩

/-- Without dangling edges it looks at the nodes one hop away. -/
theorem mem_nextIds_iff (hwf : store.Wf) (hends : NoDangling store) {a b : NodeId} :
    b ∈ nextIds store types direction a ↔ Hop store types direction a b := by
  rw [mem_nextIds hwf, and_iff_left_iff_imp]
  rintro ⟨e, he, -, hleads⟩
  exact hends.isSome_of_leads he hleads

/-! ### The search -/

/-- The state of the search mirrors a state of the general one: the nodes found are those seen
at a depth in range, other than the start. -/
structure Mirrors (startId : NodeId) (minDepth maxDepth : ℕ) (st : TraverseState)
    (s : Search NodeId) : Prop where
  queue : st.queue = s.queue
  visited : st.visited = s.seen.map Prod.fst
  result : st.result.map Node.id = ((s.seen.filter fun e =>
    minDepth ≤ e.2 ∧ e.2 ≤ maxDepth ∧ e.1 ≠ startId).map Prod.fst).reverse

theorem mirrors_start (startId : NodeId) (minDepth maxDepth : ℕ) :
    Mirrors startId minDepth maxDepth ⟨[(startId, 0)], [startId], []⟩ (.start startId) where
  queue := rfl
  visited := rfl
  result := by simp [Search.start]

theorem Mirrors.visit {startId : NodeId} {minDepth maxDepth : ℕ} {st : TraverseState}
    {s : Search NodeId} (h : Mirrors startId minDepth maxDepth st s) (depth : ℕ) (n : Node) :
    Mirrors startId minDepth maxDepth (traverseNeighbor startId minDepth maxDepth depth st n)
      (s.visit maxDepth depth n.id) := by
  unfold traverseNeighbor Search.visit
  rw [h.visited]
  split
  · exact h
  · constructor
    · show (if depth + 1 < maxDepth then st.queue ++ [(n.id, depth + 1)] else st.queue) = _
      rw [h.queue]
    · rfl
    · show (if depth + 1 ≥ minDepth ∧ depth + 1 ≤ maxDepth ∧ n.id ≠ startId then st.result ++ [n]
        else st.result).map Node.id = _
      rw [List.filter_cons]
      by_cases hrange : minDepth ≤ depth + 1 ∧ depth + 1 ≤ maxDepth ∧ n.id ≠ startId
      · rw [if_pos hrange, if_pos (decide_eq_true hrange), List.map_append, h.result]
        simp
      · rw [if_neg hrange, if_neg (by simpa using hrange), h.result]

theorem Mirrors.visitAll {startId : NodeId} {minDepth maxDepth : ℕ} (depth : ℕ) (ns : List Node) :
    ∀ {st : TraverseState} {s : Search NodeId}, Mirrors startId minDepth maxDepth st s →
      Mirrors startId minDepth maxDepth
        (ns.foldl (traverseNeighbor startId minDepth maxDepth depth) st)
        ((ns.map Node.id).foldl (Search.visit maxDepth depth) s) := by
  induction ns with
  | nil => intro st s h; exact h
  | cons n ns ih => intro st s h; exact ih (h.visit depth n)

/-- The search ends as the general one does, with an empty queue. -/
theorem traverseLoop_mirrors {startId : NodeId} {minDepth maxDepth fuel : ℕ} :
    ∀ {st : TraverseState} {s : Search NodeId} {d : ℕ}, roundsLeft store st ≤ fuel →
      Mirrors startId minDepth maxDepth st s →
      s.Level (nextIds store types direction) maxDepth startId d (fun _ _ => False) → s.Ordered →
      ∃ st' s' d', Mirrors startId minDepth maxDepth st' s' ∧ s'.queue = [] ∧
        s'.Level (nextIds store types direction) maxDepth startId d' (fun _ _ => False) ∧
        s'.Ordered ∧
        traverseLoop store startId types direction minDepth maxDepth fuel st = st'.result := by
  induction fuel with
  | zero =>
    intro st s d hfuel hm hl ho
    have hqueue : st.queue = [] := by
      rw [← List.length_eq_zero_iff]
      unfold roundsLeft at hfuel
      omega
    exact ⟨st, s, d, hm, by rw [← hm.queue, hqueue], hl, ho, rfl⟩
  | succ fuel ih =>
    intro st s d hfuel hm hl ho
    rw [traverseLoop]
    cases hq : st.queue with
    | nil => exact ⟨st, s, d, hm, by rw [← hm.queue, hq], hl, ho, rfl⟩
    | cons entry queue =>
      obtain ⟨id, depth⟩ := entry
      have hpop : roundsLeft store { st with queue := queue } ≤ fuel := by
        unfold roundsLeft at hfuel ⊢
        rw [hq, List.length_cons] at hfuel
        show queue.length + unvisited store st.visited ≤ fuel
        omega
      have hsq : s.queue = (id, depth) :: queue := by rw [← hm.queue, hq]
      have hm' : Mirrors startId minDepth maxDepth { st with queue := queue } ⟨queue, s.seen⟩ :=
        ⟨rfl, hm.visited, hm.result⟩
      have hl' := hl.pop hsq
      have hseen : (id, depth) ∈ s.seen := hl.mem_seen _ (by rw [hsq]; exact List.mem_cons_self)
      simp only
      split
      · next hdepth =>
        -- at the bound nothing is owed
        refine ih hpop hm' (d := depth) { hl' with closed := fun e he hlt => ?_ } ho
        refine (hl'.closed e he hlt).imp_right fun hnext b hb => .inr ?_
        exact (hnext b hb).resolve_left fun howed => Nat.not_lt.mpr hdepth howed.2.1
      · next hdepth =>
        have hlt : depth < maxDepth := Nat.not_le.mp hdepth
        have hfold := hm'.visitAll depth
          ((allowedNeighbors store id direction types).map Prod.snd)
        rw [List.map_map] at hfold
        refine ih ((roundsLeft_foldl ?_).trans hpop) hfold (d := depth) ?_
          (Search.ordered_visitAll _ hl'.high ho)
        · intro n hn
          obtain ⟨en, hen, rfl⟩ := List.mem_map.mp hn
          exact mem_scanAll_of_mem_allowedNeighbors hen
        · refine Search.Level.visitAll (x := id) hlt (fun b hb => hb) ?_ hseen
          refine { hl' with closed := fun e he hlt => (hl'.closed e he hlt).imp_right ?_ }
          exact fun hnext b hb => (hnext b hb).imp_left fun howed => ⟨howed.1, howed.2.2⟩

/-- What the search finds, in terms of the nodes it looks at. -/
theorem mem_traverseVariableLength (store : InMemoryGraphStore) (startId : NodeId)
    (types : List String) (direction : Direction) (minDepth maxDepth : ℕ) :
    ((traverseVariableLength store startId types direction minDepth maxDepth).map Node.id).Nodup ∧
      ∀ b, b ∈ (traverseVariableLength store startId types direction minDepth maxDepth).map
          Node.id ↔
        b ≠ startId ∧ ∃ k, minDepth ≤ k ∧ k ≤ maxDepth ∧
          Shortest (fun x y => y ∈ nextIds store types direction x) k startId b := by
  obtain ⟨st, s, d, hm, hq, hl, -, hloop⟩ := traverseLoop_mirrors (roundsLeft_start store startId)
    (mirrors_start startId minDepth maxDepth)
    (Search.level_start (nextIds store types direction) maxDepth startId)
    (Search.ordered_start startId)
  rw [traverseVariableLength, hloop, hm.result]
  constructor
  · exact List.nodup_reverse.mpr (hl.nodup.sublist (List.filter_sublist.map _))
  · intro b
    simp only [List.mem_reverse, List.mem_map, List.mem_filter, decide_eq_true_iff]
    constructor
    · rintro ⟨⟨b, k⟩, ⟨hseen, hmin, hmax, hne⟩, rfl⟩
      exact ⟨hne, k, hmin, hmax, ((hl.mem_seen_iff hq).mp hseen).2⟩
    · rintro ⟨hne, k, hmin, hmax, hshort⟩
      exact ⟨(b, k), ⟨(hl.mem_seen_iff hq).mpr ⟨hmax, hshort⟩, hmin, hmax, hne⟩, rfl⟩

/-- **The search finds the nodes whose distance from the start is in range**, other than the
start, each once. -/
theorem mem_traverseVariableLength_iff (hwf : store.Wf) (hends : NoDangling store)
    (startId : NodeId) (types : List String) (direction : Direction) (minDepth maxDepth : ℕ)
    (b : NodeId) :
    b ∈ (traverseVariableLength store startId types direction minDepth maxDepth).map Node.id ↔
      b ≠ startId ∧ ∃ k, minDepth ≤ k ∧ k ≤ maxDepth ∧
        Shortest (Hop store types direction) k startId b := by
  have hhop : (fun x y => y ∈ nextIds store types direction x) = Hop store types direction := by
    funext x y
    exact propext (mem_nextIds_iff hwf hends)
  rw [(mem_traverseVariableLength store startId types direction minDepth maxDepth).2 b, hhop]

/-! ### Type names -/

/-- A name as it stands between bars: not empty, without bars and white space. -/
def TypeName (t : String) : Prop :=
  t ≠ "" ∧ ∀ c ∈ t.toList, c ≠ '|' ∧ Text.isWhiteSpace c = false

/-- The type of an edge pattern with these types, joined as the parser joins them. -/
def typesText : List String → Option String
  | [] => none
  | types => some ("|".intercalate types)

theorem trim_of_typeName {t : String} (h : TypeName t) : Text.trim t = t := by
  have hdrop : ∀ cs : List Char, (∀ c ∈ cs, Text.isWhiteSpace c = false) →
      cs.dropWhile Text.isWhiteSpace = cs := by
    intro cs hcs
    cases cs with
    | nil => rfl
    | cons c cs => rw [List.dropWhile_cons, hcs c List.mem_cons_self]; rfl
  have hws : ∀ c ∈ t.toList, Text.isWhiteSpace c = false := fun c hc => (h.2 c hc).2
  rw [Text.trim, hdrop _ hws, hdrop _ fun c hc => hws c (List.mem_reverse.mp hc),
    List.reverse_reverse, String.ofList_toList]

/-- Splitting at the bars gives the types back. -/
theorem unionTypes_typesText {types : List String} {keepEmpty : Bool}
    (h : ∀ t ∈ types, TypeName t) : unionTypes keepEmpty (typesText types) = types := by
  cases types with
  | nil => rfl
  | cons t ts =>
    have hsplit : ("|".intercalate (t :: ts)).toList.splitOn '|' =
        (t :: ts).map String.toList := by
      rw [String.toList_intercalate]
      apply List.splitOn_intercalate
      · intro cs hcs hbar
        obtain ⟨t', ht', rfl⟩ := List.mem_map.mp hcs
        exact ((h t' ht').2 _ hbar).1 rfl
      · simp
    have htrim : ((t :: ts).map String.toList).map (fun cs => Text.trim (String.ofList cs)) =
        t :: ts := by
      rw [List.map_map]
      conv => rhs; rw [← List.map_id (t :: ts)]
      apply List.map_congr_left
      intro t' ht'
      rw [Function.comp_apply, String.ofList_toList, trim_of_typeName (h t' ht'), id]
    show ((Text.splitTrim '|' _).filter _) = _
    rw [Text.splitTrim, hsplit, htrim]
    apply List.filter_eq_self.mpr
    intro t' ht'
    simp [(h t' ht').1]

/-! ### The rows of the MATCH clause -/

/-- The patterns of `MATCH (v)-[:T*min..max]-(w)`, in one of the directions. -/
def pathPatterns (v w : String) (types : List String) (direction : Direction)
    (depth : DepthRange) : List Pattern :=
  [.node ⟨some v, [], ∅⟩,
    .edge ⟨none, typesText types, direction, ∅, ⟨some v, [], ∅⟩, ⟨some w, [], ∅⟩, some depth⟩]

/-- The Expand of these patterns. -/
def pathSpec (v w : String) (types : List String) (direction : Direction) (depth : DepthRange) :
    ExpandSpec :=
  ⟨v, none, w, typesText types, direction, some depth⟩

/-- The nodes that `w` is bound to in the rows of a MATCH clause where `v` is bound to `a`. -/
def matchEnds (store : InMemoryGraphStore) (v w : String) (patterns : List Pattern) (a : NodeId) :
    Except Fault (List NodeId) := do
  let plan ← planMatch ⟨patterns⟩
  let rows ← (runExec (executeNode (.new store) ∅ plan) none).1
  pure ((rows.filter fun row => boundNode row v = some a).filterMap (boundNode · w))

/-- The plan: a scan and an Expand, and a filter unless a path may have no hop. -/
def pathPlan (v w : String) (types : List String) (direction : Direction) (depth : DepthRange) :
    PlanNode :=
  let expand := PlanNode.expand (.fullScan v) v none w (typesText types) direction (some depth)
  if depth.min ≥ 1 then .filter expand (endsDiffer v w) else expand

variable {v w : String} {depth : DepthRange}

theorem planMatch_pathPatterns (hne : v ≠ w) (types : List String) (direction : Direction)
    (depth : DepthRange) :
    planMatch ⟨pathPatterns v w types direction depth⟩ =
      .ok (pathPlan v w types direction depth) := by
  have hvw : w ≠ v := Ne.symm hne
  have hpred (var : String) : inlinePredicate var ∅ = none := rfl
  simp only [planMatch, pathPatterns, List.isEmpty_cons, Bool.false_eq_true, if_false, toNodeVars,
    planPatterns, planNodePattern, List.not_mem_nil, List.mem_singleton, hne, skipScan,
    List.head?_cons, hpred]
  simp [planEdgePattern, edgeFromVar, edgeToVar, edgeInput, edgePlan, edgePredicate,
    adjacentPredicate, conjoin, filterBy, scanNode, hpred, bind, Except.bind, pure, Except.pure,
    globalPredicate, pathPlan, hvw, hne]

/-- A row: the tuple of a node and of a node found from it. -/
def pathRow (v w : String) (n m : Node) : Tuple :=
  bindNode (bindNode ∅ v n.id n.properties) w m.id m.properties

theorem boundNode_pathRow (hv : Plain v) (hw : Plain w) (hne : v ≠ w) (n m : Node) :
    boundNode (pathRow v w n m) v = some n.id ∧ boundNode (pathRow v w n m) w = some m.id := by
  constructor
  · rw [boundNode_eq_some, pathRow, lookup_bindNode_frame hv hw hne (.inl rfl),
      lookup_bindNode_self]
  · rw [boundNode_eq_some, pathRow, lookup_bindNode_self]

/-- Without repetition and without the start, all nodes are emitted. -/
theorem distinctTargets_eq_self {fromId : NodeId} : ∀ {emitted : List NodeId} {ns : List Node},
    (ns.map Node.id).Nodup → (∀ n ∈ ns, n.id ≠ fromId ∧ n.id ∉ emitted) →
      distinctTargets fromId emitted ns = ns
  | _, [], _, _ => rfl
  | emitted, n :: ns, hnd, hnew => by
    obtain ⟨hfrom, hemitted⟩ := hnew n List.mem_cons_self
    rw [List.map_cons, List.nodup_cons] at hnd
    have hrest : ∀ m ∈ ns, m.id ≠ fromId ∧ m.id ∉ n.id :: emitted := by
      intro m hm
      obtain ⟨hm₁, hm₂⟩ := hnew m (List.mem_cons_of_mem _ hm)
      refine ⟨hm₁, fun hmem => ?_⟩
      rcases List.mem_cons.mp hmem with heq | hmem
      · exact hnd.1 (heq ▸ List.mem_map_of_mem hm)
      · exact hm₂ hmem
    rw [distinctTargets, if_neg (by simp [hfrom, hemitted]), distinctTargets_eq_self hnd.2 hrest]

/-- **A path of variable length draws from what the search finds.** -/
theorem expandTargets_traverse {spec : ExpandSpec} (hdepth : spec.depth = some depth)
    (a : NodeId) : expandTargets store spec a =
      (traverseVariableLength store a (unionTypes false spec.edgeType) spec.direction depth.min
        depth.max).map fun m => (none, m) := by
  obtain ⟨hnd, hmem⟩ := mem_traverseVariableLength store a (unionTypes false spec.edgeType)
    spec.direction depth.min depth.max
  rw [expandTargets, hdepth]
  simp only
  rw [distinctTargets_eq_self hnd]
  intro m hm
  exact ⟨((hmem m.id).mp (List.mem_map_of_mem hm)).1, List.not_mem_nil⟩

/-- What the Expand makes of the tuple of a node. -/
theorem expandTuple_path (htypes : ∀ t ∈ types, TypeName t) (hw : Plain w) (hv : Plain v)
    (hne : v ≠ w) (n : Node) :
    expandTuple store (pathSpec v w types direction depth) (bindNode ∅ v n.id n.properties) =
      (traverseVariableLength store n.id types direction depth.min depth.max).map
        (pathRow v w n) := by
  have hfrom : boundNode (bindNode ∅ v n.id n.properties) v = some n.id :=
    boundNode_eq_some.mpr (lookup_bindNode_self _ _ _ _)
  have hto : boundNode (bindNode ∅ v n.id n.properties) w = none := by
    unfold boundNode
    rw [lookup_bindNode_frame hw hv (Ne.symm hne) (.inl rfl)]
    rfl
  have htargets : expandTargets store (pathSpec v w types direction depth) n.id = _ :=
    expandTargets_traverse rfl n.id
  rw [show (pathSpec v w types direction depth).edgeType = typesText types from rfl,
    unionTypes_typesText htypes] at htargets
  rw [expandTuple, show (pathSpec v w types direction depth).fromVar = v from rfl, hfrom]
  simp only
  rw [htargets, List.filter_eq_self.mpr, List.map_map]
  · rfl
  · intro target _
    rw [show (pathSpec v w types direction depth).toVar = w from rfl, hto]
    rfl

/-- Nodes of a store that differ have different numbers, so the filter on the ends keeps them. -/
theorem accepts_endsDiffer {sub : Executor → PlanNode → Tuple → Except Fault (List Tuple)}
    {ex : Executor} (hwf : store.Wf) {t : Tuple} {n m : Node}
    (hv : boundNode t v = some n.id) (hw : boundNode t w = some m.id)
    (hn : store.getNode n.id = some n) (hm : store.getNode m.id = some m) (hdiff : m.id ≠ n.id) :
    accepts (fun e t => evalExprWith sub ex t none e) (endsDiffer v w) t = .ok true := by
  rw [boundNode_eq_some] at hv hw
  have hint : Int64.ofNat n.id ≠ Int64.ofNat m.id := by
    intro heq
    have hu := congrArg Int64.toUInt64 heq
    have hnat := congrArg UInt64.toNat hu
    have hnlt : n.id < 2 ^ 64 := (hwf.node_lt hn).trans hwf.nextNodeId_lt
    have hmlt : m.id < 2 ^ 64 := (hwf.node_lt hm).trans hwf.nextNodeId_lt
    rw [Int64.toUInt64_ofNat', Int64.toUInt64_ofNat', UInt64.toNat_ofNat', UInt64.toNat_ofNat',
      Nat.mod_eq_of_lt hnlt, Nat.mod_eq_of_lt hmlt] at hnat
    exact hdiff hnat.symm
  have hid : isIdFunction "ID" = true := by decide
  simp [accepts, endsDiffer, evalExprWith, hid, hv, hw, evalBinaryOp, evalIntOp, hint, okOrNone,
    bind, Except.bind, pure, Except.pure]

/-- The rows: every node with every node found from it. -/
def pathRows (store : InMemoryGraphStore) (v w : String) (types : List String)
    (direction : Direction) (depth : DepthRange) : List Tuple :=
  store.scanAll.flatMap fun n =>
    (traverseVariableLength store n.id types direction depth.min depth.max).map (pathRow v w n)

theorem filterE_eq_self {α : Type} {test : α → Except Fault Bool} : ∀ {as : List α},
    (∀ a ∈ as, test a = .ok true) → filterE test as = .ok as
  | [], _ => rfl
  | a :: as, h => by
    rw [filterE, h a List.mem_cons_self,
      filterE_eq_self fun b hb => h b (List.mem_cons_of_mem _ hb)]
    rfl

/-- What a traversal finds is another node than the one it starts from. -/
theorem accepts_endsDiffer_traverse {sub : Executor → PlanNode → Tuple → Except Fault (List Tuple)}
    {ex : Executor} (hwf : store.Wf) {t : Tuple} {n m : Node} {types : List String}
    {direction : Direction} {minDepth maxDepth : ℕ} (hv : boundNode t v = some n.id)
    (hw : boundNode t w = some m.id) (hn : store.getNode n.id = some n)
    (hm : m ∈ traverseVariableLength store n.id types direction minDepth maxDepth) :
    accepts (fun e t => evalExprWith sub ex t none e) (endsDiffer v w) t = .ok true := by
  have hstore := hwf.mem_scanAll.mp (mem_traverseLoop (by simp) m hm)
  have hdiff := ((mem_traverseVariableLength store n.id types direction minDepth maxDepth).2
    m.id).mp (List.mem_map_of_mem hm)
  exact accepts_endsDiffer hwf hv hw hn hstore hdiff.1

theorem readNode_pathPlan {sub : Executor → PlanNode → Tuple → Except Fault (List Tuple)}
    {ex : Executor} (hwf : store.Wf) (htypes : ∀ t ∈ types, TypeName t) (hv : Plain v)
    (hw : Plain w) (hne : v ≠ w) :
    readNode (fun e t => evalExprWith sub ex t none e) (some store) ∅
      (pathPlan v w types direction depth) = .ok (pathRows store v w types direction depth) := by
  have hexpand : readNode (fun e t => evalExprWith sub ex t none e) (some store) ∅
      (.expand (.fullScan v) v none w (typesText types) direction (some depth)) =
        .ok (pathRows store v w types direction depth) := by
    show Except.ok ((store.scanAll.map fun n => bindNode ∅ v n.id n.properties).flatMap
      (expandTuple store (pathSpec v w types direction depth))) = _
    rw [List.flatMap_map]
    simp only [expandTuple_path htypes hw hv hne]
    rfl
  unfold pathPlan
  dsimp only
  split
  · rw [readNode, hexpand]
    apply filterE_eq_self
    intro row hrow
    obtain ⟨n, hn, hrow⟩ := List.mem_flatMap.mp hrow
    obtain ⟨m, hm, rfl⟩ := List.mem_map.mp hrow
    obtain ⟨hbv, hbw⟩ := boundNode_pathRow hv hw hne n m
    exact accepts_endsDiffer_traverse hwf hbv hbw (hwf.mem_scanAll.mp hn) hm
  · exact hexpand

/-- One node of a list without repetition contributes to a sum over it. -/
theorem flatMap_ite_of_nodup {β : Type} {a : NodeId} {f : Node → List β} :
    ∀ {ns : List Node} {n : Node}, (ns.map Node.id).Nodup → n ∈ ns → n.id = a →
      (ns.flatMap fun m => if m.id = a then f m else []) = f n
  | m :: ns, n, hnd, hmem, hid => by
    rw [List.map_cons, List.nodup_cons] at hnd
    rw [List.flatMap_cons]
    rcases List.mem_cons.mp hmem with rfl | hmem
    · have hrest : (ns.flatMap fun m => if m.id = a then f m else []) = [] := by
        rw [List.flatMap_eq_nil_iff]
        intro m hm
        rw [if_neg]
        intro hma
        exact hnd.1 (List.mem_map.mpr ⟨m, hm, hma.trans hid.symm⟩)
      rw [if_pos hid, hrest, List.append_nil]
    · have hma : m.id ≠ a := by
        intro hma
        exact hnd.1 (List.mem_map.mpr ⟨n, hmem, hid.trans hma.symm⟩)
      rw [if_neg hma, List.nil_append, flatMap_ite_of_nodup hnd.2 hmem hid]

/-- **The end nodes of the rows are the nodes the search finds.** -/
theorem matchEnds_eq (hwf : store.Wf) {a : NodeId} (ha : (store.getNode a).isSome)
    (htypes : ∀ t ∈ types, TypeName t) (hv : Plain v)
    (hw : Plain w) (hne : v ≠ w) :
    matchEnds store v w (pathPatterns v w types direction depth) a =
      .ok ((traverseVariableLength store a types direction depth.min depth.max).map Node.id) := by
  have hmatch : (pathPlan v w types direction depth).isMatch := by
    unfold pathPlan
    dsimp only
    split <;> rfl
  have hrows : (runExec (executeNode (.new store) ∅ (pathPlan v w types direction depth)) none).1 =
      .ok (pathRows store v w types direction depth) := by
    rw [executeNode_eq_readNode hmatch]
    exact readNode_pathPlan hwf htypes hv hw hne
  obtain ⟨n, hn⟩ := Option.isSome_iff_exists.mp ha
  have hid : n.id = a := hwf.node_id hn
  have hmem : n ∈ store.scanAll := hwf.mem_scanAll.mpr (by rw [hid]; exact hn)
  have hnodup : (store.scanAll.map Node.id).Nodup :=
    AList.nodup_values_key fun _ _ h => hwf.node_id h
  -- of the rows of a node, all are kept or none is
  have hrow (m : Node) : (((traverseVariableLength store m.id types direction depth.min
      depth.max).map (pathRow v w m)).filter fun row => boundNode row v = some a).filterMap
        (boundNode · w) = if m.id = a then
          (traverseVariableLength store m.id types direction depth.min depth.max).map Node.id
        else [] := by
    rw [List.filter_map, List.filterMap_map]
    have hrows := boundNode_pathRow hv hw hne m
    by_cases hma : m.id = a
    · rw [if_pos hma, List.filter_eq_self.mpr, ← List.filterMap_eq_map]
      · apply List.filterMap_congr
        intro m' _
        exact (hrows m').2
      · intro m' _
        simp [(hrows m').1, hma]
    · rw [if_neg hma, List.filter_eq_nil_iff.mpr]
      · rfl
      · intro m' _
        simp [(hrows m').1, hma]
  unfold matchEnds
  rw [planMatch_pathPatterns hne]
  simp only [bind, Except.bind, hrows, pure, Except.pure]
  rw [pathRows, List.filter_flatMap, List.filterMap_flatMap]
  simp only [hrow]
  rw [flatMap_ite_of_nodup hnodup hmem hid, hid]

/-! ### Walks -/

/-- What is documented: the end nodes are those of the walks of `minDepth` to `maxDepth` hops,
except that the start is one of them if and only if a path may have no hop; each once. -/
def EndsAreWalks (hop : NodeId → NodeId → Prop) (a : NodeId) (minDepth maxDepth : ℕ)
    (ends : List NodeId) : Prop :=
  ends.Nodup ∧ ∀ b, b ∈ ends ↔
    if b = a then minDepth = 0 else ∃ k, minDepth ≤ k ∧ k ≤ maxDepth ∧ Walk hop k a b

/-- No other node that a walk in range leads to is reached in fewer hops. -/
def NoShortcut (hop : NodeId → NodeId → Prop) (a : NodeId) (minDepth maxDepth : ℕ) : Prop :=
  ∀ b, b ≠ a → ∀ k, minDepth ≤ k → k ≤ maxDepth → Walk hop k a b →
    ∀ j < minDepth, ¬ Walk hop j a b

/-- The nodes at a distance in range are those of the walks in range, unless there is a
shortcut. -/
theorem endsAreWalks_iff {hop : NodeId → NodeId → Prop} {a : NodeId} {minDepth maxDepth : ℕ}
    {ends : List NodeId} (hnd : ends.Nodup) (hmem : ∀ b, b ∈ ends ↔
      b ≠ a ∧ ∃ k, minDepth ≤ k ∧ k ≤ maxDepth ∧ Shortest hop k a b) :
    EndsAreWalks hop a minDepth maxDepth ends ↔
      1 ≤ minDepth ∧ NoShortcut hop a minDepth maxDepth := by
  constructor
  · rintro ⟨-, hwalks⟩
    constructor
    · by_contra hzero
      have hstart : a ∈ ends := (hwalks a).mpr (by rw [if_pos rfl]; omega)
      exact ((hmem a).mp hstart).1 rfl
    · intro b hb k hmin hmax hwalk j hj hshort
      have hend : b ∈ ends := (hwalks b).mpr (by rw [if_neg hb]; exact ⟨k, hmin, hmax, hwalk⟩)
      obtain ⟨-, i, hi, -, hdist⟩ := (hmem b).mp hend
      exact hdist.2 j (by omega) hshort
  · rintro ⟨hpos, hno⟩
    refine ⟨hnd, fun b => ?_⟩
    rw [hmem b]
    split
    · next hb =>
      constructor
      · exact fun h => absurd hb h.1
      · intro hzero
        omega
    · next hb =>
      constructor
      · rintro ⟨-, k, hmin, hmax, hdist⟩
        exact ⟨k, hmin, hmax, hdist.1⟩
      · rintro ⟨k, hmin, hmax, hwalk⟩
        -- the shortest walk is in range, too
        obtain ⟨i, hi, hdist⟩ := hwalk.exists_shortest
        have hge : minDepth ≤ i := by
          by_contra hlt
          exact hno b hb k hmin hmax hwalk i (by omega) hdist.1
        exact ⟨hb, i, hge, by omega, hdist⟩

/-- **The end nodes of a path of variable length are those of the walks in range, if and only if
`min` is at least one and there is no shortcut**: no node that such a walk leads to, other than
the start, is reached in fewer than `min` hops. -/
theorem endsAreWalks_matchEnds_iff (hwf : store.Wf) (hends : NoDangling store) {a : NodeId}
    (ha : (store.getNode a).isSome) (types : List String) (htypes : ∀ t ∈ types, TypeName t)
    (direction : Direction) (depth : DepthRange) {v w : String} (hv : Plain v) (hw : Plain w)
    (hne : v ≠ w) :
    ∃ ends, matchEnds store v w (pathPatterns v w types direction depth) a = .ok ends ∧
      (EndsAreWalks (Hop store types direction) a depth.min depth.max ends ↔
        1 ≤ depth.min ∧ NoShortcut (Hop store types direction) a depth.min depth.max) := by
  have hnd := (mem_traverseVariableLength store a types direction depth.min depth.max).1
  have hmem := mem_traverseVariableLength_iff hwf hends a types direction depth.min depth.max
  exact ⟨_, matchEnds_eq hwf ha htypes hv hw hne, endsAreWalks_iff hnd hmem⟩

theorem noDangling_triangle : NoDangling triangle := by
  unfold NoDangling
  decide +kernel

theorem typeName_R : ∀ t ∈ ["R"], TypeName t := by
  intro t ht
  rw [List.mem_singleton.mp ht]
  have hchars : "R".toList = ['R'] := by decide +kernel
  refine ⟨by decide, fun c hc => ?_⟩
  rw [hchars] at hc
  rw [List.mem_singleton.mp hc]
  decide

/-- `MATCH (a)-[:R*1..3]->(b)` from node 1 of the triangle. -/
theorem endsAreWalks_matchEnds_iff_triangle :
    matchEnds triangle "a" "b" (textPatterns .ascii "MATCH (a)-[:R*1..3]->(b)") 1 =
        .ok [2, 3] ∧
      matchEnds triangle "a" "b" (pathPatterns "a" "b" ["R"] .right ⟨1, 3⟩) 1 = .ok [2, 3] ∧
      ∃ ends, matchEnds triangle "a" "b" (pathPatterns "a" "b" ["R"] .right ⟨1, 3⟩) 1 = .ok ends ∧
        (EndsAreWalks (Hop triangle ["R"] .right) 1 1 3 ends ↔
          1 ≤ 1 ∧ NoShortcut (Hop triangle ["R"] .right) 1 1 3) :=
  ⟨by decide +kernel, by decide +kernel, endsAreWalks_matchEnds_iff reachable_triangle.wf
    noDangling_triangle (by decide +kernel) ["R"] typeName_R .right ⟨1, 3⟩
    (by unfold Plain; decide) (by unfold Plain; decide) (by decide)⟩

/-- `MATCH (a)-[:R*4]->(b)` from node 1 of the triangle finds nothing, though a walk of four hops
leads to node 2; `MATCH (a)-[:R*..1]->(b)` leaves out the start. -/
theorem matchEnds_triangle :
    matchEnds triangle "a" "b" (textPatterns .ascii "MATCH (a)-[:R*4]->(b)") 1 = .ok [] ∧
      matchEnds triangle "a" "b" (textPatterns .ascii "MATCH (a)-[:R*..1]->(b)") 1 = .ok [2] ∧
      matchEnds triangle "a" "b" (pathPatterns "a" "b" ["R"] .right ⟨4, 4⟩) 1 = .ok [] ∧
      matchEnds triangle "a" "b" (pathPatterns "a" "b" ["R"] .right ⟨0, 1⟩) 1 = .ok [2] ∧
      ¬ EndsAreWalks (Hop triangle ["R"] .right) 1 4 4 [] ∧
      ¬ EndsAreWalks (Hop triangle ["R"] .right) 1 0 1 [2] := by
  have hop (a b : NodeId) (h : ∃ e ∈ triangle.edges.values,
      e.edgeType = "R" ∧ e.fromNode = a ∧ e.toNode = b) : Hop triangle ["R"] .right a b := by
    obtain ⟨e, he, htype, hleads⟩ := h
    exact ⟨e, he, .inr (by simp [htype]), hleads⟩
  have h12 : Hop triangle ["R"] .right 1 2 := hop 1 2 (by decide +kernel)
  have h23 : Hop triangle ["R"] .right 2 3 := hop 2 3 (by decide +kernel)
  have h31 : Hop triangle ["R"] .right 3 1 := hop 3 1 (by decide +kernel)
  have hwalk : Walk (Hop triangle ["R"] .right) 4 1 2 :=
    (((Walk.nil 1).snoc h12).snoc h23 |>.snoc h31).snoc h12
  refine ⟨by decide +kernel, by decide +kernel, by decide +kernel, by decide +kernel,
    fun h => ?_, fun h => ?_⟩
  · have hmem := (h.2 2).mpr (by rw [if_neg (by decide)]; exact ⟨4, le_rfl, le_rfl, hwalk⟩)
    cases hmem
  · have hmem := (h.2 1).mpr (by rw [if_pos rfl])
    simp at hmem

end KuzuEventBus
