import KuzuEventBus.Engine.Index
import KuzuEventBus.Gql.Ast
import KuzuEventBus.Lib.Text
import Mathlib.Data.List.Dedup

/-!
# Tuples and traversal

Query tuples, and the step of the executor along edges: the single hop and the
breadth-first search of `casys_engine/src/exec/executor.rs`.

## Main definitions

* `Tuple`, `propKey`, `bindNode`, `bindEdge` — tuples; the properties of a bound
  node or edge are copied into the tuple under the keys `var.key`.
* `directedNeighbors`, `traverseVariableLength` — neighbours, and the search.
* `ExpandSpec`, `expandTuple` — the parameters of an Expand operator, and what it
  makes of one input tuple.

## Main results

* `traverseVariableLength_eq` — the search needs no more rounds than there are nodes.
-/

namespace KuzuEventBus

/-- `Tuple`. -/
abbrev Tuple := HashMap String Value

/-- The key under which a tuple holds the property `key` of the variable `var`. -/
def propKey (var key : String) : String := var ++ "." ++ key

/-- The bindings of the properties of `var`. -/
def propBindings (var : String) (properties : Properties) : List (String × Value) :=
  properties.toPairs.map fun kv => (propKey var kv.1, kv.2)

/-- Bind `var` to a node and copy its properties. -/
def bindNode (tuple : Tuple) (var : String) (id : NodeId) (properties : Properties) : Tuple :=
  (tuple.insert var (.nodeId id)).insertAll (propBindings var properties)

/-- The bindings of an edge variable: the edge id, its type, its properties. -/
def edgeBindings (var : String) (edge : Edge) : List (String × Value) :=
  (var, .int (Int64.ofNat edge.id)) :: (var ++ ".edge_type", .string edge.edgeType) ::
    propBindings var edge.properties

/-- Bind an edge variable, if there is one. -/
def bindEdge (tuple : Tuple) (var : Option String) (edge : Edge) : Tuple :=
  match var with
  | some var => tuple.insertAll (edgeBindings var edge)
  | none => tuple

/-- The node a variable is bound to. -/
def boundNode (tuple : Tuple) (var : String) : Option NodeId :=
  match tuple.lookup var with
  | some (.nodeId id) => some id
  | _ => none

theorem boundNode_eq_some {tuple : Tuple} {var : String} {id : NodeId} :
    boundNode tuple var = some id ↔ tuple.lookup var = some (.nodeId id) := by
  unfold boundNode
  split
  · next h => rw [h]; simp
  · next h =>
    constructor
    · intro hc; simp at hc
    · intro hc; exact absurd hc (h id)

/-- A property key is longer than its variable. -/
theorem propKey_ne (var key : String) : propKey var key ≠ var := by
  intro h
  have hlen := congrArg (fun s => s.toList.length) h
  simp only [propKey, String.toList_append, List.length_append] at hlen
  have hdot : ".".toList.length = 1 := rfl
  omega

theorem key_of_mem_propBindings {var : String} {ps : Properties} {kv : String × Value}
    (h : kv ∈ propBindings var ps) : ∃ key, kv.1 = propKey var key := by
  obtain ⟨p, -, rfl⟩ := List.mem_map.mp h
  exact ⟨p.1, rfl⟩

/-- Binding a node leaves the variable itself bound to its id. -/
theorem lookup_bindNode_self (tuple : Tuple) (var : String) (id : NodeId) (ps : Properties) :
    (bindNode tuple var id ps).lookup var = some (.nodeId id) := by
  rw [bindNode, AList.lookup_insertAll_of_notMem, AList.lookup_insert]
  intro kv hkv
  obtain ⟨key, hkey⟩ := key_of_mem_propBindings hkv
  rw [hkey]
  exact propKey_ne var key

/-- The keys of a variable differ for different properties. -/
theorem propKey_injective (var : String) : Function.Injective (propKey var) := by
  intro k k' h
  have hl := congrArg String.toList h
  simp only [propKey, String.toList_append, List.append_assoc, List.append_right_inj] at hl
  exact String.toList_injective hl

/-- Two variables share a property key only where they are equal or one of them is a
property key of the other. -/
theorem propKey_eq_propKey {v w k k' : String} (h : propKey v k = propKey w k') :
    v = w ∨ (∃ key, w = propKey v key) ∨ ∃ key, v = propKey w key := by
  have hl : v.toList ++ ('.' :: k.toList) = w.toList ++ ('.' :: k'.toList) := by
    have := congrArg String.toList h
    simpa [propKey, String.toList_append] using this
  rcases List.append_eq_append_iff.mp hl with ⟨a, hw, ha⟩ | ⟨a, hv, ha⟩
  · cases a with
    | nil => exact .inl (String.toList_injective (by simpa using hw.symm))
    | cons c a =>
      rw [List.cons_append, List.cons.injEq] at ha
      refine .inr (.inl ⟨String.ofList a, String.toList_injective ?_⟩)
      simp [propKey, String.toList_append, hw, ha.1.symm]
  · cases a with
    | nil => exact .inl (String.toList_injective (by simpa using hv))
    | cons c a =>
      rw [List.cons_append, List.cons.injEq] at ha
      refine .inr (.inr ⟨String.ofList a, String.toList_injective ?_⟩)
      simp [propKey, String.toList_append, hv, ha.1.symm]

/-- The property keys of a bound node hold its properties, over what was there before. -/
theorem lookup_bindNode_propKey (tuple : Tuple) (var : String) (id : NodeId) (ps : Properties)
    (key : String) : (bindNode tuple var id ps).lookup (propKey var key) =
      (ps.lookup key).or (tuple.lookup (propKey var key)) := by
  unfold bindNode propBindings
  cases h : ps.lookup key with
  | none =>
    rw [AList.lookup_insertAll_of_notMem, AList.lookup_insert_ne (propKey_ne var key)]
    · rfl
    · intro kv hkv heq
      obtain ⟨⟨k, x⟩, hmem, rfl⟩ := List.mem_map.mp hkv
      have hk : k = key := propKey_injective var heq
      rw [hk, AList.mem_toPairs, h] at hmem
      simp at hmem
  | some x =>
    rw [AList.lookup_insertAll_of_mem (x := x)]
    · rfl
    · have hnd := ps.nodup_toPairs_keys.map (propKey_injective var)
      rw [List.map_map] at hnd ⊢
      exact hnd
    · exact List.mem_map.mpr ⟨(key, x), AList.mem_toPairs.mpr h, rfl⟩

/-- Binding a node touches no other key. -/
theorem lookup_bindNode_of_ne {tuple : Tuple} {var : String} {id : NodeId} {ps : Properties}
    {key : String} (hvar : key ≠ var) (hprop : ∀ k, key ≠ propKey var k) :
    (bindNode tuple var id ps).lookup key = tuple.lookup key := by
  rw [bindNode, AList.lookup_insertAll_of_notMem, AList.lookup_insert_ne hvar]
  intro kv hkv heq
  obtain ⟨k, hk⟩ := key_of_mem_propBindings hkv
  exact hprop k (heq ▸ hk)

theorem key_of_mem_edgeBindings {var : String} {edge : Edge} {kv : String × Value}
    (h : kv ∈ edgeBindings var edge) : kv.1 = var ∨ ∃ key, kv.1 = propKey var key := by
  rcases List.mem_cons.mp h with rfl | h
  · exact .inl rfl
  · rcases List.mem_cons.mp h with rfl | h
    · exact .inr ⟨"edge_type", by simp [propKey, String.append_assoc]⟩
    · exact .inr (key_of_mem_propBindings h)

/-- Binding an edge touches no key but those of its variable. -/
theorem lookup_insertAll_edgeBindings_of_ne {tuple : Tuple} {var : String} {edge : Edge}
    {key : String} (hvar : key ≠ var) (hprop : ∀ k, key ≠ propKey var k) :
    (tuple.insertAll (edgeBindings var edge)).lookup key = tuple.lookup key := by
  apply AList.lookup_insertAll_of_notMem
  intro kv hkv heq
  rcases key_of_mem_edgeBindings hkv with h | ⟨k, h⟩
  · exact hvar (heq ▸ h)
  · exact hprop k (heq ▸ h)

/-- Binding an edge binds its variable to its id. -/
theorem lookup_insertAll_edgeBindings_self (tuple : Tuple) (var : String) (edge : Edge) :
    (tuple.insertAll (edgeBindings var edge)).lookup var =
      some (.int (Int64.ofNat edge.id)) := by
  rw [edgeBindings, AList.insertAll_cons, AList.lookup_insertAll_of_notMem, AList.lookup_insert]
  intro kv hkv heq
  have hkey : ∃ key, kv.1 = propKey var key := by
    rcases List.mem_cons.mp hkv with rfl | h
    · exact ⟨"edge_type", by simp [propKey, String.append_assoc]⟩
    · exact key_of_mem_propBindings h
  obtain ⟨key, hkey⟩ := hkey
  exact propKey_ne var key (hkey ▸ heq)

/-! ### Neighbours -/

/-- The edge types of a union `A|B`: every part, or only those that are not empty. -/
def unionTypes (keepEmpty : Bool) : Option String → List String
  | some types => (Text.splitTrim '|' types).filter fun t => keepEmpty || !t.isEmpty
  | none => []

/-- Neighbours in a direction; both directions put the outgoing edges first. -/
def directedNeighbors (store : InMemoryGraphStore) (id : NodeId) (edgeType : Option String) :
    Direction → List (Edge × Node)
  | .right => store.getNeighbors id edgeType
  | .left => store.getNeighborsIncoming id edgeType
  | .both => store.getNeighbors id edgeType ++ store.getNeighborsIncoming id edgeType

/-- Neighbours over edges of one of the types; no types at all allow every edge. -/
def allowedNeighbors (store : InMemoryGraphStore) (id : NodeId) (direction : Direction)
    (edgeTypes : List String) : List (Edge × Node) :=
  (directedNeighbors store id none direction).filter fun en =>
    edgeTypes.isEmpty || en.1.edgeType ∈ edgeTypes

/-! ### Variable-length paths -/

/-- The state of the search: the queue, the ids visited, the nodes found. -/
structure TraverseState where
  queue : List (NodeId × ℕ)
  visited : List NodeId
  result : List Node

/-- One neighbour of a node at depth `depth`. -/
def traverseNeighbor (startId : NodeId) (minDepth maxDepth depth : ℕ) (st : TraverseState)
    (toNode : Node) : TraverseState :=
  if toNode.id ∈ st.visited then st
  else
    let nextDepth := depth + 1
    { queue := if nextDepth < maxDepth then st.queue ++ [(toNode.id, nextDepth)] else st.queue
      visited := toNode.id :: st.visited
      result :=
        if nextDepth ≥ minDepth ∧ nextDepth ≤ maxDepth ∧ toNode.id ≠ startId then
          st.result ++ [toNode]
        else st.result }

/-- The loop of `traverse_variable_length`, `fuel` bounding the nodes it takes from
the queue. -/
def traverseLoop (store : InMemoryGraphStore) (startId : NodeId) (edgeTypes : List String)
    (direction : Direction) (minDepth maxDepth : ℕ) : ℕ → TraverseState → List Node
  | 0, st => st.result
  | fuel + 1, st =>
    match st.queue with
    | [] => st.result
    | (id, depth) :: queue =>
      let st := { st with queue := queue }
      if depth ≥ maxDepth then
        traverseLoop store startId edgeTypes direction minDepth maxDepth fuel st
      else
        let neighbors := (allowedNeighbors store id direction edgeTypes).map Prod.snd
        traverseLoop store startId edgeTypes direction minDepth maxDepth fuel
          (neighbors.foldl (traverseNeighbor startId minDepth maxDepth depth) st)

/-- `traverse_variable_length`: each node of the store enters the queue at most once. -/
def traverseVariableLength (store : InMemoryGraphStore) (startId : NodeId)
    (edgeTypes : List String) (direction : Direction) (minDepth maxDepth : ℕ) : List Node :=
  traverseLoop store startId edgeTypes direction minDepth maxDepth (store.nodes.entries.length + 1)
    ⟨[(startId, 0)], [startId], []⟩

/-! The rounds of the search are bounded by the nodes of the store: each round takes an
entry off the queue, and an entry is added only together with a node visited for
the first time. -/

/-- How many ids of nodes of the store are not visited yet. -/
def unvisited (store : InMemoryGraphStore) (visited : List NodeId) : ℕ :=
  ((store.scanAll.map Node.id).dedup.filter (· ∉ visited)).length

/-- The rounds a state of the search can still need. -/
def roundsLeft (store : InMemoryGraphStore) (st : TraverseState) : ℕ :=
  st.queue.length + unvisited store st.visited

/-- Neighbours are nodes of the store. -/
theorem mem_scanAll_of_mem_allowedNeighbors {store : InMemoryGraphStore} {id : NodeId}
    {direction : Direction} {types : List String} {en : Edge × Node}
    (h : en ∈ allowedNeighbors store id direction types) : en.2 ∈ store.scanAll := by
  have hvia : ∀ {ids : List EdgeId} {other : Edge → NodeId},
      en ∈ store.neighborsVia ids other none → en.2 ∈ store.scanAll := by
    intro ids other hmem
    obtain ⟨e, n⟩ := en
    obtain ⟨_, _, _, _, hn⟩ := InMemoryGraphStore.mem_neighborsVia.mp hmem
    exact AList.mem_values_iff.mpr ⟨_, hn⟩
  have hdir := (List.mem_filter.mp h).1
  cases direction with
  | right => exact hvia hdir
  | left => exact hvia hdir
  | both =>
    rcases List.mem_append.mp hdir with hout | hin
    · exact hvia hout
    · exact hvia hin

/-- The edges to neighbours are edges of the store. -/
theorem mem_edges_of_mem_allowedNeighbors {store : InMemoryGraphStore} {id : NodeId}
    {direction : Direction} {types : List String} {en : Edge × Node}
    (h : en ∈ allowedNeighbors store id direction types) : en.1 ∈ store.edges.values := by
  have hvia : ∀ {ids : List EdgeId} {other : Edge → NodeId},
      en ∈ store.neighborsVia ids other none → en.1 ∈ store.edges.values := by
    intro ids other hmem
    obtain ⟨e, n⟩ := en
    obtain ⟨_, _, he, _, _⟩ := InMemoryGraphStore.mem_neighborsVia.mp hmem
    exact AList.mem_values_iff.mpr ⟨_, he⟩
  have hdir := (List.mem_filter.mp h).1
  cases direction with
  | right => exact hvia hdir
  | left => exact hvia hdir
  | both =>
    rcases List.mem_append.mp hdir with hout | hin
    · exact hvia hout
    · exact hvia hin

theorem unvisited_cons_lt {store : InMemoryGraphStore} {visited : List NodeId} {n : Node}
    (hn : n ∈ store.scanAll) (hv : n.id ∉ visited) :
    unvisited store (n.id :: visited) < unvisited store visited := by
  have hmem : n.id ∈ (store.scanAll.map Node.id).dedup.filter (· ∉ visited) :=
    List.mem_filter.mpr ⟨List.mem_dedup.mpr (List.mem_map_of_mem hn), by simpa using hv⟩
  have hsplit : (store.scanAll.map Node.id).dedup.filter (· ∉ n.id :: visited) =
      ((store.scanAll.map Node.id).dedup.filter (· ∉ visited)).filter (· ≠ n.id) := by
    rw [List.filter_filter]
    apply List.filter_congr
    intro id _
    simp [List.mem_cons]
  unfold unvisited
  rw [hsplit]
  refine List.length_filter_lt_length_iff_exists.mpr ⟨n.id, hmem, by simp⟩

theorem roundsLeft_traverseNeighbor {store : InMemoryGraphStore} {startId : NodeId}
    {minDepth maxDepth depth : ℕ} {st : TraverseState} {n : Node} (hn : n ∈ store.scanAll) :
    roundsLeft store (traverseNeighbor startId minDepth maxDepth depth st n) ≤
      roundsLeft store st := by
  unfold traverseNeighbor
  split
  · exact le_rfl
  · next hv =>
    have hlt := unvisited_cons_lt hn hv
    change (if depth + 1 < maxDepth then st.queue ++ [(n.id, depth + 1)] else st.queue).length +
      unvisited store (n.id :: st.visited) ≤ st.queue.length + unvisited store st.visited
    split
    · rw [List.length_append, List.length_singleton]; omega
    · omega

theorem roundsLeft_foldl {store : InMemoryGraphStore} {startId : NodeId}
    {minDepth maxDepth depth : ℕ} {ns : List Node} : ∀ {st : TraverseState},
      (∀ n ∈ ns, n ∈ store.scanAll) →
      roundsLeft store (ns.foldl (traverseNeighbor startId minDepth maxDepth depth) st) ≤
        roundsLeft store st := by
  induction ns with
  | nil => intro st _; exact le_rfl
  | cons n ns ih =>
    intro st h
    exact (ih fun n' hn' => h n' (List.mem_cons_of_mem _ hn')).trans
      (roundsLeft_traverseNeighbor (h n List.mem_cons_self))

/-- **More rounds than `roundsLeft` change nothing.** -/
theorem traverseLoop_fuel {store : InMemoryGraphStore} {startId : NodeId}
    {edgeTypes : List String} {direction : Direction} {minDepth maxDepth fuel : ℕ} :
    ∀ {st : TraverseState}, roundsLeft store st ≤ fuel →
      traverseLoop store startId edgeTypes direction minDepth maxDepth (fuel + 1) st =
        traverseLoop store startId edgeTypes direction minDepth maxDepth fuel st := by
  induction fuel with
  | zero =>
    intro st h
    have hqueue : st.queue = [] := by
      rw [← List.length_eq_zero_iff]
      unfold roundsLeft at h
      omega
    rw [traverseLoop, traverseLoop, hqueue]
  | succ fuel ih =>
    intro st h
    rw [traverseLoop, traverseLoop]
    cases hq : st.queue with
    | nil => rfl
    | cons entry queue =>
      obtain ⟨id, depth⟩ := entry
      have hpop : roundsLeft store { st with queue := queue } ≤ fuel := by
        unfold roundsLeft at h ⊢
        rw [hq, List.length_cons] at h
        simp only
        omega
      simp only
      split
      · exact ih hpop
      · apply ih
        refine (roundsLeft_foldl ?_).trans hpop
        intro n hn
        obtain ⟨en, hen, rfl⟩ := List.mem_map.mp hn
        exact mem_scanAll_of_mem_allowedNeighbors hen

/-- A search needs no more rounds than there are nodes, and one. -/
theorem roundsLeft_start (store : InMemoryGraphStore) (startId : NodeId) :
    roundsLeft store ⟨[(startId, 0)], [startId], []⟩ ≤ store.nodes.entries.length + 1 := by
  have hfilter := List.length_filter_le (· ∉ [startId]) (store.scanAll.map Node.id).dedup
  have hdedup := (List.dedup_sublist (store.scanAll.map Node.id)).length_le
  have hlen : (store.scanAll.map Node.id).length = store.nodes.entries.length := by
    simp [InMemoryGraphStore.scanAll, AList.values]
  unfold roundsLeft unvisited
  simp only [List.length_singleton]
  omega

/-- **The search runs to the end**: it returns what it returns with any larger number
of rounds. -/
theorem traverseVariableLength_eq (store : InMemoryGraphStore) (startId : NodeId)
    (edgeTypes : List String) (direction : Direction) (minDepth maxDepth k : ℕ) :
    traverseLoop store startId edgeTypes direction minDepth maxDepth
        (store.nodes.entries.length + 1 + k) ⟨[(startId, 0)], [startId], []⟩ =
      traverseVariableLength store startId edgeTypes direction minDepth maxDepth := by
  induction k with
  | zero => rfl
  | succ k ih =>
    rw [← ih]
    exact traverseLoop_fuel ((roundsLeft_start store startId).trans (Nat.le_add_right _ k))

/-! ### Expand -/

/-- The parameters of an Expand operator. -/
structure ExpandSpec where
  fromVar : String
  edgeVar : Option String
  toVar : String
  edgeType : Option String
  direction : Direction
  depth : Option DepthRange

/-- Nodes in order, without the origin and without a second occurrence of an id;
`emitted` holds the ids emitted so far. -/
def distinctTargets (fromId : NodeId) : List NodeId → List Node → List Node
  | _, [] => []
  | emitted, n :: ns =>
    if n.id = fromId ∨ n.id ∈ emitted then distinctTargets fromId emitted ns
    else n :: distinctTargets fromId (n.id :: emitted) ns

/-- The neighbour occurrences an Expand draws from at a node, each with the edge when
it is a single hop. -/
def expandTargets (store : InMemoryGraphStore) (spec : ExpandSpec) (fromId : NodeId) :
    List (Option Edge × Node) :=
  match spec.depth with
  | some depth =>
    (distinctTargets fromId [] (traverseVariableLength store fromId (unionTypes false spec.edgeType)
      spec.direction depth.min depth.max)).map fun n => (none, n)
  | none =>
    (allowedNeighbors store fromId spec.direction (unionTypes true spec.edgeType)).map
      fun en => (some en.1, en.2)

/-- The nodes found so far are nodes of the store. -/
theorem mem_result_traverseNeighbor {store : InMemoryGraphStore} {startId : NodeId}
    {minDepth maxDepth depth : ℕ} {st : TraverseState} {n : Node} (hn : n ∈ store.scanAll)
    (h : ∀ m ∈ st.result, m ∈ store.scanAll) :
    ∀ m ∈ (traverseNeighbor startId minDepth maxDepth depth st n).result, m ∈ store.scanAll := by
  unfold traverseNeighbor
  split
  · exact h
  · intro m hm
    simp only at hm
    split at hm
    · rcases List.mem_append.mp hm with hm | hm
      · exact h m hm
      · rw [List.mem_singleton.mp hm]; exact hn
    · exact h m hm

theorem mem_traverseLoop {store : InMemoryGraphStore} {startId : NodeId}
    {edgeTypes : List String} {direction : Direction} {minDepth maxDepth fuel : ℕ} :
    ∀ {st : TraverseState}, (∀ m ∈ st.result, m ∈ store.scanAll) →
      ∀ m ∈ traverseLoop store startId edgeTypes direction minDepth maxDepth fuel st,
        m ∈ store.scanAll := by
  have hfold : ∀ {depth : ℕ} {ns : List Node} {st : TraverseState},
      (∀ n ∈ ns, n ∈ store.scanAll) → (∀ m ∈ st.result, m ∈ store.scanAll) →
      ∀ m ∈ (ns.foldl (traverseNeighbor startId minDepth maxDepth depth) st).result,
        m ∈ store.scanAll := by
    intro depth ns
    induction ns with
    | nil => intro st _ h; exact h
    | cons n ns ih =>
      intro st hns h
      exact ih (fun n' hn' => hns n' (List.mem_cons_of_mem _ hn'))
        (mem_result_traverseNeighbor (hns n List.mem_cons_self) h)
  induction fuel with
  | zero => intro st h; exact h
  | succ fuel ih =>
    intro st h
    rw [traverseLoop]
    split
    · exact h
    · split
      · exact ih h
      · apply ih
        refine hfold (fun n hn => ?_) (by exact h)
        obtain ⟨en, hen, rfl⟩ := List.mem_map.mp hn
        exact mem_scanAll_of_mem_allowedNeighbors hen

theorem mem_of_mem_distinctTargets {fromId : NodeId} {ns : List Node} {n : Node} :
    ∀ {emitted : List NodeId}, n ∈ distinctTargets fromId emitted ns → n ∈ ns := by
  induction ns with
  | nil => intro emitted h; simp [distinctTargets] at h
  | cons n' ns ih =>
    intro emitted h
    rw [distinctTargets] at h
    split at h
    · exact List.mem_cons_of_mem _ (ih h)
    · rcases List.mem_cons.mp h with rfl | h
      · exact List.mem_cons_self
      · exact List.mem_cons_of_mem _ (ih h)

/-- Expand draws from nodes of the store. -/
theorem mem_scanAll_of_mem_expandTargets {store : InMemoryGraphStore} {spec : ExpandSpec}
    {fromId : NodeId} {target : Option Edge × Node} (h : target ∈ expandTargets store spec fromId) :
    target.2 ∈ store.scanAll := by
  unfold expandTargets at h
  split at h
  · obtain ⟨n, hn, rfl⟩ := List.mem_map.mp h
    exact mem_traverseLoop (by simp) n (mem_of_mem_distinctTargets hn)
  · obtain ⟨en, hen, rfl⟩ := List.mem_map.mp h
    exact mem_scanAll_of_mem_allowedNeighbors hen

/-- Expand hops along edges of the store. -/
theorem mem_edges_of_mem_expandTargets {store : InMemoryGraphStore} {spec : ExpandSpec}
    {fromId : NodeId} {target : Option Edge × Node} {e : Edge}
    (h : target ∈ expandTargets store spec fromId) (he : target.1 = some e) :
    e ∈ store.edges.values := by
  unfold expandTargets at h
  split at h
  · obtain ⟨n, hn, rfl⟩ := List.mem_map.mp h
    cases he
  · obtain ⟨en, hen, rfl⟩ := List.mem_map.mp h
    cases he
    exact mem_edges_of_mem_allowedNeighbors hen

/-- Extend a tuple by one neighbour occurrence. -/
def extendTuple (spec : ExpandSpec) (tuple : Tuple) (target : Option Edge × Node) : Tuple :=
  let tuple := bindNode tuple spec.toVar target.2.id target.2.properties
  match target.1 with
  | some edge => bindEdge tuple spec.edgeVar edge
  | none => tuple

/-- Expand one tuple: a neighbour `to_var` is bound to already is passed over. -/
def expandTuple (store : InMemoryGraphStore) (spec : ExpandSpec) (tuple : Tuple) : List Tuple :=
  match boundNode tuple spec.fromVar with
  | none => []
  | some fromId =>
    ((expandTargets store spec fromId).filter fun target =>
      boundNode tuple spec.toVar != some target.2.id).map (extendTuple spec tuple)

end KuzuEventBus
