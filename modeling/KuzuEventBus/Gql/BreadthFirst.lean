import KuzuEventBus.Gql.WalkEnds
import Mathlib.Logic.Relation

/-!
# The loop of the breadth-first search

`traverse_variable_length` as the loop it is: a round takes a node from the queue and looks at its
neighbours, and the loop goes on until the queue is empty.  Depths are `u32`s, so the depth of a
neighbour is a checked addition.  The rounds are compared with `traverseVariableLength`, and what
they return with the distances from the start.

## Main definitions

* `nextDepth`, `searchNeighbor`, `searchRound` — a round.
* `Rounds` — any number of rounds.
* `ExactSearch` — what the search is for.

## Main results

* `searchRound_isOk` — no depth leaves `u32`.
* `rounds_traverseLoop` — **the rounds come to an end**.
* `exactSearch_traverseVariableLength`, `rounds_exactSearch` — **the search returns the nodes whose
  distance is in range, the nearest first**.
-/

namespace KuzuEventBus

open Walks

variable {store : InMemoryGraphStore} {types : List String} {direction : Direction}
  {startId : NodeId} {minDepth maxDepth : UInt32}

/-! ### Rounds -/

/-- `depth + 1` of a `u32`. -/
def nextDepth (depth : ℕ) : Except Fault ℕ :=
  if depth + 1 ≤ maxU32 then .ok (depth + 1) else .error (.panic "attempt to add with overflow")

/-- One neighbour of a node at depth `depth`. -/
def searchNeighbor (startId : NodeId) (minDepth maxDepth : UInt32) (depth : ℕ)
    (st : TraverseState) (toNode : Node) : Except Fault TraverseState :=
  if toNode.id ∈ st.visited then .ok st
  else do
    let visited := toNode.id :: st.visited
    let nextDepth ← nextDepth depth
    let result :=
      if nextDepth ≥ minDepth.toNat ∧ nextDepth ≤ maxDepth.toNat ∧ toNode.id ≠ startId then
        st.result ++ [toNode]
      else st.result
    let queue :=
      -- what is found at the bound is not looked further from
      if nextDepth < maxDepth.toNat then st.queue ++ [(toNode.id, nextDepth)] else st.queue
    pure ⟨queue, visited, result⟩

/-- One round; there is none when the queue is empty. -/
def searchRound (store : InMemoryGraphStore) (startId : NodeId) (types : List String)
    (direction : Direction) (minDepth maxDepth : UInt32) (st : TraverseState) :
    Except Fault (Option TraverseState) :=
  match st.queue with
  | [] => .ok none
  | (id, depth) :: queue =>
    let st := { st with queue := queue }
    if depth ≥ maxDepth.toNat then .ok (some st)
    else do
      let neighbors := (allowedNeighbors store id direction types).map Prod.snd
      let st ← neighbors.foldlM (searchNeighbor startId minDepth maxDepth depth) st
      pure (some st)

/-- Any number of rounds. -/
def Rounds (store : InMemoryGraphStore) (startId : NodeId) (types : List String)
    (direction : Direction) (minDepth maxDepth : UInt32) : TraverseState → TraverseState → Prop :=
  Relation.ReflTransGen fun st st' =>
    searchRound store startId types direction minDepth maxDepth st = .ok (some st')

/-- The state the loop starts in. -/
def searchStart (startId : NodeId) : TraverseState := ⟨[(startId, 0)], [startId], []⟩

/-! ### Rounds and the search -/

/-- Below the bound there is a next depth. -/
theorem nextDepth_of_lt {depth : ℕ} (h : depth < maxDepth.toNat) :
    nextDepth depth = .ok (depth + 1) := by
  have hbound := maxDepth.toNat_lt
  unfold nextDepth maxU32
  rw [if_pos (by omega)]

theorem searchNeighbor_eq {depth : ℕ} (h : depth < maxDepth.toNat) (st : TraverseState)
    (n : Node) : searchNeighbor startId minDepth maxDepth depth st n =
      .ok (traverseNeighbor startId minDepth.toNat maxDepth.toNat depth st n) := by
  unfold searchNeighbor traverseNeighbor
  split
  · rfl
  -- the addition comes after the test for the nodes that have been seen
  · rw [nextDepth_of_lt h]
    rfl

theorem foldlM_searchNeighbor {depth : ℕ} (h : depth < maxDepth.toNat) (ns : List Node) :
    ∀ st : TraverseState, ns.foldlM (searchNeighbor startId minDepth maxDepth depth) st =
      .ok (ns.foldl (traverseNeighbor startId minDepth.toNat maxDepth.toNat depth) st) := by
  induction ns with
  | nil => exact fun _ => rfl
  | cons n ns ih =>
    intro st
    rw [List.foldlM_cons, searchNeighbor_eq h]
    exact ih _

/-- What a round does, when there is one. -/
theorem searchRound_cons {st : TraverseState} {id : NodeId} {depth : ℕ}
    {queue : List (NodeId × ℕ)} (hqueue : st.queue = (id, depth) :: queue) :
    searchRound store startId types direction minDepth maxDepth st =
      .ok (some (if depth ≥ maxDepth.toNat then { st with queue := queue }
        else ((allowedNeighbors store id direction types).map Prod.snd).foldl
          (traverseNeighbor startId minDepth.toNat maxDepth.toNat depth)
          { st with queue := queue })) := by
  unfold searchRound
  rw [hqueue]
  simp only
  split
  · rfl
  · next hdepth =>
    rw [foldlM_searchNeighbor (Nat.not_le.mp hdepth)]
    rfl

/-- **No depth leaves `u32`**, in whatever state the round is. -/
theorem searchRound_isOk (store : InMemoryGraphStore) (startId : NodeId) (types : List String)
    (direction : Direction) (minDepth maxDepth : UInt32) (st : TraverseState) :
    (searchRound store startId types direction minDepth maxDepth st).isOk = true := by
  cases hqueue : st.queue with
  | nil =>
    unfold searchRound
    rw [hqueue]
    rfl
  | cons entry queue =>
    rw [searchRound_cons hqueue]
    rfl

/-- **The rounds come to an end**, and have found what the search finds. -/
theorem rounds_traverseLoop {fuel : ℕ} : ∀ {st : TraverseState}, roundsLeft store st ≤ fuel →
    ∃ st', Rounds store startId types direction minDepth maxDepth st st' ∧
      searchRound store startId types direction minDepth maxDepth st' = .ok none ∧
      st'.result =
        traverseLoop store startId types direction minDepth.toNat maxDepth.toNat fuel st := by
  -- a round takes an entry from the queue, and puts in only nodes that have not been seen
  induction fuel with
  | zero =>
    intro st hfuel
    have hqueue : st.queue = [] := by
      rw [← List.length_eq_zero_iff]
      unfold roundsLeft at hfuel
      omega
    exact ⟨st, .refl, by rw [searchRound, hqueue], rfl⟩
  | succ fuel ih =>
    intro st hfuel
    cases hqueue : st.queue with
    | nil => exact ⟨st, .refl, by rw [searchRound, hqueue], by rw [traverseLoop, hqueue]⟩
    | cons entry queue =>
      obtain ⟨id, depth⟩ := entry
      have hpop : roundsLeft store { st with queue := queue } ≤ fuel := by
        unfold roundsLeft at hfuel ⊢
        rw [hqueue, List.length_cons] at hfuel
        show queue.length + unvisited store st.visited ≤ fuel
        omega
      have hround : searchRound store startId types direction minDepth maxDepth st = _ :=
        searchRound_cons hqueue
      rw [traverseLoop, hqueue]
      simp only
      split
      · next hdepth =>
        rw [if_pos hdepth] at hround
        obtain ⟨st', hrounds, hend, hresult⟩ := ih hpop
        exact ⟨st', hrounds.head hround, hend, hresult⟩
      · next hdepth =>
        rw [if_neg hdepth] at hround
        have hscan : ∀ n ∈ (allowedNeighbors store id direction types).map Prod.snd,
            n ∈ store.scanAll := by
          intro n hn
          obtain ⟨en, hen, rfl⟩ := List.mem_map.mp hn
          exact mem_scanAll_of_mem_allowedNeighbors hen
        obtain ⟨st', hrounds, hend, hresult⟩ := ih ((roundsLeft_foldl hscan).trans hpop)
        exact ⟨st', hrounds.head hround, hend, hresult⟩

/-! ### Distances -/

/-- What the search is for: each node of the store whose distance from the start is in range and
not zero, once, and no node before a nearer one. -/
structure ExactSearch (store : InMemoryGraphStore) (hop : NodeId → NodeId → Prop) (startId : NodeId)
    (minDepth maxDepth : ℕ) (found : List Node) : Prop where
  nodup : found.Nodup
  sorted : found.Pairwise fun n m =>
    ∀ j k, Shortest hop j startId n.id → Shortest hop k startId m.id → j ≤ k
  mem_iff : ∀ n, n ∈ found ↔ store.getNode n.id = some n ∧ n.id ≠ startId ∧
    ∃ d, max 1 minDepth ≤ d ∧ d ≤ maxDepth ∧ Shortest hop d startId n.id

/-- The nodes are found in the order of their distances. -/
theorem sorted_traverseVariableLength (store : InMemoryGraphStore) (startId : NodeId)
    (types : List String) (direction : Direction) (minDepth maxDepth : ℕ) :
    (traverseVariableLength store startId types direction minDepth maxDepth).Pairwise fun n m =>
      ∀ j k, Shortest (fun x y => y ∈ nextIds store types direction x) j startId n.id →
        Shortest (fun x y => y ∈ nextIds store types direction x) k startId m.id → j ≤ k := by
  obtain ⟨st, s, d, hm, hq, hl, ho, hloop⟩ := traverseLoop_mirrors
    (roundsLeft_start store startId) (mirrors_start startId minDepth maxDepth)
    (Search.level_start (nextIds store types direction) maxDepth startId)
    (Search.ordered_start startId)
  -- the distance of what has been seen is the depth at which it was seen
  have hdist : ∀ e ∈ s.seen, ∀ k,
      Shortest (fun x y => y ∈ nextIds store types direction x) k startId e.1 → k = e.2 :=
    fun e he k hk => hk.length_unique ((hl.mem_seen_iff hq).mp he).2
  have hids : (st.result.map Node.id).Pairwise fun a b =>
      ∀ j k, Shortest (fun x y => y ∈ nextIds store types direction x) j startId a →
        Shortest (fun x y => y ∈ nextIds store types direction x) k startId b → j ≤ k := by
    rw [hm.result, List.pairwise_reverse, List.pairwise_map]
    refine List.Pairwise.imp_of_mem ?_ (ho.sublist List.filter_sublist)
    intro e e' he he' hle j k hj hk
    rw [hdist e' (List.mem_of_mem_filter he') j hj, hdist e (List.mem_of_mem_filter he) k hk]
    exact hle
  rw [traverseVariableLength, hloop]
  exact List.pairwise_map.mp hids

/-- **The search is exact.** -/
theorem exactSearch_traverseVariableLength (hwf : store.Wf) (hends : NoDangling store)
    (startId : NodeId) (types : List String) (direction : Direction) (minDepth maxDepth : ℕ) :
    ExactSearch store (Hop store types direction) startId minDepth maxDepth
      (traverseVariableLength store startId types direction minDepth maxDepth) where
  nodup := (mem_traverseVariableLength store startId types direction minDepth maxDepth).1.of_map
  sorted := by
    have hhop : (fun x y => y ∈ nextIds store types direction x) = Hop store types direction := by
      funext x y
      exact propext (mem_nextIds_iff hwf hends)
    rw [← hhop]
    exact sorted_traverseVariableLength store startId types direction minDepth maxDepth
  mem_iff := by
    intro n
    have hstore : ∀ m ∈ traverseVariableLength store startId types direction minDepth maxDepth,
        store.getNode m.id = some m :=
      fun m hm => hwf.mem_scanAll.mp (mem_traverseLoop (by simp) m hm)
    have hids := mem_traverseVariableLength_iff hwf hends startId types direction minDepth maxDepth
      n.id
    constructor
    · intro hn
      obtain ⟨hne, d, hmin, hmax, hd⟩ := hids.mp (List.mem_map_of_mem hn)
      exact ⟨hstore n hn, hne, d, Nat.max_le.mpr ⟨hd.pos hne, hmin⟩, hmax, hd⟩
    -- the node that is found has the id, and there is one node with it
    · rintro ⟨hn, hne, d, hmin, hmax, hd⟩
      obtain ⟨m, hm, hid⟩ :=
        List.mem_map.mp (hids.mpr ⟨hne, d, (Nat.max_le.mp hmin).2, hmax, hd⟩)
      have hnode := hstore m hm
      rw [hid, hn] at hnode
      rwa [Option.some.inj hnode]

/-- **The loop ends, with each node in range once and the nearest first**, and no depth it computes
leaves `u32`. -/
theorem rounds_exactSearch (hwf : store.Wf) (hends : NoDangling store) (startId : NodeId)
    (types : List String) (direction : Direction) (minDepth maxDepth : UInt32) :
    (∃ st, Rounds store startId types direction minDepth maxDepth (searchStart startId) st ∧
      searchRound store startId types direction minDepth maxDepth st = .ok none ∧
      ExactSearch store (Hop store types direction) startId minDepth.toNat maxDepth.toNat
        st.result) ∧
      ∀ st, Rounds store startId types direction minDepth maxDepth (searchStart startId) st →
        (searchRound store startId types direction minDepth maxDepth st).isOk = true := by
  obtain ⟨st, hrounds, hend, hresult⟩ :
      ∃ st, Rounds store startId types direction minDepth maxDepth (searchStart startId) st ∧
        searchRound store startId types direction minDepth maxDepth st = .ok none ∧
        st.result = traverseLoop store startId types direction minDepth.toNat maxDepth.toNat _
          (searchStart startId) :=
    rounds_traverseLoop (roundsLeft_start store startId)
  refine ⟨⟨st, hrounds, hend, ?_⟩, fun st _ => searchRound_isOk ..⟩
  rw [hresult]
  exact exactSearch_traverseVariableLength hwf hends startId types direction _ _

/-- `MATCH (a)-[:R*0..4294967295]->(b)` from node 1 of the triangle. -/
theorem rounds_exactSearch_triangle :
    (∃ st, Rounds triangle 1 ["R"] .right 0 4294967295 (searchStart 1) st ∧
      searchRound triangle 1 ["R"] .right 0 4294967295 st = .ok none ∧
      ExactSearch triangle (Hop triangle ["R"] .right) 1 0 4294967295 st.result) ∧
      ∀ st, Rounds triangle 1 ["R"] .right 0 4294967295 (searchStart 1) st →
        (searchRound triangle 1 ["R"] .right 0 4294967295 st).isOk = true :=
  rounds_exactSearch reachable_triangle.wf noDangling_triangle 1 ["R"] .right 0 4294967295

end KuzuEventBus
