import KuzuEventBus.Tui.AppState

/-!
# Branches and items

The main branch is never lost, and the branch that is checked out and the one the cursor is on are
always there.  The nodes and edges of the working graph are numbered like the commits; an item is
pending exactly while it is on another branch than main, so that a merge publishes all there are,
also those of branches that are not merged and of branches deleted before.

## Main definitions

* `AppState.Placed` — the branches that are there.
* `AppState.Items` — the nodes and edges.

## Main results

* `working_run` — **after every run of actions both hold, and a merge publishes every item**.
-/

namespace KuzuEventBus.Tui

namespace AppState

variable {s : AppState}

/-! ### Branches -/

/-- The branches that are there. -/
structure Placed (s : AppState) : Prop where
  main : "main" ∈ s.branches
  current : s.current ∈ s.branches
  cursorBranch : s.cursorBranch ∈ s.branches

theorem placed_new : new.Placed := by
  constructor <;> exact AList.mem_insert _ |>.mpr (.inl rfl)

theorem placed_setCursorToHead : s.setCursorToHead.Placed ↔ s.Placed := by
  obtain ⟨row, h⟩ := setCursorToHead_eq s
  rw [h]
  constructor <;> intro hs <;> exact ⟨hs.main, hs.current, hs.cursorBranch⟩

/-- Two states with the same work, and the same branch under the cursor. -/
theorem SameWork.placed {t : AppState} (h : s.SameWork t)
    (hcursor : t.cursorBranch = s.cursorBranch) (hs : s.Placed) : t.Placed := by
  constructor
  · rw [h.branches]
    exact hs.main
  · rw [h.branches, h.current]
    exact hs.current
  · rw [h.branches, hcursor]
    exact hs.cursorBranch

/-- Inserting a branch keeps those that are there. -/
theorem Placed.insert (h : s.Placed) (name : String) (list : List String) :
    "main" ∈ s.branches.insert name list ∧ s.current ∈ s.branches.insert name list ∧
      s.cursorBranch ∈ s.branches.insert name list := by
  simp only [AList.mem_insert]
  exact ⟨.inr h.main, .inr h.current, .inr h.cursorBranch⟩

theorem mem_branches_of_lookup {name : String} {list : List String}
    (h : s.branches.lookup name = some list) : name ∈ s.branches :=
  AList.lookup_isSome.mp (by rw [h]; rfl)

/-- The cursor moves to a branch that is there. -/
theorem Placed.moveCursor (h : s.Placed) (move : ℕ → ℕ) : (s.moveCursor move).Placed := by
  unfold AppState.moveCursor
  split
  · next i _ =>
    rw [placed_setCursorToHead]
    refine ⟨h.main, h.current, ?_⟩
    cases hget : s.sortedBranchNames[move i]? with
    | none => exact h.cursorBranch
    | some name =>
      have hmem := Text.mem_sortNames.mp (List.mem_of_getElem? hget)
      exact AList.mem_keys.mpr hmem
  · exact h

theorem Placed.merge (h : s.Placed) : s.merge.Placed := by
  unfold AppState.merge
  split
  · exact h
  · cases hmain : s.branches.lookup "main" with
    | none => exact absurd h.main (by rw [← AList.lookup_eq_none, hmain])
    | some list =>
      obtain ⟨hm, -, hcursor⟩ := h.insert "main" (list ++ [s.nextCommitId "m"])
      exact ⟨hm, hm, hcursor⟩

theorem Placed.step (h : s.Placed) (a : Action) : (s.step a).Placed := by
  cases a with
  | insert => exact ⟨h.main, h.current, h.cursorBranch⟩
  | reset => exact placed_new
  | setCursorToHead => exact placed_setCursorToHead.mpr h
  | moveCursorLeft => exact h.moveCursor _
  | moveCursorRight => exact h.moveCursor _
  | toggleGraph | moveCursorUp | logPageUp => exact (s.sameWork_step rfl).placed rfl h
  | moveCursorDown =>
    refine (s.sameWork_step rfl).placed ?_ h
    simp only [AppState.step, AppState.moveCursorDown]
    split <;> rfl
  | logUp =>
    refine (s.sameWork_step rfl).placed ?_ h
    simp only [AppState.step, AppState.logUp]
    split <;> rfl
  | logDown =>
    refine (s.sameWork_step rfl).placed ?_ h
    simp only [AppState.step, AppState.logDown]
    split
    · split <;> rfl
    · rfl
  | logPageDown =>
    refine (s.sameWork_step rfl).placed ?_ h
    simp only [AppState.step, AppState.logPageDown]
    split <;> rfl
  | snapshot =>
    obtain ⟨hmain, hcurrent, -⟩ := h.insert s.current
      ((s.branches.lookup s.current).getD [] ++ [s.nextCommitId "c"])
    exact placed_setCursorToHead.mpr ⟨hmain, hcurrent, hcurrent⟩
  | branchFromSelected name =>
    obtain ⟨hmain, -, -⟩ := h.insert (name.getD s.freeName) s.selectedCommitId.toList
    have hnew : name.getD s.freeName ∈
        s.branches.insert (name.getD s.freeName) s.selectedCommitId.toList :=
      (AList.mem_insert s.branches).mpr (.inl rfl)
    exact placed_setCursorToHead.mpr ⟨hmain, hnew, hnew⟩
  | checkoutSelected => exact placed_setCursorToHead.mpr ⟨h.main, h.cursorBranch, h.cursorBranch⟩
  | deleteCurrentBranch =>
    simp only [AppState.step, AppState.deleteCurrentBranch]
    split
    · exact h
    · next hne =>
      have hmain : "main" ∈ s.branches.erase s.current :=
        AList.mem_erase.mpr ⟨fun heq => hne heq.symm, h.main⟩
      exact placed_setCursorToHead.mpr ⟨hmain, hmain, hmain⟩
  | branch name =>
    simp only [AppState.step, AppState.branch]
    split
    · next hlist => exact ⟨h.main, mem_branches_of_lookup hlist, h.cursorBranch⟩
    · obtain ⟨hmain, -, hcursor⟩ := h.insert name [(s.currentHead s.current).getD "c1"]
      exact ⟨hmain, (AList.mem_insert _).mpr (.inl rfl), hcursor⟩
  | merge => exact h.merge
  | recovery =>
    simp only [AppState.step, AppState.recovery]
    split
    · next hlist => exact ⟨h.main, mem_branches_of_lookup hlist, h.cursorBranch⟩
    · obtain ⟨hmain, -, hcursor⟩ := h.insert "recovery" [s.recoveryBase, s.nextCommitId "r"]
      exact ⟨hmain, (AList.mem_insert _).mpr (.inl rfl), hcursor⟩

/-! ### Items -/

/-- The nodes and edges: nodes are numbered, edges join nodes, and what is pending is on another
branch than main. -/
structure Items (nodes : List Node) (edges : List Edge) : Prop where
  numbered : ∀ i n, nodes[i]? = some n → n.id = "N" ++ toString (i + 1)
  first : "N1" ∈ nodes.map Node.id
  ends : ∀ e ∈ edges, e.fromNode ∈ nodes.map Node.id ∧ e.toNode ∈ nodes.map Node.id
  nodesPending : ∀ n ∈ nodes, n.pending = true ↔ n.branch ≠ "main"
  edgesPending : ∀ e ∈ edges, e.pending = true ↔ e.branch ≠ "main"

theorem items_new : Items new.nodes new.edges where
  numbered := by
    intro i n hn
    obtain ⟨hi, rfl⟩ := List.getElem?_eq_some_iff.mp hn
    simp only [new, List.length_cons, List.length_nil] at hi
    rcases i with _ | _ | _ | i
    · rfl
    · rfl
    · rfl
    · omega
  first := by simp [new]
  ends := by simp [new]
  nodesPending := by simp [new]
  edgesPending := by simp [new]

theorem Items.insert (h : Items s.nodes s.edges) : Items s.insert.nodes s.insert.edges where
  numbered := by
    intro i n hn
    rcases Nat.lt_or_ge i s.nodes.length with hi | hi
    · exact h.numbered i n (by rwa [AppState.insert, List.getElem?_append_left hi] at hn)
    · have hlen := (List.getElem?_eq_some_iff.mp hn).1
      simp only [AppState.insert, List.length_append, List.length_singleton] at hlen
      obtain rfl : i = s.nodes.length := by omega
      simp only [AppState.insert, List.getElem?_concat_length] at hn
      cases hn
      rfl
  first := by
    rw [AppState.insert, List.map_append]
    exact List.mem_append_left _ h.first
  ends := by
    simp only [AppState.insert, List.map_append, List.mem_append, List.map_cons, List.map_nil,
      List.mem_singleton]
    rintro e (he | rfl)
    · exact ⟨.inl (h.ends e he).1, .inl (h.ends e he).2⟩
    · exact ⟨.inl h.first, .inr rfl⟩
  nodesPending := by
    simp only [AppState.insert, List.mem_append, List.mem_singleton]
    rintro n (hn | rfl)
    · exact h.nodesPending n hn
    · simp
  edgesPending := by
    simp only [AppState.insert, List.mem_append, List.mem_singleton]
    rintro e (he | rfl)
    · exact h.edgesPending e he
    · simp

/-- What is published is on main, and not pending. -/
theorem publish_node {n : Node} (h : n.pending = true ↔ n.branch ≠ "main") :
    n.publish.id = n.id ∧ n.publish.pending = false ∧ n.publish.branch = "main" := by
  unfold Node.publish
  split
  · exact ⟨rfl, rfl, rfl⟩
  · next hp =>
    refine ⟨rfl, by simpa using hp, ?_⟩
    by_contra hne
    exact hp (h.mpr hne)

theorem publish_edge {e : Edge} (h : e.pending = true ↔ e.branch ≠ "main") :
    e.publish.fromNode = e.fromNode ∧ e.publish.toNode = e.toNode ∧ e.publish.pending = false ∧
      e.publish.branch = "main" := by
  unfold Edge.publish
  split
  · exact ⟨rfl, rfl, rfl, rfl⟩
  · next hp =>
    refine ⟨rfl, rfl, by simpa using hp, ?_⟩
    by_contra hne
    exact hp (h.mpr hne)

theorem Items.map_id_publish (h : Items s.nodes s.edges) :
    (s.nodes.map Node.publish).map Node.id = s.nodes.map Node.id := by
  rw [List.map_map]
  exact List.map_congr_left fun n hn => (publish_node (h.nodesPending n hn)).1

theorem Items.publish (h : Items s.nodes s.edges) :
    Items (s.nodes.map Node.publish) (s.edges.map Edge.publish) where
  numbered := by
    intro i n hn
    rw [List.getElem?_map, Option.map_eq_some_iff] at hn
    obtain ⟨n₀, hn₀, rfl⟩ := hn
    rw [(publish_node (h.nodesPending n₀ (List.mem_of_getElem? hn₀))).1]
    exact h.numbered i n₀ hn₀
  first := by
    rw [h.map_id_publish]
    exact h.first
  ends := by
    rw [h.map_id_publish, List.forall_mem_map]
    intro e he
    obtain ⟨hfrom, hto, -, -⟩ := publish_edge (h.edgesPending e he)
    rw [hfrom, hto]
    exact h.ends e he
  nodesPending := by
    rw [List.forall_mem_map]
    intro n hn
    obtain ⟨-, hpending, hbranch⟩ := publish_node (h.nodesPending n hn)
    simp [hpending, hbranch]
  edgesPending := by
    rw [List.forall_mem_map]
    intro e he
    obtain ⟨-, -, hpending, hbranch⟩ := publish_edge (h.edgesPending e he)
    simp [hpending, hbranch]

theorem Items.step (h : Items s.nodes s.edges) (a : Action) :
    Items (s.step a).nodes (s.step a).edges := by
  have hset : ∀ t : AppState, Items t.nodes t.edges →
      Items t.setCursorToHead.nodes t.setCursorToHead.edges := by
    intro t ht
    rw [t.sameWork_setCursorToHead.nodes, t.sameWork_setCursorToHead.edges]
    exact ht
  cases a with
  | insert => exact h.insert
  | reset => exact items_new
  | snapshot | branchFromSelected _ | checkoutSelected => exact hset _ h
  | deleteCurrentBranch =>
    simp only [AppState.step, AppState.deleteCurrentBranch]
    split
    · exact h
    · exact hset _ h
  | branch _ =>
    simp only [AppState.step, AppState.branch]
    split <;> exact h
  | recovery =>
    simp only [AppState.step, AppState.recovery]
    split <;> exact h
  | merge =>
    simp only [AppState.step, AppState.merge]
    split
    · exact h
    · exact h.publish
  | _ =>
    rw [(s.sameWork_step rfl).nodes, (s.sameWork_step rfl).edges]
    exact h

/-- No two nodes have the same id. -/
theorem Items.nodup (h : Items s.nodes s.edges) : (s.nodes.map Node.id).Nodup := by
  rw [List.nodup_iff_injective_getElem]
  intro i j hij
  have hid : ∀ k : Fin (s.nodes.map Node.id).length,
      (s.nodes.map Node.id)[k] = "N" ++ toString (k.1 + 1) := by
    intro k
    have hk : k.1 < s.nodes.length := by simpa using k.2
    rw [← h.numbered k _ (List.getElem?_eq_getElem hk)]
    simp
  have heq := Text.numbered_injective "N" ((hid i).symm.trans (hij.trans (hid j)))
  exact Fin.ext (by omega)

end AppState

end KuzuEventBus.Tui
