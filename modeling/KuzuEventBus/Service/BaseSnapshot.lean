import KuzuEventBus.Lib.Runs
import KuzuEventBus.Service.RestorePitr

/-!
# The base snapshot of a database

A restore starts from a snapshot, so that a mutation in the log can be restored once there is one
from before it.  `RegisterCustomer` creates the default database of a customer and takes no snapshot
of it; `ProvisionTenantResources` takes an initial one when it has a use case for that, ignores when
it fails, and has saved the metadata before.  The `created_at` of a snapshot is read when its
archive has been uploaded.  From the time the metadata is saved the worker logs mutations.

## Main definitions

* `Database`, `SnapshotRun`, `State`, `Action`, `step` — the use cases, step by step.
* `PitrAvailable` — what a restore finds, for the databases whose creation has returned.
* `Based`, `Ordered` — what a step has to meet, by the times of the rows and by the order of the
  steps.

## Main results

* `available_iff` — a restore is available exactly when every mutation has a snapshot from before
  it.
* `always_pitrAvailable_iff` — **it is in a whole run exactly when it is so whenever a mutation is
  logged and whenever a creation returns.**
* `available_iff_of_noSnapshot` — without a snapshot of its own, only an empty log can be restored.
-/

namespace KuzuEventBus.Service.BaseSnapshot

/-! ### The use cases -/

/-- The use case that creates a database, and whether it has a `snapshot_usecase`. -/
inductive Creator where
  | registerCustomer
  | provision (snapshotUsecase : Bool)
  deriving DecidableEq

/-- Where the creation of a database is. -/
inductive Stage where
  /-- The metadata is saved. -/
  | saved
  /-- The initial snapshot is awaited. -/
  | awaiting (run : ℕ)
  /-- The use case has returned. -/
  | returned
  /-- The use case has raised. -/
  | raised
  deriving DecidableEq

/-- A database: its creation, and the times of the mutations in its log. -/
structure Database where
  creator : Creator
  stage : Stage
  logged : List Instant

/-- Where a run of `CreateDatabaseSnapshot` is. -/
inductive SnapshotPhase where
  /-- The archive is made and uploaded. -/
  | archiving
  /-- `created_at` is read from the clock. -/
  | stamped (createdAt : Instant)
  /-- The row is saved, or the run has failed. -/
  | ended
  deriving DecidableEq

/-- A run of `CreateDatabaseSnapshot`. -/
structure SnapshotRun where
  databaseId : String
  phase : SnapshotPhase

/-- A row of `kuzu_db_snapshots`. -/
structure Row where
  databaseId : String
  snapshot : Snapshot
  deriving DecidableEq

/-- The databases, the runs, the rows, and the latest time that was read from the clock. -/
structure State where
  databases : String → Option Database
  runs : ℕ → Option SnapshotRun
  rows : List Row
  clock : Instant

/-- The steps. -/
inductive Action where
  /-- `RegisterCustomer` or `ProvisionTenantResources` saves the metadata of a new database. -/
  | create (id : String) (creator : Creator)
  /-- `ProvisionTenantResources` begins the initial snapshot. -/
  | initial (id : String) (run : ℕ)
  /-- The use case returns. -/
  | ret (id : String)
  /-- The use case raises. -/
  | raise (id : String)
  /-- Another snapshot of a database begins. -/
  | snapshot (id : String) (run : ℕ)
  /-- A snapshot is stamped. -/
  | stamp (run : ℕ) (now : Instant)
  /-- The row of a snapshot is saved. -/
  | register (run : ℕ) (objectKey : String)
  /-- A snapshot fails. -/
  | fail (run : ℕ)
  /-- `CreateBranch` saves a second row, for the branch, with the time of the first. -/
  | branch (id : String) (source : Row)
  /-- The worker logs a mutation. -/
  | log (id : String) (now : Instant)

/-- The creation of a database goes on. -/
def State.setStage (s : State) (id : String) (db : Database) (stage : Stage) : State :=
  { s with databases := Function.update s.databases id (some { db with stage }) }

/-- A run goes on. -/
def State.setRun (s : State) (n : ℕ) (run : SnapshotRun) : State :=
  { s with runs := Function.update s.runs n (some run) }

/-- `SnapshotRepository.save`. -/
def State.save (s : State) (databaseId objectKey : String) (createdAt : Instant) : State :=
  { s with rows := s.rows ++ [⟨databaseId, ⟨s.rows.length, objectKey, createdAt⟩⟩] }

/-- `RegisterCustomer` returns after the metadata is saved, and so does `ProvisionTenantResources`
when it has no use case for snapshots; otherwise it returns when the initial snapshot has ended. -/
def State.mayReturn (s : State) (db : Database) : Bool :=
  match db.creator, db.stage with
  | .registerCustomer, .saved | .provision false, .saved => true
  | .provision true, .awaiting n => ((s.runs n).map SnapshotRun.phase) == some .ended
  | _, _ => false

/-- One step. -/
def step (s : State) : Action → Option State
  | .create id creator =>
    match s.databases id with
    | none =>
      some { s with databases := Function.update s.databases id (some ⟨creator, .saved, []⟩) }
    | some _ => none
  | .initial id n =>
    match s.databases id, s.runs n with
    | some ⟨.provision true, .saved, logged⟩, none =>
      some ((s.setStage id ⟨.provision true, .saved, logged⟩ (.awaiting n)).setRun n
        ⟨id, .archiving⟩)
    | _, _ => none
  | .ret id =>
    (s.databases id).bind fun db =>
      if s.mayReturn db then some (s.setStage id db .returned) else none
  | .raise id =>
    (s.databases id).bind fun db =>
      match db.stage with
      | .saved | .awaiting _ => some (s.setStage id db .raised)
      | .returned | .raised => none
  | .snapshot id n =>
    match s.databases id, s.runs n with
    | some _, none => some (s.setRun n ⟨id, .archiving⟩)
    | _, _ => none
  | .stamp n now =>
    match s.runs n with
    | some ⟨id, .archiving⟩ => some { s.setRun n ⟨id, .stamped now⟩ with clock := max s.clock now }
    | _ => none
  | .register n objectKey =>
    match s.runs n with
    | some ⟨id, .stamped createdAt⟩ => some ((s.save id objectKey createdAt).setRun n ⟨id, .ended⟩)
    | _ => none
  | .fail n => (s.runs n).map fun run => s.setRun n { run with phase := .ended }
  | .branch id source =>
    match s.databases id with
    | some _ =>
      if source ∈ s.rows then some (s.save id source.snapshot.objectKey source.snapshot.createdAt)
      else none
    | none => none
  | .log id now =>
    (s.databases id).map fun db =>
      { s with
        databases := Function.update s.databases id (some { db with logged := db.logged ++ [now] })
        clock := max s.clock now }

/-- Nothing is there. -/
def init : State := ⟨fun _ => none, fun _ => none, [], 0⟩

/-! ### What is asked for -/

/-- An answer of `list_by_database`: the snapshots of the database, the newest first. -/
def Lists (rows : List Row) (id : String) (all : List Snapshot) : Prop :=
  all.Perm ((rows.filter fun row => row.databaseId = id).map Row.snapshot) ∧
    all.Pairwise fun snapshot snapshot' => snapshot'.createdAt ≤ snapshot.createdAt

/-- For every mutation of a database and every target that is not before it, a restore finds a
snapshot, and there is one that is not after any of the mutations. -/
def Available (rows : List Row) (id : String) (logged : List Instant) : Prop :=
  ∀ t ∈ logged, ∀ target, t ≤ target → ∀ all, Lists rows id all →
    (∃ snapshot, findNearestSnapshot all target = some snapshot) ∧
      ∃ base ∈ all, ∀ t' ∈ logged, base.createdAt ≤ t'

/-- **A restore is available for every database whose creation has returned.** -/
def PitrAvailable (s : State) : Prop :=
  ∀ id db, s.databases id = some db → db.stage = .returned → Available s.rows id db.logged

/-- There is a row of the database that is not after the time. -/
def HasBase (rows : List Row) (id : String) (t : Instant) : Prop :=
  ∃ row ∈ rows, row.databaseId = id ∧ row.snapshot.createdAt ≤ t

instance (rows : List Row) (id : String) (t : Instant) : Decidable (HasBase rows id t) :=
  inferInstanceAs (Decidable (∃ row ∈ rows, row.databaseId = id ∧ row.snapshot.createdAt ≤ t))

/-- When a mutation of a database whose creation has returned is logged, there is a row of it from
before; and when a creation returns, there is one from before each mutation in the log. -/
def Based (s : State) (a : Action) (_ : State) : Prop :=
  match a with
  | .log id now => ∀ db, s.databases id = some db → db.stage = .returned → HasBase s.rows id now
  | .ret id => ∀ db, s.databases id = some db → ∀ t ∈ db.logged, HasBase s.rows id t
  | _ => True

/-- The same, where it is only asked that the row was saved before the mutation is logged. -/
def Ordered (s : State) (a : Action) (s' : State) : Prop :=
  match a with
  | .log id _ => ∀ db, s.databases id = some db → db.stage = .returned →
      ∃ row ∈ s.rows, row.databaseId = id
  | a => Based s a s'

/-- The clock has not gone back when a mutation is logged. -/
def Forward (s : State) (a : Action) (_ : State) : Prop :=
  ∀ id now, a = .log id now → s.clock ≤ now

/-! ### When a restore is available -/

section Rows

variable {rows : List Row} {id : String} {logged : List Instant} {all : List Snapshot}

theorem mem_of_lists (h : Lists rows id all) {snapshot : Snapshot} :
    snapshot ∈ all ↔ ⟨id, snapshot⟩ ∈ rows := by
  rw [h.1.mem_iff, List.mem_map]
  constructor
  · rintro ⟨row, hrow, rfl⟩
    obtain ⟨hrow, hid⟩ := List.mem_filter.1 hrow
    rwa [← of_decide_eq_true hid]
  · intro hrow
    exact ⟨_, List.mem_filter.2 ⟨hrow, decide_eq_true rfl⟩, rfl⟩

/-- The repository has an answer. -/
theorem exists_lists (rows : List Row) (id : String) : ∃ all, Lists rows id all :=
  ⟨_, List.perm_insertionSort (fun snapshot snapshot' : Snapshot =>
    snapshot'.createdAt ≤ snapshot.createdAt) _, List.pairwise_insertionSort _ _⟩

/-- A restore finds a snapshot when there is one from before the target. -/
theorem exists_findNearestSnapshot_iff {target : Instant} :
    (∃ snapshot, findNearestSnapshot all target = some snapshot) ↔
      ∃ snapshot ∈ all, snapshot.createdAt ≤ target := by
  unfold findNearestSnapshot
  rw [← Option.ne_none_iff_exists', Ne, List.argmax_eq_none, List.filter_eq_nil_iff]
  simp

/-- **A restore is available exactly when every mutation in the log has a snapshot from before it.**
-/
theorem available_iff : Available rows id logged ↔ ∀ t ∈ logged, HasBase rows id t := by
  constructor
  · intro h t ht
    obtain ⟨all, hall⟩ := exists_lists rows id
    obtain ⟨-, base, hbase, hle⟩ := h t ht t le_rfl all hall
    exact ⟨⟨id, base⟩, (mem_of_lists hall).1 hbase, rfl, hle t ht⟩
  · intro h t ht target htarget all hall
    -- the base is the one of the earliest mutation
    obtain ⟨t₀, ht₀, hmin⟩ : ∃ t₀ ∈ logged, ∀ t ∈ logged, t₀ ≤ t := by
      obtain ⟨t₀, ht₀⟩ := Option.ne_none_iff_exists'.1
        (mt (List.argmin_eq_none (f := fun t : Instant => t)).1 (List.ne_nil_of_mem ht))
      exact ⟨t₀, List.argmin_mem ht₀, fun t ht => List.le_of_mem_argmin ht ht₀⟩
    obtain ⟨row, hrow, rfl, hle⟩ := h t₀ ht₀
    have hbase : row.snapshot ∈ all := (mem_of_lists hall).2 hrow
    refine ⟨exists_findNearestSnapshot_iff.2 ⟨row.snapshot, hbase, ?_⟩, row.snapshot, hbase, ?_⟩
    · exact hle.trans ((hmin t ht).trans htarget)
    · exact fun t' ht' => hle.trans (hmin t' ht')

end Rows

/-! ### Runs -/

section Runs

variable {s s' : State} {a : Action} {id : String} {db : Database}

theorem step_create {creator : Creator} (h : step s (.create id creator) = some s') :
    s' = { s with databases := Function.update s.databases id (some ⟨creator, .saved, []⟩) } := by
  simp only [step] at h
  split at h <;> cases h
  rfl

theorem step_initial {n : ℕ} (h : step s (.initial id n) = some s') :
    ∃ db, s.databases id = some db ∧
      s' = (s.setStage id db (.awaiting n)).setRun n ⟨id, .archiving⟩ := by
  simp only [step] at h
  split at h
  · next hdb _ =>
    cases h
    exact ⟨_, hdb, rfl⟩
  · cases h

theorem step_ret (h : step s (.ret id) = some s') :
    ∃ db, s.databases id = some db ∧ s' = s.setStage id db .returned := by
  obtain ⟨db, hdb, h⟩ := Option.bind_eq_some_iff.1 h
  split at h <;> cases h
  exact ⟨db, hdb, rfl⟩

theorem step_raise (h : step s (.raise id) = some s') :
    ∃ db, s.databases id = some db ∧ s' = s.setStage id db .raised := by
  obtain ⟨db, hdb, h⟩ := Option.bind_eq_some_iff.1 h
  split at h <;> cases h <;> exact ⟨db, hdb, rfl⟩

theorem step_snapshot {n : ℕ} (h : step s (.snapshot id n) = some s') :
    s' = s.setRun n ⟨id, .archiving⟩ := by
  simp only [step] at h
  split at h <;> cases h
  rfl

theorem step_stamp {n : ℕ} {now : Instant} (h : step s (.stamp n now) = some s') :
    ∃ id, s.runs n = some ⟨id, .archiving⟩ ∧
      s' = { s.setRun n ⟨id, .stamped now⟩ with clock := max s.clock now } := by
  simp only [step] at h
  split at h
  · next hrun =>
    cases h
    exact ⟨_, hrun, rfl⟩
  · cases h

theorem step_register {n : ℕ} {objectKey : String} (h : step s (.register n objectKey) = some s') :
    ∃ id createdAt, s.runs n = some ⟨id, .stamped createdAt⟩ ∧
      s' = (s.save id objectKey createdAt).setRun n ⟨id, .ended⟩ := by
  simp only [step] at h
  split at h
  · next hrun =>
    cases h
    exact ⟨_, _, hrun, rfl⟩
  · cases h

theorem step_fail {n : ℕ} (h : step s (.fail n) = some s') :
    ∃ run, s.runs n = some run ∧ s' = s.setRun n { run with phase := .ended } := by
  obtain ⟨run, hrun, rfl⟩ := Option.map_eq_some_iff.1 h
  exact ⟨run, hrun, rfl⟩

theorem step_branch {source : Row} (h : step s (.branch id source) = some s') :
    source ∈ s.rows ∧ s' = s.save id source.snapshot.objectKey source.snapshot.createdAt := by
  simp only [step] at h
  split at h
  · split at h
    · next hsource =>
      cases h
      exact ⟨hsource, rfl⟩
    · cases h
  · cases h

theorem step_log {now : Instant} (h : step s (.log id now) = some s') :
    ∃ db, s.databases id = some db ∧
      s' = { s with
        databases := Function.update s.databases id (some { db with logged := db.logged ++ [now] })
        clock := max s.clock now } := by
  obtain ⟨db, hdb, rfl⟩ := Option.map_eq_some_iff.1 h
  exact ⟨db, hdb, rfl⟩

/-- A row is that of a stamped snapshot, or one that a branch has of another row. -/
theorem mem_rows_of_step (h : step s a = some s') {row : Row} (hrow : row ∈ s'.rows) :
    row ∈ s.rows ∨
      (∃ n objectKey, a = .register n objectKey ∧
        s.runs n = some ⟨row.databaseId, .stamped row.snapshot.createdAt⟩) ∨
      ∃ source ∈ s.rows, a = .branch row.databaseId source ∧
        row.snapshot.createdAt = source.snapshot.createdAt := by
  cases a with
  | create id creator =>
    cases step_create h
    exact Or.inl hrow
  | initial id n =>
    obtain ⟨db, -, rfl⟩ := step_initial h
    exact Or.inl hrow
  | ret id =>
    obtain ⟨db, -, rfl⟩ := step_ret h
    exact Or.inl hrow
  | raise id =>
    obtain ⟨db, -, rfl⟩ := step_raise h
    exact Or.inl hrow
  | snapshot id n =>
    cases step_snapshot h
    exact Or.inl hrow
  | stamp n now =>
    obtain ⟨id, -, rfl⟩ := step_stamp h
    exact Or.inl hrow
  | register n objectKey =>
    obtain ⟨id, createdAt, hrun, rfl⟩ := step_register h
    rcases List.mem_append.1 hrow with hrow | hrow
    · exact Or.inl hrow
    · obtain rfl := List.mem_singleton.1 hrow
      exact Or.inr (Or.inl ⟨n, objectKey, rfl, hrun⟩)
  | fail n =>
    obtain ⟨run, -, rfl⟩ := step_fail h
    exact Or.inl hrow
  | branch id source =>
    obtain ⟨hsource, rfl⟩ := step_branch h
    rcases List.mem_append.1 hrow with hrow | hrow
    · exact Or.inl hrow
    · obtain rfl := List.mem_singleton.1 hrow
      exact Or.inr (Or.inr ⟨source, hsource, rfl, rfl⟩)
  | log id now =>
    obtain ⟨db, -, rfl⟩ := step_log h
    exact Or.inl hrow

/-- No row is lost. -/
theorem rows_subset (h : step s a = some s') : s.rows ⊆ s'.rows := by
  cases a with
  | create id creator => cases step_create h; exact List.Subset.refl _
  | initial id n => obtain ⟨db, -, rfl⟩ := step_initial h; exact List.Subset.refl _
  | ret id => obtain ⟨db, -, rfl⟩ := step_ret h; exact List.Subset.refl _
  | raise id => obtain ⟨db, -, rfl⟩ := step_raise h; exact List.Subset.refl _
  | snapshot id n => cases step_snapshot h; exact List.Subset.refl _
  | stamp n now => obtain ⟨id, -, rfl⟩ := step_stamp h; exact List.Subset.refl _
  | register n objectKey =>
    obtain ⟨id, createdAt, -, rfl⟩ := step_register h
    exact List.subset_append_left _ _
  | fail n => obtain ⟨run, -, rfl⟩ := step_fail h; exact List.Subset.refl _
  | branch id source =>
    obtain ⟨-, rfl⟩ := step_branch h
    exact List.subset_append_left _ _
  | log id now => obtain ⟨db, -, rfl⟩ := step_log h; exact List.Subset.refl _

theorem some_of_update {α β : Type} [DecidableEq α] {f : α → Option β} {x x' : α} {y y' : β}
    (h : Function.update f x (some y) x' = some y') : x' = x ∧ y' = y ∨ f x' = some y' := by
  by_cases hx : x' = x
  · rw [hx, Function.update_self] at h
    exact Or.inl ⟨hx, (Option.some.inj h).symm⟩
  · rw [Function.update_of_ne hx] at h
    exact Or.inr h

/-- A creation that has returned has returned before, or a mutation is logged, or it is the one that
returns. -/
theorem of_returned (h : step s a = some s') (hdb : s'.databases id = some db)
    (hret : db.stage = .returned) :
    s.databases id = some db ∨
      (∃ now db₀, a = .log id now ∧ s.databases id = some db₀ ∧ db₀.stage = .returned ∧
        db.logged = db₀.logged ++ [now]) ∨
      ∃ db₀, a = .ret id ∧ s.databases id = some db₀ ∧ db.logged = db₀.logged := by
  cases a with
  | create id' creator =>
    cases step_create h
    rcases some_of_update hdb with ⟨-, rfl⟩ | hdb
    · cases hret
    · exact Or.inl hdb
  | initial id' n =>
    obtain ⟨db₀, -, rfl⟩ := step_initial h
    rcases some_of_update hdb with ⟨-, rfl⟩ | hdb
    · cases hret
    · exact Or.inl hdb
  | ret id' =>
    obtain ⟨db₀, hdb₀, rfl⟩ := step_ret h
    rcases some_of_update hdb with ⟨rfl, rfl⟩ | hdb
    · exact Or.inr (Or.inr ⟨db₀, rfl, hdb₀, rfl⟩)
    · exact Or.inl hdb
  | raise id' =>
    obtain ⟨db₀, -, rfl⟩ := step_raise h
    rcases some_of_update hdb with ⟨-, rfl⟩ | hdb
    · cases hret
    · exact Or.inl hdb
  | snapshot id' n =>
    cases step_snapshot h
    exact Or.inl hdb
  | stamp n now =>
    obtain ⟨id', -, rfl⟩ := step_stamp h
    exact Or.inl hdb
  | register n objectKey =>
    obtain ⟨id', createdAt, -, rfl⟩ := step_register h
    exact Or.inl hdb
  | fail n =>
    obtain ⟨run, -, rfl⟩ := step_fail h
    exact Or.inl hdb
  | branch id' source =>
    obtain ⟨-, rfl⟩ := step_branch h
    exact Or.inl hdb
  | log id' now =>
    obtain ⟨db₀, hdb₀, rfl⟩ := step_log h
    rcases some_of_update hdb with ⟨rfl, rfl⟩ | hdb
    · exact Or.inr (Or.inl ⟨now, db₀, rfl, hdb₀, hret, rfl⟩)
    · exact Or.inl hdb

theorem pitrAvailable_iff : PitrAvailable s ↔ ∀ id db, s.databases id = some db →
    db.stage = .returned → ∀ t ∈ db.logged, HasBase s.rows id t := by
  unfold PitrAvailable
  simp only [available_iff]

/-- **One step.** -/
theorem pitrAvailable_step (hs : PitrAvailable s) (h : step s a = some s') :
    Based s a s' ↔ PitrAvailable s' := by
  rw [pitrAvailable_iff] at hs ⊢
  constructor
  · intro hok id db hdb hret t ht
    have hkeep : HasBase s.rows id t → HasBase s'.rows id t := fun ⟨row, hrow, hbase⟩ =>
      ⟨row, rows_subset h hrow, hbase⟩
    apply hkeep
    rcases of_returned h hdb hret with hdb | ⟨now, db₀, rfl, hdb₀, hret₀, hlogged⟩ |
      ⟨db₀, rfl, hdb₀, hlogged⟩
    · exact hs id db hdb hret t ht
    · rw [hlogged, List.mem_append, List.mem_singleton] at ht
      rcases ht with ht | rfl
      · exact hs id db₀ hdb₀ hret₀ t ht
      · exact hok db₀ hdb₀ hret₀
    · rw [hlogged] at ht
      exact hok db₀ hdb₀ t ht
  · intro hs'
    cases a with
    | log id now =>
      intro db hdb hret
      obtain ⟨db₀, hdb₀, rfl⟩ := step_log h
      cases hdb.symm.trans hdb₀
      exact hs' id { db with logged := db.logged ++ [now] } (Function.update_self ..) hret now
        (List.mem_append_right _ (List.mem_singleton_self _))
    | ret id =>
      intro db hdb
      obtain ⟨db₀, hdb₀, rfl⟩ := step_ret h
      cases hdb.symm.trans hdb₀
      exact hs' id { db with stage := .returned } (Function.update_self ..) rfl
    | _ => trivial

/-- The times that were read are not after the latest one. -/
structure Clocked (s : State) : Prop where
  rows : ∀ row ∈ s.rows, row.snapshot.createdAt ≤ s.clock
  runs : ∀ n id createdAt, s.runs n = some ⟨id, .stamped createdAt⟩ → createdAt ≤ s.clock

theorem clock_le (h : step s a = some s') : s.clock ≤ s'.clock := by
  cases a with
  | create id creator => cases step_create h; exact le_rfl
  | initial id n => obtain ⟨db, -, rfl⟩ := step_initial h; exact le_rfl
  | ret id => obtain ⟨db, -, rfl⟩ := step_ret h; exact le_rfl
  | raise id => obtain ⟨db, -, rfl⟩ := step_raise h; exact le_rfl
  | snapshot id n => cases step_snapshot h; exact le_rfl
  | stamp n now => obtain ⟨id, -, rfl⟩ := step_stamp h; exact le_max_left _ _
  | register n objectKey => obtain ⟨id, createdAt, -, rfl⟩ := step_register h; exact le_rfl
  | fail n => obtain ⟨run, -, rfl⟩ := step_fail h; exact le_rfl
  | branch id source => obtain ⟨-, rfl⟩ := step_branch h; exact le_rfl
  | log id now => obtain ⟨db, -, rfl⟩ := step_log h; exact le_max_left _ _

/-- A run is stamped with the clock; a new one is that of a snapshot that begins. -/
theorem run_of_step {n : ℕ} {run : SnapshotRun} (h : step s a = some s')
    (hrun : s'.runs n = some run) :
    (∃ run₀, s.runs n = some run₀ ∧ run₀.databaseId = run.databaseId ∧
        ∀ createdAt, run.phase = .stamped createdAt →
          run₀.phase = .stamped createdAt ∨ createdAt ≤ s'.clock) ∨
      run.phase = .archiving ∧
        (a = .snapshot run.databaseId n ∨ a = .initial run.databaseId n) := by
  have hsame : s.runs n = some run → ∃ run₀, s.runs n = some run₀ ∧
      run₀.databaseId = run.databaseId ∧ ∀ createdAt, run.phase = .stamped createdAt →
        run₀.phase = .stamped createdAt ∨ createdAt ≤ s'.clock :=
    fun hrun => ⟨run, hrun, rfl, fun _ => Or.inl⟩
  cases a with
  | create id creator =>
    cases step_create h
    exact Or.inl (hsame hrun)
  | initial id n =>
    obtain ⟨db, -, rfl⟩ := step_initial h
    rcases some_of_update hrun with ⟨rfl, rfl⟩ | hrun
    · exact Or.inr ⟨rfl, Or.inr rfl⟩
    · exact Or.inl (hsame hrun)
  | ret id =>
    obtain ⟨db, -, rfl⟩ := step_ret h
    exact Or.inl (hsame hrun)
  | raise id =>
    obtain ⟨db, -, rfl⟩ := step_raise h
    exact Or.inl (hsame hrun)
  | snapshot id n =>
    cases step_snapshot h
    rcases some_of_update hrun with ⟨rfl, rfl⟩ | hrun
    · exact Or.inr ⟨rfl, Or.inl rfl⟩
    · exact Or.inl (hsame hrun)
  | stamp n now =>
    obtain ⟨id, hrun₀, rfl⟩ := step_stamp h
    rcases some_of_update hrun with ⟨rfl, rfl⟩ | hrun
    -- the clock is moved on to the stamp
    · refine Or.inl ⟨_, hrun₀, rfl, fun createdAt hstamped => Or.inr ?_⟩
      cases hstamped
      exact le_max_right _ _
    · exact Or.inl (hsame hrun)
  | register n objectKey =>
    obtain ⟨id, createdAt, hrun₀, rfl⟩ := step_register h
    rcases some_of_update hrun with ⟨rfl, rfl⟩ | hrun
    · exact Or.inl ⟨_, hrun₀, rfl, nofun⟩
    · exact Or.inl (hsame hrun)
  | fail n =>
    obtain ⟨run₀, hrun₀, rfl⟩ := step_fail h
    rcases some_of_update hrun with ⟨rfl, rfl⟩ | hrun
    · exact Or.inl ⟨_, hrun₀, rfl, nofun⟩
    · exact Or.inl (hsame hrun)
  | branch id source =>
    obtain ⟨-, rfl⟩ := step_branch h
    exact Or.inl (hsame hrun)
  | log id now =>
    obtain ⟨db, -, rfl⟩ := step_log h
    exact Or.inl (hsame hrun)

theorem clocked_step (hs : Clocked s) (h : step s a = some s') : Clocked s' := by
  constructor
  · intro row hrow
    rcases mem_rows_of_step h hrow with hrow | ⟨n, objectKey, -, hrun⟩ | ⟨source, hsource, -, htime⟩
    · exact (hs.rows row hrow).trans (clock_le h)
    · exact (hs.runs n _ _ hrun).trans (clock_le h)
    · exact htime.trans_le ((hs.rows source hsource).trans (clock_le h))
  · intro n id createdAt hrun
    rcases run_of_step h hrun with ⟨⟨id₀, phase⟩, hrun₀, -, hstamped⟩ | ⟨hphase, -⟩
    · rcases hstamped createdAt rfl with hphase | hle
      · cases hphase
        exact (hs.runs n id₀ createdAt hrun₀).trans (clock_le h)
      · exact hle
    · cases hphase

/-- **When the clock does not go back, it is enough that the row is there.** -/
theorem based_iff_ordered (hs : Clocked s) (hforward : Forward s a s') :
    Based s a s' ↔ Ordered s a s' := by
  cases a with
  | log id now =>
    refine forall₃_congr fun db hdb hret => ?_
    constructor
    · rintro ⟨row, hrow, hid, -⟩
      exact ⟨row, hrow, hid⟩
    · rintro ⟨row, hrow, hid⟩
      exact ⟨row, hrow, hid, (hs.rows row hrow).trans (hforward id now rfl)⟩
  | _ => exact Iff.rfl

theorem pitrAvailable_init : PitrAvailable init := nofun

theorem clocked_init : Clocked init := ⟨nofun, nofun⟩

/-- **A restore is available throughout a run exactly when there is a snapshot from before each
mutation that is logged**, when it is logged, or when the creation of its database returns; and
where the clock does not go back, a snapshot that is registered before a mutation is logged is one
from before it. -/
theorem always_pitrAvailable_iff (actions : List Action) :
    (Runs.Always step PitrAvailable init actions ↔ Runs.EachStep step Based init actions) ∧
      (Runs.EachStep step Forward init actions →
        (Runs.Always step PitrAvailable init actions ↔
          Runs.EachStep step Ordered init actions)) := by
  have hbased : Runs.Always step PitrAvailable init actions ↔
    Runs.EachStep step Based init actions :=
    Runs.always_iff (fun s hs => hs) (fun s a s' => pitrAvailable_step)
      (fun s a s' hs h hok => (pitrAvailable_step hs h).1 hok) pitrAvailable_init actions
  refine ⟨hbased, fun hforward => hbased.trans ?_⟩
  exact Runs.eachStep_congr (fun s a s' (hs : Clocked s) _ hF => based_iff_ordered hs hF)
    (fun s a s' => clocked_step) clocked_init hforward

/-- A snapshot of the database begins, or a branch gets it. -/
def Action.Snapshots (id : String) : Action → Prop
  | .initial id' _ | .snapshot id' _ | .branch id' _ => id' = id
  | _ => False

/-- Nothing is or gets a snapshot of the database. -/
structure Unsnapshotted (id : String) (s : State) : Prop where
  rows : ∀ row ∈ s.rows, row.databaseId ≠ id
  runs : ∀ n run, s.runs n = some run → run.databaseId ≠ id

theorem unsnapshotted_step (hs : Unsnapshotted id s) (h : step s a = some s')
    (hnone : ¬ a.Snapshots id) : Unsnapshotted id s' := by
  constructor
  · intro row hrow
    rcases mem_rows_of_step h hrow with hrow | ⟨n, objectKey, -, hrun⟩ | ⟨source, -, rfl, -⟩
    · exact hs.rows row hrow
    · exact hs.runs n _ hrun
    · exact hnone
  · intro n run hrun
    rcases run_of_step h hrun with ⟨run₀, hrun₀, hid, -⟩ | ⟨-, rfl | rfl⟩
    · exact hid ▸ hs.runs n run₀ hrun₀
    · exact hnone
    · exact hnone

/-- Without a snapshot there is no row. -/
theorem unsnapshotted_of_run {actions : List Action} (h : Runs.run step init actions = some s)
    (hnone : ∀ a ∈ actions, ¬ a.Snapshots id) : Unsnapshotted id s := by
  have heach : Runs.EachStep step (fun _ a _ => ¬ a.Snapshots id) init actions :=
    fun l a hl _ _ _ _ => hnone a (hl.subset (by simp))
  have halways : Runs.Always step (Unsnapshotted id) init actions :=
    Runs.always_of_eachStep (fun s hs => hs) (fun s a s' => unsnapshotted_step)
      ⟨fun _ hrow => (List.not_mem_nil hrow).elim, fun _ _ hrun =>
        absurd hrun (Option.some_ne_none _).symm⟩ actions heach
  exact halways actions List.prefix_rfl s h

/-- **A database of which no snapshot is taken**, as that of a customer who registers, can be
restored exactly while nothing is in its log. -/
theorem available_iff_of_noSnapshot {actions : List Action}
    (h : Runs.run step init actions = some s) (hnone : ∀ a ∈ actions, ¬ a.Snapshots id)
    (logged : List Instant) : Available s.rows id logged ↔ logged = [] := by
  rw [available_iff]
  constructor
  · intro hbase
    by_contra hne
    obtain ⟨t, ht⟩ := List.exists_mem_of_ne_nil logged hne
    obtain ⟨row, hrow, hid, -⟩ := hbase t ht
    exact (unsnapshotted_of_run h hnone).rows row hrow hid
  · rintro rfl
    nofun

end Runs

/-- A customer registers and a mutation is logged; the initial snapshot of a new database fails; a
mutation is logged before the initial snapshot is stamped. -/
theorem not_pitrAvailable :
    ¬ Runs.Always step PitrAvailable init
        [.create "db_1" .registerCustomer, .ret "db_1", .log "db_1" 5] ∧
      ¬ Runs.Always step PitrAvailable init
        [.create "db_1" (.provision true), .initial "db_1" 0, .fail 0, .ret "db_1", .log "db_1" 5] ∧
      ¬ Runs.Always step PitrAvailable init
        [.create "db_1" (.provision true), .initial "db_1" 0, .log "db_1" 5, .stamp 0 7,
          .register 0 "key", .ret "db_1"] := by
  refine ⟨fun h => ?_, fun h => ?_, fun h => ?_⟩
  · have hbase := pitrAvailable_iff.1 (h _ List.prefix_rfl _ rfl) "db_1" _ rfl rfl 5
    exact absurd (hbase (by decide)) (by decide)
  · have hbase := pitrAvailable_iff.1 (h _ List.prefix_rfl _ rfl) "db_1" _ rfl rfl 5
    exact absurd (hbase (by decide)) (by decide)
  · have hbase := pitrAvailable_iff.1 (h _ List.prefix_rfl _ rfl) "db_1" _ rfl rfl 5
    exact absurd (hbase (by decide)) (by decide)

end KuzuEventBus.Service.BaseSnapshot
