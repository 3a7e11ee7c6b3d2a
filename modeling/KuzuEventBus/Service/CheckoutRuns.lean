import KuzuEventBus.Service.Checkout
import Mathlib.Data.Fintype.Defs

/-!
# Checkouts of workers that share a directory

Workers whose data directory is one and the same run `_ensure_local_db` and then a query on one
database, step by step and in any order, and any step of a checkout can raise.  The presence of the
database is tested before the lock is taken, and not again under it; the directory is made before
there is anything in it; and a directory that is there passes for the database.

## Main definitions

* `Setting`, `Phase`, `State`, `Action`, `step` — the workers, the disk and the lock.
* `Safe` — no query on a half-made database, no mutation undone, no fast path after a failure.
* `Careful` — what a step has to meet.
* `Next` — the steps that can be taken, one by one.

## Main results

* `materialize_eq` — the steps of one worker, one after the other, are its checkout.
* `next_of_step` — a step that is taken is one of these.
* `eachStep_safe` — **a run is safe when no presence is tested while a checkout is writing, none
  begins to write where there is a directory, and none that raises leaves one.**
-/

namespace KuzuEventBus.Service.CheckoutRuns

open FileTree FileOps SnapshotFiles SnapshotRows Checkout

/-! ### The workers -/

/-- The directory of the tenant, the id of the database, and the storage. -/
structure Setting where
  tenantDir : FilePath
  databaseId : String
  objects : ObjectKey → Option Object

/-- The directory of the database. -/
def Setting.dbDir (e : Setting) : FilePath := e.tenantDir ++ [e.databaseId]

/-- Where a worker is. -/
inductive Phase where
  /-- Before `_ensure_local_db`. -/
  | idle
  /-- The database was not there. -/
  | missing
  /-- There is a snapshot, and `acquire_lock` is next. -/
  | listed (latest : SnapshotRows.Row)
  /-- The lock is acquired. -/
  | locked (latest : SnapshotRows.Row)
  /-- The snapshot is downloaded. -/
  | downloaded (latest : SnapshotRows.Row) (object : Object)
  /-- The directory is made, and these steps are left; an archive that is damaged raises after them.
  -/
  | writing (rest : List FileStep) (complete : Bool)
  /-- `_ensure_local_db` has returned, and the query is next. -/
  | ready

/-- The disk, the workers and the lock; and, of what has happened, what was last left at the
directory by a query or a checkout that returned, whether a query has changed it, and whether a
checkout has raised since one returned. -/
structure State (W : Type) where
  disk : Disk
  phase : W → Phase
  lock : Option W
  left : Option FileTree
  mutated : Bool
  failed : Bool

/-- The steps. -/
inductive Action (W : Type) where
  /-- The presence is tested. -/
  | test (worker : W)
  /-- The snapshots are listed; when there are none the directory is made. -/
  | list (worker : W) (snapshots : List SnapshotRows.Row)
  /-- The lock is acquired. -/
  | acquire (worker : W)
  /-- The latest snapshot is downloaded. -/
  | download (worker : W)
  /-- The directory is made. -/
  | mkdir (worker : W)
  /-- A file is written, or a directory of the archive is made. -/
  | write (worker : W)
  /-- The lock is released, and the checkout returns. -/
  | finish (worker : W)
  /-- The step the worker is at raises, having left the disk in one of the ways it can. -/
  | raise (worker : W) (n : ℕ)
  /-- The lock expires. -/
  | expire
  /-- A query, and what it leaves in the directory when it changes the database. -/
  | execute (worker : W) (change : Option Entries)

/-- The steps of `materialize` after the directory is made, and whether it returns after them. -/
def Setting.steps (e : Setting) (objectKey : String) (object : Object) : List FileStep × Bool :=
  if isArchive objectKey object.data then
    match object.archive with
    | .unreadable => ([], false)
    | .readable entries complete => (membersSteps e.tenantDir entries, complete)
  else ([⟨e.dbDir ++ [dataKuzu], some object.data⟩], true)

section Steps

variable {W : Type} [DecidableEq W]

/-- The worker goes on. -/
def State.goto (s : State W) (i : W) (p : Phase) : State W :=
  { s with phase := Function.update s.phase i p }

/-- The lock after the worker has released it; it can have another holder by then. -/
def State.released (s : State W) (i : W) : Option W := if s.lock = some i then none else s.lock

/-- What the step a worker is at can leave on the disk when it raises. -/
def State.leaves (e : Setting) (s : State W) (i : W) : List Disk :=
  match s.phase i with
  | .missing | .downloaded _ _ => (mkdir e.dbDir s.disk).2
  | .writing (fileStep :: _) _ => (fileStep.op s.disk).2
  | _ => [s.disk]

/-- Only a checkout raises. -/
def Phase.isCheckout : Phase → Bool
  | .idle | .ready => false
  | _ => true

/-- `db_file.exists() or db_dir.exists()`. -/
def Setting.isPresent (e : Setting) (d : Disk) : Bool :=
  (get (e.dbDir ++ [dataKuzu]) d).isSome || (get e.dbDir d).isSome

/-- One step of a worker, or the expiry of the lock. -/
def step (e : Setting) (s : State W) : Action W → Option (State W)
  | .test i =>
    match s.phase i with
    | .idle => some (s.goto i (if e.isPresent s.disk then .ready else .missing))
    | _ => none
  | .list i snapshots =>
    match s.phase i, snapshots with
    | .missing, [] =>
      match (mkdir e.dbDir s.disk).1 with
      | (.ok _, d) =>
        some { s.goto i .ready with disk := d, left := get e.dbDir d, failed := false }
      | (.error _, _) => none
    | .missing, latest :: _ => some (s.goto i (.listed latest))
    | _, _ => none
  | .acquire i =>
    match s.phase i with
    | .listed latest =>
      if s.lock.isNone then some { s.goto i (.locked latest) with lock := some i } else none
    | _ => none
  | .download i =>
    match s.phase i with
    | .locked latest =>
      (e.objects latest.objectKey).map fun object => s.goto i (.downloaded latest object)
    | _ => none
  | .mkdir i =>
    match s.phase i with
    | .downloaded latest object =>
      match (mkdir e.dbDir s.disk).1 with
      | (.ok _, d) =>
        let (rest, complete) := e.steps latest.objectKey.text object
        some { s.goto i (.writing rest complete) with disk := d }
      | (.error _, _) => none
    | _ => none
  | .write i =>
    match s.phase i with
    | .writing (fileStep :: rest) complete =>
      match (fileStep.op s.disk).1 with
      | (.ok _, d) => some { s.goto i (.writing rest complete) with disk := d }
      | (.error _, _) => none
    | _ => none
  | .finish i =>
    match s.phase i with
    | .writing [] true =>
      some { s.goto i .ready with
        lock := s.released i, left := get e.dbDir s.disk, failed := false }
    | _ => none
  | .raise i n =>
    if (s.phase i).isCheckout then
      (s.leaves e i)[n]?.map fun d =>
        { s.goto i .idle with disk := d, lock := s.released i, failed := true }
    else none
  | .expire => some { s with lock := none }
  | .execute i change =>
    match s.phase i with
    | .ready =>
      match change with
      | none => some (s.goto i .idle)
      | some entries =>
        let d := put e.dbDir (some (.dir entries)) s.disk
        some { s.goto i .idle with disk := d, left := get e.dbDir d, mutated := true }
    | _ => none

/-- The workers have not begun; what is at the directory is complete. -/
def init (e : Setting) (d : Disk) : State W :=
  ⟨d, fun _ => .idle, none, get e.dbDir d, false, false⟩

/-! ### What is asked for -/

/-- **No query is executed on a database that is partially materialised**: the directory is as the
last query or checkout has left it; **no mutation is undone by a checkout**; and **no presence test
takes the fast path after a checkout has failed**, until one returns. -/
structure Safe (e : Setting) (s : State W) (a : Action W) (s' : State W) : Prop where
  complete : ∀ i change, a = .execute i change → get e.dbDir s.disk = s.left
  kept : (∀ i change, a ≠ .execute i change) → s.mutated = true →
    get e.dbDir s'.disk = get e.dbDir s.disk
  noFastPath : ∀ i, a = .test i → s'.phase i = .ready → s.failed = false

/-- The worker is writing. -/
def State.Writes (s : State W) (i : W) : Prop := ∃ rest complete, s.phase i = .writing rest complete

/-- A presence is tested, and a directory made for a database without snapshots, while no worker is
writing; a worker begins to write where there is no directory; and a step that raises leaves none,
or another worker is writing it. -/
def Careful (e : Setting) (s : State W) (a : Action W) (s' : State W) : Prop :=
  match a with
  | .test _ | .list _ [] => ∀ j, ¬ s.Writes j
  | .mkdir _ => get e.dbDir s.disk = none
  | .raise i _ => get e.dbDir s'.disk = none ∨ ∃ j, j ≠ i ∧ s.Writes j
  | _ => True

/-- The phase is one of writing. -/
def Phase.isWriting : Phase → Bool
  | .writing _ _ => true
  | _ => false

instance (s : State W) (i : W) : Decidable (s.Writes i) :=
  decidable_of_iff ((s.phase i).isWriting = true) (by
    unfold State.Writes Phase.isWriting
    split <;> simp_all)

instance [Fintype W] (e : Setting) (s : State W) (a : Action W) (s' : State W) :
    Decidable (Careful e s a s') :=
  match a with
  | .test _ | .list _ [] => inferInstanceAs (Decidable (∀ j, ¬ s.Writes j))
  | .mkdir _ => inferInstanceAs (Decidable (get e.dbDir s.disk = none))
  | .raise i _ =>
    inferInstanceAs (Decidable (get e.dbDir s'.disk = none ∨ ∃ j, j ≠ i ∧ s.Writes j))
  | .list _ (_ :: _) | .acquire _ | .download _ | .write _ | .finish _ | .expire | .execute _ _ =>
    isTrue trivial

/-! ### One worker -/

variable {e : Setting}

/-- **The steps of one worker, one after the other, are what a checkout does with the files.** -/
theorem materialize_eq (e : Setting) (objectKey : String) (object : Object) :
    materialize objectKey object e.dbDir = (do
      perform (mkdir e.dbDir)
      performSteps (e.steps objectKey object).1
      if (e.steps objectKey object).2 then pure () else raise "ReadError") := by
  unfold materialize Setting.steps
  congr 1
  funext u
  cases isArchive objectKey object.data with
  | true =>
    rw [if_pos rfl, if_pos rfl]
    unfold Setting.dbDir extractInto
    rw [List.dropLast_concat]
    cases object.archive with
    | unreadable => exact (pure_bind_run () fun _ => (raise "ReadError" : FileM Unit)).symm
    | readable entries complete =>
      dsimp only
      rw [performSteps_membersSteps]
  | false =>
    rw [if_neg Bool.false_ne_true, if_neg Bool.false_ne_true]
    exact ((bind_pure_run _).trans (bind_pure_run _)).symm

/-- A database that is found present is there. -/
theorem isPresent_iff {d : Disk} : e.isPresent d = true ↔ get e.dbDir d ≠ none := by
  unfold Setting.isPresent
  rw [Bool.or_eq_true, Option.isSome_iff_ne_none, Option.isSome_iff_ne_none]
  constructor
  · rintro (hfile | hdir)
    · intro hnone
      rw [get_append, hnone, get_none] at hfile
      exact hfile rfl
    · exact hdir
  · exact Or.inr

/-! ### What a step can do -/

/-- A step that can be taken, with what it asks of the state and what it makes of it. -/
inductive Next (e : Setting) (s : State W) : Action W → State W → Prop
  | present {i : W} (hphase : s.phase i = .idle) (hpresent : e.isPresent s.disk = true) :
    Next e s (.test i) (s.goto i .ready)
  | absent {i : W} (hphase : s.phase i = .idle) : Next e s (.test i) (s.goto i .missing)
  | made {i : W} {d : Disk} (hphase : s.phase i = .missing)
    (hmkdir : (mkdir e.dbDir s.disk).1 = (.ok (), d)) :
    Next e s (.list i [])
      { s.goto i .ready with disk := d, left := get e.dbDir d, failed := false }
  | listed {i : W} {latest : SnapshotRows.Row} {others : List SnapshotRows.Row}
    (hphase : s.phase i = .missing) :
    Next e s (.list i (latest :: others)) (s.goto i (.listed latest))
  | acquired {i : W} {latest : SnapshotRows.Row} (hphase : s.phase i = .listed latest) :
    Next e s (.acquire i) { s.goto i (.locked latest) with lock := some i }
  | downloaded {i : W} {latest : SnapshotRows.Row} {object : Object}
    (hphase : s.phase i = .locked latest) :
    Next e s (.download i) (s.goto i (.downloaded latest object))
  | begun {i : W} {latest : SnapshotRows.Row} {object : Object} {d : Disk}
    {rest : List FileStep} {complete : Bool} (hphase : s.phase i = .downloaded latest object)
    (hmkdir : (mkdir e.dbDir s.disk).1 = (.ok (), d)) :
    Next e s (.mkdir i) { s.goto i (.writing rest complete) with disk := d }
  | written {i : W} {fileStep : FileStep} {rest : List FileStep} {complete : Bool} {d : Disk}
    (hphase : s.phase i = .writing (fileStep :: rest) complete)
    (hop : (fileStep.op s.disk).1 = (.ok (), d)) :
    Next e s (.write i) { s.goto i (.writing rest complete) with disk := d }
  | finished {i : W} (hphase : s.phase i = .writing [] true) :
    Next e s (.finish i)
      { s.goto i .ready with
        lock := s.released i, left := get e.dbDir s.disk, failed := false }
  | raised {i : W} {n : ℕ} {d : Disk} (hd : (s.leaves e i)[n]? = some d) :
    Next e s (.raise i n)
      { s.goto i .idle with disk := d, lock := s.released i, failed := true }
  | expired : Next e s .expire { s with lock := none }
  | read {i : W} (hphase : s.phase i = .ready) : Next e s (.execute i none) (s.goto i .idle)
  | changed {i : W} {entries : Entries} (hphase : s.phase i = .ready) :
    Next e s (.execute i (some entries))
      { s.goto i .idle with
        disk := put e.dbDir (some (.dir entries)) s.disk
        left := get e.dbDir (put e.dbDir (some (.dir entries)) s.disk)
        mutated := true }

/-- **A step that is taken is one of these.** -/
theorem next_of_step {s s' : State W} {a : Action W} (h : step e s a = some s') :
    Next e s a s' := by
  unfold step at h
  cases a with
  | test i =>
    dsimp only at h
    split at h
    · next hphase =>
      cases h
      cases hpresent : e.isPresent s.disk with
      | true => exact .present hphase hpresent
      | false => exact .absent hphase
    · cases h
  | list i snapshots =>
    dsimp only at h
    split at h
    · next hphase =>
      split at h
      · next hmkdir =>
        cases h
        exact .made hphase hmkdir
      · cases h
    · next hphase =>
      cases h
      exact .listed hphase
    · cases h
  | acquire i =>
    dsimp only at h
    split at h
    · next hphase =>
      split at h
      · cases h
        exact .acquired hphase
      · cases h
    · cases h
  | download i =>
    dsimp only at h
    split at h
    · next hphase =>
      obtain ⟨object, -, rfl⟩ := Option.map_eq_some_iff.1 h
      exact .downloaded hphase
    · cases h
  | mkdir i =>
    dsimp only at h
    split at h
    · next hphase =>
      split at h
      · next hmkdir =>
        cases h
        exact .begun hphase hmkdir
      · cases h
    · cases h
  | write i =>
    dsimp only at h
    split at h
    · next hphase =>
      split at h
      · next hop =>
        cases h
        exact .written hphase hop
      · cases h
    · cases h
  | finish i =>
    dsimp only at h
    split at h
    · next hphase =>
      cases h
      exact .finished hphase
    · cases h
  | raise i n =>
    dsimp only at h
    split at h
    · obtain ⟨d, hd, rfl⟩ := Option.map_eq_some_iff.1 h
      exact .raised hd
    · cases h
  | expire =>
    cases h
    exact .expired
  | execute i change =>
    dsimp only at h
    split at h
    · next hphase =>
      cases change with
      | none =>
        cases h
        exact .read hphase
      | some entries =>
        cases h
        exact .changed hphase
    · cases h

/-- A directory that has been made leaves the root what it is. -/
theorem root_of_mkdir {d d' : Disk} (hroot : IsDir d)
    (hmkdir : (mkdir e.dbDir d).1 = (.ok (), d')) : IsDir d' := by
  have hroot' := isDir_of_mem_mkdir (p := e.dbDir) (q := []) hroot
    (List.mem_cons_self (a := (mkdir e.dbDir d).1.2))
  rwa [hmkdir] at hroot'

/-! ### Two modes -/

/-- Nobody is writing: what is there is what was left there, and it is there for whoever relies on
it. -/
structure Quiet (e : Setting) (s : State W) : Prop where
  root : IsDir s.disk
  noWriter : ∀ j, ¬ s.Writes j
  left : get e.dbDir s.disk = s.left
  failed : s.failed = true → get e.dbDir s.disk = none
  mutated : s.mutated = true → get e.dbDir s.disk ≠ none
  ready : ∀ j, s.phase j = .ready → get e.dbDir s.disk ≠ none

/-- One worker is writing, and nobody relies on what is there. -/
structure Busy (e : Setting) (s : State W) (j : W) : Prop where
  root : IsDir s.disk
  dir : IsDir (get e.dbDir s.disk)
  writes : s.Writes j
  others : ∀ k, k ≠ j → ¬ s.Writes k
  notReady : ∀ k, s.phase k ≠ .ready
  mutated : s.mutated = false

variable {s s' : State W} {i j : W} {p : Phase} {d : Disk} {l : Option W}
  {left : Option FileTree} {mutated failed : Bool}

/-- The phase is not one of writing. -/
def Phase.Still (p : Phase) : Prop := ∀ rest complete, p ≠ .writing rest complete

theorem writes_of_update {phase : W → Phase} {rest : List FileStep} {complete : Bool} (hp : p.Still)
    (h : Function.update phase i p j = .writing rest complete) :
    phase j = .writing rest complete := by
  by_cases hj : j = i
  · subst hj
    rw [Function.update_self] at h
    exact absurd h (hp rest complete)
  · rwa [Function.update_of_ne hj] at h

theorem ready_of_update {phase : W → Phase} (h : Function.update phase i p j = .ready) :
    p = .ready ∨ phase j = .ready := by
  by_cases hj : j = i
  · subst hj
    rw [Function.update_self] at h
    exact Or.inl h
  · rw [Function.update_of_ne hj] at h
    exact Or.inr h

/-- A worker goes on, and the disk and the record may change with it. -/
theorem Quiet.goto (hquiet : Quiet e s) (hp : p.Still) (hroot : IsDir d)
    (hleft : get e.dbDir d = left) (hfailed : failed = true → get e.dbDir d = none)
    (hmutated : mutated = true → get e.dbDir d ≠ none)
    (hready : p = .ready ∨ (∃ j, s.phase j = .ready) → get e.dbDir d ≠ none) :
    Quiet e ⟨d, Function.update s.phase i p, l, left, mutated, failed⟩ := by
  refine ⟨hroot, ?_, hleft, hfailed, hmutated, fun j hj => ?_⟩
  · rintro j ⟨rest, complete, hwrites⟩
    exact hquiet.noWriter j ⟨rest, complete, writes_of_update hp hwrites⟩
  · exact hready ((ready_of_update hj).imp_right fun hj => ⟨j, hj⟩)

/-- Another worker goes on beside the one that is writing. -/
theorem Busy.goto (hbusy : Busy e s j) (hij : i ≠ j) (hp : p.Still) (hready : p ≠ .ready)
    (hd : d = s.disk) :
    Busy e ⟨d, Function.update s.phase i p, l, left, s.mutated, failed⟩ j := by
  subst hd
  refine ⟨hbusy.root, hbusy.dir, ?_, fun k hk => ?_, fun k => ?_, hbusy.mutated⟩
  · obtain ⟨rest, complete, hwrites⟩ := hbusy.writes
    exact ⟨rest, complete, (Function.update_of_ne hij.symm _ _).trans hwrites⟩
  · rintro ⟨rest, complete, hwrites⟩
    exact hbusy.others k hk ⟨rest, complete, writes_of_update hp hwrites⟩
  · intro hk
    rcases ready_of_update hk with hp' | hk
    · exact hready hp'
    · exact hbusy.notReady k hk

omit [DecidableEq W] in
/-- What a step that raises can leave is one of the disks of the step. -/
theorem root_of_mem_leaves {n : ℕ} (hroot : IsDir s.disk) (hd : (s.leaves e i)[n]? = some d) :
    IsDir d := by
  have hmem := List.mem_of_getElem? hd
  unfold State.leaves at hmem
  have hmkdir : d ∈ (mkdir e.dbDir s.disk).2 → IsDir d := fun hmem =>
    isDir_of_mem_mkdir (p := e.dbDir) (q := []) hroot (List.mem_cons_of_mem _ hmem)
  split at hmem
  · exact hmkdir hmem
  · exact hmkdir hmem
  · exact isDir_of_mem_op (q := []) hroot (List.mem_cons_of_mem _ hmem)
  · rwa [List.mem_singleton.1 hmem]

omit [DecidableEq W] in
/-- A directory that is there is there when a step raises. -/
theorem isDir_of_mem_leaves {n : ℕ} (hdir : IsDir (get e.dbDir s.disk))
    (hd : (s.leaves e i)[n]? = some d) : IsDir (get e.dbDir d) := by
  have hmem := List.mem_of_getElem? hd
  unfold State.leaves at hmem
  have hmkdir : d ∈ (mkdir e.dbDir s.disk).2 → IsDir (get e.dbDir d) := fun hmem =>
    isDir_of_mem_mkdir hdir (List.mem_cons_of_mem _ hmem)
  split at hmem
  · exact hmkdir hmem
  · exact hmkdir hmem
  · exact isDir_of_mem_op hdir (List.mem_cons_of_mem _ hmem)
  · rwa [List.mem_singleton.1 hmem]

omit [DecidableEq W] in
/-- One that does not write leaves what is there. -/
theorem get_of_mem_leaves {n : ℕ} (hstill : ¬ s.Writes i) (hsome : get e.dbDir s.disk ≠ none)
    (hd : (s.leaves e i)[n]? = some d) : get e.dbDir d = get e.dbDir s.disk := by
  have hmem := List.mem_of_getElem? hd
  unfold State.leaves at hmem
  have hmkdir : d ∈ (mkdir e.dbDir s.disk).2 → get e.dbDir d = get e.dbDir s.disk := fun hmem =>
    get_of_mem_mkdir_of_isSome (Option.isSome_iff_ne_none.2 hsome) (List.mem_cons_of_mem _ hmem)
  split at hmem
  · exact hmkdir hmem
  · exact hmkdir hmem
  · next fileStep rest complete hwrites => exact absurd ⟨_, _, hwrites⟩ hstill
  · rw [List.mem_singleton.1 hmem]

/-- A worker that does not write goes on, and nothing else changes. -/
theorem Quiet.goto_same (hquiet : Quiet e s) (hp : p.Still)
    (hready : p = .ready → get e.dbDir s.disk ≠ none) :
    Quiet e ⟨s.disk, Function.update s.phase i p, l, s.left, s.mutated, s.failed⟩ :=
  hquiet.goto hp hquiet.root hquiet.left hquiet.failed hquiet.mutated fun hj =>
    hj.elim hready fun ⟨j, hj⟩ => hquiet.ready j hj

/-- **While nobody is writing**, a careful step keeps it so, or begins to write where there was
nothing. -/
theorem Quiet.step (hquiet : Quiet e s) {a : Action W} (h : step e s a = some s')
    (hok : Careful e s a s') : Quiet e s' ∨ ∃ j, Busy e s' j := by
  cases next_of_step h with
  | present _ hpresent =>
    exact Or.inl (hquiet.goto_same nofun fun _ => isPresent_iff.1 hpresent)
  | absent => exact Or.inl (hquiet.goto_same nofun nofun)
  | @made i d _ hmkdir =>
    -- the directory is made, and the checkout returns
    obtain ⟨entries, hentries⟩ := isDir_of_mkdir hquiet.root hmkdir
    have hsome : get e.dbDir d ≠ none := fun hnone => nomatch hentries.symm.trans hnone
    exact Or.inl (hquiet.goto nofun (root_of_mkdir hquiet.root hmkdir) rfl nofun (fun _ => hsome)
      fun _ => hsome)
  | listed => exact Or.inl (hquiet.goto_same nofun nofun)
  | acquired => exact Or.inl (hquiet.goto_same nofun nofun)
  | downloaded => exact Or.inl (hquiet.goto_same nofun nofun)
  | @begun i latest object d rest complete _ hmkdir =>
    have habsent : get e.dbDir s.disk = none := hok
    refine Or.inr ⟨i, root_of_mkdir hquiet.root hmkdir, isDir_of_mkdir hquiet.root hmkdir,
      ⟨_, _, Function.update_self ..⟩, fun k hk => ?_, fun k hk => ?_, ?_⟩
    · rintro ⟨rest, complete, hwrites⟩
      exact hquiet.noWriter k
        ⟨rest, complete, (Function.update_of_ne hk _ _).symm.trans hwrites⟩
    · rcases ready_of_update hk with hp | hk
      · cases hp
      · exact hquiet.ready k hk habsent
    · exact Bool.eq_false_iff.2 fun hmutated => hquiet.mutated hmutated habsent
  | written hphase => exact absurd ⟨_, _, hphase⟩ (hquiet.noWriter _)
  | finished hphase => exact absurd ⟨_, _, hphase⟩ (hquiet.noWriter _)
  | @raised i n d hd =>
    have hnone : get e.dbDir d = none := by
      rcases hok with hnone | ⟨j, -, hwrites⟩
      · exact hnone
      · exact absurd hwrites (hquiet.noWriter j)
    have habsent : get e.dbDir s.disk = none := by
      by_contra hsome
      exact hsome ((get_of_mem_leaves (hquiet.noWriter i) hsome hd).symm.trans hnone)
    refine Or.inl (hquiet.goto nofun (root_of_mem_leaves hquiet.root hd) ?_ (fun _ => hnone)
      ?_ ?_)
    · exact hnone.trans (habsent.symm.trans hquiet.left)
    · exact fun hmutated => absurd habsent (hquiet.mutated hmutated)
    · exact fun hready => hready.elim nofun fun ⟨j, hj⟩ => absurd habsent (hquiet.ready j hj)
  | expired =>
    exact Or.inl ⟨hquiet.root, hquiet.noWriter, hquiet.left, hquiet.failed, hquiet.mutated,
      hquiet.ready⟩
  | read => exact Or.inl (hquiet.goto_same nofun nofun)
  | @changed i entries hphase =>
    have hsome := hquiet.ready i hphase
    have hput : get e.dbDir (put e.dbDir (some (.dir entries)) s.disk) = some (.dir entries) :=
      get_put_of_isSome (Option.isSome_iff_ne_none.2 hsome) _
    have hsome' : get e.dbDir (put e.dbDir (some (.dir entries)) s.disk) ≠ none := by
      rw [hput]
      nofun
    have hroot : IsDir (put e.dbDir (some (.dir entries)) s.disk) := by
      obtain ⟨name, q, hpath⟩ : ∃ name q, e.dbDir = name :: q :=
        List.exists_cons_of_ne_nil (by simp [Setting.dbDir])
      rw [hpath]
      exact isDir_put_append (p := []) hquiet.root name q _
    exact Or.inl (hquiet.goto nofun hroot rfl
      (fun hfailed => absurd (hquiet.failed hfailed) hsome) (fun _ => hsome') fun _ => hsome')

omit [DecidableEq W] in
/-- Only the worker that is writing is where a writer is. -/
theorem Busy.eq_of_writes (hbusy : Busy e s j) (hwrites : s.Writes i) : i = j := by
  by_contra hij
  exact hbusy.others i hij hwrites

omit [DecidableEq W] in
theorem Busy.ne_of_still (hbusy : Busy e s j) (hp : s.phase i = p) (hstill : p.Still) : i ≠ j := by
  rintro rfl
  obtain ⟨rest, complete, hwrites⟩ := hbusy.writes
  exact hstill rest complete (hp.symm.trans hwrites)

omit [DecidableEq W] in
/-- A worker that raises beside the one that is writing leaves the disk as it is. -/
theorem Busy.eq_of_mem_leaves (hbusy : Busy e s j) {n : ℕ} (hstill : ¬ s.Writes i)
    (hd : (s.leaves e i)[n]? = some d) : d = s.disk := by
  have hmem := List.mem_of_getElem? hd
  unfold State.leaves at hmem
  have hmkdir : d ∈ (mkdir e.dbDir s.disk).2 → d = s.disk := fun hmem => by
    rw [mkdir_of_isDir hbusy.dir] at hmem
    exact List.mem_singleton.1 hmem
  split at hmem
  · exact hmkdir hmem
  · exact hmkdir hmem
  · next fileStep rest complete hwrites => exact absurd ⟨_, _, hwrites⟩ hstill
  · exact List.mem_singleton.1 hmem

/-- The worker that is writing goes on. -/
theorem Busy.write (hbusy : Busy e s j) {rest : List FileStep} {complete : Bool} (hroot : IsDir d)
    (hdir : IsDir (get e.dbDir d)) :
    Busy e
      ⟨d, Function.update s.phase j (.writing rest complete), l, left, s.mutated, failed⟩ j := by
  refine ⟨hroot, hdir, ⟨rest, complete, Function.update_self ..⟩, fun k hk => ?_, fun k hk => ?_,
    hbusy.mutated⟩
  · rintro ⟨rest', complete', hwrites⟩
    exact hbusy.others k hk ⟨rest', complete', (Function.update_of_ne hk _ _).symm.trans hwrites⟩
  · rcases ready_of_update hk with hp | hk
    · cases hp
    · exact hbusy.notReady k hk

/-- **While one worker is writing**, a careful step of another one does not matter, and its own ones
lead to the end of the checkout. -/
theorem Busy.step (hbusy : Busy e s j) {a : Action W} (h : step e s a = some s')
    (hok : Careful e s a s') : Quiet e s' ∨ ∃ j, Busy e s' j := by
  cases next_of_step h with
  | present => exact absurd hbusy.writes (hok j)
  | absent => exact absurd hbusy.writes (hok j)
  | made => exact absurd hbusy.writes (hok j)
  | listed hphase => exact Or.inr ⟨j, hbusy.goto (hbusy.ne_of_still hphase nofun) nofun nofun rfl⟩
  | acquired hphase =>
    exact Or.inr ⟨j, hbusy.goto (hbusy.ne_of_still hphase nofun) nofun nofun rfl⟩
  | downloaded hphase =>
    exact Or.inr ⟨j, hbusy.goto (hbusy.ne_of_still hphase nofun) nofun nofun rfl⟩
  | begun =>
    have habsent : get e.dbDir s.disk = none := hok
    obtain ⟨entries, hentries⟩ := hbusy.dir
    exact nomatch hentries.symm.trans habsent
  | @written i fileStep rest complete d hphase hop =>
    obtain rfl := hbusy.eq_of_writes ⟨_, _, hphase⟩
    have hmem : d ∈ disks fileStep.op s.disk := by
      unfold disks
      rw [hop]
      exact List.mem_cons_self
    exact Or.inr ⟨i, hbusy.write (isDir_of_mem_op (q := []) hbusy.root hmem)
      (isDir_of_mem_op hbusy.dir hmem)⟩
  | @finished i hphase =>
    obtain rfl := hbusy.eq_of_writes ⟨_, _, hphase⟩
    obtain ⟨entries, hentries⟩ := hbusy.dir
    have hsome : get e.dbDir s.disk ≠ none := fun hnone => nomatch hentries.symm.trans hnone
    refine Or.inl ⟨hbusy.root, ?_, rfl, nofun, fun _ => hsome, fun _ _ => hsome⟩
    rintro k ⟨rest, complete, hwrites⟩
    change Function.update s.phase i .ready k = .writing rest complete at hwrites
    by_cases hk : k = i
    · rw [hk, Function.update_self] at hwrites
      cases hwrites
    · exact hbusy.others k hk ⟨rest, complete, (Function.update_of_ne hk _ _).symm.trans hwrites⟩
  | @raised i n d hd =>
    -- what the worker that raises leaves is a directory, and so it is another one that writes it
    obtain ⟨entries, hentries⟩ := isDir_of_mem_leaves hbusy.dir hd
    obtain ⟨k, hki, hwrites⟩ : ∃ k, k ≠ i ∧ s.Writes k := by
      rcases hok with hnone | hwriter
      · exact nomatch hentries.symm.trans hnone
      · exact hwriter
    obtain rfl := hbusy.eq_of_writes hwrites
    exact Or.inr ⟨k, hbusy.goto hki.symm nofun nofun
      (hbusy.eq_of_mem_leaves (hbusy.others i hki.symm) hd)⟩
  | expired =>
    exact Or.inr ⟨j, hbusy.root, hbusy.dir, hbusy.writes, hbusy.others, hbusy.notReady,
      hbusy.mutated⟩
  | read hphase => exact absurd hphase (hbusy.notReady _)
  | changed hphase => exact absurd hphase (hbusy.notReady _)

/-! ### What is asked for holds -/

/-- **While nobody is writing, a careful step is safe.** -/
theorem safe_of_quiet (hquiet : Quiet e s) {a : Action W} (h : step e s a = some s')
    (hok : Careful e s a s') : Safe e s a s' := by
  refine ⟨fun i change ha => hquiet.left, fun ha hmutated => ?_, ?_⟩
  · have hsome := hquiet.mutated hmutated
    cases next_of_step h with
    | @made i d _ hmkdir =>
      have hmem : d ∈ disks (mkdir e.dbDir) s.disk := by
        unfold disks
        rw [hmkdir]
        exact List.mem_cons_self
      exact get_of_mem_mkdir_of_isSome (Option.isSome_iff_ne_none.2 hsome) hmem
    | begun => exact absurd hok hsome
    | written hphase => exact absurd ⟨_, _, hphase⟩ (hquiet.noWriter _)
    | @raised i n d hd => exact get_of_mem_leaves (hquiet.noWriter i) hsome hd
    | changed => exact absurd rfl (ha _ _)
    | _ => rfl
  · intro i ha hready
    subst ha
    cases next_of_step h with
    | present _ hpresent =>
      exact Bool.eq_false_iff.2 fun hfailed => isPresent_iff.1 hpresent (hquiet.failed hfailed)
    | absent =>
      change Function.update s.phase i .missing i = .ready at hready
      rw [Function.update_self] at hready
      cases hready

/-- **While one worker is writing**, nothing is executed and no presence is tested. -/
theorem safe_of_busy (hbusy : Busy e s j) {a : Action W} (h : step e s a = some s')
    (hok : Careful e s a s') : Safe e s a s' := by
  refine ⟨?_, fun _ hmutated => ?_, ?_⟩
  · intro i change ha
    subst ha
    cases next_of_step h with
    | read hphase => exact absurd hphase (hbusy.notReady i)
    | changed hphase => exact absurd hphase (hbusy.notReady i)
  · exact nomatch hbusy.mutated.symm.trans hmutated
  · intro i ha
    subst ha
    exact absurd hbusy.writes (hok j)

omit [DecidableEq W] in
/-- In the beginning nobody is writing. -/
theorem quiet_init (hroot : IsDir d) : Quiet e (init (W := W) e d) :=
  ⟨hroot, nofun, rfl, nofun, nofun, nofun⟩

/-- **A run of any number of workers is safe when every step of it is careful.** -/
theorem eachStep_safe {actions : List (Action W)} (hroot : IsDir d)
    (h : Runs.EachStep (step e) (Careful e) (init e d) actions) :
    Runs.EachStep (step e) (Safe e) (init e d) actions := by
  refine Runs.eachStep_of_eachStep
    (fun s a s' (hmode : Quiet e s ∨ ∃ j, Busy e s j) hstep hok => ?_)
    (fun s a s' hmode hstep hok => ?_) (Or.inl (quiet_init hroot)) actions h
  · rcases hmode with hquiet | ⟨j, hbusy⟩
    · exact safe_of_quiet hquiet hstep hok
    · exact safe_of_busy hbusy hstep hok
  · rcases hmode with hquiet | ⟨j, hbusy⟩
    · exact hquiet.step hstep hok
    · exact hbusy.step hstep hok

end Steps

/-! ### Two workers -/

/-- A database whose snapshot is in the storage. -/
def testSetting : Setting := ⟨["tenant_1"], "db_1", fun _ => some testShot.object⟩

def testRow : SnapshotRows.Row := ⟨0, "tenant_1", "db_1", testShot.key "tenant_1", 1⟩

/-- A worker finds that the database is not there, and the snapshot of it. -/
def missed (i : Bool) : List (Action Bool) := [.test i, .list i [testRow]]

/-- It restores the database, with the two directories and the file of the archive. -/
def restored (i : Bool) : List (Action Bool) :=
  [.acquire i, .download i, .mkdir i, .write i, .write i, .write i, .finish i]

/-- A query that changes the file of the database. -/
def mutation (i : Bool) : Action Bool :=
  .execute i (some [(dataKuzu, .dir [("catalog.kz", .file [2])])])

/-- What the file has in it. -/
def testContent (t : Option FileTree) : Bytes :=
  match get [dataKuzu, "catalog.kz"] t with
  | some (.file content) => content
  | _ => []

/-- The query is next. -/
def Phase.isReady : Phase → Bool
  | .ready => true
  | _ => false

theorem eq_ready_of_isReady {p : Phase} (h : p.isReady = true) : p = .ready := by
  cases p <;> first | rfl | cases h

/-- A checkout by one worker, its mutation, and a query by the other one. -/
theorem eachStep_safe_of_one_checkout :
    Runs.EachStep (step testSetting) (Safe testSetting) (init testSetting (some (.dir [])))
      (missed true ++ restored true ++ [mutation true, .test false, .execute false none]) :=
  eachStep_safe ⟨_, rfl⟩ (by decide +kernel)

/-- A worker that begins once the directory is made queries an empty database; one that has tested
before the lock extracts over a mutation; and after an extraction that fails the directory passes
for the database. -/
theorem not_eachStep_safe :
    ¬ Runs.EachStep (step testSetting) (Safe testSetting) (init testSetting (some (.dir [])))
        (missed true ++ [.acquire true, .download true, .mkdir true, .test false] ++
          [.execute false none]) ∧
      ¬ Runs.EachStep (step testSetting) (Safe testSetting) (init testSetting (some (.dir [])))
        (missed true ++ missed false ++ restored true ++ [mutation true] ++
          [.acquire false, .download false, .mkdir false, .write false, .write false] ++
          [.write false]) ∧
      ¬ Runs.EachStep (step testSetting) (Safe testSetting) (init testSetting (some (.dir [])))
        (missed true ++ [.acquire true, .download true, .mkdir true, .raise true 0] ++
          [.test false]) := by
  refine ⟨Runs.not_eachStep_concat (by decide +kernel) (by decide +kernel) fun hsafe => ?_,
    Runs.not_eachStep_concat (by decide +kernel) (by decide +kernel) fun hsafe => ?_,
    Runs.not_eachStep_concat (by decide +kernel) (by decide +kernel) fun hsafe => ?_⟩
  · have hcomplete := congrArg Option.isSome (hsafe.complete false none rfl)
    exact absurd hcomplete (by decide +kernel)
  · have hkept := congrArg testContent (hsafe.kept nofun (by decide +kernel))
    exact absurd hkept (by decide +kernel)
  · have hfailed := hsafe.noFastPath false rfl (eq_ready_of_isReady (by decide +kernel))
    exact absurd hfailed (by decide +kernel)

end KuzuEventBus.Service.CheckoutRuns
