import KuzuEventBus.Service.Workers

/-!
# Snapshots and the log

One run of `src/application/usecases/create_database_snapshot.py`, interleaved with the workers
of the database: the directory is copied, the copy is uploaded, the snapshot is stamped with the
clock, and its metadata is saved, each in one step.  The workers do not take the lock of the
snapshot.  A snapshot and the log are a consistent cut when a restore from the snapshot, to any
later target, has each mutation once: in the copy or in the replay.

A run that ends before the copy, or in an error, saves nothing; the checks before the copy and the
archive around it are left out.

## Main definitions

* `SnapshotPhase`, `SnapState`, `snapStep` — the run of the snapshot among the workers.
* `ConsistentCut` — what a restore from the saved snapshot comes to.
* `EntryCut`, `LinesCut` — an entry, and the lines of an object, that keep the cut consistent.
* `Clean` — what a step has to meet.

## Main results

* `consistentCut_iff` — a saved snapshot is a consistent cut exactly when every object keeps it.
* `always_consistentCut_iff` — **the cut is consistent throughout a run exactly when the save
  finds, and every later upload leaves, objects that keep it.**
-/

namespace KuzuEventBus.Service.Workers

variable {W : Type}

/-! ### The run of a snapshot -/

/-- Where the run of the snapshot is. -/
inductive SnapshotPhase where
  /-- Before the copy. -/
  | idle
  /-- The directory is copied: the mutations the copy has. -/
  | copied (content : List Mutation)
  /-- The archive is uploaded. -/
  | uploaded (content : List Mutation)
  /-- `created_at` is read from the clock. -/
  | stamped (content : List Mutation) (createdAt : Instant)
  /-- The metadata is saved. -/
  | saved (content : List Mutation) (createdAt : Instant)

/-- The mutations of the copy, if it is made. -/
def SnapshotPhase.content : SnapshotPhase → List Mutation
  | .idle => []
  | .copied content => content
  | .uploaded content => content
  | .stamped content _ => content
  | .saved content _ => content

/-- The workers, and the run of the snapshot. -/
structure SnapState (W : Type) where
  workers : State W
  snapshot : SnapshotPhase

/-- A step of a worker, or of the snapshot. -/
inductive SnapAction (W : Type) where
  | worker (a : Action W)
  | copy
  | upload
  | stamp (now : Instant)
  | save

/-- The mutations the database has. -/
def State.applied (s : State W) : List Mutation := s.executed.filter Mutation.ok

/-- Before any round, and before the snapshot. -/
def snapInit (W : Type) : SnapState W := ⟨init W, .idle⟩

/-- What a step does; it is not enabled when the worker or the snapshot is elsewhere. -/
def snapStep [DecidableEq W] (s : SnapState W) : SnapAction W → Option (SnapState W)
  | .worker a => (step s.workers a).map fun workers => ⟨workers, s.snapshot⟩
  | .copy =>
    match s.snapshot with
    | .idle => some ⟨s.workers, .copied s.workers.applied⟩
    | _ => none
  | .upload =>
    match s.snapshot with
    | .copied content => some ⟨s.workers, .uploaded content⟩
    | _ => none
  | .stamp now =>
    match s.snapshot with
    | .uploaded content => some ⟨s.workers, .stamped content now⟩
    | _ => none
  | .save =>
    match s.snapshot with
    | .stamped content createdAt => some ⟨s.workers, .saved content createdAt⟩
    | _ => none

/-! ### Consistent cuts -/

/-- Restoring the saved snapshot and replaying the log, to any target, applies each successful
execution once, if it is not after the target and is in the log: it is in the copy or in the
replay, and not in both. -/
def ConsistentCut (s : SnapState W) : Prop :=
  ∀ content snapshot, s.snapshot = .saved content snapshot.createdAt →
    ∀ (σ : Type) (engine : Engine σ) (answers : RestoreAnswers σ Entry) (req : RestoreRequest),
      Serves answers req snapshot s.workers.objects →
      ∃ r, execute Entry.read engine answers req = .ok r ∧
        ∀ m ∈ s.workers.executed, m.ok = true → m.executedAt ≤ req.targetTimestamp →
          m ∈ s.workers.logged → content.count m + (r.executed.map Entry.mutation).count m = 1

/-- The time at which the object of an entry starts. -/
def Entry.start (e : Entry) : Instant := e.ts.second * 1000000

/-- An entry that keeps the cut consistent.  If its mutation is in the copy, its object starts
before the snapshot; if not, its object starts no earlier than the snapshot, and neither it nor a
line before it in its object is later than both the snapshot and its execution. -/
structure EntryCut (content : List Mutation) (createdAt : Instant) (before : List Entry)
    (e : Entry) : Prop where
  copied : e.mutation ∈ content → e.start < createdAt
  replayed : e.mutation ∉ content → createdAt ≤ e.start ∧
    ∀ e' ∈ before ++ [e], e'.ts ≤ max createdAt e.mutation.executedAt

/-- The lines of an object that keep the cut consistent. -/
def LinesCut (content : List Mutation) (createdAt : Instant) (lines : List Entry) : Prop :=
  ∀ before e after, lines = before ++ e :: after → e.mutation.ok = true →
    EntryCut content createdAt before e

/-- What a step has to meet: the save of the snapshot finds objects that keep the cut consistent,
and a later upload of a worker leaves such an object. -/
def Clean (s : SnapState W) : SnapAction W → Prop
  | .save => ∀ content createdAt, s.snapshot = .stamped content createdAt →
      ∀ k, LinesCut content createdAt (s.workers.wal.listAt k)
  | .worker (.upload w) => ∀ content createdAt, s.snapshot = .saved content createdAt →
      ∀ m ts prior, s.workers.phase w = .read m ts prior →
        LinesCut content createdAt (prior ++ [⟨m, ts⟩])
  | _ => True

/-! ### What a restore replays of the log -/

section Restored

variable {s : State W} {createdAt target : Instant} {e : Entry} {k : ℕ} {before after : List Entry}

/-- The entries the restore replays. -/
def State.restored (s : State W) (createdAt target : Instant) : List Entry :=
  (replayed createdAt target s.objects).flatMap fun o =>
    executedLines Entry.read target o.lines

theorem mem_wal_of_mem_executedLines {o : WalObject Entry}
    (ho : o ∈ replayed createdAt target s.objects)
    (he : e ∈ executedLines Entry.read target o.lines) : e ∈ s.wal.listAt o.second := by
  rw [listAt_of_mem_objects (mem_replayed.1 ho).1]
  exact executedLines_subset he

/-- An entry is replayed when its object is in range, and no line up to it is after the
target. -/
theorem mem_restored_iff (h : Inv s) (hlines : s.wal.listAt k = before ++ e :: after) :
    e ∈ s.restored createdAt target ↔
      createdAt ≤ e.start ∧ ∀ e' ∈ before ++ [e], e'.ts ≤ target := by
  have he : e ∈ s.wal.listAt k := by
    rw [hlines]
    exact List.mem_append_right _ List.mem_cons_self
  have hk : e.ts.second = k := h.wal_second k e he
  have hfresh : e ∉ before := by
    have hnodup := h.wal_nodup k
    rw [hlines, List.nodup_append] at hnodup
    exact fun hmem => hnodup.2.2 e hmem e List.mem_cons_self rfl
  have hexecuted : e ∈ executedLines Entry.read target (s.wal.listAt k) ↔
      ∀ e' ∈ before ++ [e], e'.ts ≤ target := by
    unfold executedLines
    rw [List.mem_filter, hlines, Lists.mem_takeWhile_append_cons_iff hfresh]
    have hquery : hasQuery Entry.read e = true := by
      have hne := h.query _ (h.known_mem e (Or.inl ⟨k, he⟩))
      simpa [hasQuery, Entry.read] using hne
    rw [and_iff_left hquery]
    simp [isLate, Entry.read]
  unfold State.restored
  rw [List.mem_flatMap, ← hexecuted]
  constructor
  · rintro ⟨o, ho, heo⟩
    have hsecond := h.wal_second o.second e (mem_wal_of_mem_executedLines ho heo)
    have hlist := listAt_of_mem_objects (mem_replayed.1 ho).1
    rw [← hsecond, hk] at hlist
    refine ⟨?_, hlist ▸ heo⟩
    have hstart := (mem_replayed.1 ho).2.1
    unfold WalObject.start at hstart
    rwa [← hsecond] at hstart
  · rintro ⟨hstart, heo⟩
    refine ⟨⟨k, s.wal.listAt k⟩, mem_replayed.2 ⟨mem_objects_of_mem_listAt he, ?_, ?_⟩, heo⟩
    · unfold WalObject.start
      rw [← hk]
      exact hstart
    · have hts := hexecuted.1 heo e (List.mem_append_right _ List.mem_cons_self)
      have hbetween := between_of_second hk
      exact hbetween.1.trans hts

/-- Nothing is replayed twice. -/
theorem nodup_restored (h : Inv s) : (s.restored createdAt target).Nodup := by
  unfold State.restored
  rw [List.nodup_flatMap]
  constructor
  · intro o ho
    have hnodup := h.wal_nodup o.second
    rw [listAt_of_mem_objects (mem_replayed.1 ho).1] at hnodup
    exact (hnodup.sublist (List.takeWhile_sublist _)).filter _
  · refine (replayed_pairwise (nodup_objects s)).imp_of_mem ?_
    intro o o' ho ho' hlt e he he'
    -- an entry has one second
    have hsecond := h.wal_second o.second e (mem_wal_of_mem_executedLines ho he)
    have hsecond' := h.wal_second o'.second e (mem_wal_of_mem_executedLines ho' he')
    exact hlt.ne (hsecond.symm.trans hsecond')

theorem mem_wal_of_mem_restored (he : e ∈ s.restored createdAt target) :
    ∃ k, e ∈ s.wal.listAt k := by
  unfold State.restored at he
  rw [List.mem_flatMap] at he
  obtain ⟨o, ho, heo⟩ := he
  exact ⟨o.second, mem_wal_of_mem_executedLines ho heo⟩

open Classical in
/-- How often a logged mutation is replayed. -/
theorem count_restored (h : Inv s) (he : e ∈ s.wal.listAt k) :
    ((s.restored createdAt target).map Entry.mutation).count e.mutation =
      if e ∈ s.restored createdAt target then 1 else 0 := by
  have hinj : ∀ e₁ ∈ s.restored createdAt target, ∀ e₂ ∈ s.restored createdAt target,
      e₁.mutation = e₂.mutation → e₁ = e₂ := fun e₁ he₁ e₂ he₂ =>
    h.known_unique e₁ e₂ (Or.inl (mem_wal_of_mem_restored he₁))
      (Or.inl (mem_wal_of_mem_restored he₂))
  have hmem : e.mutation ∈ (s.restored createdAt target).map Entry.mutation ↔
      e ∈ s.restored createdAt target := by
    rw [List.mem_map]
    constructor
    · rintro ⟨e', he', heq⟩
      have hsame := h.known_unique e' e (Or.inl (mem_wal_of_mem_restored he')) (Or.inl ⟨k, he⟩) heq
      exact hsame ▸ he'
    · intro hmem
      exact ⟨e, hmem, rfl⟩
  rw [((nodup_restored h).map_on hinj).count]
  simp only [hmem]

end Restored

/-! ### When a saved snapshot is a consistent cut -/

theorem exists_ts_le (lines : List Entry) : ∃ last, ∀ e ∈ lines, e.ts ≤ last := by
  induction lines with
  | nil => exact ⟨0, by simp⟩
  | cons e lines ih =>
    obtain ⟨last, hlast⟩ := ih
    refine ⟨max e.ts last, List.forall_mem_cons.2 ⟨le_max_left _ _, fun e' he' => ?_⟩⟩
    exact (hlast e' he').trans (le_max_right _ _)

/-- An entry is replayed to each target that is not before the snapshot nor its execution, if its
mutation is not in the copy, and to none if it is, exactly when it keeps the cut consistent. -/
theorem entryCut_iff {content : List Mutation} {createdAt : Instant} {before : List Entry}
    {e : Entry} :
    (∀ target, createdAt ≤ target → e.mutation.executedAt ≤ target →
        (e.mutation ∈ content ↔
          ¬ (createdAt ≤ e.start ∧ ∀ e' ∈ before ++ [e], e'.ts ≤ target))) ↔
      EntryCut content createdAt before e := by
  constructor
  · intro h
    refine ⟨fun hcopied => ?_, fun hnot => ?_⟩
    · -- a target after everything
      obtain ⟨last, hlast⟩ := exists_ts_le (before ++ [e])
      have hnot := (h (max last (max createdAt e.mutation.executedAt))
        ((le_max_left _ _).trans (le_max_right _ _))
        ((le_max_right _ _).trans (le_max_right _ _))).1 hcopied
      refine lt_of_not_ge fun hle => hnot ⟨hle, fun e' he' => ?_⟩
      exact (hlast e' he').trans (le_max_left _ _)
    · have hboth := (h _ (le_max_left createdAt e.mutation.executedAt) (le_max_right _ _)).not.1
        hnot
      exact not_not.1 hboth
  · rintro ⟨hcopied, hreplayed⟩ target hcreated hexecuted
    constructor
    · rintro hmem ⟨hle, -⟩
      exact absurd hle (hcopied hmem).not_ge
    · intro hnot
      by_contra hmem
      obtain ⟨hstart, hall⟩ := hreplayed hmem
      exact hnot ⟨hstart, fun e' he' => (hall e' he').trans (max_le hcreated hexecuted)⟩

/-- A restore does not start from a snapshot after its target. -/
theorem createdAt_le_of_serves {σ L : Type} {answers : RestoreAnswers σ L} {req : RestoreRequest}
    {snapshot : Snapshot} {objects : List (WalObject L)}
    (h : Serves answers req snapshot objects) : snapshot.createdAt ≤ req.targetTimestamp := by
  obtain ⟨all, -, hnearest⟩ := h.nearest
  have hmem := List.argmax_mem hnearest
  exact of_decide_eq_true (List.mem_filter.1 hmem).2

/-- What holds of every run: the invariant of the workers, and that the copy has a mutation once. -/
structure SnapInv (s : SnapState W) : Prop where
  workers : Inv s.workers
  content : s.snapshot.content.Nodup

/-- One copy of a mutation, in the content or in the replay. -/
theorem count_add_count_eq_one {s : State W} (h : Inv s) {content : List Mutation}
    (hcontent : content.Nodup) {createdAt target : Instant} {e : Entry} {k : ℕ}
    {before after : List Entry} (hlines : s.wal.listAt k = before ++ e :: after) :
    content.count e.mutation +
        ((s.restored createdAt target).map Entry.mutation).count e.mutation = 1 ↔
      (e.mutation ∈ content ↔
        ¬ (createdAt ≤ e.start ∧ ∀ e' ∈ before ++ [e], e'.ts ≤ target)) := by
  have he : e ∈ s.wal.listAt k := by
    rw [hlines]
    exact List.mem_append_right _ List.mem_cons_self
  rw [← mem_restored_iff h hlines, count_restored h he, hcontent.count]
  by_cases hmem : e.mutation ∈ content <;>
    by_cases hrestored : e ∈ s.restored createdAt target <;> simp [hmem, hrestored]

/-- **A saved snapshot is a consistent cut exactly when every object keeps it.** -/
theorem consistentCut_iff {s : SnapState W} (h : SnapInv s) {content : List Mutation}
    {createdAt : Instant} (hsaved : s.snapshot = .saved content createdAt) :
    ConsistentCut s ↔ ∀ k, LinesCut content createdAt (s.workers.wal.listAt k) := by
  have hcontent : content.Nodup := by
    have hnodup := h.content
    rw [hsaved] at hnodup
    exact hnodup
  constructor
  · intro hcut k before e after hlines hok
    refine entryCut_iff.1 fun target hcreated hexecuted => ?_
    rw [← count_add_count_eq_one h.workers hcontent hlines]
    have he : e ∈ s.workers.wal.listAt k := by
      rw [hlines]
      exact List.mem_append_right _ List.mem_cons_self
    -- a restore to the target, with an engine that answers nothing
    let snapshot : Snapshot := ⟨0, "", createdAt⟩
    let req : RestoreRequest := ⟨0, 0, target⟩
    have hserves : Serves (serving snapshot req () s.workers.objects) req snapshot
        s.workers.objects := serves_serving () (nodup_objects s.workers) hcreated
    obtain ⟨r, hexecute, hall⟩ :=
      hcut content snapshot hsaved Unit (fun _ _ => .error "") _ req hserves
    obtain ⟨r', hexecute', hrestored⟩ :=
      execute_eq (fun _ _ => .error "") hserves (filled_objects h.workers)
    rw [hexecute'] at hexecute
    cases hexecute
    have hcount := hall e.mutation (h.workers.known_mem e (Or.inl ⟨k, he⟩)) hok hexecuted
      (mem_logged.2 ⟨k, e, he, rfl⟩)
    rw [hrestored] at hcount
    exact hcount
  · intro hlines content' snapshot hsaved' σ engine answers req hserves
    rw [hsaved] at hsaved'
    cases hsaved'
    obtain ⟨r, hexecute, hrestored⟩ :=
      execute_eq engine hserves (filled_objects h.workers)
    refine ⟨r, hexecute, fun m hm hok hexecuted hlogged => ?_⟩
    obtain ⟨k, e, he, rfl⟩ := mem_logged.1 hlogged
    obtain ⟨before, after, hsplit⟩ := List.append_of_mem he
    rw [hrestored]
    refine (count_add_count_eq_one h.workers hcontent hsplit).2 ?_
    exact entryCut_iff.2 (hlines k before e after hsplit hok) req.targetTimestamp
      (createdAt_le_of_serves hserves) hexecuted

/-- Before it is saved, a snapshot is not restored. -/
theorem consistentCut_of_not_saved {s : SnapState W}
    (h : ∀ content createdAt, s.snapshot ≠ .saved content createdAt) : ConsistentCut s :=
  fun content snapshot hsaved => absurd hsaved (h content snapshot.createdAt)

/-! ### Runs -/

theorem nodup_applied {s : State W} (h : Inv s) : s.applied.Nodup := by
  have hids : (s.executed.map Mutation.id).Nodup := by
    rw [h.ids]
    exact List.nodup_range
  exact (List.Nodup.of_map _ hids).filter _

/-- A consistent cut, and the invariant. -/
structure SnapGood (s : SnapState W) : Prop where
  inv : SnapInv s
  cut : ConsistentCut s

theorem snapGood_init : SnapGood (snapInit W) where
  inv := ⟨inv_init, List.nodup_nil⟩
  cut := consistentCut_of_not_saved fun _ _ heq => by cases heq

variable [DecidableEq W]

/-- Every step keeps the invariant. -/
theorem snapInv_step {s s' : SnapState W} {a : SnapAction W} (h : SnapInv s)
    (hstep : snapStep s a = some s') : SnapInv s' := by
  cases a with
  | worker a =>
    obtain ⟨workers, hworkers, rfl⟩ := Option.map_eq_some_iff.1 hstep
    exact ⟨inv_step h.workers hworkers, h.content⟩
  | copy =>
    dsimp only [snapStep] at hstep
    split at hstep
    · cases hstep
      exact ⟨h.workers, nodup_applied h.workers⟩
    · cases hstep
  | upload =>
    dsimp only [snapStep] at hstep
    split at hstep
    · next content hphase =>
      cases hstep
      have hnodup := h.content
      rw [hphase] at hnodup
      exact ⟨h.workers, hnodup⟩
    · cases hstep
  | stamp now =>
    dsimp only [snapStep] at hstep
    split at hstep
    · next content hphase =>
      cases hstep
      have hnodup := h.content
      rw [hphase] at hnodup
      exact ⟨h.workers, hnodup⟩
    · cases hstep
  | save =>
    dsimp only [snapStep] at hstep
    split at hstep
    · next content createdAt hphase =>
      cases hstep
      have hnodup := h.content
      rw [hphase] at hnodup
      exact ⟨h.workers, hnodup⟩
    · cases hstep

/-- A step of a worker leaves the cut consistent exactly when it is clean. -/
theorem clean_worker_iff {s : SnapState W} {a : Action W} {workers : State W} (h : SnapInv s)
    (hcut : ConsistentCut s) (hstep : step s.workers a = some workers) :
    Clean s (.worker a) ↔ ConsistentCut ⟨workers, s.snapshot⟩ := by
  have hinv : SnapInv ⟨workers, s.snapshot⟩ := ⟨inv_step h.workers hstep, h.content⟩
  by_cases hsaved : ∃ content createdAt, s.snapshot = .saved content createdAt
  · obtain ⟨content, createdAt, hsaved⟩ := hsaved
    have hlines := (consistentCut_iff h hsaved).1 hcut
    rw [consistentCut_iff hinv hsaved]
    rcases wal_of_step hstep with ⟨hother, hwal⟩ | ⟨w, m, ts, prior, rfl, hphase, rfl⟩
    · refine iff_of_true ?_ (fun k => ?_)
      · cases a with
        | upload w => exact absurd rfl (hother w)
        | _ => trivial
      · dsimp only
        rw [hwal]
        exact hlines k
    · dsimp only
      simp only [listAt_uploads]
      constructor
      · intro hclean k
        split
        · exact hclean content createdAt hsaved m ts prior hphase
        · exact hlines k
      · intro hall content' createdAt' hsaved' m' ts' prior' hphase'
        rw [hsaved] at hsaved'
        cases hsaved'
        rw [hphase] at hphase'
        cases hphase'
        have hnew := hall ts.second
        rwa [if_pos rfl] at hnew
  · have hnot : ∀ content createdAt, s.snapshot ≠ .saved content createdAt :=
      fun content createdAt heq => hsaved ⟨content, createdAt, heq⟩
    refine iff_of_true ?_ (consistentCut_of_not_saved hnot)
    cases a with
    | upload w => exact fun content createdAt heq => absurd heq (hnot content createdAt)
    | _ => trivial

/-- **One step, from a consistent cut**: it leaves a consistent cut exactly when it is clean. -/
theorem clean_iff_consistentCut {s s' : SnapState W} {a : SnapAction W} (h : SnapInv s)
    (hcut : ConsistentCut s) (hstep : snapStep s a = some s') : Clean s a ↔ ConsistentCut s' := by
  have hinv := snapInv_step h hstep
  cases a with
  | worker a =>
    obtain ⟨workers, hworkers, rfl⟩ := Option.map_eq_some_iff.1 hstep
    exact clean_worker_iff h hcut hworkers
  | copy =>
    dsimp only [snapStep] at hstep
    split at hstep
    · cases hstep
      exact iff_of_true trivial (consistentCut_of_not_saved fun _ _ heq => by cases heq)
    · cases hstep
  | upload =>
    dsimp only [snapStep] at hstep
    split at hstep
    · cases hstep
      exact iff_of_true trivial (consistentCut_of_not_saved fun _ _ heq => by cases heq)
    · cases hstep
  | stamp now =>
    dsimp only [snapStep] at hstep
    split at hstep
    · cases hstep
      exact iff_of_true trivial (consistentCut_of_not_saved fun _ _ heq => by cases heq)
    · cases hstep
  | save =>
    dsimp only [snapStep] at hstep
    split at hstep
    · next content createdAt hphase =>
      cases hstep
      rw [consistentCut_iff hinv rfl]
      constructor
      · intro hclean
        exact hclean content createdAt hphase
      · intro hall content' createdAt' hphase'
        rw [hphase] at hphase'
        cases hphase'
        exact hall
    · cases hstep

/-- **The cut is consistent throughout a run exactly when every step is clean**: the save finds
only objects that keep the cut consistent, and every later upload leaves such an object. -/
theorem always_consistentCut_iff (actions : List (SnapAction W)) :
    Runs.Always snapStep ConsistentCut (snapInit W) actions ↔
      Runs.EachStep snapStep (fun s a _ => Clean s a) (snapInit W) actions := by
  refine Runs.always_iff ?_ ?_ ?_ snapGood_init actions
  · intro s h
    exact h.cut
  · intro s a s' h hstep
    exact clean_iff_consistentCut h.inv h.cut hstep
  · intro s a s' h hstep hclean
    exact ⟨snapInv_step h.inv hstep, (clean_iff_consistentCut h.inv h.cut hstep).1 hclean⟩

/-! ### A mutation that is lost -/

/-- The directory is copied, a mutation is executed and logged, and the snapshot is stamped in the
same second. -/
def lostMutation : List (SnapAction Bool) :=
  [.copy, .worker (.execute false "CREATE (n)" true 1200000), .worker (.stamp false 1210000),
    .worker (.acquire false), .worker (.check false .truthful), .worker (.upload false),
    .worker (.release false), .upload, .stamp 1300000, .save]

/-- The state after it: the entry is in the log, and not in the copy. -/
theorem exists_run_lostMutation :
    ∃ s, Runs.run snapStep (snapInit Bool) lostMutation = some s ∧
      s.snapshot = .saved [] 1300000 ∧
      s.workers.wal.listAt 1 = [⟨⟨0, "CREATE (n)", 1200000, true⟩, 1210000⟩] := by
  have hquery : isMutating "CREATE (n)" = true := by decide +kernel
  simp [lostMutation, Runs.run_cons, snapStep, step, hquery, snapInit, init, setPhase_phase,
    State.executes, State.next, State.uploads, State.applied, Instant.second]
  rfl

/-- **A mutation executed after the copy is lost when the snapshot is stamped in the second of its
entry.** -/
theorem not_always_consistentCut_lostMutation :
    ¬ Runs.Always snapStep ConsistentCut (snapInit Bool) lostMutation := by
  intro halways
  obtain ⟨s, hrun, hsaved, hwal⟩ := exists_run_lostMutation
  have hinv : SnapInv s := Runs.always_of_invariant (fun _ _ _ h hstep => snapInv_step h hstep)
    snapGood_init.inv lostMutation lostMutation List.prefix_rfl s hrun
  have hlines := (consistentCut_iff hinv hsaved).1
    (halways lostMutation List.prefix_rfl s hrun) 1 [] _ [] hwal rfl
  -- the second of the entry starts before the snapshot
  exact absurd (hlines.replayed List.not_mem_nil).1 (by decide)

end KuzuEventBus.Service.Workers
