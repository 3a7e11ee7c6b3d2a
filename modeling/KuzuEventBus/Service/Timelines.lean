import KuzuEventBus.Lib.Runs
import KuzuEventBus.Service.RestorePitr

/-!
# Restores, one after another

Histories of one database: queries that are executed and logged, snapshots, and the two kinds of
restore, of `restore_database_pitr.py` and of `restore_database_from_snapshot.py`.  The actions
follow each other, each at its own time; that of a restore is the time of the snapshot of the
restored state, when there is one.

A point-in-time restore replays what lies between the snapshot and the target in the log, whether
or not an earlier restore has abandoned it.

## Main definitions

* `History`, `Action`, `step` — the database, its snapshots and its log.
* `History.restoreTo` — what a point-in-time restore gives.
* `RecoversRight` — it gives what the database held at the time, back to the first restore.
* `Safe` — an action leaves the later restores right.

## Main results

* `restoreTo_eq` — what a restore gives, by the snapshot and the entries it finds.
* `always_recoversRight` — **when every action is safe, every later restore is right.**
-/

namespace KuzuEventBus.Service.Timelines

/-! ### Histories -/

/-- What becomes of the snapshot of the restored state: it is not configured or raises before its
row is saved, it raises afterwards, or it is created. -/
inductive ArchiveOutcome where
  | missing
  | savedThenRaised
  | created
  deriving DecidableEq

/-- The settings and the answers of the services, after the replay of a restore; the objects whose
deletion answers `True`. -/
structure PitrAnswers where
  archive : ArchiveOutcome
  deleteReplayedWal : Bool
  deleteDatabase : WalName → Bool

/-- What happens to the database, and when. -/
inductive Action where
  | mutate (time : Instant) (cypher : String) (parameters : Option Json)
  | snapshot (time : Instant)
  | restorePitr (time targetTimestamp : Instant) (answers : PitrAnswers)
  | restoreSnapshot (time : Instant) (snapshotId : Uuid)

/-- The database, its log and its snapshots, the latest first; the archive of a snapshot is found by
its id.  The last two fields are the record of what happened: when a restore first took place, and
what the database held since when, the latest first. -/
structure History (σ : Type) where
  now : Instant
  db : σ
  store : ObjectStore
  snapshots : List Snapshot
  archives : List σ
  restoredAt : Option Instant
  contents : List (Instant × σ)

variable {σ : Type}

/-- A database without snapshots. -/
def History.start (db : σ) : History σ where
  now := 0
  db := db
  store := ⟨[]⟩
  snapshots := []
  archives := []
  restoredAt := none
  contents := [(0, db)]

/-- The database holds a content from a time on. -/
def History.hold (s : History σ) (time : Instant) (db : σ) : History σ :=
  { s with now := time, db := db, contents := (time, db) :: s.contents }

/-- The row and the archive of a snapshot. -/
def History.saveSnapshot (s : History σ) : History σ :=
  { s with
    snapshots := ⟨s.archives.length, "snapshots/archive/snapshot.tar.gz", s.now⟩ :: s.snapshots
    archives := s.archives ++ [s.db] }

/-- A restore has taken place. -/
def History.restored (s : History σ) (time : Instant) (db : σ) : History σ :=
  { s.hold time db with restoredAt := s.restoredAt.or (some time) }

/-- What the database held at a time. -/
def History.contentAt (s : History σ) (time : Instant) : Option σ :=
  (s.contents.find? fun c => c.1 ≤ time).map Prod.snd

section

variable (engine : Engine σ) (tenantId databaseId : Uuid)

/-- How the services answer to a restore. -/
def History.answers (s : History σ) (now : Instant) : RestoreAnswers σ WalLine where
  checkPermission := .ok true
  now := now
  findById := .ok (some ⟨tenantId, some "data.kuzu"⟩)
  listByDatabase := .ok s.snapshots
  acquireLock := .ok (some "token")
  restoreSnapshot := fun snapshot =>
    match s.archives[snapshot.id]? with
    | some db => .ok db
    | none => .error "NoSuchKey"
  listObjects := .ok ((s.store.walObjects tenantId databaseId).map fun o => .wal o.second)
  download := fun name =>
    match name with
    | .wal second =>
      match s.store.get? ⟨tenantId, databaseId, second⟩ with
      | some lines => .ok lines
      | none => .error "NoSuchKey"
    | .other _ => .error "NoSuchKey"

/-- What a point-in-time restore gives, later than now and than the target. -/
def History.restoreTo (s : History σ) (targetTimestamp : Instant) : Option σ :=
  (execute WalLine.read engine (s.answers tenantId databaseId (max s.now targetTimestamp))
    ⟨tenantId, databaseId, targetTimestamp⟩).toOption.map Replay.db

/-- The answers to an append that goes through. -/
def logging (time : Instant) : AppendAnswers := ⟨time, .ok (some "token"), .truthful, false, false⟩

/-- `remove_object`. -/
def removeObject (store : ObjectStore) (key : WalKey) : ObjectStore :=
  ⟨store.uploads.filter fun upload => upload.1 ≠ key⟩

/-- `delete_database`, of an object of the log. -/
def deleteDatabase (store : ObjectStore) : WalName → ObjectStore
  | .wal second => removeObject store ⟨tenantId, databaseId, second⟩
  | .other _ => store

/-- The loop over `wal_files` that deletes them. -/
def deleteReplayed (answers : PitrAnswers) (walFiles : List WalFile) (store : ObjectStore) :
    ObjectStore :=
  walFiles.foldl (fun store wal =>
    if answers.deleteDatabase wal.key then deleteDatabase tenantId databaseId store wal.key
    else store) store

/-- What a restore does after the replay: the snapshot of the restored state, and, once it is
created, the deletion of the objects of the replay. -/
def History.afterReplay (s : History σ) (answers : PitrAnswers) (walFiles : List WalFile) :
    History σ :=
  match answers.archive with
  | .missing => s
  | .savedThenRaised => s.saveSnapshot
  | .created =>
    if answers.deleteReplayedWal then
      { s.saveSnapshot with store := deleteReplayed tenantId databaseId answers walFiles s.store }
    else s.saveSnapshot

/-- The objects a restore replays. -/
def History.walFiles (s : History σ) (snapshot : Snapshot) (targetTimestamp : Instant) :
    List WalFile :=
  findWalFilesInRange (s.answers tenantId databaseId s.now).listObjects snapshot.createdAt
    targetTimestamp

/-- An action; a query is logged when it looks like it writes, and a restore takes place when it
does not raise. -/
def step (s : History σ) : Action → Option (History σ)
  | .mutate time cypher parameters =>
    if s.now < time ∧ isMutating cypher = true then
      let (result, db) := executeQuery engine cypher parameters 30 s.db
      some { s.hold time db with
        store := appendWalEntry (logging time) s.store tenantId databaseId cypher parameters
          result.results }
    else none
  | .snapshot time => if s.now < time then some (s.hold time s.db).saveSnapshot else none
  | .restorePitr time targetTimestamp answers =>
    if s.now < time then
      match findNearestSnapshot s.snapshots targetTimestamp,
        execute WalLine.read engine (s.answers tenantId databaseId time)
          ⟨tenantId, databaseId, targetTimestamp⟩ with
      | some snapshot, .ok replay =>
        some ((s.restored time replay.db).afterReplay tenantId databaseId answers
          (s.walFiles tenantId databaseId snapshot targetTimestamp))
      | _, _ => none
    else none
  | .restoreSnapshot time snapshotId =>
    if s.now < time then
      match s.snapshots.find? fun snapshot => snapshot.id = snapshotId with
      | some snapshot => (s.archives[snapshot.id]?).map (s.restored time)
      | none => none
    else none

/-! ### What is asked for -/

/-- **A restore to any time since the first restore gives what the database held then.** -/
def RecoversRight (s : History σ) : Prop :=
  ∀ R, s.restoredAt = some R → ∀ time, R ≤ time →
    ∃ db, s.contentAt time = some db ∧ s.restoreTo engine tenantId databaseId time = some db

/-- An entry is in the log. -/
def Logged (store : ObjectStore) (line : WalLine) : Prop :=
  ∃ second lines, store.get? ⟨tenantId, databaseId, second⟩ = some lines ∧ line ∈ lines

/-- The time in the name of the object of an entry. -/
def objectStart (e : ReplayEntry) : Instant := e.ts.second * 1000000

/-- The restore abandons a snapshot, or an entry that a later restore would find. -/
def History.Abandons (s : History σ) (targetTimestamp : Instant) : Prop :=
  (∃ snapshot ∈ s.snapshots, targetTimestamp < snapshot.createdAt) ∨
    ∃ snapshot line e, findNearestSnapshot s.snapshots targetTimestamp = some snapshot ∧
      Logged tenantId databaseId s.store line ∧ line.read = some e ∧
      snapshot.createdAt ≤ objectStart e ∧ targetTimestamp < e.ts

/-- The object is deleted. -/
def PitrAnswers.Deletes (answers : PitrAnswers) (wal : WalFile) : Prop :=
  answers.archive = .created ∧ answers.deleteReplayedWal = true ∧
    answers.deleteDatabase wal.key = true

/-- The condition on an action.

* A query, after a restore, is logged in a second that starts no earlier than the last snapshot.
* A point-in-time restore without a snapshot of the restored state abandons nothing; one that
  follows another deletes no object that a restore to a time since the first would replay.
* A restore from a snapshot is from the last one, and nothing that a later restore would find has
  been logged since. -/
def Safe (s : History σ) : Action → Prop
  | .mutate time _ _ => s.restoredAt.isSome → ∀ snapshot,
      findNearestSnapshot s.snapshots time = some snapshot →
      snapshot.createdAt ≤ time.second * 1000000
  | .snapshot _ => True
  | .restorePitr _ targetTimestamp answers =>
    (answers.archive = .missing → ¬ s.Abandons tenantId databaseId targetTimestamp) ∧
      ∀ R first snapshot, s.restoredAt = some R → findNearestSnapshot s.snapshots R = some first →
        findNearestSnapshot s.snapshots targetTimestamp = some snapshot →
        ∀ wal ∈ s.walFiles tenantId databaseId snapshot targetTimestamp, answers.Deletes wal →
          wal.timestamp < first.createdAt
  | .restoreSnapshot time snapshotId => ∃ snapshot,
      findNearestSnapshot s.snapshots time = some snapshot ∧ snapshot.id = snapshotId ∧
        ∀ line e, Logged tenantId databaseId s.store line → line.read = some e →
          objectStart e < snapshot.createdAt

end

/-! ### The log of a history -/

/-- The entry of one line is earlier than that of the other. -/
def Earlier (line line' : WalLine) : Prop :=
  ∀ e e', line.read = some e → line'.read = some e' → e.ts < e'.ts

/-- The lines of every object are entries of its second, in the order of their times, and none is
later than now. -/
structure LogOk (store : ObjectStore) (now : Instant) : Prop where
  fit : store.EntriesFit
  entry : ∀ key lines, store.get? key = some lines → ∀ line ∈ lines, ∃ e, line.read = some e ∧
    e.ts ≤ now
  ordered : ∀ key lines, store.get? key = some lines → lines.Pairwise Earlier

section Log

variable {store : ObjectStore} {now time : Instant} {tenantId databaseId : Uuid} {cypher : String}
  {parameters : Option Json} {results : List Json} {line : WalLine}

/-- An append that goes through puts its entry behind those of its second. -/
theorem get?_appendWalEntry (key : WalKey) :
    (appendWalEntry (logging time) store tenantId databaseId cypher parameters results).get? key =
      if key = ⟨tenantId, databaseId, time.second⟩ then
        some ((store.get? key).getD [] ++ [.entry (walEntry time cypher parameters results)])
      else store.get? key := by
  unfold appendWalEntry logging
  dsimp only
  rw [if_neg (by decide), get?_put]
  split
  · next hkey =>
    rw [hkey]
    unfold readPrior
    dsimp only
    cases store.get? ⟨tenantId, databaseId, time.second⟩ <;> rfl
  · rfl

theorem logged_appendWalEntry :
    Logged tenantId databaseId
        (appendWalEntry (logging time) store tenantId databaseId cypher parameters results) line ↔
      Logged tenantId databaseId store line ∨
        line = .entry (walEntry time cypher parameters results) := by
  unfold Logged
  constructor
  · rintro ⟨second, lines, hget, hline⟩
    rw [get?_appendWalEntry] at hget
    split at hget
    · cases hget
      rcases List.mem_append.1 hline with hprior | hnew
      · cases hstore : store.get? ⟨tenantId, databaseId, second⟩ with
        | none => simp [hstore] at hprior
        | some lines => exact Or.inl ⟨second, lines, hstore, by simpa [hstore] using hprior⟩
      · exact Or.inr (List.mem_singleton.1 hnew)
    · exact Or.inl ⟨second, lines, hget, hline⟩
  · rintro (⟨second, lines, hget, hline⟩ | rfl)
    · by_cases hkey : second = time.second
      · subst hkey
        refine ⟨_, _, by rw [get?_appendWalEntry, if_pos rfl], ?_⟩
        rw [hget]
        exact List.mem_append_left _ hline
      · refine ⟨second, lines, ?_, hline⟩
        rw [get?_appendWalEntry, if_neg (by simpa using hkey)]
        exact hget
    · refine ⟨time.second, _, by rw [get?_appendWalEntry, if_pos rfl], ?_⟩
      exact List.mem_append_right _ List.mem_cons_self

theorem logOk_appendWalEntry (hlog : LogOk store now) (hnow : now < time)
    (hmutating : isMutating cypher = true) :
    LogOk (appendWalEntry (logging time) store tenantId databaseId cypher parameters results)
      time where
  fit := entriesFit_appendWalEntry hlog.fit hmutating
  entry := by
    intro key lines hget line hline
    have hprior : ∀ lines', store.get? key = some lines' → line ∈ lines' →
        ∃ e, line.read = some e ∧ e.ts ≤ time := by
      intro lines' hget' hline'
      obtain ⟨e, hread, hts⟩ := hlog.entry key lines' hget' line hline'
      exact ⟨e, hread, hts.trans hnow.le⟩
    rw [get?_appendWalEntry] at hget
    split at hget
    · cases hget
      rcases List.mem_append.1 hline with hline | hnew
      · cases hstore : store.get? key with
        | none => simp [hstore] at hline
        | some lines => exact hprior lines hstore (by simpa [hstore] using hline)
      · rw [List.mem_singleton.1 hnew]
        exact ⟨_, rfl, le_refl _⟩
    · exact hprior lines hget hline
  ordered := by
    intro key lines hget
    rw [get?_appendWalEntry] at hget
    split at hget
    · cases hget
      cases hstore : store.get? key with
      | none => simp
      | some lines =>
        refine List.pairwise_append.2 ⟨hlog.ordered key lines hstore, by simp, ?_⟩
        -- the new entry is later than what the log holds
        rintro line hline line' hnew e e' hread hread'
        obtain ⟨e₀, hread₀, hts⟩ := hlog.entry key lines hstore line hline
        rw [hread] at hread₀
        cases hread₀
        rw [List.mem_singleton.1 hnew] at hread'
        cases hread'
        exact hts.trans_lt hnow
    · exact hlog.ordered key lines hget

theorem get?_removeObject (key key' : WalKey) :
    (removeObject store key).get? key' = if key' = key then none else store.get? key' := by
  unfold removeObject ObjectStore.get?
  obtain ⟨uploads⟩ := store
  dsimp only
  induction uploads with
  | nil => simp
  | cons upload uploads ih =>
    obtain ⟨key₀, lines⟩ := upload
    by_cases hkey : key₀ = key
    · subst hkey
      rw [List.filter_cons_of_neg (by simp), ih]
      by_cases heq : key' = key₀
      · rw [if_pos heq, if_pos heq]
      · have hne : (key' == key₀) = false := by simpa using heq
        rw [if_neg heq, if_neg heq, List.lookup_cons, hne]
    · rw [List.filter_cons_of_pos (by simpa using hkey), List.lookup_cons, List.lookup_cons, ih]
      by_cases heq : key' = key
      · subst heq
        have hne : (key' == key₀) = false := by simpa using fun h => hkey h.symm
        simp [hne]
      · simp [heq]

/-- The loop deletes an object, or leaves it as it is; one it deletes is among its own. -/
theorem get?_deleteReplayed (tenantId databaseId : Uuid) (answers : PitrAnswers)
    (walFiles : List WalFile) (store : ObjectStore) (key : WalKey) :
    (deleteReplayed tenantId databaseId answers walFiles store).get? key = store.get? key ∨
      (deleteReplayed tenantId databaseId answers walFiles store).get? key = none ∧
        ∃ wal ∈ walFiles, wal.key = .wal key.second ∧ answers.deleteDatabase wal.key = true := by
  unfold deleteReplayed
  induction walFiles generalizing store with
  | nil => exact Or.inl rfl
  | cons wal walFiles ih =>
    rw [List.foldl_cons]
    have hstep : (if answers.deleteDatabase wal.key then
          deleteDatabase tenantId databaseId store wal.key else store).get? key = store.get? key ∨
        (if answers.deleteDatabase wal.key then
          deleteDatabase tenantId databaseId store wal.key else store).get? key = none ∧
            wal.key = .wal key.second ∧ answers.deleteDatabase wal.key = true := by
      by_cases hdelete : answers.deleteDatabase wal.key = true
      · rw [if_pos hdelete]
        unfold deleteDatabase
        split
        · next second hname =>
          rw [get?_removeObject]
          split
          · next hkey =>
            refine Or.inr ⟨rfl, ?_, hdelete⟩
            rw [hname, hkey]
          · exact Or.inl rfl
        · exact Or.inl rfl
      · rw [if_neg hdelete]
        exact Or.inl rfl
    rcases ih (if answers.deleteDatabase wal.key then
      deleteDatabase tenantId databaseId store wal.key else store) with hrest | ⟨hrest, hwal⟩
    · rw [hrest]
      rcases hstep with hkeep | ⟨hnone, hdeleted⟩
      · exact Or.inl hkeep
      · exact Or.inr ⟨hnone, wal, List.mem_cons_self, hdeleted⟩
    · obtain ⟨wal', hmem, hdeleted⟩ := hwal
      exact Or.inr ⟨hrest, wal', List.mem_cons_of_mem _ hmem, hdeleted⟩

theorem logOk_deleteReplayed (tenantId databaseId : Uuid) (answers : PitrAnswers)
    (walFiles : List WalFile) (hlog : LogOk store now) :
    LogOk (deleteReplayed tenantId databaseId answers walFiles store) now := by
  have hget : ∀ key lines,
      (deleteReplayed tenantId databaseId answers walFiles store).get? key = some lines →
      store.get? key = some lines := by
    intro key lines hget
    rcases get?_deleteReplayed tenantId databaseId answers walFiles store key with
      hkeep | ⟨hnone, -⟩
    · rwa [hkeep] at hget
    · rw [hnone] at hget
      cases hget
  exact ⟨fun key lines h => hlog.fit key lines (hget key lines h),
    fun key lines h => hlog.entry key lines (hget key lines h),
    fun key lines h => hlog.ordered key lines (hget key lines h)⟩

theorem LogOk.mono (hlog : LogOk store now) (hle : now ≤ time) : LogOk store time :=
  ⟨hlog.fit, fun key lines hget line hline =>
    let ⟨e, hread, hts⟩ := hlog.entry key lines hget line hline
    ⟨e, hread, hts.trans hle⟩, hlog.ordered⟩

theorem logged_deleteReplayed {answers : PitrAnswers} {walFiles : List WalFile}
    (h : Logged tenantId databaseId (deleteReplayed tenantId databaseId answers walFiles store)
      line) : Logged tenantId databaseId store line := by
  obtain ⟨second, lines, hget, hline⟩ := h
  rcases get?_deleteReplayed tenantId databaseId answers walFiles store
    ⟨tenantId, databaseId, second⟩ with
    hkeep | ⟨hnone, -⟩
  · rw [hkeep] at hget
    exact ⟨second, lines, hget, hline⟩
  · rw [hnone] at hget
    cases hget

/-- An entry stays in the log when its object is not deleted. -/
theorem logged_deleteReplayed_or {answers : PitrAnswers} {walFiles : List WalFile}
    (hlog : LogOk store now) (h : Logged tenantId databaseId store line) {e : ReplayEntry}
    (hread : line.read = some e) :
    Logged tenantId databaseId (deleteReplayed tenantId databaseId answers walFiles store) line ∨
      ∃ wal ∈ walFiles, wal.key = .wal e.ts.second ∧ answers.deleteDatabase wal.key = true := by
  obtain ⟨second, lines, hget, hline⟩ := h
  have hsecond : e.ts.second = second := (hlog.fit _ lines hget line hline e hread).1
  rcases get?_deleteReplayed tenantId databaseId answers walFiles store
    ⟨tenantId, databaseId, second⟩ with
    hkeep | ⟨-, hdeleted⟩
  · exact Or.inl ⟨second, lines, by rw [hkeep, hget], hline⟩
  · rw [hsecond]
    exact Or.inr hdeleted

/-! ### What a restore executes -/

/-- The lines a restore executes. -/
def replayedLines (tenantId databaseId : Uuid) (store : ObjectStore) (startTime endTime : Instant) :
    List WalLine :=
  (replayed startTime endTime (store.walObjects tenantId databaseId)).flatMap fun o =>
    executedLines WalLine.read endTime o.lines

variable {startTime endTime : Instant}

theorem mem_walObjects {o : WalObject WalLine} :
    o ∈ store.walObjects tenantId databaseId ↔
      store.get? ⟨tenantId, databaseId, o.second⟩ = some o.lines := by
  have hkeys : ∀ key, key ∈ store.uploads.map Prod.fst ↔ ∃ lines, store.get? key = some lines := by
    intro key
    rw [← Option.isSome_iff_exists]
    unfold ObjectStore.get?
    rw [List.mem_map, List.lookup_isSome_iff]
    constructor
    · rintro ⟨upload, hupload, rfl⟩
      exact ⟨upload, hupload, by simp⟩
    · rintro ⟨upload, hupload, hkey⟩
      exact ⟨upload, hupload, (by simpa using hkey : key = upload.1).symm⟩
  unfold ObjectStore.walObjects
  rw [List.mem_map]
  constructor
  · rintro ⟨⟨t, d, second⟩, hkey, rfl⟩
    rw [List.mem_filter, List.mem_dedup, hkeys] at hkey
    obtain ⟨⟨lines, hget⟩, hmine⟩ := hkey
    obtain ⟨rfl, rfl⟩ : t = tenantId ∧ d = databaseId := by simpa using hmine
    dsimp only
    rw [hget]
    rfl
  · intro hget
    refine ⟨⟨tenantId, databaseId, o.second⟩, ?_, by rw [hget]; rfl⟩
    rw [List.mem_filter, List.mem_dedup, hkeys]
    exact ⟨⟨o.lines, hget⟩, by simp⟩

/-- A restore executes the entries of the objects in range, up to the target. -/
theorem mem_replayedLines (hlog : LogOk store now) :
    line ∈ replayedLines tenantId databaseId store startTime endTime ↔
      Logged tenantId databaseId store line ∧
        ∃ e, line.read = some e ∧ startTime ≤ objectStart e ∧ e.ts ≤ endTime := by
  have hfilled : Filled WalLine.read (store.walObjects tenantId databaseId) :=
    filled_walObjects hlog.fit
  have hexecuted : ∀ o ∈ store.walObjects tenantId databaseId, startTime ≤ o.start →
      executedLines WalLine.read endTime o.lines =
        o.lines.filter (isBetween WalLine.read startTime endTime) := by
    intro o ho hstart
    refine ((executedLines_eq_filter_iff (start_le_of_inRange hfilled ho hstart)
      (hfilled.query o ho)).2 ?_).1
    refine (hlog.ordered _ _ (mem_walObjects.1 ho)).imp ?_
    intro line line' hearlier _ e e' hread hread'
    exact (hearlier e e' hread hread').le
  unfold replayedLines
  rw [List.mem_flatMap]
  constructor
  · rintro ⟨o, ho, hline⟩
    obtain ⟨ho, hstart, -⟩ := mem_replayed.1 ho
    rw [hexecuted o ho hstart, List.mem_filter, isBetween_iff] at hline
    obtain ⟨hline, e, hread, -, hts⟩ := hline
    refine ⟨⟨o.second, o.lines, mem_walObjects.1 ho, hline⟩, e, hread, ?_, hts⟩
    unfold objectStart
    rw [hfilled.second o ho line hline e hread]
    exact hstart
  · rintro ⟨⟨second, lines, hget, hline⟩, e, hread, hstart, hts⟩
    have ho : (⟨second, lines⟩ : WalObject WalLine) ∈ store.walObjects tenantId databaseId :=
      mem_walObjects.2 hget
    have hbetween := between_of_second (hfilled.second _ ho line hline e hread)
    have hsecond : objectStart e = (⟨second, lines⟩ : WalObject WalLine).start := by
      unfold objectStart
      rw [hfilled.second _ ho line hline e hread]
      rfl
    rw [hsecond] at hstart
    refine ⟨_, mem_replayed.2 ⟨ho, hstart, hbetween.1.trans hts⟩, ?_⟩
    rw [hexecuted _ ho hstart, List.mem_filter, isBetween_iff]
    exact ⟨hline, e, hread, hstart.trans hbetween.1, hts⟩

theorem pairwise_replayedLines (hlog : LogOk store now) :
    (replayedLines tenantId databaseId store startTime endTime).Pairwise Earlier := by
  have hfilled : Filled WalLine.read (store.walObjects tenantId databaseId) :=
    filled_walObjects hlog.fit
  unfold replayedLines
  rw [Lists.pairwise_flatMap_iff (replayed_pairwise hfilled.nodup)]
  · intro o ho
    have hordered := hlog.ordered _ _ (mem_walObjects.1 (mem_replayed.1 ho).1)
    exact hordered.sublist (List.filter_sublist.trans (List.takeWhile_sublist _))
  · intro o ho o' ho' hlt line hline line' hline' e e' hread hread'
    have hsecond := hfilled.second o (mem_replayed.1 ho).1 line (executedLines_subset hline) e hread
    have hsecond' :=
      hfilled.second o' (mem_replayed.1 ho').1 line' (executedLines_subset hline') e' hread'
    have hbefore := (between_of_second hsecond).2
    have hafter := (between_of_second hsecond').1
    exact hbefore.trans_le ((Nat.mul_le_mul_right 1000000 hlt).trans hafter)

/-- What a restore executes is known by the entries it finds. -/
theorem replayedLines_eq (hlog : LogOk store now) {lines : List WalLine}
    (hordered : lines.Pairwise Earlier)
    (hmem : ∀ line, line ∈ lines ↔ Logged tenantId databaseId store line ∧
      ∃ e, line.read = some e ∧ startTime ≤ objectStart e ∧ e.ts ≤ endTime) :
    replayedLines tenantId databaseId store startTime endTime = lines := by
  refine Lists.eq_of_mem_iff_of_pairwise ?_ (pairwise_replayedLines hlog) hordered ?_
  · intro line hline line' hline' hlt hgt
    obtain ⟨-, e, hread, -⟩ := (mem_replayedLines hlog).1 hline
    obtain ⟨-, e', hread', -⟩ := (mem_replayedLines hlog).1 hline'
    exact absurd (hlt e e' hread hread') (hgt e' e hread' hread).not_gt
  · intro line
    rw [mem_replayedLines hlog, hmem]

/-- A restore finds an entry that is appended, behind those it found before. -/
theorem replayedLines_appendWalEntry (hlog : LogOk store now) (htime : now < time)
    (hmutating : isMutating cypher = true) (hstart : startTime ≤ time.second * 1000000)
    (hend : time ≤ endTime) :
    replayedLines tenantId databaseId
        (appendWalEntry (logging time) store tenantId databaseId cypher parameters results)
        startTime endTime =
      replayedLines tenantId databaseId store startTime endTime ++
        [.entry (walEntry time cypher parameters results)] := by
  refine replayedLines_eq (logOk_appendWalEntry hlog htime hmutating) (List.pairwise_append.2
    ⟨pairwise_replayedLines hlog, by simp, ?_⟩) fun line => ?_
  · rintro line hline line' hnew e e' hread hread'
    obtain ⟨⟨second, lines, hget, hmem⟩, -⟩ := (mem_replayedLines hlog).1 hline
    obtain ⟨e₀, hread₀, hts⟩ := hlog.entry _ lines hget line hmem
    rw [hread] at hread₀
    cases hread₀
    rw [List.mem_singleton.1 hnew] at hread'
    cases hread'
    exact hts.trans_lt htime
  · rw [List.mem_append, mem_replayedLines hlog, List.mem_singleton, logged_appendWalEntry,
      or_and_right]
    refine or_congr_right ⟨?_, fun hnew => hnew.1⟩
    rintro rfl
    exact ⟨rfl, _, rfl, hstart, hend⟩

end Log

/-! ### What a restore gives -/

/-- The database after a query; one that fails changes nothing. -/
def applyQuery (engine : Engine σ) (db : σ) (query : String) : σ :=
  match engine query db with
  | .ok (_, db) => db
  | .error _ => db

/-- The database after the queries of the lines. -/
def runLines {L : Type} (decode : L → Option ReplayEntry) (engine : Engine σ) (db : σ)
    (lines : List L) : σ :=
  lines.foldl (fun db line =>
    match decode line with
    | some e => applyQuery engine db e.query
    | none => db) db

section Replay

variable {L : Type} {decode : L → Option ReplayEntry} {engine : Engine σ} {endTime : Instant}

@[simp]
theorem runLines_append (db : σ) (lines lines' : List L) :
    runLines decode engine db (lines ++ lines') =
      runLines decode engine (runLines decode engine db lines) lines' :=
  List.foldl_append

theorem runLines_singleton (db : σ) {line : L} {e : ReplayEntry} (hdecode : decode line = some e) :
    runLines decode engine db [line] = applyQuery engine db e.query := by
  simp [runLines, hdecode]

@[simp]
theorem executeQuery_snd (cypher : String) (parameters : Option Json) (timeout : ℤ) (db : σ) :
    (executeQuery engine cypher parameters timeout db).2 = applyQuery engine db cypher := by
  unfold executeQuery applyQuery
  cases engine cypher db <;> rfl

@[simp]
theorem db_execute (r : Replay σ L) (line : L) (query : String) :
    (r.execute engine line query).db = applyQuery engine r.db query := by
  unfold Replay.execute applyQuery
  cases engine query r.db <;> rfl

/-- The database is what the executed lines make of the snapshot's. -/
def Made (decode : L → Option ReplayEntry) (engine : Engine σ) (db : σ) (r : Replay σ L) : Prop :=
  r.db = runLines decode engine db r.executed

theorem made_replayLines {db : σ} {r : Replay σ L} (lines : List L) (endTime : Instant)
    (hr : Made decode engine db r) :
    Made decode engine db (replayLines decode engine endTime lines r).1 := by
  induction lines generalizing r with
  | nil => exact hr
  | cons line lines ih =>
    unfold replayLines
    cases hdecode : decode line with
    | none => exact ih hr
    | some e =>
      dsimp only
      split
      · exact hr
      · split
        · exact ih hr
        · refine ih ?_
          unfold Made at hr ⊢
          rw [db_execute, executed_execute, runLines_append, runLines_singleton _ hdecode, hr]

theorem made_replayWalFiles {download : WalName → Except PyError (List L)} {db : σ}
    {walFiles : List WalFile} {r : Replay σ L} (hr : Made decode engine db r) :
    Made decode engine db (replayWalFiles decode engine download endTime walFiles r) := by
  induction walFiles generalizing r with
  | nil => exact hr
  | cons wal walFiles ih =>
    unfold replayWalFiles
    split
    · exact ih hr
    · next lines _ =>
      have hlines := made_replayLines lines endTime hr
      split
      · next h =>
        rw [h] at hlines
        exact hlines
      · next h =>
        rw [h] at hlines
        exact ih hlines

/-- A restore makes its result from the archive of its snapshot. -/
theorem made_execute {answers : RestoreAnswers σ L} {req : RestoreRequest} {snapshot : Snapshot}
    {objects : List (WalObject L)} {db : σ} {r : Replay σ L}
    (hserves : Serves answers req snapshot objects)
    (hdb : answers.restoreSnapshot snapshot = .ok db)
    (hexecute : execute decode engine answers req = .ok r) : Made decode engine db r := by
  obtain ⟨path, hinfo, hpath⟩ := hserves.findById
  obtain ⟨all, hall, hnearest⟩ := hserves.nearest
  obtain ⟨token, hlock⟩ := hserves.acquireLock
  have heq : execute decode engine answers req =
      .ok (replayWalFiles decode engine answers.download req.targetTimestamp
        (findWalFilesInRange answers.listObjects snapshot.createdAt req.targetTimestamp)
        ⟨db, [], 0⟩) := by
    simp [execute, raising, hserves.checkPermission, hserves.now.not_gt, hinfo, hpath, hall,
      hnearest, hlock, hdb, Except.mapError, bind, Except.bind, pure, Except.pure]
  rw [heq] at hexecute
  cases hexecute
  exact made_replayWalFiles rfl

end Replay

/-- The archive of the snapshot, and on it the entries it finds. -/
def History.rebuilt (engine : Engine σ) (tenantId databaseId : Uuid) (s : History σ)
    (target : Instant) : Option σ :=
  (findNearestSnapshot s.snapshots target).bind fun snapshot =>
    (s.archives[snapshot.id]?).map fun db => runLines WalLine.read engine db
      (replayedLines tenantId databaseId s.store snapshot.createdAt target)

section Restore

variable {engine : Engine σ} {tenantId databaseId : Uuid} {s s' : History σ}
  {now target time : Instant} {db : σ} {snapshot : Snapshot} {all : List Snapshot}

theorem db_execute_eq (hlog : LogOk s.store s.now) (hnow : target ≤ now) :
    (execute WalLine.read engine (s.answers tenantId databaseId now)
        ⟨tenantId, databaseId, target⟩).toOption.map Replay.db =
      s.rebuilt engine tenantId databaseId target := by
  have hfilled : Filled WalLine.read (s.store.walObjects tenantId databaseId) :=
    filled_walObjects hlog.fit
  unfold History.rebuilt
  cases hnearest : findNearestSnapshot s.snapshots target with
  | none =>
    simp [execute, History.answers, raising, Except.mapError, bind, Except.bind, hnow.not_gt,
      hnearest, throw, throwThe, MonadExceptOf.throw, Except.toOption]
  | some snapshot =>
    cases harchive : s.archives[snapshot.id]? with
    | none =>
      simp [execute, History.answers, raising, Except.mapError, bind, Except.bind, hnow.not_gt,
        hnearest, harchive, Except.toOption]
    | some db =>
      have hserves : Serves (s.answers tenantId databaseId now) ⟨tenantId, databaseId, target⟩
          snapshot (s.store.walObjects tenantId databaseId) := by
        refine ⟨rfl, hnow, ⟨"data.kuzu", rfl, by decide⟩, ⟨s.snapshots, rfl, hnearest⟩,
          ⟨"token", rfl⟩, ⟨db, ?_⟩, rfl, fun o ho => ?_⟩
        · simp [History.answers, harchive]
        · simp [History.answers, mem_walObjects.1 ho]
      obtain ⟨r, hexecute, hexecuted⟩ := execute_eq engine hserves hfilled
      have hmade : r.db = runLines WalLine.read engine db r.executed :=
        made_execute hserves (by simp [History.answers, harchive]) hexecute
      rw [hexecute, Option.bind_some, harchive, Option.map_some]
      dsimp only [Except.toOption]
      rw [Option.map_some, hmade, hexecuted]
      rfl

/-- **What a restore gives**: the archive of its snapshot, and on it the entries it finds. -/
theorem restoreTo_eq (hlog : LogOk s.store s.now) (target : Instant) :
    s.restoreTo engine tenantId databaseId target = s.rebuilt engine tenantId databaseId target :=
  db_execute_eq hlog (le_max_right _ _)

/-! ### The snapshot of a restore -/

theorem nearest_mem (h : findNearestSnapshot all target = some snapshot) :
    snapshot ∈ all ∧ snapshot.createdAt ≤ target := by
  have hmem := List.mem_filter.1 (List.argmax_mem h)
  exact ⟨hmem.1, of_decide_eq_true hmem.2⟩

/-- The snapshot of a later target is not earlier. -/
theorem nearest_mono (hle : target ≤ time) {snapshot' : Snapshot}
    (h : findNearestSnapshot all target = some snapshot)
    (h' : findNearestSnapshot all time = some snapshot') :
    snapshot.createdAt ≤ snapshot'.createdAt := by
  obtain ⟨hmem, hcreated⟩ := nearest_mem h
  refine List.le_of_mem_argmax (List.mem_filter.2 ⟨hmem, ?_⟩) h'
  exact decide_eq_true (hcreated.trans hle)

theorem nearest_of_le (hall : ∀ snapshot ∈ all, snapshot.createdAt ≤ target) (hle : target ≤ time) :
    findNearestSnapshot all time = findNearestSnapshot all target := by
  unfold findNearestSnapshot
  rw [List.filter_eq_self.2 fun snapshot h => decide_eq_true ((hall snapshot h).trans hle),
    List.filter_eq_self.2 fun snapshot h => decide_eq_true (hall snapshot h)]

theorem nearest_cons_of_lt (h : target < snapshot.createdAt) :
    findNearestSnapshot (snapshot :: all) target = findNearestSnapshot all target := by
  unfold findNearestSnapshot
  rw [List.filter_cons_of_neg (by simpa using h)]

theorem nearest_cons_of_le (h : snapshot.createdAt ≤ target)
    (hall : ∀ snapshot' ∈ all, snapshot'.createdAt ≤ snapshot.createdAt) :
    findNearestSnapshot (snapshot :: all) target = some snapshot := by
  unfold findNearestSnapshot
  rw [List.filter_cons_of_pos (by simpa using h), List.argmax_cons]
  cases hrest : (all.filter fun snapshot => snapshot.createdAt ≤ target).argmax
      Snapshot.createdAt with
  | none => rfl
  | some last =>
    have hlast := hall last (List.mem_filter.1 (List.argmax_mem hrest)).1
    exact if_neg hlast.not_gt

/-! ### The invariant -/

/-- The log and the snapshots are of the past, and the record is up to date. -/
structure History.Ok (s : History σ) : Prop where
  log : LogOk s.store s.now
  createdAt : ∀ snapshot ∈ s.snapshots, snapshot.createdAt ≤ s.now
  archive : ∀ snapshot ∈ s.snapshots, snapshot.id < s.archives.length
  restoredAt : ∀ R, s.restoredAt = some R → R ≤ s.now
  content : ∀ time, s.now ≤ time → s.contentAt time = some s.db

theorem ok_start (db : σ) : (History.start db).Ok where
  log := by
    refine ⟨?_, ?_, ?_⟩ <;> intro key lines hget <;> cases hget
  createdAt := by simp [History.start]
  archive := by simp [History.start]
  restoredAt := by simp [History.start]
  content := by simp [History.start, History.contentAt]

theorem contentAt_hold_of_le (h : time ≤ target) :
    (s.hold time db).contentAt target = some db := by
  simp [History.hold, History.contentAt, h]

theorem contentAt_hold_of_lt (h : target < time) :
    (s.hold time db).contentAt target = s.contentAt target := by
  simp [History.hold, History.contentAt, h.not_ge]

theorem ok_hold (hs : s.Ok) (htime : s.now < time) (db : σ) : (s.hold time db).Ok where
  log := hs.log.mono htime.le
  createdAt := fun snapshot h => (hs.createdAt snapshot h).trans htime.le
  archive := hs.archive
  restoredAt := fun R h => (hs.restoredAt R h).trans htime.le
  content := fun _ h => contentAt_hold_of_le h

theorem ok_restored (hs : s.Ok) (htime : s.now < time) (db : σ) : (s.restored time db).Ok where
  log := hs.log.mono htime.le
  createdAt := (ok_hold hs htime db).createdAt
  archive := hs.archive
  restoredAt := by
    intro R hR
    have hR : s.restoredAt.or (some time) = some R := hR
    cases hfirst : s.restoredAt with
    | none =>
      rw [hfirst] at hR
      cases hR
      exact le_refl _
    | some first =>
      rw [hfirst] at hR
      cases hR
      exact (hs.restoredAt R hfirst).trans htime.le
  content := fun _ h => contentAt_hold_of_le h

theorem ok_saveSnapshot (hs : s.Ok) : s.saveSnapshot.Ok where
  log := hs.log
  createdAt := List.forall_mem_cons.2 ⟨le_refl _, hs.createdAt⟩
  archive := by
    refine List.forall_mem_cons.2 ⟨by simp [History.saveSnapshot], fun snapshot h => ?_⟩
    exact (hs.archive snapshot h).trans_le (by simp [History.saveSnapshot])
  restoredAt := hs.restoredAt
  content := hs.content

theorem ok_store (hs : s.Ok) {store : ObjectStore} (hlog : LogOk store s.now) :
    History.Ok { s with store := store } :=
  ⟨hlog, hs.createdAt, hs.archive, hs.restoredAt, hs.content⟩

theorem ok_afterReplay (hs : s.Ok) (tenantId databaseId : Uuid) (answers : PitrAnswers)
    (walFiles : List WalFile) :
    (s.afterReplay tenantId databaseId answers walFiles).Ok := by
  unfold History.afterReplay
  split
  · exact hs
  · exact ok_saveSnapshot hs
  · split
    · exact ok_store (ok_saveSnapshot hs) (logOk_deleteReplayed _ _ _ _ hs.log)
    · exact ok_saveSnapshot hs

/-- What follows the replay leaves the database and the record as they are. -/
theorem afterReplay_record (s : History σ) (tenantId databaseId : Uuid) (answers : PitrAnswers)
    (walFiles : List WalFile) :
    (s.afterReplay tenantId databaseId answers walFiles).now = s.now ∧
      (s.afterReplay tenantId databaseId answers walFiles).db = s.db ∧
      (s.afterReplay tenantId databaseId answers walFiles).restoredAt = s.restoredAt ∧
      (s.afterReplay tenantId databaseId answers walFiles).contents = s.contents := by
  unfold History.afterReplay
  split
  · exact ⟨rfl, rfl, rfl, rfl⟩
  · exact ⟨rfl, rfl, rfl, rfl⟩
  · split <;> exact ⟨rfl, rfl, rfl, rfl⟩

/-! ### Restores after an action -/

/-- A restore to a time before a snapshot does not see it. -/
theorem rebuilt_saveSnapshot_of_lt (hs : s.Ok) (h : target < s.now) :
    s.saveSnapshot.rebuilt engine tenantId databaseId target =
      s.rebuilt engine tenantId databaseId target := by
  unfold History.rebuilt History.saveSnapshot
  dsimp only
  rw [nearest_cons_of_lt h]
  refine Option.bind_congr fun snapshot hnearest => ?_
  rw [List.getElem?_append_left (hs.archive snapshot (nearest_mem hnearest).1)]

/-- A restore to a time since a snapshot gives it, when nothing is logged since. -/
theorem rebuilt_saveSnapshot_of_le (engine : Engine σ) (tenantId databaseId : Uuid)
    {before : Instant} (hs : s.Ok) (hlog : LogOk s.store before) (hbefore : before < s.now)
    (h : s.now ≤ target) :
    s.saveSnapshot.rebuilt engine tenantId databaseId target = some s.db := by
  have hnone : replayedLines tenantId databaseId s.store s.now target = [] := by
    refine List.eq_nil_iff_forall_not_mem.2 fun line hline => ?_
    obtain ⟨⟨second, lines, hget, hmem⟩, e, hread, hstart, -⟩ := (mem_replayedLines hlog).1 hline
    obtain ⟨e', hread', hts⟩ := hlog.entry _ lines hget line hmem
    rw [hread] at hread'
    cases hread'
    have hbetween := between_of_second (rfl : e.ts.second = e.ts.second)
    exact absurd (hstart.trans (hbetween.1.trans hts)) hbefore.not_ge
  unfold History.rebuilt History.saveSnapshot
  dsimp only
  rw [nearest_cons_of_le h hs.createdAt, Option.bind_some, hnone]
  simp [runLines]

/-- A restore sees a log by the entries it finds. -/
theorem rebuilt_store_congr {store : ObjectStore} (hlog : LogOk s.store s.now)
    (hlog' : LogOk store now)
    (hmem : ∀ snapshot, findNearestSnapshot s.snapshots target = some snapshot → ∀ line e,
      line.read = some e → snapshot.createdAt ≤ objectStart e → e.ts ≤ target →
      (Logged tenantId databaseId store line ↔ Logged tenantId databaseId s.store line)) :
    History.rebuilt engine tenantId databaseId { s with store := store } target =
      s.rebuilt engine tenantId databaseId target := by
  unfold History.rebuilt
  dsimp only
  refine Option.bind_congr fun snapshot hnearest => ?_
  have hlines : replayedLines tenantId databaseId store snapshot.createdAt target =
      replayedLines tenantId databaseId s.store snapshot.createdAt target := by
    refine replayedLines_eq hlog' (pairwise_replayedLines hlog) fun line => ?_
    rw [mem_replayedLines hlog]
    constructor
    · rintro ⟨hlogged, e, hread, hstart, hts⟩
      exact ⟨(hmem snapshot hnearest line e hread hstart hts).2 hlogged, e, hread, hstart, hts⟩
    · rintro ⟨hlogged, e, hread, hstart, hts⟩
      exact ⟨(hmem snapshot hnearest line e hread hstart hts).1 hlogged, e, hread, hstart, hts⟩
  rw [hlines]

theorem walFile_timestamp {all : List WalFile} {objects : List (WalObject WalLine)}
    {startTime endTime : Instant}
    (hall : all = findWalFilesInRange (.ok (objects.map fun o => .wal o.second)) startTime endTime)
    {wal : WalFile} (hwal : wal ∈ all) {second : ℕ} (hkey : wal.key = .wal second) :
    wal.timestamp = second * 1000000 := by
  rw [hall, findWalFilesInRange_eq] at hwal
  obtain ⟨o, -, rfl⟩ := List.mem_map.1 hwal
  cases hkey
  rfl

/-- What a restore does after the replay is not seen by a restore to an earlier time, when the
objects it deletes start before the snapshot of that. -/
theorem rebuilt_afterReplay_of_lt (hs : s.Ok) (h : target < s.now) {answers : PitrAnswers}
    {walFiles : List WalFile}
    (htimestamp : ∀ wal ∈ walFiles, ∀ second, wal.key = .wal second →
      wal.timestamp = second * 1000000)
    (hkeep : ∀ snapshot, findNearestSnapshot s.snapshots target = some snapshot →
      ∀ wal ∈ walFiles, answers.Deletes wal → wal.timestamp < snapshot.createdAt) :
    (s.afterReplay tenantId databaseId answers walFiles).rebuilt engine tenantId databaseId target =
      s.rebuilt engine tenantId databaseId target := by
  unfold History.afterReplay
  split
  · rfl
  · exact rebuilt_saveSnapshot_of_lt hs h
  · next hcreated =>
    split
    · next hdelete =>
      have hlog := logOk_deleteReplayed tenantId databaseId answers walFiles hs.log
      refine (rebuilt_saveSnapshot_of_lt (ok_store hs hlog) h).trans
        (rebuilt_store_congr hs.log hlog ?_)
      intro snapshot hnearest line e hread hstart hts
      refine ⟨logged_deleteReplayed, fun hlogged => ?_⟩
      -- an entry the restore finds is in no object that is deleted
      rcases logged_deleteReplayed_or hs.log hlogged hread with hkept | ⟨wal, hwal, hkey, hgone⟩
      · exact hkept
      · have hlt := hkeep snapshot hnearest wal hwal ⟨hcreated, hdelete, hgone⟩
        rw [htimestamp wal hwal _ hkey] at hlt
        exact absurd hstart hlt.not_ge
    · exact rebuilt_saveSnapshot_of_lt hs h

/-- A restore to a time since the snapshot of the restored state gives it. -/
theorem rebuilt_afterReplay_of_le {before : Instant} (hs : s.Ok) (hlog : LogOk s.store before)
    (hbefore : before < s.now) (h : s.now ≤ target) {answers : PitrAnswers}
    {walFiles : List WalFile} (harchive : answers.archive ≠ .missing) :
    (s.afterReplay tenantId databaseId answers walFiles).rebuilt engine tenantId databaseId target =
      some s.db := by
  unfold History.afterReplay
  split
  · contradiction
  · exact rebuilt_saveSnapshot_of_le _ _ _ hs hlog hbefore h
  · split
    · have hdeleted :=
        ok_store hs (logOk_deleteReplayed tenantId databaseId answers walFiles hs.log)
      have hlog := logOk_deleteReplayed tenantId databaseId answers walFiles hlog
      have hgives := rebuilt_saveSnapshot_of_le engine tenantId databaseId hdeleted hlog hbefore h
      exact hgives
    · exact rebuilt_saveSnapshot_of_le _ _ _ hs hlog hbefore h

/-- What has to hold of an action: a restore to a time before it gives what it gave, and one to a
later time the database. -/
theorem recoversRight_of_step (hs' : s'.Ok) (h : RecoversRight engine tenantId databaseId s)
    (hs : s.Ok)
    (hearlier : ∀ R time, s'.restoredAt = some R → R ≤ time → time < s'.now →
      s.restoredAt = some R ∧ s'.contentAt time = s.contentAt time ∧
        s'.rebuilt engine tenantId databaseId time = s.rebuilt engine tenantId databaseId time)
    (hlater : s'.restoredAt.isSome → ∀ time, s'.now ≤ time →
      s'.rebuilt engine tenantId databaseId time = some s'.db) :
    RecoversRight engine tenantId databaseId s' := by
  intro R hR time hle
  rw [restoreTo_eq hs'.log]
  rcases lt_or_ge time s'.now with hlt | hge
  · obtain ⟨hR, hcontent, hrebuilt⟩ := hearlier R time hR hle hlt
    obtain ⟨db, hdb, hrestore⟩ := h R hR time hle
    rw [restoreTo_eq hs.log] at hrestore
    exact ⟨db, hcontent.trans hdb, hrebuilt.trans hrestore⟩
  · exact ⟨s'.db, hs'.content time hge, hlater (by rw [hR]; rfl) time hge⟩

/-- A later restore gives the database. -/
theorem rebuilt_of_recoversRight (hs : s.Ok) (h : RecoversRight engine tenantId databaseId s)
    (hrestored : s.restoredAt.isSome) (hle : s.now ≤ time) :
    s.rebuilt engine tenantId databaseId time = some s.db := by
  obtain ⟨R, hR⟩ := Option.isSome_iff_exists.1 hrestored
  obtain ⟨db, hdb, hrestore⟩ := h R hR time ((hs.restoredAt R hR).trans hle)
  rw [hs.content time hle] at hdb
  cases hdb
  rw [← restoreTo_eq hs.log, hrestore]

/-- The first restore is the first. -/
theorem restoredAt_restored {R : Instant} (hR : (s.restored time db).restoredAt = some R)
    (hlt : R < time) : s.restoredAt = some R := by
  have hR : s.restoredAt.or (some time) = some R := hR
  cases hfirst : s.restoredAt with
  | none =>
    rw [hfirst] at hR
    cases hR
    exact absurd hlt (lt_irrefl _)
  | some first =>
    rw [hfirst] at hR
    cases hR
    rfl

/-- A query that is logged in a second since the last snapshot is found by later restores. -/
theorem recoversRight_mutate {cypher : String} {parameters : Option Json} (hs : s.Ok)
    (h : RecoversRight engine tenantId databaseId s)
    (hsafe : Safe tenantId databaseId s (.mutate time cypher parameters))
    (hstep : step engine tenantId databaseId s (.mutate time cypher parameters) = some s') :
    s'.Ok ∧ RecoversRight engine tenantId databaseId s' := by
  unfold step at hstep
  dsimp only at hstep
  split at hstep
  · next hcond =>
    obtain ⟨htime, hmutating⟩ := hcond
    cases hstep
    generalize (executeQuery engine cypher parameters 30 s.db).1.results = results
    rw [executeQuery_snd]
    have hlog : LogOk (appendWalEntry (logging time) s.store tenantId databaseId cypher parameters
        results) time := logOk_appendWalEntry hs.log htime hmutating
    have hok := ok_store (ok_hold hs htime (applyQuery engine s.db cypher)) hlog
    refine ⟨hok, recoversRight_of_step hok h hs ?_ ?_⟩
    · intro R target hR _ hlt
      refine ⟨hR, contentAt_hold_of_lt hlt, ?_⟩
      refine (rebuilt_store_congr (hs.log.mono htime.le) hlog fun snapshot _ line e hread _ hts =>
        ?_)
      rw [logged_appendWalEntry]
      refine or_iff_left fun hnew => ?_
      rw [hnew] at hread
      cases hread
      exact absurd hts (not_le.2 hlt)
    · intro hrestored target hle
      have hprior := rebuilt_of_recoversRight hs h hrestored (htime.le.trans hle)
      unfold History.rebuilt at hprior ⊢
      obtain ⟨snapshot, hnearest, hprior⟩ := Option.bind_eq_some_iff.1 hprior
      obtain ⟨archived, harchive, hprior⟩ := Option.map_eq_some_iff.1 hprior
      have hlast : snapshot.createdAt ≤ time.second * 1000000 := by
        refine hsafe hrestored snapshot ?_
        have hpast : ∀ snapshot ∈ s.snapshots, snapshot.createdAt ≤ time :=
          fun snapshot hmem => (hs.createdAt snapshot hmem).trans htime.le
        rw [← nearest_of_le hpast hle]
        exact hnearest
      refine Option.bind_eq_some_iff.2 ⟨snapshot, hnearest, Option.map_eq_some_iff.2
        ⟨archived, harchive, ?_⟩⟩
      change runLines WalLine.read engine archived (replayedLines tenantId databaseId
        (appendWalEntry (logging time) s.store tenantId databaseId cypher parameters results)
          snapshot.createdAt target) = applyQuery engine s.db cypher
      rw [replayedLines_appendWalEntry hs.log htime hmutating hlast hle, runLines_append, hprior]
      exact runLines_singleton _ rfl
  · cases hstep

/-- A snapshot is what later restores start from. -/
theorem recoversRight_snapshot (hs : s.Ok) (h : RecoversRight engine tenantId databaseId s)
    (hstep : step engine tenantId databaseId s (.snapshot time) = some s') :
    s'.Ok ∧ RecoversRight engine tenantId databaseId s' := by
  unfold step at hstep
  dsimp only at hstep
  split at hstep
  · next htime =>
    cases hstep
    have hheld := ok_hold hs htime s.db
    have hok := ok_saveSnapshot hheld
    refine ⟨hok, recoversRight_of_step hok h hs ?_ ?_⟩
    · intro R target hR _ hlt
      exact ⟨hR, contentAt_hold_of_lt hlt, rebuilt_saveSnapshot_of_lt hheld hlt⟩
    · intro _ target hle
      exact rebuilt_saveSnapshot_of_le _ _ _ hheld hs.log htime hle
  · cases hstep

/-- What a restore that abandons nothing gives is what later restores give. -/
theorem rebuilt_of_not_abandons (hs : s.Ok) (hle : target ≤ time)
    (hnone : ¬ s.Abandons tenantId databaseId target) :
    s.rebuilt engine tenantId databaseId time = s.rebuilt engine tenantId databaseId target := by
  unfold History.Abandons at hnone
  push Not at hnone
  obtain ⟨hsnapshots, hentries⟩ := hnone
  unfold History.rebuilt
  rw [nearest_of_le hsnapshots hle]
  refine Option.bind_congr fun snapshot hnearest => ?_
  have hlines : replayedLines tenantId databaseId s.store snapshot.createdAt time =
      replayedLines tenantId databaseId s.store snapshot.createdAt target := by
    refine replayedLines_eq hs.log (pairwise_replayedLines hs.log) fun line => ?_
    rw [mem_replayedLines hs.log]
    refine and_congr_right fun hlogged => ?_
    constructor
    · rintro ⟨e, hread, hstart, hts⟩
      exact ⟨e, hread, hstart, hts.trans hle⟩
    · rintro ⟨e, hread, hstart, -⟩
      exact ⟨e, hread, hstart, hentries snapshot line e hnearest hlogged hread hstart⟩
  rw [hlines]

/-- A point-in-time restore is what later restores give, when the restored state has a snapshot or
nothing is abandoned. -/
theorem recoversRight_restorePitr {answers : PitrAnswers} (hs : s.Ok)
    (h : RecoversRight engine tenantId databaseId s)
    (hsafe : Safe tenantId databaseId s (.restorePitr time target answers))
    (hstep : step engine tenantId databaseId s (.restorePitr time target answers) = some s') :
    s'.Ok ∧ RecoversRight engine tenantId databaseId s' := by
  obtain ⟨habandons, hdeletes⟩ := hsafe
  unfold step at hstep
  dsimp only at hstep
  split at hstep
  · next htime =>
    split at hstep
    · next snapshot replay hnearest hexecute =>
      cases hstep
      have htarget : target ≤ time := by
        by_contra hlt
        simp [execute, History.answers, raising, Except.mapError, bind, Except.bind,
          not_le.1 hlt, throw, throwThe, MonadExceptOf.throw] at hexecute
      have hreplay : s.rebuilt engine tenantId databaseId target = some replay.db := by
        rw [← db_execute_eq hs.log htarget, hexecute]
        rfl
      have hrestored := ok_restored hs htime replay.db
      have hok := ok_afterReplay hrestored tenantId databaseId answers
        (s.walFiles tenantId databaseId snapshot target)
      obtain ⟨hnow, hdb, hfirst, hcontents⟩ := afterReplay_record (s.restored time replay.db)
        tenantId databaseId answers (s.walFiles tenantId databaseId snapshot target)
      refine ⟨hok, recoversRight_of_step hok h hs ?_ ?_⟩
      · intro R target' hR hle hlt
        rw [hfirst] at hR
        rw [hnow] at hlt
        have hR := restoredAt_restored hR (hle.trans_lt hlt)
        refine ⟨hR, ?_, ?_⟩
        · unfold History.contentAt
          rw [hcontents]
          exact contentAt_hold_of_lt hlt
        · refine rebuilt_afterReplay_of_lt hrestored hlt
            (fun wal hwal second hkey => walFile_timestamp rfl hwal hkey) ?_
          intro snapshot' hnearest' wal hwal hdeleted
          obtain ⟨_, _, hrestore⟩ := h R hR R le_rfl
          rw [restoreTo_eq hs.log] at hrestore
          obtain ⟨first, hnearestR, -⟩ := Option.bind_eq_some_iff.1 hrestore
          exact (hdeletes R first snapshot hR hnearestR hnearest wal hwal hdeleted).trans_le
            (nearest_mono hle hnearestR hnearest')
      · intro _ target' hle
        rw [hnow] at hle
        rw [hdb]
        -- without a snapshot of the restored state, nothing may be abandoned
        by_cases harchive : answers.archive = .missing
        · have hsame : (s.restored time replay.db).afterReplay tenantId databaseId answers
              (s.walFiles tenantId databaseId snapshot target) = s.restored time replay.db := by
            unfold History.afterReplay
            rw [harchive]
          rw [hsame]
          exact (rebuilt_of_not_abandons hs (htarget.trans hle) (habandons harchive)).trans hreplay
        · exact rebuilt_afterReplay_of_le hrestored hs.log htime hle harchive
    · cases hstep
  · cases hstep

/-- A restore from the last snapshot, with nothing logged since, is what later restores give. -/
theorem recoversRight_restoreSnapshot {snapshotId : Uuid} (hs : s.Ok)
    (h : RecoversRight engine tenantId databaseId s)
    (hsafe : Safe tenantId databaseId s (.restoreSnapshot time snapshotId))
    (hstep : step engine tenantId databaseId s (.restoreSnapshot time snapshotId) = some s') :
    s'.Ok ∧ RecoversRight engine tenantId databaseId s' := by
  obtain ⟨last, hnearest, hid, hnone⟩ := hsafe
  unfold step at hstep
  dsimp only at hstep
  split at hstep
  · next htime =>
    split at hstep
    · next snapshot hfind =>
      obtain ⟨db, harchive, rfl⟩ := Option.map_eq_some_iff.1 hstep
      have hfound : snapshot.id = snapshotId := by simpa using List.find?_some hfind
      have hok := ok_restored hs htime db
      refine ⟨hok, recoversRight_of_step hok h hs ?_ ?_⟩
      · intro R target hR hle hlt
        exact ⟨restoredAt_restored hR (hle.trans_lt hlt), contentAt_hold_of_lt hlt, rfl⟩
      · intro _ target hle
        have hpast : ∀ snapshot ∈ s.snapshots, snapshot.createdAt ≤ time :=
          fun snapshot hmem => (hs.createdAt snapshot hmem).trans htime.le
        have hlines : replayedLines tenantId databaseId s.store last.createdAt target = [] := by
          refine List.eq_nil_iff_forall_not_mem.2 fun line hline => ?_
          obtain ⟨hlogged, e, hread, hstart, -⟩ := (mem_replayedLines hs.log).1 hline
          exact absurd hstart (hnone line e hlogged hread).not_ge
        change s.rebuilt engine tenantId databaseId target = some db
        unfold History.rebuilt
        rw [nearest_of_le hpast hle, hnearest, Option.bind_some, hid, ← hfound, harchive, hlines]
        rfl
    · cases hstep
  · cases hstep

end Restore

/-- **When every action of a history is safe, every restore to a time since the first restore gives
what the database held then.** -/
theorem always_recoversRight {engine : Engine σ} {tenantId databaseId : Uuid} {db : σ}
    {actions : List Action}
    (h : Runs.EachStep (step engine tenantId databaseId)
      (fun s action _ => Safe tenantId databaseId s action) (History.start db) actions) :
    Runs.Always (step engine tenantId databaseId) (RecoversRight engine tenantId databaseId)
      (History.start db) actions := by
  have hinv : ∀ s action s', s.Ok ∧ RecoversRight engine tenantId databaseId s →
      step engine tenantId databaseId s action = some s' → Safe tenantId databaseId s action →
      s'.Ok ∧ RecoversRight engine tenantId databaseId s' := by
    rintro s action s' ⟨hs, hright⟩ hstep hsafe
    cases action with
    | mutate time cypher parameters => exact recoversRight_mutate hs hright hsafe hstep
    | snapshot time => exact recoversRight_snapshot hs hright hstep
    | restorePitr time target answers => exact recoversRight_restorePitr hs hright hsafe hstep
    | restoreSnapshot time snapshotId => exact recoversRight_restoreSnapshot hs hright hsafe hstep
  refine Runs.always_of_eachStep (fun s hs => hs.2) hinv ⟨ok_start db, ?_⟩ actions h
  intro R hR
  cases hR

/-! ### A query that is abandoned -/

/-- The restored state has no snapshot. -/
def testMissing : PitrAnswers := ⟨.missing, true, fun _ => true⟩

/-- The restored state has a snapshot, and the log of the replay is deleted. -/
def testCreated : PitrAnswers := ⟨.created, true, fun _ => true⟩

/-- A snapshot, and a query a second later. -/
def testActions : List Action := [.snapshot 1000000, .mutate 2000000 "CREATE (n)" none]

/-- Two restores with snapshots of the restored states, and a query between them. -/
theorem always_recoversRight_created :
    Runs.Always (step testEngine 0 0) (RecoversRight testEngine 0 0) (History.start [])
      (testActions ++ [.restorePitr 3000000 1000000 testCreated,
        .mutate 4000000 "CREATE (n)" none, .restorePitr 5000000 3000000 testCreated]) := by
  refine always_recoversRight ?_
  unfold testActions
  simp only [List.cons_append, List.nil_append]
  rw [Runs.eachStep_cons]
  rintro s₁ ⟨⟩
  refine ⟨trivial, ?_⟩
  rw [Runs.eachStep_cons]
  rintro s₂ ⟨⟩
  refine ⟨fun h => absurd h (by decide), ?_⟩
  rw [Runs.eachStep_cons]
  rintro s₃ ⟨⟩
  refine ⟨⟨fun h => absurd h (by decide), ?_⟩, ?_⟩
  · rintro R first snapshot ⟨⟩
  rw [Runs.eachStep_cons]
  rintro s₄ ⟨⟩
  refine ⟨?_, ?_⟩
  · rintro - snapshot ⟨⟩
    decide
  rw [Runs.eachStep_cons]
  rintro s₅ ⟨⟩
  refine ⟨⟨fun h => absurd h (by decide), ?_⟩, Runs.eachStep_nil⟩
  rintro R first snapshot ⟨⟩ ⟨⟩ ⟨⟩ wal hwal
  exact (List.not_mem_nil hwal).elim

/-- **A query that a restore has abandoned is executed again by the next one**: when the restored
state has no snapshot, and after any restore from a snapshot. -/
theorem not_always_recoversRight :
    (¬ Runs.Always (step testEngine 0 0) (RecoversRight testEngine 0 0) (History.start [])
      (testActions ++ [.restorePitr 3000000 1000000 testMissing])) ∧
    ¬ Runs.Always (step testEngine 0 0) (RecoversRight testEngine 0 0) (History.start [])
      (testActions ++ [.restoreSnapshot 3000000 0]) := by
  constructor
  · intro h
    obtain ⟨db, hcontent, hrestore⟩ :=
      h _ List.prefix_rfl _ rfl 3000000 rfl 3000000 le_rfl
    cases hcontent
    exact absurd hrestore (by decide +kernel)
  · intro h
    obtain ⟨db, hcontent, hrestore⟩ :=
      h _ List.prefix_rfl _ rfl 3000000 rfl 3000000 le_rfl
    cases hcontent
    exact absurd hrestore (by decide +kernel)

end KuzuEventBus.Service.Timelines
