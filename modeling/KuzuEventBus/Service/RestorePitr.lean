import KuzuEventBus.Lib.Lists
import KuzuEventBus.Service.QueryWorker
import Mathlib.Data.List.Dedup
import Mathlib.Data.List.MinMax
import Mathlib.Data.List.Sort

/-!
# Point-in-time restore

`src/application/usecases/restore_database_pitr.py`: the latest snapshot that is not after the
target is restored, and the write-ahead log is replayed from its time to the target.  The objects
of the log are chosen by the second in their name, the entries by their own timestamps.

What a line of the log says is a parameter, `decode`: the parts of the entry that
`json.loads` and `fromisoformat` read from it, if they do.  What the restore does after
the replay, to the cache, the archive and the log, executes no query.

## Main definitions

* `findNearestSnapshot`, `findWalFilesInRange` — the snapshot and the objects to restore from.
* `replayLines`, `replayWalFiles`, `execute` — the replay and the restore.
* `Filled` — the objects are named and filled as the worker does.
* `RestoresRight` — the restore executes the entries between the two times, once, in order.

## Main results

* `filled_runOnce` — the worker fills its objects so.
* `restoresRight_iff` — **the restore is right exactly when the object of each such entry starts
  no earlier than the snapshot, and no line before the entry in its object is later.**
-/

namespace KuzuEventBus.Service

/-! ### The log, as the restore reads it -/

/-- What the replay reads from a line. -/
structure ReplayEntry where
  ts : Instant
  query : String
  deriving DecidableEq

/-- What a line of the worker's log says. -/
def WalLine.read : WalLine → Option ReplayEntry
  | .entry e => some ⟨e.ts, e.query⟩
  | .other _ => none

/-- The last part of the key of an object: `wal-{ts}.log`, or a name that is not of this form. -/
inductive WalName where
  | wal (second : ℕ)
  | other (name : String)
  deriving DecidableEq

/-- An object the replay reads. -/
structure WalFile where
  key : WalName
  timestamp : Instant

/-- An object of the log: the second in its name, and its lines. -/
structure WalObject (L : Type) where
  second : ℕ
  lines : List L

/-- The time in the name of an object. -/
def WalObject.start {L : Type} (o : WalObject L) : Instant := o.second * 1000000

/-- The object, as the replay reads it. -/
def WalObject.file {L : Type} (o : WalObject L) : WalFile := ⟨.wal o.second, o.start⟩

/-! ### Choosing the snapshot and the objects -/

/-- A snapshot, as the repository lists it. -/
structure Snapshot where
  id : Uuid
  objectKey : String
  createdAt : Instant
  deriving DecidableEq

/-- `_find_nearest_snapshot`: `max` returns the first of the latest. -/
def findNearestSnapshot (allSnapshots : List Snapshot) (targetTimestamp : Instant) :
    Option Snapshot :=
  (allSnapshots.filter fun snap => snap.createdAt ≤ targetTimestamp).argmax Snapshot.createdAt

/-- The entry of `wal_files` for a name: other names, and times out of range, have none. -/
def walFile? (startTime endTime : Instant) : WalName → Option WalFile
  | .wal second =>
    if startTime ≤ second * 1000000 ∧ second * 1000000 ≤ endTime then
      some ⟨.wal second, second * 1000000⟩
    else none
  | .other _ => none

/-- `_find_wal_files_in_range`: when the listing fails there are none. -/
def findWalFilesInRange (walObjects : Except PyError (List WalName))
    (startTime endTime : Instant) : List WalFile :=
  match walObjects with
  | .error _ => []
  | .ok names =>
    (names.filterMap (walFile? startTime endTime)).insertionSort
      fun w w' => w.timestamp ≤ w'.timestamp

/-! ### The replay -/

variable {σ L : Type}

/-- The state of a replay: the database, the lines whose queries were executed, and the count of
those that did not fail. -/
structure Replay (σ L : Type) where
  db : σ
  executed : List L
  replayedCount : ℕ

/-- The query of a line is executed; a failure is ignored. -/
def Replay.execute (engine : Engine σ) (r : Replay σ L) (line : L) (query : String) : Replay σ L :=
  match engine query r.db with
  | .ok (_, db) => ⟨db, r.executed ++ [line], r.replayedCount + 1⟩
  | .error _ => ⟨r.db, r.executed ++ [line], r.replayedCount⟩

/-- The loop over the lines of an object; it also answers whether it returned from the replay. -/
def replayLines (decode : L → Option ReplayEntry) (engine : Engine σ)
    (targetTimestamp : Instant) : List L → Replay σ L → Replay σ L × Bool
  | [], r => (r, false)
  | line :: lines, r =>
    match decode line with
    | none => replayLines decode engine targetTimestamp lines r
    | some entry =>
      if targetTimestamp < entry.ts then (r, true)
      else if entry.query.isEmpty then replayLines decode engine targetTimestamp lines r
      else replayLines decode engine targetTimestamp lines (r.execute engine line entry.query)

/-- `_replay_wal_files`: an object that cannot be downloaded is passed over. -/
def replayWalFiles (decode : L → Option ReplayEntry) (engine : Engine σ)
    (download : WalName → Except PyError (List L)) (targetTimestamp : Instant) :
    List WalFile → Replay σ L → Replay σ L
  | [], r => r
  | walFile :: walFiles, r =>
    match download walFile.key with
    | .error _ => replayWalFiles decode engine download targetTimestamp walFiles r
    | .ok lines =>
      match replayLines decode engine targetTimestamp lines r with
      | (r, true) => r
      | (r, false) => replayWalFiles decode engine download targetTimestamp walFiles r

/-! ### The restore -/

/-- What a restore is asked for. -/
structure RestoreRequest where
  tenantId : Uuid
  databaseId : Uuid
  targetTimestamp : Instant

/-- What the repository says of a database. -/
structure DatabaseInfo where
  tenantId : Uuid
  filePath : Option String

/-- The exceptions of a restore. -/
inductive RestoreError where
  /-- `PermissionError("Not authorized to restore database")` -/
  | notAuthorized
  /-- `ValueError("Cannot restore to future timestamp")` -/
  | futureTimestamp
  /-- `FileNotFoundError("Database not found")` -/
  | databaseNotFound
  /-- `RuntimeError("Database file path unknown")` -/
  | pathUnknown
  /-- `FileNotFoundError(f"No snapshot found before {...}")` -/
  | noSnapshot (targetTimestamp : Instant)
  /-- `TimeoutError("Could not acquire PITR restore lock")` -/
  | lockNotAcquired
  /-- An exception of a service. -/
  | raised (e : PyError)
  deriving DecidableEq

/-- How the services answer during a restore. -/
structure RestoreAnswers (σ L : Type) where
  checkPermission : Except PyError Bool
  now : Instant
  findById : Except PyError (Option DatabaseInfo)
  listByDatabase : Except PyError (List Snapshot)
  acquireLock : Except PyError (Option String)
  restoreSnapshot : Snapshot → Except PyError σ
  listObjects : Except PyError (List WalName)
  download : WalName → Except PyError (List L)

/-- An exception of a service goes on to the caller. -/
def raising {α : Type} (answer : Except PyError α) : Except RestoreError α :=
  answer.mapError .raised

/-- `RestoreDatabasePITRUseCase.execute`, up to the end of the replay. -/
def execute (decode : L → Option ReplayEntry) (engine : Engine σ) (answers : RestoreAnswers σ L)
    (req : RestoreRequest) : Except RestoreError (Replay σ L) := do
  let allowed ← raising answers.checkPermission
  if !allowed then throw .notAuthorized
  if answers.now < req.targetTimestamp then throw .futureTimestamp
  match ← raising answers.findById with
  | none => throw .databaseNotFound
  | some info =>
    if info.tenantId ≠ req.tenantId then throw .databaseNotFound
    if (info.filePath.getD "").isEmpty then throw .pathUnknown
    let allSnapshots ← raising answers.listByDatabase
    match findNearestSnapshot allSnapshots req.targetTimestamp with
    | none => throw (.noSnapshot req.targetTimestamp)
    | some snapshot =>
      match ← raising answers.acquireLock with
      | none => throw .lockNotAcquired
      | some _ =>
        let db ← raising (answers.restoreSnapshot snapshot)
        let walFiles := findWalFilesInRange answers.listObjects snapshot.createdAt
          req.targetTimestamp
        pure (replayWalFiles decode engine answers.download req.targetTimestamp walFiles
          ⟨db, [], 0⟩)

/-! ### What a restore should execute -/

/-- The entry of a line lies between the two times. -/
def isBetween (decode : L → Option ReplayEntry) (startTime endTime : Instant) (line : L) : Bool :=
  match decode line with
  | some e => startTime ≤ e.ts && e.ts ≤ endTime
  | none => false

/-- The entry of one line is not later than that of the other. -/
def NotLater (decode : L → Option ReplayEntry) (line line' : L) : Prop :=
  ∀ e e', decode line = some e → decode line' = some e' → e.ts ≤ e'.ts

/-- The objects are named and filled as the worker does: one object for a second, with the
entries of that second; a query that is logged is not empty. -/
structure Filled (decode : L → Option ReplayEntry) (objects : List (WalObject L)) : Prop where
  nodup : (objects.map WalObject.second).Nodup
  second : ∀ o ∈ objects, ∀ line ∈ o.lines, ∀ e, decode line = some e → e.ts.second = o.second
  query : ∀ o ∈ objects, ∀ line ∈ o.lines, ∀ e, decode line = some e → e.query ≠ ""

/-- The restore executes the entries between the two times, each once, in the order of their
timestamps. -/
def RestoresRight (decode : L → Option ReplayEntry) (engine : Engine σ)
    (answers : RestoreAnswers σ L) (req : RestoreRequest) (startTime : Instant)
    (objects : List (WalObject L)) : Prop :=
  ∃ r, execute decode engine answers req = .ok r ∧
    r.executed.Perm ((objects.flatMap WalObject.lines).filter
      (isBetween decode startTime req.targetTimestamp)) ∧
    r.executed.Pairwise (NotLater decode)

/-- The entries between the two times are in objects that start no earlier than the first. -/
def WalObject.InReach (decode : L → Option ReplayEntry) (startTime endTime : Instant)
    (o : WalObject L) : Prop :=
  ∀ line ∈ o.lines, isBetween decode startTime endTime line = true → startTime ≤ o.start

/-- No line before an entry between the two times is later. -/
def WalObject.InOrder (decode : L → Option ReplayEntry) (startTime endTime : Instant)
    (o : WalObject L) : Prop :=
  o.lines.Pairwise fun line line' =>
    isBetween decode startTime endTime line' = true → NotLater decode line line'

/-! ### The objects the worker writes -/

section Worker

/-- The objects of a database, one for each second it has a key for. -/
def ObjectStore.walObjects (store : ObjectStore) (tenantId databaseId : Uuid) :
    List (WalObject WalLine) :=
  ((store.uploads.map Prod.fst).dedup.filter fun key =>
      key.tenantId = tenantId ∧ key.databaseId = databaseId).map
    fun key => ⟨key.second, (store.get? key).getD []⟩

/-- Every entry of an object is of its second, and has a query. -/
def ObjectStore.EntriesFit (store : ObjectStore) : Prop :=
  ∀ key lines, store.get? key = some lines → ∀ line ∈ lines, ∀ e, line.read = some e →
    e.ts.second = key.second ∧ e.query ≠ ""

variable {store : ObjectStore} {append : AppendAnswers} {tenantId databaseId : Uuid}
  {cypher : String} {parameters : Option Json} {results : List Json}

theorem get?_put (key key' : WalKey) (lines : List WalLine) :
    (store.put key lines).get? key' = if key' = key then some lines else store.get? key' := by
  unfold ObjectStore.get? ObjectStore.put
  by_cases h : key' = key
  · subst h
    simp
  · have hne : (key' == key) = false := by simpa using h
    simp only [List.lookup_cons, hne, if_neg h]

/-- The prior content is the content of the object, or nothing. -/
theorem readPrior_cases (append : AppendAnswers) (store : ObjectStore) (key : WalKey) :
    readPrior append store key = [] ∨ store.get? key = some (readPrior append store key) := by
  unfold readPrior
  cases append.fileExists with
  | falsely => exact Or.inl rfl
  | raises => exact Or.inl rfl
  | truthful =>
    cases store.get? key with
    | none => exact Or.inl rfl
    | some lines => cases append.downloadRaises <;> simp

theorem query_ne_empty_of_isMutating (h : isMutating cypher = true) : cypher ≠ "" := by
  rintro rfl
  exact absurd h (by decide)

/-- An append keeps every entry in the object of its second. -/
theorem entriesFit_appendWalEntry (hfit : store.EntriesFit) (hmutating : isMutating cypher = true) :
    (appendWalEntry append store tenantId databaseId cypher parameters results).EntriesFit := by
  unfold appendWalEntry
  dsimp only
  split
  · exact hfit
  · exact hfit
  · split
    · exact hfit
    · intro key lines hget line hline e he
      rw [get?_put] at hget
      split at hget
      · next hkey =>
        cases hget
        rw [List.mem_append, List.mem_singleton] at hline
        rcases hline with hprior | rfl
        · rcases readPrior_cases append store ⟨tenantId, databaseId, append.now.second⟩ with
            hnone | hsome
          · rw [hnone] at hprior
            cases hprior
          · rw [hkey]
            exact hfit _ _ hsome line hprior e he
        · cases he
          rw [hkey]
          exact ⟨rfl, query_ne_empty_of_isMutating hmutating⟩
      · exact hfit key lines hget line hline e he

/-- A round keeps every entry in the object of its second. -/
theorem entriesFit_runOnce {engine : Engine σ} {answers : RoundAnswers} {w : World σ}
    (hfit : w.store.EntriesFit) : (runOnce engine answers w).store.EntriesFit := by
  unfold runOnce
  split
  · exact hfit
  · exact hfit
  · dsimp only
    split
    · next hmutating => exact entriesFit_appendWalEntry hfit hmutating
    · exact hfit

/-- The objects of a store whose entries fit are filled. -/
theorem filled_walObjects (hfit : store.EntriesFit) :
    Filled WalLine.read (store.walObjects tenantId databaseId) := by
  have hentry : ∀ o ∈ store.walObjects tenantId databaseId, ∀ line ∈ o.lines, ∀ e,
      line.read = some e → e.ts.second = o.second ∧ e.query ≠ "" := by
    intro o ho line hline e he
    obtain ⟨key, -, rfl⟩ := List.mem_map.1 ho
    cases hget : store.get? key with
    | none => simp [hget] at hline
    | some lines =>
      rw [hget] at hline
      exact hfit key lines hget line hline e he
  refine ⟨?_, fun o ho line hline e he => (hentry o ho line hline e he).1,
    fun o ho line hline e he => (hentry o ho line hline e he).2⟩
  unfold ObjectStore.walObjects
  rw [List.map_map]
  -- two keys of one database with one second are one key
  refine List.Nodup.map_on ?_ ((List.nodup_dedup _).filter _)
  rintro ⟨t, d, k⟩ hkey ⟨t', d', k'⟩ hkey' hsecond
  have h := (List.mem_filter.1 hkey).2
  have h' := (List.mem_filter.1 hkey').2
  simp only [decide_eq_true_eq] at h h'
  obtain ⟨rfl, rfl⟩ := h
  obtain ⟨rfl, rfl⟩ := h'
  exact congrArg (WalKey.mk t' d') hsecond

/-- **The worker fills its objects as the restore expects**: after any rounds, each entry is in
the object of its second. -/
theorem filled_runOnce (engine : Engine σ) (rounds : List RoundAnswers) (db : σ) :
    Filled WalLine.read ((rounds.foldl (fun w answers => runOnce engine answers w)
      ⟨db, ⟨[]⟩⟩).store.walObjects tenantId databaseId) := by
  refine filled_walObjects ?_
  have hrun : ∀ w : World σ, w.store.EntriesFit →
      (rounds.foldl (fun w answers => runOnce engine answers w) w).store.EntriesFit := by
    induction rounds with
    | nil => exact fun w hfit => hfit
    | cons answers rounds ih => exact fun w hfit => ih _ (entriesFit_runOnce hfit)
  refine hrun ⟨db, ⟨[]⟩⟩ ?_
  intro key lines hget
  cases hget

end Worker

/-! ### What the replay executes -/

section Replay

variable {decode : L → Option ReplayEntry} {engine : Engine σ} {startTime endTime : Instant}

/-- The entry of a line is after the target. -/
def isLate (decode : L → Option ReplayEntry) (endTime : Instant) (line : L) : Bool :=
  match decode line with
  | some e => endTime < e.ts
  | none => false

/-- A line has a query to execute. -/
def hasQuery (decode : L → Option ReplayEntry) (line : L) : Bool :=
  match decode line with
  | some e => !e.query.isEmpty
  | none => false

/-- The lines of an object whose queries are executed. -/
def executedLines (decode : L → Option ReplayEntry) (endTime : Instant) (lines : List L) : List L :=
  (lines.takeWhile fun line => !isLate decode endTime line).filter (hasQuery decode)

@[simp]
theorem executed_execute (r : Replay σ L) (line : L) (query : String) :
    (r.execute engine line query).executed = r.executed ++ [line] := by
  unfold Replay.execute
  cases engine query r.db <;> rfl

/-- What the loop over the lines of an object executes, and when it returns from the replay. -/
theorem replayLines_spec (decode : L → Option ReplayEntry) (engine : Engine σ) (endTime : Instant)
    (lines : List L) (r : Replay σ L) :
    (replayLines decode engine endTime lines r).1.executed =
        r.executed ++ executedLines decode endTime lines ∧
      (replayLines decode engine endTime lines r).2 = lines.any (isLate decode endTime) := by
  induction lines generalizing r with
  | nil => simp [replayLines, executedLines]
  | cons line lines ih =>
    unfold replayLines
    cases hdecode : decode line with
    | none =>
      have hlate : isLate decode endTime line = false := by simp [isLate, hdecode]
      have hquery : hasQuery decode line = false := by simp [hasQuery, hdecode]
      simpa [executedLines, hlate, hquery] using ih r
    | some e =>
      by_cases hts : endTime < e.ts
      · have hlate : isLate decode endTime line = true := by simp [isLate, hdecode, hts]
        simp [executedLines, hlate, hts]
      · have hlate : isLate decode endTime line = false := by simp [isLate, hdecode, hts]
        by_cases hempty : e.query.isEmpty = true
        · have hquery : hasQuery decode line = false := by simp [hasQuery, hdecode, hempty]
          simpa [executedLines, hlate, hquery, hts, hempty] using ih r
        · have hquery : hasQuery decode line = true := by simp [hasQuery, hdecode, hempty]
          simpa [executedLines, hlate, hquery, hts, hempty] using
            ih (r.execute engine line e.query)

/-- An entry of an object is not before the object starts, and before the next one does. -/
theorem between_of_second {ts k : ℕ} (h : Instant.second ts = k) :
    k * 1000000 ≤ ts ∧ ts < (k + 1) * 1000000 := by
  unfold Instant.second at h
  omega

/-- The replay of objects in their order: returning from it at an entry after the target passes
over no object, since the next would start after the target too. -/
theorem replayWalFiles_executed {download : WalName → Except PyError (List L)}
    {objects : List (WalObject L)}
    (hdownload : ∀ o ∈ objects, download (.wal o.second) = .ok o.lines)
    (hsorted : objects.Pairwise fun o o' => o.second < o'.second)
    (hend : ∀ o ∈ objects, o.start ≤ endTime)
    (hsecond : ∀ o ∈ objects, ∀ line ∈ o.lines, ∀ e, decode line = some e →
      e.ts.second = o.second) (r : Replay σ L) :
    (replayWalFiles decode engine download endTime (objects.map WalObject.file) r).executed =
      r.executed ++ objects.flatMap fun o => executedLines decode endTime o.lines := by
  induction objects generalizing r with
  | nil => simp [replayWalFiles]
  | cons o objects ih =>
    obtain ⟨hexecuted, hreturned⟩ :=
      replayLines_spec decode engine endTime o.lines r
    rw [List.pairwise_cons] at hsorted
    rw [List.map_cons, replayWalFiles, List.flatMap_cons]
    rw [show download o.file.key = .ok o.lines from hdownload o List.mem_cons_self]
    dsimp only
    generalize replayLines decode engine endTime o.lines r = result at hexecuted hreturned ⊢
    obtain ⟨r', returned⟩ := result
    dsimp only at hexecuted hreturned ⊢
    cases hlate : o.lines.any (isLate decode endTime) with
    | true =>
      -- an entry after the target lies before the next object starts, so there is none
      have hlast : objects = [] := by
        rcases objects with _ | ⟨o', objects⟩
        · rfl
        obtain ⟨line, hline, hlate⟩ := List.any_eq_true.1 hlate
        obtain ⟨e, hdecode, hts⟩ : ∃ e, decode line = some e ∧ endTime < e.ts := by
          unfold isLate at hlate
          cases hdecode : decode line with
          | none => simp [hdecode] at hlate
          | some e => exact ⟨e, rfl, by simpa [hdecode] using hlate⟩
        have hbefore := (between_of_second (hsecond o List.mem_cons_self line hline e hdecode)).2
        have hnext := hsorted.1 o' List.mem_cons_self
        have hstart : o'.second * 1000000 ≤ endTime :=
          hend o' (List.mem_cons_of_mem o List.mem_cons_self)
        have hlt : e.ts < o'.second * 1000000 :=
          hbefore.trans_le (Nat.mul_le_mul_right 1000000 hnext)
        exact absurd (hts.trans hlt) hstart.not_gt
      rw [hlate] at hreturned
      subst hlast hreturned
      simpa using hexecuted
    | false =>
      rw [hlate] at hreturned
      subst hreturned
      have htail := ih (fun o' ho' => hdownload o' (List.mem_cons_of_mem o ho')) hsorted.2
        (fun o' ho' => hend o' (List.mem_cons_of_mem o ho'))
        (fun o' ho' => hsecond o' (List.mem_cons_of_mem o ho')) r'
      simpa [hexecuted] using htail

theorem isBetween_iff {line : L} :
    isBetween decode startTime endTime line = true ↔
      ∃ e, decode line = some e ∧ startTime ≤ e.ts ∧ e.ts ≤ endTime := by
  unfold isBetween
  cases decode line with
  | none => simp
  | some e => simp

/-- What the replay does with a line of an object that starts no earlier than the snapshot: it
passes over it, returns, or executes it. -/
theorem executedLines_cons (endTime : Instant) {line : L}
    (hstart : ∀ e, decode line = some e → startTime ≤ e.ts)
    (hquery : ∀ e, decode line = some e → e.query ≠ "") :
    (decode line = none ∧ isBetween decode startTime endTime line = false ∧
        ∀ lines, executedLines decode endTime (line :: lines) =
          executedLines decode endTime lines) ∨
      (∃ e, decode line = some e ∧ endTime < e.ts ∧
        isBetween decode startTime endTime line = false ∧
        ∀ lines, executedLines decode endTime (line :: lines) = []) ∨
      ∃ e, decode line = some e ∧ isBetween decode startTime endTime line = true ∧
        ∀ lines, executedLines decode endTime (line :: lines) =
          line :: executedLines decode endTime lines := by
  cases hdecode : decode line with
  | none =>
    refine Or.inl ⟨rfl, by simp [isBetween, hdecode], fun lines => ?_⟩
    simp [executedLines, isLate, hasQuery, hdecode]
  | some e =>
    by_cases hts : endTime < e.ts
    · refine Or.inr (Or.inl ⟨e, rfl, hts, ?_, fun lines => ?_⟩)
      · simp [isBetween, hdecode, hts]
      · simp [executedLines, isLate, hdecode, hts]
    · refine Or.inr (Or.inr ⟨e, rfl, ?_, fun lines => ?_⟩)
      · exact isBetween_iff.2 ⟨e, hdecode, hstart e hdecode, not_lt.1 hts⟩
      · have hne := hquery e hdecode
        simp [executedLines, isLate, hasQuery, hdecode, hts, hne]

variable {lines : List L}

theorem executedLines_sublist (endTime : Instant)
    (hstart : ∀ line ∈ lines, ∀ e, decode line = some e → startTime ≤ e.ts)
    (hquery : ∀ line ∈ lines, ∀ e, decode line = some e → e.query ≠ "") :
    (executedLines decode endTime lines).Sublist
      (lines.filter (isBetween decode startTime endTime)) := by
  induction lines with
  | nil => exact List.Sublist.refl _
  | cons line lines ih =>
    rw [List.forall_mem_cons] at hstart hquery
    have htail := ih hstart.2 hquery.2
    rcases executedLines_cons endTime hstart.1 hquery.1 with
      ⟨-, hout, heq⟩ | ⟨e, -, -, hout, heq⟩ | ⟨e, -, hin, heq⟩
    · rw [heq, List.filter_cons_of_neg (by simp [hout])]
      exact htail
    · rw [heq]
      exact List.nil_sublist _
    · rw [heq, List.filter_cons_of_pos hin]
      exact htail.cons_cons line

/-- What is executed of an object is what lies between the two times, in order, exactly when no
line before an entry between the two times is later. -/
theorem executedLines_eq_filter_iff
    (hstart : ∀ line ∈ lines, ∀ e, decode line = some e → startTime ≤ e.ts)
    (hquery : ∀ line ∈ lines, ∀ e, decode line = some e → e.query ≠ "") :
    (executedLines decode endTime lines = lines.filter (isBetween decode startTime endTime) ∧
        (executedLines decode endTime lines).Pairwise (NotLater decode)) ↔
      lines.Pairwise fun line line' =>
        isBetween decode startTime endTime line' = true → NotLater decode line line' := by
  induction lines with
  | nil => simp [executedLines]
  | cons line lines ih =>
    rw [List.forall_mem_cons] at hstart hquery
    have ih := ih hstart.2 hquery.2
    rw [List.pairwise_cons, ← ih]
    rcases executedLines_cons endTime hstart.1 hquery.1 with
      ⟨hdecode, hout, heq⟩ | ⟨e, hdecode, hts, hout, heq⟩ | ⟨e, hdecode, hin, heq⟩
    · rw [heq, List.filter_cons_of_neg (by simp [hout])]
      have hfree : ∀ line' ∈ lines, isBetween decode startTime endTime line' = true →
          NotLater decode line line' := by
        intro line' _ _ e e' he
        rw [hdecode] at he
        cases he
      exact ⟨fun h => ⟨hfree, h⟩, fun h => h.2⟩
    · rw [heq, List.filter_cons_of_neg (by simp [hout])]
      -- nothing after this line is executed, so nothing between the two times may follow
      constructor
      · rintro ⟨hnone, -⟩
        have hnone' : ∀ line' ∈ lines, isBetween decode startTime endTime line' = false := by
          intro line' hline'
          rw [← Bool.not_eq_true]
          exact List.filter_eq_nil_iff.1 hnone.symm line' hline'
        refine ⟨fun line' hline' hin => ?_, ?_⟩
        · rw [hnone' line' hline'] at hin
          cases hin
        · have hsub := executedLines_sublist endTime hstart.2 hquery.2
          rw [← hnone] at hsub ⊢
          rw [List.sublist_nil.1 hsub]
          exact ⟨rfl, List.Pairwise.nil⟩
      · rintro ⟨hbefore, -⟩
        refine ⟨(List.filter_eq_nil_iff.2 fun line' hline' hin => ?_).symm, List.Pairwise.nil⟩
        obtain ⟨e', hdecode', -, hle⟩ := isBetween_iff.1 hin
        exact absurd (hbefore line' hline' hin e e' hdecode hdecode') (hle.trans_lt hts).not_ge
    · rw [heq, List.filter_cons_of_pos hin, List.pairwise_cons, List.cons.injEq]
      constructor
      · rintro ⟨⟨-, hall⟩, hbefore, horder⟩
        refine ⟨fun line' hline' hin' => hbefore line' ?_, hall, horder⟩
        rw [hall]
        exact List.mem_filter.2 ⟨hline', hin'⟩
      · rintro ⟨hbefore, hall, horder⟩
        refine ⟨⟨rfl, hall⟩, fun line' hline' => ?_, horder⟩
        rw [hall, List.mem_filter] at hline'
        exact hbefore line' hline'.1 hline'.2

end Replay

/-! ### When the restore is right -/

/-- Every service answers: the restore starts from the snapshot, and finds the objects. -/
structure Serves (answers : RestoreAnswers σ L) (req : RestoreRequest) (snapshot : Snapshot)
    (objects : List (WalObject L)) : Prop where
  checkPermission : answers.checkPermission = .ok true
  now : req.targetTimestamp ≤ answers.now
  findById : ∃ path, answers.findById = .ok (some ⟨req.tenantId, some path⟩) ∧ path ≠ ""
  nearest : ∃ all, answers.listByDatabase = .ok all ∧
    findNearestSnapshot all req.targetTimestamp = some snapshot
  acquireLock : ∃ token, answers.acquireLock = .ok (some token)
  restoreSnapshot : ∃ db, answers.restoreSnapshot snapshot = .ok db
  listObjects : answers.listObjects = .ok (objects.map fun o => .wal o.second)
  download : ∀ o ∈ objects, answers.download (.wal o.second) = .ok o.lines

/-- Answers that serve a snapshot, with its content, and objects. -/
def serving (snapshot : Snapshot) (req : RestoreRequest) (db : σ) (objects : List (WalObject L)) :
    RestoreAnswers σ L where
  checkPermission := .ok true
  now := req.targetTimestamp
  findById := .ok (some ⟨req.tenantId, some "data.kuzu"⟩)
  listByDatabase := .ok [snapshot]
  acquireLock := .ok (some "token")
  restoreSnapshot := fun _ => .ok db
  listObjects := .ok (objects.map fun o => .wal o.second)
  download := fun name =>
    match objects.find? fun o => WalName.wal o.second = name with
    | some o => .ok o.lines
    | none => .error "NoSuchKey"

theorem serves_serving {snapshot : Snapshot} {req : RestoreRequest} (db : σ)
    {objects : List (WalObject L)} (hnodup : (objects.map WalObject.second).Nodup)
    (hle : snapshot.createdAt ≤ req.targetTimestamp) :
    Serves (serving snapshot req db objects) req snapshot objects where
  checkPermission := rfl
  now := le_refl _
  findById := ⟨"data.kuzu", rfl, by decide⟩
  nearest := ⟨[snapshot], rfl, by simp [findNearestSnapshot, hle]⟩
  acquireLock := ⟨"token", rfl⟩
  restoreSnapshot := ⟨db, rfl⟩
  listObjects := rfl
  download := by
    intro o ho
    have hfind : objects.find? (fun o' => WalName.wal o'.second = .wal o.second) = some o := by
      induction objects with
      | nil => simp at ho
      | cons o' objects ih =>
        rw [List.map_cons, List.nodup_cons] at hnodup
        rcases List.mem_cons.1 ho with rfl | ho
        · simp
        · have hne : o'.second ≠ o.second := by
            intro heq
            exact hnodup.1 (heq ▸ List.mem_map_of_mem ho)
          rw [List.find?_cons_of_neg (by simpa using hne)]
          exact ih hnodup.2 ho
    unfold serving
    dsimp only
    rw [hfind]

/-- The name of the object is in the range of the replay. -/
def WalObject.inRange (startTime endTime : Instant) (o : WalObject L) : Bool :=
  startTime ≤ o.start && o.start ≤ endTime

/-- The objects, in the order of their seconds. -/
def bySecond (objects : List (WalObject L)) : List (WalObject L) :=
  objects.insertionSort fun o o' => o.second ≤ o'.second

/-- The objects of the replay, in their order. -/
def replayed (startTime endTime : Instant) (objects : List (WalObject L)) : List (WalObject L) :=
  bySecond (objects.filter (WalObject.inRange startTime endTime))

theorem bySecond_perm (objects : List (WalObject L)) : (bySecond objects).Perm objects :=
  List.perm_insertionSort _ _

theorem bySecond_pairwise {objects : List (WalObject L)}
    (hnodup : (objects.map WalObject.second).Nodup) :
    (bySecond objects).Pairwise fun o o' => o.second < o'.second := by
  have hne : (bySecond objects).Pairwise fun o o' => o.second ≠ o'.second :=
    List.pairwise_map.1 (((bySecond_perm objects).map WalObject.second).nodup_iff.2 hnodup)
  have hle : (bySecond objects).Pairwise fun o o' => o.second ≤ o'.second := by
    have : IsTrans (WalObject L) fun o o' => o.second ≤ o'.second := ⟨fun _ _ _ => le_trans⟩
    have : Std.Total fun o o' : WalObject L => o.second ≤ o'.second := ⟨fun _ _ => le_total _ _⟩
    exact List.pairwise_insertionSort _ _
  exact hle.imp₂ (fun o o' hle hne => lt_of_le_of_ne hle hne) hne

section Restore

variable {decode : L → Option ReplayEntry} {engine : Engine σ} {answers : RestoreAnswers σ L}
  {req : RestoreRequest} {snapshot : Snapshot} {objects : List (WalObject L)}
  {startTime endTime : Instant}

theorem mem_replayed {o : WalObject L} :
    o ∈ replayed startTime endTime objects ↔
      o ∈ objects ∧ startTime ≤ o.start ∧ o.start ≤ endTime := by
  unfold replayed
  rw [(bySecond_perm _).mem_iff, List.mem_filter]
  simp [WalObject.inRange]

theorem replayed_pairwise (hnodup : (objects.map WalObject.second).Nodup) :
    (replayed startTime endTime objects).Pairwise fun o o' => o.second < o'.second :=
  bySecond_pairwise (hnodup.sublist (List.filter_sublist.map _))

/-- What the listing of the objects comes to. -/
theorem findWalFilesInRange_eq :
    findWalFilesInRange (.ok (objects.map fun o => .wal o.second)) startTime endTime =
      (replayed startTime endTime objects).map WalObject.file := by
  have hfiles : (objects.map fun o => WalName.wal o.second).filterMap (walFile? startTime endTime) =
      (objects.filter (WalObject.inRange startTime endTime)).map WalObject.file := by
    induction objects with
    | nil => rfl
    | cons o objects ih =>
      rw [List.map_cons]
      by_cases hin : startTime ≤ o.start ∧ o.start ≤ endTime
      · have hfile : walFile? startTime endTime (.wal o.second) = some o.file := if_pos hin
        rw [List.filterMap_cons_some hfile, ih,
          List.filter_cons_of_pos (by simpa [WalObject.inRange] using hin), List.map_cons]
      · have hfile : walFile? startTime endTime (.wal o.second) = none := if_neg hin
        rw [List.filterMap_cons_none hfile, ih,
          List.filter_cons_of_neg (by simpa [WalObject.inRange] using hin)]
  unfold findWalFilesInRange replayed bySecond
  dsimp only
  rw [hfiles]
  refine (List.map_insertionSort _ _ _ _ ?_).symm
  intro o _ o' _
  unfold WalObject.file WalObject.start
  exact (Nat.mul_le_mul_right_iff (by decide)).symm

/-- What a restore executes when every service answers. -/
theorem execute_eq (engine : Engine σ) (hserves : Serves answers req snapshot objects)
    (hfilled : Filled decode objects) :
    ∃ r, execute decode engine answers req = .ok r ∧
      r.executed = (replayed snapshot.createdAt req.targetTimestamp objects).flatMap
        fun o => executedLines decode req.targetTimestamp o.lines := by
  obtain ⟨path, hinfo, hpath⟩ := hserves.findById
  obtain ⟨all, hall, hnearest⟩ := hserves.nearest
  obtain ⟨token, hlock⟩ := hserves.acquireLock
  obtain ⟨db, hdb⟩ := hserves.restoreSnapshot
  refine ⟨replayWalFiles decode engine answers.download req.targetTimestamp
    ((replayed snapshot.createdAt req.targetTimestamp objects).map WalObject.file) ⟨db, [], 0⟩,
    ?_, ?_⟩
  · rw [← findWalFilesInRange_eq, ← hserves.listObjects]
    simp [execute, raising, hserves.checkPermission, hserves.now.not_gt, hinfo, hpath, hall,
      hnearest, hlock, hdb, Except.mapError, bind, Except.bind, pure, Except.pure]
  · rw [replayWalFiles_executed]
    · simp
    · exact fun o ho => hserves.download o (mem_replayed.1 ho).1
    · exact replayed_pairwise hfilled.nodup
    · exact fun o ho => (mem_replayed.1 ho).2.2
    · exact fun o ho => hfilled.second o (mem_replayed.1 ho).1

/-- What the replay executes of an object, if its name is in range. -/
def executedOf (decode : L → Option ReplayEntry) (startTime endTime : Instant) (o : WalObject L) :
    List L :=
  if o.inRange startTime endTime then executedLines decode endTime o.lines else []

/-- An entry of an object that is in range is not before the snapshot. -/
theorem start_le_of_inRange (hfilled : Filled decode objects) {o : WalObject L} (ho : o ∈ objects)
    (hstart : startTime ≤ o.start) :
    ∀ line ∈ o.lines, ∀ e, decode line = some e → startTime ≤ e.ts := by
  intro line hline e hdecode
  have hbetween := between_of_second (hfilled.second o ho line hline e hdecode)
  exact hstart.trans hbetween.1

theorem executedOf_sublist (hfilled : Filled decode objects) {o : WalObject L} (ho : o ∈ objects) :
    (executedOf decode startTime endTime o).Sublist
      (o.lines.filter (isBetween decode startTime endTime)) := by
  unfold executedOf
  split
  · next hin =>
    simp only [WalObject.inRange, Bool.and_eq_true, decide_eq_true_eq] at hin
    exact executedLines_sublist endTime (start_le_of_inRange hfilled ho hin.1) (hfilled.query o ho)
  · exact List.nil_sublist _

/-- An object is replayed right, on its own, when it is in reach and in order. -/
theorem executedOf_eq_filter_iff (hfilled : Filled decode objects) {o : WalObject L}
    (ho : o ∈ objects) :
    (executedOf decode startTime endTime o =
          o.lines.filter (isBetween decode startTime endTime) ∧
        (executedOf decode startTime endTime o).Pairwise (NotLater decode)) ↔
      o.InReach decode startTime endTime ∧ o.InOrder decode startTime endTime := by
  unfold executedOf
  split
  · next hin =>
    simp only [WalObject.inRange, Bool.and_eq_true, decide_eq_true_eq] at hin
    rw [executedLines_eq_filter_iff (start_le_of_inRange hfilled ho hin.1) (hfilled.query o ho)]
    exact ⟨fun horder => ⟨fun _ _ _ => hin.1, horder⟩, fun h => h.2⟩
  · next hout =>
    simp only [WalObject.inRange, Bool.and_eq_true, decide_eq_true_eq, not_and] at hout
    constructor
    · rintro ⟨hnone, -⟩
      have hnone := List.filter_eq_nil_iff.1 hnone.symm
      refine ⟨fun line hline hin => absurd hin (hnone line hline), ?_⟩
      refine List.Pairwise.imp_of_mem ?_ (List.pairwise_of_forall fun _ _ => trivial)
      intro line line' _ hline' _ hin
      exact absurd hin (hnone line' hline')
    · rintro ⟨hreach, -⟩
      -- an object with an entry between the two times that is in reach is in range
      refine ⟨(List.filter_eq_nil_iff.2 fun line hline hin => ?_).symm, List.Pairwise.nil⟩
      obtain ⟨e, hdecode, -, hle⟩ := isBetween_iff.1 hin
      have hbetween := between_of_second (hfilled.second o ho line hline e hdecode)
      exact hout (hreach line hline hin) (hbetween.1.trans hle)

/-- The entries of an object are not later than those of a later one. -/
theorem notLater_of_second_lt (hfilled : Filled decode objects) {o o' : WalObject L}
    (ho : o ∈ objects) (ho' : o' ∈ objects) (hlt : o.second < o'.second) {line line' : L}
    (hline : line ∈ o.lines) (hline' : line' ∈ o'.lines) : NotLater decode line line' := by
  intro e e' hdecode hdecode'
  have hbetween := between_of_second (hfilled.second o ho line hline e hdecode)
  have hbetween' := between_of_second (hfilled.second o' ho' line' hline' e' hdecode')
  have hnext : (o.second + 1) * 1000000 ≤ o'.second * 1000000 := Nat.mul_le_mul_right _ hlt
  exact (hbetween.2.trans_le (hnext.trans hbetween'.1)).le

theorem executedLines_subset {lines : List L} {line : L}
    (h : line ∈ executedLines decode endTime lines) : line ∈ lines :=
  (List.takeWhile_sublist _).subset (List.mem_filter.1 h).1

/-- **The restore executes exactly the entries between the snapshot and the target, in order,
when the object of each such entry starts no earlier than the snapshot, and no line before the
entry in its object is later; and only then.** -/
theorem restoresRight_iff (hserves : Serves answers req snapshot objects)
    (hfilled : Filled decode objects) :
    RestoresRight decode engine answers req snapshot.createdAt objects ↔
      ∀ o ∈ objects, o.InReach decode snapshot.createdAt req.targetTimestamp ∧
        o.InOrder decode snapshot.createdAt req.targetTimestamp := by
  obtain ⟨r, hexecute, hexecuted⟩ := execute_eq engine hserves hfilled
  have hright : RestoresRight decode engine answers req snapshot.createdAt objects ↔
      r.executed.Perm ((objects.flatMap WalObject.lines).filter
        (isBetween decode snapshot.createdAt req.targetTimestamp)) ∧
      r.executed.Pairwise (NotLater decode) := by
    unfold RestoresRight
    rw [hexecute]
    constructor
    · rintro ⟨r', heq, h⟩
      cases heq
      exact h
    · exact fun h => ⟨r, rfl, h⟩
  -- which lines are executed is decided object by object
  have hperm : r.executed.Perm
      (objects.flatMap (executedOf decode snapshot.createdAt req.targetTimestamp)) := by
    rw [hexecuted]
    refine ((bySecond_perm _).flatMap_right _).trans ?_
    rw [Lists.flatMap_filter]
    rfl
  -- … and so is their order, for the objects are taken by their seconds
  have horder : r.executed.Pairwise (NotLater decode) ↔ ∀ o ∈ objects,
      (executedOf decode snapshot.createdAt req.targetTimestamp o).Pairwise (NotLater decode) := by
    rw [hexecuted, Lists.pairwise_flatMap_iff (replayed_pairwise hfilled.nodup)]
    · constructor
      · intro h o ho
        unfold executedOf
        split
        · next hin =>
          simp only [WalObject.inRange, Bool.and_eq_true, decide_eq_true_eq] at hin
          exact h o (mem_replayed.2 ⟨ho, hin⟩)
        · exact List.Pairwise.nil
      · intro h o ho
        obtain ⟨ho, hin⟩ := mem_replayed.1 ho
        have hin' : o.inRange snapshot.createdAt req.targetTimestamp = true := by
          simpa [WalObject.inRange] using hin
        simpa [executedOf, hin'] using h o ho
    · intro o ho o' ho' hlt line hline line' hline'
      exact notLater_of_second_lt hfilled (mem_replayed.1 ho).1 (mem_replayed.1 ho').1 hlt
        (executedLines_subset hline) (executedLines_subset hline')
  rw [hright, horder, List.filter_flatMap, hperm.congr_left,
    Lists.perm_flatMap_iff_of_sublist fun o ho => executedOf_sublist hfilled ho]
  constructor
  · rintro ⟨hall, hpairwise⟩ o ho
    exact (executedOf_eq_filter_iff hfilled ho).1 ⟨hall o ho, hpairwise o ho⟩
  · intro h
    exact ⟨fun o ho => ((executedOf_eq_filter_iff hfilled ho).2 (h o ho)).1,
      fun o ho => ((executedOf_eq_filter_iff hfilled ho).2 (h o ho)).2⟩

end Restore

/-- A line of the log, with the query `CREATE (n)`. -/
def testLine (ts : Instant) : WalLine := .entry (walEntry ts "CREATE (n)" none [])

/-- A snapshot at half past the tenth second. -/
def testSnapshot : Snapshot := ⟨1, "snapshots/archive/snapshot.tar.gz", 10500000⟩

/-- A restore to the twentieth second. -/
def testRequest : RestoreRequest := ⟨0, 0, 20000000⟩

/-- Answers that serve the snapshot and the objects. -/
def testRestore (objects : List (WalObject WalLine)) : RestoreAnswers (List ℕ) WalLine :=
  serving testSnapshot testRequest [] objects

theorem serves_testRestore (objects : List (WalObject WalLine))
    (hnodup : (objects.map WalObject.second).Nodup) :
    Serves (testRestore objects) testRequest testSnapshot objects :=
  serves_serving [] hnodup (by decide)

/-- Objects in reach and in order, the last of them with an entry after the target. -/
def testObjects : List (WalObject WalLine) :=
  [⟨20, [testLine 20000000, testLine 20000001]⟩, ⟨12, [testLine 12000003, testLine 12000007]⟩]

theorem filled_testObjects : Filled WalLine.read testObjects where
  nodup := by decide
  second := by simp [testObjects, testLine, WalLine.read, walEntry, Instant.second]
  query := by simp [testObjects, testLine, WalLine.read, walEntry]

theorem restoresRight_iff_testObjects :
    RestoresRight WalLine.read testEngine (testRestore testObjects) testRequest
      testSnapshot.createdAt testObjects := by
  refine (restoresRight_iff (serves_testRestore testObjects (by decide)) filled_testObjects).2 ?_
  intro o ho
  simp only [testObjects, List.mem_cons, List.not_mem_nil, or_false] at ho
  rcases ho with rfl | rfl <;>
    simp [WalObject.InReach, WalObject.InOrder, WalObject.start, testLine, WalLine.read, walEntry,
      isBetween, NotLater, testSnapshot, testRequest]

/-- An object that starts before the snapshot, with an entry after it. -/
def testEarly : List (WalObject WalLine) := [⟨10, [testLine 10700000]⟩]

/-- An object whose first line is after the target and whose second is not. -/
def testLate : List (WalObject WalLine) := [⟨20, [testLine 20000001, testLine 20000000]⟩]

theorem filled_testEarly : Filled WalLine.read testEarly where
  nodup := by decide
  second := by simp [testEarly, testLine, WalLine.read, walEntry, Instant.second]
  query := by simp [testEarly, testLine, WalLine.read, walEntry]

theorem filled_testLate : Filled WalLine.read testLate where
  nodup := by decide
  second := by simp [testLate, testLine, WalLine.read, walEntry, Instant.second]
  query := by simp [testLate, testLine, WalLine.read, walEntry]

/-- A restore that executes nothing is not right when an entry lies between the two times. -/
theorem not_restoresRight {engine : Engine (List ℕ)} {objects : List (WalObject WalLine)}
    (hserves : Serves (testRestore objects) testRequest testSnapshot objects)
    (hfilled : Filled WalLine.read objects)
    (hnone : (replayed testSnapshot.createdAt testRequest.targetTimestamp objects).flatMap
      (fun o => executedLines WalLine.read testRequest.targetTimestamp o.lines) = [])
    (hsome : (objects.flatMap WalObject.lines).filter
      (isBetween WalLine.read testSnapshot.createdAt testRequest.targetTimestamp) ≠ []) :
    ¬ RestoresRight WalLine.read engine (testRestore objects) testRequest
      testSnapshot.createdAt objects := by
  rintro ⟨r, hexecute, hperm, -⟩
  obtain ⟨r', hexecute', hexecuted⟩ := execute_eq engine hserves hfilled
  rw [hexecute'] at hexecute
  cases hexecute
  rw [hexecuted, hnone] at hperm
  exact hsome (List.nil_perm.1 hperm)

/-- **An entry two tenths of a second after the snapshot is not replayed, and neither is one
before the target that follows one after it.** -/
theorem not_restoresRight_early_or_late :
    (Filled WalLine.read testEarly ∧
      Serves (testRestore testEarly) testRequest testSnapshot testEarly ∧
      ¬ RestoresRight WalLine.read testEngine (testRestore testEarly) testRequest
        testSnapshot.createdAt testEarly) ∧
    (Filled WalLine.read testLate ∧
      Serves (testRestore testLate) testRequest testSnapshot testLate ∧
      ¬ RestoresRight WalLine.read testEngine (testRestore testLate) testRequest
        testSnapshot.createdAt testLate) := by
  have hearly := serves_testRestore testEarly (by decide)
  have hlate := serves_testRestore testLate (by decide)
  refine ⟨⟨filled_testEarly, hearly, ?_⟩, ⟨filled_testLate, hlate, ?_⟩⟩
  · refine not_restoresRight hearly filled_testEarly rfl ?_
    simp [testEarly, testLine, WalLine.read, walEntry, isBetween, testSnapshot, testRequest]
  · refine not_restoresRight hlate filled_testLate rfl ?_
    simp [testLate, testLine, WalLine.read, walEntry, isBetween, testSnapshot, testRequest]

end KuzuEventBus.Service
