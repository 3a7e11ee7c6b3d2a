import KuzuEventBus.Service.RestorePitr

/-!
# Three replays of one log

The write-ahead log of a database is replayed in three places: by the PITR restore, by the PITR
preview and by the branch that is created from a timestamp.  Each chooses a snapshot, then objects
of the log by the time in their names, then lines by the time in the entries, and each does it in
its own way.  This module models the three side by side, and says when they do the same.

The snapshots, the names and the lines are as they are found: a line is blank, or `json.loads`
raises on it, or it is some value.

## Main definitions

* `Formats` — `fromisoformat` and `strptime`.
* `SnapshotRow`, `StoredObject`, `Line` — what is found.
* `candidates`, `findWalFiles`, `replayWalFiles` — what the three have in common.
* `Restore.recover`, `Preview.recover`, `Branch.recover` — the three.
* `Agreeing` — when they do the same.

## Main results

* `sameExecutions_iff` — **the three choose one snapshot and execute the same lines exactly when the
  rows, the names and the lines are agreeing.**
-/

namespace KuzuEventBus.Service.Replays

/-! ### What is found -/

/-- A `datetime`, with or without a time zone. -/
inductive Stamp (τ : Type) where
  | aware (t : τ)
  | naive (t : τ)
  deriving DecidableEq

/-- `datetime.fromisoformat`, and `datetime.strptime` with `"%Y%m%dT%H%M%SZ"`. -/
structure Formats (τ : Type) where
  fromisoformat : String → Option (Stamp τ)
  strptime : List Char → Option τ
  fromisoformat_empty : fromisoformat "" = none

/-- A snapshot, as the repository lists it. -/
structure SnapshotRow where
  id : Uuid
  objectKey : String
  createdAt : String
  deriving DecidableEq

/-- An object, as the storage lists it. -/
structure StoredObject where
  key : String
  size : ℕ

/-- What `json.loads` makes of a line. -/
inductive Line where
  | blank
  | malformed
  | value (v : Json)

/-- An object of the log that is to be replayed. -/
structure WalFile (τ : Type) where
  key : String
  timestamp : τ
  size : ℕ

/-- The exceptions that end a replay before it executes a query. -/
inductive ReplayError (τ : Type) where
  /-- `ValueError("Cannot restore to future timestamp")` -/
  | futureTimestamp
  /-- A `created_at` that `fromisoformat` raises on. -/
  | malformedTimestamp
  /-- A `created_at` without a time zone, compared with the target. -/
  | naiveTimestamp
  /-- `FileNotFoundError` or `ValueError`, `f"No snapshot found before {...}"` -/
  | noSnapshot (target : τ)
  /-- An exception of the storage. -/
  | raised (e : PyError)

/-! ### What the replays have in common -/

variable {τ σ : Type} [LinearOrder τ]

/-- The rows that are not after the target, with their times; whether a malformed time is passed
over or raises is the argument. -/
def candidates (F : Formats τ) (skipsMalformed : Bool) (target : τ) :
    List SnapshotRow → Except (ReplayError τ) (List (τ × SnapshotRow))
  | [] => .ok []
  | row :: rows =>
    match F.fromisoformat row.createdAt with
    | none =>
      if skipsMalformed then candidates F skipsMalformed target rows else .error .malformedTimestamp
    | some (.naive _) => .error .naiveTimestamp
    | some (.aware t) => do
      let rest ← candidates F skipsMalformed target rows
      pure (if t ≤ target then (t, row) :: rest else rest)

/-- The last part of a key. -/
def filename (key : String) : List Char := PyText.lastPart '/' key

/-- The name of the object ends in `.log`. -/
def isLog (key : String) : Bool := ".log".toList.isSuffixOf (filename key)

/-- The time in the name of an object, if it starts with `wal-` and the rest is a time. -/
def timeOf (F : Formats τ) (key : String) : Option τ :=
  if "wal-".toList.isPrefixOf (filename key) then
    F.strptime (PyText.remove ".log" (PyText.remove "wal-" (filename key)))
  else none

/-- The entry of `wal_files` for an object. -/
def walFile? (F : Formats τ) (startTime endTime : τ) (obj : StoredObject) : Option (WalFile τ) :=
  match timeOf F obj.key with
  | none => none
  | some ts => if startTime ≤ ts ∧ ts ≤ endTime then some ⟨obj.key, ts, obj.size⟩ else none

/-- `wal_files`, sorted; whether the names are checked to end in `.log` is the argument. -/
def findWalFiles (F : Formats τ) (checksSuffix : Bool) (startTime endTime : τ)
    (walObjects : List StoredObject) : List (WalFile τ) :=
  ((walObjects.filter fun obj => !checksSuffix || isLog obj.key).filterMap
    (walFile? F startTime endTime)).insertionSort fun w w' => w.timestamp ≤ w'.timestamp

/-- A query that is executed, and the line it is from. -/
structure Execution where
  key : String
  line : ℕ
  query : Json
  deriving DecidableEq

/-- The state of a replay: the database, the executions, and the count of those that did not fail.
-/
structure Replay (σ : Type) where
  db : σ
  executed : List Execution
  replayedCount : ℕ

/-- A query is executed; a failure is ignored. -/
def Replay.execute (engine : Json → σ → Except PyError σ) (r : Replay σ)
    (x : Execution) : Replay σ :=
  match engine x.query r.db with
  | .ok db => ⟨db, r.executed ++ [x], r.replayedCount + 1⟩
  | .error _ => ⟨r.db, r.executed ++ [x], r.replayedCount⟩

/-- What a replay does at a line. -/
inductive Verdict where
  | skip
  | stop
  | run (query : Json)

/-- `json.loads` answers for the line. -/
def Line.isValue : Line → Bool
  | .value _ => true
  | _ => false

/-- The loop over the lines of an object, and whether it was left before the last.  What is done at
a line may depend on whether a value has been read before in the object. -/
def replayLines (verdict : Bool → Line → Verdict) (engine : Json → σ → Except PyError σ)
    (key : String) : Bool → ℕ → List Line → Replay σ → Replay σ × Bool
  | _, _, [], r => (r, false)
  | bound, n, line :: lines, r =>
    match verdict bound line with
    | .skip => replayLines verdict engine key (bound || line.isValue) (n + 1) lines r
    | .stop => (r, true)
    | .run query =>
      replayLines verdict engine key (bound || line.isValue) (n + 1) lines
        (r.execute engine ⟨key, n, query⟩)

/-- The loop over the objects; one that cannot be downloaded is passed over.  Whether the replay
ends when the loop over the lines is left is the argument. -/
def replayWalFiles (verdict : Bool → Line → Verdict) (returns : Bool)
    (engine : Json → σ → Except PyError σ) (download : String → Except PyError (List Line)) :
    List (WalFile τ) → Replay σ → Replay σ
  | [], r => r
  | walFile :: walFiles, r =>
    match download walFile.key with
    | .error _ => replayWalFiles verdict returns engine download walFiles r
    | .ok lines =>
      match replayLines verdict engine walFile.key false 0 lines r with
      | (r, true) =>
        if returns then r else replayWalFiles verdict returns engine download walFiles r
      | (r, false) => replayWalFiles verdict returns engine download walFiles r

/-- What a replay leaves: the snapshot it chose and the state at its end. -/
structure Recovery (σ : Type) where
  snapshot : SnapshotRow
  replay : Replay σ

/-! ### The restore -/

namespace Restore

/-- `RestoreDatabasePITRUseCase._find_nearest_snapshot`. -/
def findNearestSnapshot (F : Formats τ) (rows : List SnapshotRow) (target : τ) :
    Except (ReplayError τ) (Option (τ × SnapshotRow)) :=
  (candidates F false target rows).map (List.argmax Prod.fst)

/-- `_find_wal_files_in_range`: any name that starts with `wal-`, and none when the listing fails.
-/
def findWalFilesInRange (F : Formats τ) (walObjects : Except PyError (List StoredObject))
    (startTime endTime : τ) : List (WalFile τ) :=
  match walObjects with
  | .error _ => []
  | .ok objs => findWalFiles F false startTime endTime objs

/-- A line in `_replay_wal_files`: the time is read and compared first. -/
def verdict (F : Formats τ) (target : τ) (_bound : Bool) : Line → Verdict
  | .value (.object fields) =>
    let entry := Json.object fields
    match entry.get "ts" with
    | some (.string ts) =>
      match F.fromisoformat ts with
      | some (.aware ts) =>
        if target < ts then .stop
        else
          let query := (entry.get "query").getD (.string "")
          if truthy query then .run query else .skip
      | _ => .skip
    | _ => .skip
  | _ => .skip

/-- `RestoreDatabasePITRUseCase.execute`, from the check of the target to the end of the replay. -/
def recover (F : Formats τ) (engine : Json → σ → Except PyError σ) (restored : SnapshotRow → σ)
    (download : String → Except PyError (List Line)) (now target : τ) (rows : List SnapshotRow)
    (walObjects : Except PyError (List StoredObject)) : Except (ReplayError τ) (Recovery σ) := do
  if now < target then throw .futureTimestamp
  match ← findNearestSnapshot F rows target with
  | none => throw (.noSnapshot target)
  | some (snapshotTime, snapshot) =>
    let walFiles := findWalFilesInRange F walObjects snapshotTime target
    pure ⟨snapshot, replayWalFiles (verdict F target) true engine download walFiles
      ⟨restored snapshot, [], 0⟩⟩

end Restore

/-! ### The preview -/

namespace Preview

/-- `PreviewDatabasePITRUseCase._find_nearest_snapshot`: the first after a sort from the latest. -/
def findNearestSnapshot (F : Formats τ) (rows : List SnapshotRow) (target : τ) :
    Except (ReplayError τ) (Option (τ × SnapshotRow)) :=
  (candidates F true target rows).map fun candidates =>
    (candidates.insertionSort fun a b => b.1 ≤ a.1).head?

/-- A line in `_replay_wal_file`.  The handler of the exceptions names `entry`, which is not bound
before a line has been read: the exception of the handler then leaves the object. -/
def verdict (F : Formats τ) (target : τ) (bound : Bool) : Line → Verdict
  | .value (.object fields) =>
    let entry := Json.object fields
    match (entry.get "ts").getD (.string "") with
    | .string ts =>
      match F.fromisoformat ts with
      | some (.aware ts) =>
        if target < ts then .stop
        else
          let query := (entry.get "query").getD (.string "")
          if truthy query then .run query else .skip
      | _ => .skip
    | _ => .skip
  | .malformed => if bound then .skip else .stop
  | _ => .skip

/-- `PreviewDatabasePITRUseCase.execute`, from the choice of the snapshot to the end of the replay.
-/
def recover (F : Formats τ) (engine : Json → σ → Except PyError σ) (restored : SnapshotRow → σ)
    (download : String → Except PyError (List Line)) (target : τ) (rows : List SnapshotRow)
    (walObjects : Except PyError (List StoredObject)) : Except (ReplayError τ) (Recovery σ) := do
  match ← findNearestSnapshot F rows target with
  | none => throw (.noSnapshot target)
  | some (snapshotTime, snapshot) =>
    match walObjects with
    | .error e => throw (.raised e)
    | .ok objs =>
      let walFiles := findWalFiles F true snapshotTime target objs
      pure ⟨snapshot, replayWalFiles (verdict F target) false engine download walFiles
        ⟨restored snapshot, [], 0⟩⟩

end Preview

/-! ### The branch -/

namespace Branch

/-- The nearest snapshot of `CreateBranchUseCase.execute`: a time that is no text counts as
`datetime.min`, which has no time zone. -/
def findNearestSnapshot (F : Formats τ) (rows : List SnapshotRow) (target : τ) :
    Except (ReplayError τ) (Option (τ × SnapshotRow)) :=
  (candidates F false target rows).map (List.argmax Prod.fst)

/-- A line in the replay of `CreateBranchUseCase.execute`: the query is read first, a time without a
time zone is taken as UTC, and one that cannot be read is passed over. -/
def verdict (F : Formats τ) (target : τ) (_bound : Bool) : Line → Verdict
  | .value (.object fields) =>
    let entry := Json.object fields
    let q := (entry.get "query").getD (.string "")
    if truthy q then
      match entry.get "ts" with
      | some (.string ts) =>
        match F.fromisoformat ts with
        | some (.aware ts) | some (.naive ts) => if target < ts then .stop else .run q
        | none => .run q
      | _ => .run q
    else .skip
  | _ => .skip

/-- `CreateBranchUseCase.execute` with a timestamp: the choice of the snapshot, and the replay. -/
def recover (F : Formats τ) (engine : Json → σ → Except PyError σ) (restored : SnapshotRow → σ)
    (download : String → Except PyError (List Line)) (target : τ) (rows : List SnapshotRow)
    (walObjects : Except PyError (List StoredObject)) : Except (ReplayError τ) (Recovery σ) := do
  match ← findNearestSnapshot F rows target with
  | none => throw (.noSnapshot target)
  | some (snapshotTime, snapshot) =>
    let walFiles := match walObjects with
      | .error _ => []
      | .ok objs => findWalFiles F true snapshotTime target objs
    pure ⟨snapshot, replayWalFiles (verdict F target) false engine download walFiles
      ⟨restored snapshot, [], 0⟩⟩

end Branch

/-! ### What a line says -/

/-- The query of the entry of a line. -/
def Line.query? : Line → Option Json
  | .value (.object fields) =>
    let query := ((Json.object fields).get "query").getD (.string "")
    if truthy query then some query else none
  | _ => none

/-- The time of the entry of a line. -/
def Line.ts? (F : Formats τ) : Line → Option (Stamp τ)
  | .value (.object fields) =>
    match (Json.object fields).get "ts" with
    | some (.string ts) => F.fromisoformat ts
    | _ => none
  | _ => none

/-- The entry of the line has a time with a time zone after the target. -/
def Line.isLate (F : Formats τ) (target : τ) (line : Line) : Bool :=
  match line.ts? F with
  | some (.aware t) => target < t
  | _ => false

/-- The entry of the line has a query and a time with a time zone that is not after the target. -/
def Line.isDue (F : Formats τ) (target : τ) (line : Line) : Bool :=
  match line.query?, line.ts? F with
  | some _, some (.aware t) => t ≤ target
  | _, _ => false

/-- The entry of the line has a query and a time after the target, with a time zone or without. -/
def Line.isLateQuery (F : Formats τ) (target : τ) (line : Line) : Bool :=
  match line.query?, line.ts? F with
  | some _, some (.aware t) | some _, some (.naive t) => target < t
  | _, _ => false

section Verdicts

variable (F : Formats τ) (target : τ) (bound : Bool) (line : Line)

/-- The restore executes the due lines and ends at a late one. -/
theorem Restore.verdict_eq : Restore.verdict F target bound line =
    match line.ts? F with
    | some (.aware t) =>
      if target < t then .stop
      else match line.query? with
        | some query => .run query
        | none => .skip
    | _ => .skip := by
  cases line with
  | blank | malformed => rfl
  | value v =>
    cases v with
    | null | bool | number | string | array => rfl
    | object fields =>
      simp only [Restore.verdict, Line.ts?, Line.query?]
      split
      next ts hts =>
        split
        · split
          · rfl
          · split <;> rfl
        · rfl
      next => rfl

/-- The preview does as the restore, but leaves an object that starts with a malformed line. -/
theorem Preview.verdict_eq : Preview.verdict F target bound line =
    match line with
    | .malformed => if bound then .skip else .stop
    | line => Restore.verdict F target bound line := by
  cases line with
  | blank | malformed => rfl
  | value v =>
    cases v with
    | null | bool | number | string | array => rfl
    | object fields =>
      simp only [Preview.verdict, Restore.verdict]
      cases (Json.object fields).get "ts" with
      | none => simp only [Option.getD_none, F.fromisoformat_empty]
      | some v => cases v <;> rfl

/-- The branch executes a query whatever its time is, unless it is after the target. -/
theorem Branch.verdict_eq : Branch.verdict F target bound line =
    match line.query? with
    | none => .skip
    | some query => if line.isLateQuery F target then .stop else .run query := by
  cases line with
  | blank | malformed => rfl
  | value v =>
    cases v with
    | null | bool | number | string | array => rfl
    | object fields =>
      simp only [Branch.verdict, Line.isLateQuery, Line.query?, Line.ts?]
      by_cases hq : truthy (((Json.object fields).get "query").getD (.string "")) = true
      · simp only [hq, if_true]
        split
        next ts hts =>
          split <;> simp_all
        next hts => simp_all
      · simp only [hq, if_false, Bool.false_eq_true]

variable {F target bound line}

theorem Restore.verdict_of_isLate (h : line.isLate F target = true) :
    Restore.verdict F target bound line = .stop := by
  rw [Restore.verdict_eq]
  unfold Line.isLate at h
  split at h
  next hts => simp_all
  · cases h

theorem Restore.verdict_of_isDue (bound : Bool) (h : line.isDue F target = true) :
    ∃ query, line.query? = some query ∧ Restore.verdict F target bound line = .run query := by
  rw [Restore.verdict_eq]
  unfold Line.isDue at h
  split at h
  next query t hquery hts => exact ⟨query, hquery, by simp_all⟩
  · cases h

theorem Restore.verdict_of_not (hlate : line.isLate F target = false)
    (hdue : line.isDue F target = false) : Restore.verdict F target bound line = .skip := by
  rw [Restore.verdict_eq]
  unfold Line.isLate at hlate
  unfold Line.isDue at hdue
  split
  next t hts =>
    simp only [hts, decide_eq_false_iff_not] at hlate hdue
    rw [if_neg hlate]
    cases hquery : line.query? with
    | none => rfl
    | some query => simp [hquery, not_lt.1 hlate] at hdue
  next => rfl

theorem Line.query?_of_isLateQuery (h : line.isLateQuery F target = true) :
    ∃ query, line.query? = some query := by
  unfold Line.isLateQuery at h
  split at h
  next query _ hquery _ => exact ⟨query, hquery⟩
  next query _ hquery _ => exact ⟨query, hquery⟩
  · cases h

theorem Branch.verdict_of_isLateQuery (h : line.isLateQuery F target = true) :
    Branch.verdict F target bound line = .stop := by
  obtain ⟨query, hquery⟩ := Line.query?_of_isLateQuery h
  rw [Branch.verdict_eq, hquery]
  simp [h]

end Verdicts

/-! ### What a replay executes -/

/-- The executions of the loop over the lines of an object. -/
def runs (verdict : Bool → Line → Verdict) (key : String) : Bool → ℕ → List Line → List Execution
  | _, _, [] => []
  | bound, n, line :: lines =>
    match verdict bound line with
    | .skip => runs verdict key (bound || line.isValue) (n + 1) lines
    | .stop => []
    | .run query => ⟨key, n, query⟩ :: runs verdict key (bound || line.isValue) (n + 1) lines

/-- The loop over the lines of an object is left before the last. -/
def stops (verdict : Bool → Line → Verdict) : Bool → List Line → Bool
  | _, [] => false
  | bound, line :: lines =>
    match verdict bound line with
    | .stop => true
    | _ => stops verdict (bound || line.isValue) lines

/-- The lines of an object, none when it cannot be downloaded. -/
def contents (download : String → Except PyError (List Line)) (w : WalFile τ) : List Line :=
  match download w.key with
  | .error _ => []
  | .ok lines => lines

/-- The executions of the loop over the objects. -/
def fileRuns (verdict : Bool → Line → Verdict) (returns : Bool)
    (download : String → Except PyError (List Line)) : List (WalFile τ) → List Execution
  | [] => []
  | w :: ws =>
    runs verdict w.key false 0 (contents download w) ++
      if returns && stops verdict false (contents download w) then []
      else fileRuns verdict returns download ws

section Runs

variable (verdict : Bool → Line → Verdict) (engine : Json → σ → Except PyError σ)

@[simp] theorem executed_execute (r : Replay σ) (x : Execution) :
    (r.execute engine x).executed = r.executed ++ [x] := by
  unfold Replay.execute
  cases engine x.query r.db <;> rfl

/-- Whether the queries fail changes nothing about which are executed. -/
theorem replayLines_spec (key : String) (bound : Bool) (n : ℕ) (lines : List Line) (r : Replay σ) :
    (replayLines verdict engine key bound n lines r).1.executed =
        r.executed ++ runs verdict key bound n lines ∧
      (replayLines verdict engine key bound n lines r).2 = stops verdict bound lines := by
  induction lines generalizing bound n r with
  | nil => simp [replayLines, runs, stops]
  | cons line lines ih =>
    cases hv : verdict bound line with
    | skip =>
      simp only [replayLines, runs, stops, hv]
      exact ih _ _ r
    | stop => simp [replayLines, runs, stops, hv]
    | run query =>
      simp only [replayLines, runs, stops, hv]
      obtain ⟨hexec, hstop⟩ := ih (bound || line.isValue) (n + 1) (r.execute engine ⟨key, n, query⟩)
      rw [hexec, hstop, executed_execute]
      simp

omit [LinearOrder τ] in
theorem executed_replayWalFiles (returns : Bool) (download : String → Except PyError (List Line))
    (ws : List (WalFile τ)) (r : Replay σ) :
    (replayWalFiles verdict returns engine download ws r).executed =
      r.executed ++ fileRuns verdict returns download ws := by
  induction ws generalizing r with
  | nil => simp [replayWalFiles, fileRuns]
  | cons w ws ih =>
    cases hd : download w.key with
    | error e => simp [replayWalFiles, fileRuns, contents, hd, ih, runs, stops]
    | ok lines =>
      obtain ⟨hexec, hstop⟩ := replayLines_spec verdict engine w.key false 0 lines r
      simp only [replayWalFiles, fileRuns, contents, hd, ← hstop]
      split
      next r' heq =>
        rw [heq] at hexec ⊢
        dsimp only at hexec
        cases returns with
        | true => simpa using hexec
        | false => simp [ih, hexec]
      next r' heq =>
        rw [heq] at hexec ⊢
        dsimp only at hexec
        simp [ih, hexec]

/-- The executions of an object are numbered from where they start. -/
theorem mem_runs {key : String} {bound : Bool} {n : ℕ} {lines : List Line} {x : Execution}
    (hx : x ∈ runs verdict key bound n lines) : x.key = key ∧ n ≤ x.line := by
  induction lines generalizing bound n with
  | nil => cases hx
  | cons line lines ih =>
    simp only [runs] at hx
    split at hx
    · have := ih hx
      exact ⟨this.1, by omega⟩
    · cases hx
    · rcases List.mem_cons.1 hx with rfl | hx
      · exact ⟨rfl, le_rfl⟩
      · have := ih hx
        exact ⟨this.1, by omega⟩

omit [LinearOrder τ] in
/-- The executions of the objects are from their lines. -/
theorem mem_fileRuns {returns : Bool} {download : String → Except PyError (List Line)}
    {ws : List (WalFile τ)} {x : Execution} (hx : x ∈ fileRuns verdict returns download ws) :
    ∃ w ∈ ws, x.key = w.key := by
  induction ws with
  | nil => cases hx
  | cons w ws ih =>
    simp only [fileRuns, List.mem_append] at hx
    rcases hx with hx | hx
    · exact ⟨w, List.mem_cons_self, (mem_runs verdict hx).1⟩
    · split at hx
      · cases hx
      · obtain ⟨w', hw', heq⟩ := ih hx
        exact ⟨w', List.mem_cons_of_mem _ hw', heq⟩

end Runs

/-! ### When the lines of an object agree -/

section Lines

variable (F : Formats τ) (target : τ)

/-- There is a late line. -/
def HasLate (lines : List Line) : Prop := ∃ line ∈ lines, line.isLate F target = true

/-- No line before the first late one is due. -/
def RestoreSilent (lines : List Line) : Prop :=
  ∀ line ∈ lines.takeWhile fun line => !line.isLate F target, line.isDue F target = false

/-- No line with a query is before the first that is late. -/
def BranchSilent (lines : List Line) : Prop :=
  ∀ line ∈ lines.takeWhile fun line => !line.isLateQuery F target, line.query? = none

/-- The first line that is not blank is malformed. -/
def Abandoned : List Line → Prop
  | [] => False
  | .blank :: lines => Abandoned lines
  | .malformed :: _ => True
  | .value _ :: _ => False

/-- The restore and the branch execute the same lines: every line with a query has a time with a
time zone, up to a late line; what follows a late line without a query, or a late time without a
time zone, is silent. -/
def LinesAgree : List Line → Prop
  | [] => True
  | line :: lines =>
    match line.query?, line.ts? F with
    | none, some (.aware t) => if target < t then BranchSilent F target lines else LinesAgree lines
    | none, _ => LinesAgree lines
    | some _, some (.aware t) => target < t ∨ LinesAgree lines
    | some _, some (.naive t) => target < t ∧ RestoreSilent F target lines
    | some _, none => False

variable {F target}

@[simp] theorem restoreSilent_nil : RestoreSilent F target [] := by simp [RestoreSilent]

@[simp] theorem branchSilent_nil : BranchSilent F target [] := by simp [BranchSilent]

theorem stops_restore_iff (bound : Bool) {lines : List Line} :
    stops (Restore.verdict F target) bound lines = true ↔ HasLate F target lines := by
  induction lines generalizing bound with
  | nil => simp [stops, HasLate]
  | cons line lines ih =>
    rw [HasLate, List.exists_mem_cons_iff, ← HasLate, ← ih (bound || line.isValue)]
    by_cases hlate : line.isLate F target = true
    · simp [stops, Restore.verdict_of_isLate hlate, hlate]
    · rw [Bool.not_eq_true] at hlate
      by_cases hdue : line.isDue F target = true
      · obtain ⟨query, -, hv⟩ := Restore.verdict_of_isDue bound hdue
        simp [stops, hv, hlate]
      · rw [Bool.not_eq_true] at hdue
        simp [stops, Restore.verdict_of_not hlate hdue, hlate]

theorem runs_restore_eq_nil_iff (key : String) (bound : Bool) (n : ℕ) {lines : List Line} :
    runs (Restore.verdict F target) key bound n lines = [] ↔ RestoreSilent F target lines := by
  induction lines generalizing bound n with
  | nil => simp [runs]
  | cons line lines ih =>
    unfold RestoreSilent
    by_cases hlate : line.isLate F target = true
    · simp [runs, Restore.verdict_of_isLate hlate, hlate]
    · rw [Bool.not_eq_true] at hlate
      rw [List.takeWhile_cons_of_pos (by simpa using hlate), List.forall_mem_cons]
      by_cases hdue : line.isDue F target = true
      · obtain ⟨query, -, hv⟩ := Restore.verdict_of_isDue bound hdue
        simp [runs, hv, hdue]
      · rw [Bool.not_eq_true] at hdue
        simp only [runs, Restore.verdict_of_not hlate hdue, hdue, true_and]
        exact ih _ _

theorem runs_branch_eq_nil_iff (key : String) (bound : Bool) (n : ℕ) {lines : List Line} :
    runs (Branch.verdict F target) key bound n lines = [] ↔ BranchSilent F target lines := by
  induction lines generalizing bound n with
  | nil => simp [runs]
  | cons line lines ih =>
    unfold BranchSilent
    by_cases hlate : line.isLateQuery F target = true
    · simp [runs, Branch.verdict_of_isLateQuery hlate, hlate]
    · rw [Bool.not_eq_true] at hlate
      rw [List.takeWhile_cons_of_pos (by simpa using hlate), List.forall_mem_cons]
      cases hquery : line.query? with
      | some query => simp [runs, Branch.verdict_eq, hquery, hlate]
      | none =>
        simp only [runs, Branch.verdict_eq, hquery, true_and]
        exact ih _ _

/-- Once a value has been read, the preview of an object goes on as the restore. -/
theorem runs_preview_of_bound {key : String} {n : ℕ} {lines : List Line} :
    runs (Preview.verdict F target) key true n lines =
      runs (Restore.verdict F target) key true n lines := by
  induction lines generalizing n with
  | nil => rfl
  | cons line lines ih =>
    have hv : Preview.verdict F target true line = Restore.verdict F target true line := by
      rw [Preview.verdict_eq]
      cases line <;> rfl
    simp only [runs, hv, Bool.true_or, ih]

/-- The preview executes the lines the restore does, or none when the object is abandoned. -/
theorem runs_preview_iff {key : String} {n : ℕ} {lines : List Line} {l : List Execution} :
    runs (Preview.verdict F target) key false n lines = l ↔
      (Abandoned lines ∧ l = []) ∨
        (¬ Abandoned lines ∧ l = runs (Restore.verdict F target) key false n lines) := by
  induction lines generalizing n with
  | nil => simp [runs, Abandoned, eq_comm]
  | cons line lines ih =>
    cases line with
    | blank =>
      simp only [runs, Preview.verdict_eq, Restore.verdict_eq, Line.ts?, Line.isValue, Abandoned]
      exact ih
    | malformed => simp [runs, Preview.verdict_eq, Abandoned, eq_comm]
    | value v =>
      have hv : Preview.verdict F target false (.value v) =
        Restore.verdict F target false (.value v) :=
        Preview.verdict_eq F target false (.value v)
      simp only [runs, hv, Line.isValue, Bool.or_true, runs_preview_of_bound, Abandoned, false_and,
        not_false_eq_true, true_and, false_or]
      exact eq_comm

/-- The restore and the branch execute the same lines exactly when the lines agree. -/
theorem runs_eq_iff (key : String) (bound : Bool) (n : ℕ) {lines : List Line} :
    runs (Restore.verdict F target) key bound n lines =
      runs (Branch.verdict F target) key bound n lines ↔ LinesAgree F target lines := by
  induction lines generalizing bound n with
  | nil => simp [runs, LinesAgree]
  | cons line lines ih =>
    have hskip (verdict : Bool → Line → Verdict) (query : Json)
        (l : List Execution) : runs verdict key (bound || line.isValue) (n + 1) lines ≠
          ⟨key, n, query⟩ :: l := by
      intro heq
      have hmem := mem_runs verdict (heq ▸ List.mem_cons_self : (⟨key, n, query⟩ : Execution) ∈ _)
      exact absurd hmem.2 (by simp)
    cases hquery : line.query? with
    | none =>
      -- The branch goes on; the restore ends if the line is late.
      cases hts : line.ts? F with
      | none =>
        simp only [runs, LinesAgree, Restore.verdict_eq, Branch.verdict_eq, hquery, hts]
        exact ih _ _
      | some st =>
        cases st with
        | naive t =>
          simp only [runs, LinesAgree, Restore.verdict_eq, Branch.verdict_eq, hquery, hts]
          exact ih _ _
        | aware t =>
          simp only [runs, LinesAgree, Restore.verdict_eq, Branch.verdict_eq, hquery, hts]
          by_cases hlt : target < t
          · simp only [hlt, if_true]
            rw [eq_comm]
            exact runs_branch_eq_nil_iff _ _ _
          · simp only [hlt, if_false]
            exact ih _ _
    | some query =>
      cases hts : line.ts? F with
      | none =>
        simpa [runs, LinesAgree, Restore.verdict_eq, Branch.verdict_eq, Line.isLateQuery, hquery,
          hts] using hskip _ query _
      | some st =>
        cases st with
        | naive t =>
          by_cases hlt : target < t
          · simpa [runs, LinesAgree, Restore.verdict_eq, Branch.verdict_eq, Line.isLateQuery,
              hquery, hts, hlt] using runs_restore_eq_nil_iff _ _ _
          · simpa [runs, LinesAgree, Restore.verdict_eq, Branch.verdict_eq, Line.isLateQuery,
              hquery, hts, hlt] using hskip _ query _
        | aware t =>
          by_cases hlt : target < t
          · simp [runs, LinesAgree, Restore.verdict_eq, Branch.verdict_eq, Line.isLateQuery, hquery,
              hts, hlt]
          · simpa [runs, LinesAgree, Restore.verdict_eq, Branch.verdict_eq, Line.isLateQuery,
              hquery, hts, hlt] using ih _ _

theorem runs_preview_of_abandoned {key : String} {n : ℕ} {lines : List Line} (h : Abandoned lines) :
    runs (Preview.verdict F target) key false n lines = [] :=
  runs_preview_iff.2 (Or.inl ⟨h, rfl⟩)

theorem runs_preview_of_not_abandoned {key : String} {n : ℕ} {lines : List Line}
    (h : ¬ Abandoned lines) : runs (Preview.verdict F target) key false n lines =
      runs (Restore.verdict F target) key false n lines :=
  runs_preview_iff.2 (Or.inr ⟨h, rfl⟩)

/-- The three execute the same lines of an object. -/
theorem runs_all_eq_iff (key : String) {lines : List Line} :
    (runs (Restore.verdict F target) key false 0 lines =
        runs (Preview.verdict F target) key false 0 lines ∧
      runs (Preview.verdict F target) key false 0 lines =
        runs (Branch.verdict F target) key false 0 lines) ↔
      LinesAgree F target lines ∧ (Abandoned lines → RestoreSilent F target lines) := by
  rw [← runs_eq_iff key false 0, ← runs_restore_eq_nil_iff key false 0]
  by_cases h : Abandoned lines
  · rw [runs_preview_of_abandoned h]
    constructor
    · rintro ⟨hr, hb⟩
      exact ⟨hr.trans hb, fun _ => hr⟩
    · rintro ⟨heq, hr⟩
      exact ⟨hr h, (hr h).symm.trans heq⟩
  · rw [runs_preview_of_not_abandoned h]
    simp [h]

end Lines

/-! ### When the objects agree -/

section Objects

variable (F : Formats τ) (target : τ) (download : String → Except PyError (List Line))

/-- The three execute the same lines of an object, if the replay of the restore gets to it; it is
the only one that reads it if its name does not end in `.log`. -/
def FileAgrees (w : WalFile τ) : Prop :=
  if isLog w.key then
    LinesAgree F target (contents download w) ∧
      (Abandoned (contents download w) → RestoreSilent F target (contents download w))
  else RestoreSilent F target (contents download w)

/-- The preview and the branch execute no line of an object. -/
def FileSilent (w : WalFile τ) : Prop :=
  isLog w.key → (Abandoned (contents download w) ∨ RestoreSilent F target (contents download w)) ∧
    BranchSilent F target (contents download w)

/-- The objects agree one by one, and after one with a late line, where the restore returns, they
are silent. -/
def FilesAgree : List (WalFile τ) → Prop
  | [] => True
  | w :: ws => FileAgrees F target download w ∧
      (HasLate F target (contents download w) → ∀ w' ∈ ws, FileSilent F target download w') ∧
      (¬ HasLate F target (contents download w) → FilesAgree ws)

variable {F target download}

omit [LinearOrder τ] in
theorem fileRuns_cons (verdict : Bool → Line → Verdict) (w : WalFile τ) (ws : List (WalFile τ)) :
    fileRuns verdict false download (w :: ws) =
      runs verdict w.key false 0 (contents download w) ++ fileRuns verdict false download ws := rfl

omit [LinearOrder τ] in
theorem fileRuns_eq_nil_iff {verdict : Bool → Line → Verdict} {ws : List (WalFile τ)} :
    fileRuns verdict false download ws = [] ↔
      ∀ w ∈ ws, runs verdict w.key false 0 (contents download w) = [] := by
  induction ws with
  | nil => simp [fileRuns]
  | cons w ws ih => simp [fileRuns, ih]

theorem runs_preview_eq_nil_iff (key : String) {lines : List Line} :
    runs (Preview.verdict F target) key false 0 lines = [] ↔
      Abandoned lines ∨ RestoreSilent F target lines := by
  by_cases h : Abandoned lines
  · simp [runs_preview_of_abandoned h, h]
  · rw [runs_preview_of_not_abandoned h, runs_restore_eq_nil_iff]
    simp [h]

/-- The preview and the branch execute nothing. -/
theorem filesSilent_iff {ws : List (WalFile τ)} :
    ([] = fileRuns (Preview.verdict F target) false download (ws.filter fun w => isLog w.key) ∧
      fileRuns (Preview.verdict F target) false download (ws.filter fun w => isLog w.key) =
        fileRuns (Branch.verdict F target) false download (ws.filter fun w => isLog w.key)) ↔
      ∀ w ∈ ws, FileSilent F target download w := by
  constructor
  · rintro ⟨hpreview, hbranch⟩ w hw hlog
    have hmem : w ∈ ws.filter fun w => isLog w.key := List.mem_filter.2 ⟨hw, hlog⟩
    rw [← hpreview] at hbranch
    exact ⟨(runs_preview_eq_nil_iff _).1 (fileRuns_eq_nil_iff.1 hpreview.symm w hmem),
      (runs_branch_eq_nil_iff _ _ _).1 (fileRuns_eq_nil_iff.1 hbranch.symm w hmem)⟩
  · intro h
    have hpreview : fileRuns (Preview.verdict F target) false download
        (ws.filter fun w => isLog w.key) = [] := by
      refine fileRuns_eq_nil_iff.2 fun w hw => (runs_preview_eq_nil_iff _).2 ?_
      exact (h w (List.mem_filter.1 hw).1 (List.mem_filter.1 hw).2).1
    have hbranch : fileRuns (Branch.verdict F target) false download
        (ws.filter fun w => isLog w.key) = [] := by
      refine fileRuns_eq_nil_iff.2 fun w hw => (runs_branch_eq_nil_iff _ _ _).2 ?_
      exact (h w (List.mem_filter.1 hw).1 (List.mem_filter.1 hw).2).2
    exact ⟨hpreview.symm, hpreview.trans hbranch.symm⟩

omit [LinearOrder τ] in
/-- What is executed from one object is told apart from the rest by its key. -/
theorem append_runs_eq_iff (verdict verdict' : Bool → Line → Verdict) {w : WalFile τ}
    (lines lines' : List Line) {rest rest' : List Execution} (hrest : ∀ x ∈ rest, x.key ≠ w.key)
    (hrest' : ∀ x ∈ rest', x.key ≠ w.key) :
    runs verdict w.key false 0 lines ++ rest = runs verdict' w.key false 0 lines' ++ rest' ↔
      runs verdict w.key false 0 lines = runs verdict' w.key false 0 lines' ∧ rest = rest' := by
  refine Lists.append_eq_append_iff_of_forall (p := fun x => x.key = w.key) ?_ ?_ ?_ ?_
  · intro x hx
    simp [(mem_runs verdict hx).1]
  · intro x hx
    simp [(mem_runs verdict' hx).1]
  · intro x hx
    simp [hrest x hx]
  · intro x hx
    simp [hrest' x hx]

/-- The three execute the same lines exactly when the objects agree. -/
theorem fileRuns_eq_iff {ws : List (WalFile τ)} (hkeys : (ws.map WalFile.key).Nodup) :
    (fileRuns (Restore.verdict F target) true download ws =
        fileRuns (Preview.verdict F target) false download (ws.filter fun w => isLog w.key) ∧
      fileRuns (Preview.verdict F target) false download (ws.filter fun w => isLog w.key) =
        fileRuns (Branch.verdict F target) false download (ws.filter fun w => isLog w.key)) ↔
      FilesAgree F target download ws := by
  induction ws with
  | nil => simp [fileRuns, FilesAgree]
  | cons w ws ih =>
    rw [List.map_cons, List.nodup_cons] at hkeys
    have hother (verdict : Bool → Line → Verdict) (returns : Bool) (ws' : List (WalFile τ))
        (hws' : ws' ⊆ ws) : ∀ x ∈ fileRuns verdict returns download ws', x.key ≠ w.key := by
      intro x hx hkey
      obtain ⟨w', hw', heq⟩ := mem_fileRuns verdict hx
      exact hkeys.1 (List.mem_map.2 ⟨w', hws' hw', heq.symm.trans hkey⟩)
    have hfilter : ws.filter (fun w => isLog w.key) ⊆ ws := List.filter_subset_self _
    have hend (x : Execution) (hx : x ∈ if true && stops (Restore.verdict F target) false
        (contents download w) then [] else fileRuns (Restore.verdict F target) true download ws) :
        x.key ≠ w.key := by
      split at hx
      · cases hx
      · exact hother _ _ ws (List.Subset.refl ws) x hx
    -- The rest of the restore is empty once it has returned.
    have hrest : ((if true && stops (Restore.verdict F target) false (contents download w) then []
          else fileRuns (Restore.verdict F target) true download ws) =
          fileRuns (Preview.verdict F target) false download (ws.filter fun w => isLog w.key) ∧
        fileRuns (Preview.verdict F target) false download (ws.filter fun w => isLog w.key) =
          fileRuns (Branch.verdict F target) false download (ws.filter fun w => isLog w.key)) ↔
        (HasLate F target (contents download w) → ∀ w' ∈ ws, FileSilent F target download w') ∧
          (¬ HasLate F target (contents download w) → FilesAgree F target download ws) := by
      by_cases hlate : HasLate F target (contents download w)
      · rw [if_pos (by simpa using (stops_restore_iff _).2 hlate), filesSilent_iff]
        simp [hlate]
      · rw [if_neg (by simpa using fun h => hlate ((stops_restore_iff _).1 h)), ih hkeys.2]
        simp [hlate]
    rw [FilesAgree, ← hrest, fileRuns, FileAgrees]
    generalize (if true && stops (Restore.verdict F target) false (contents download w) then []
      else fileRuns (Restore.verdict F target) true download ws) = tail at hend ⊢
    by_cases hlog : isLog w.key = true
    · rw [List.filter_cons_of_pos (by simpa using hlog), fileRuns_cons, fileRuns_cons, if_pos hlog,
        ← runs_all_eq_iff w.key, append_runs_eq_iff _ _ _ _ hend (hother _ _ _ hfilter),
        append_runs_eq_iff _ _ _ _ (hother _ _ _ hfilter) (hother _ _ _ hfilter)]
      exact and_and_and_comm
    · rw [List.filter_cons_of_neg (by simpa using hlog), if_neg hlog,
        ← runs_restore_eq_nil_iff w.key false 0, ← and_assoc]
      refine and_congr_left fun _ => ?_
      -- What the restore executes from the object is in no other list.
      have hsplit := append_runs_eq_iff (Restore.verdict F target) (Restore.verdict F target)
        (contents download w) [] hend (hother (Preview.verdict F target) false _ hfilter)
      simpa [runs] using hsplit

end Objects

/-! ### When the rows agree -/

section Rows

variable (F : Formats τ) (target : τ)

/-- The time of a row has a time zone. -/
def SnapshotRow.IsAware (row : SnapshotRow) : Prop :=
  ∃ t, F.fromisoformat row.createdAt = some (.aware t)

/-- The time of a row has no time zone. -/
def SnapshotRow.IsNaive (row : SnapshotRow) : Prop :=
  ∃ t, F.fromisoformat row.createdAt = some (.naive t)

/-- A row with its time, if that has a time zone. -/
def SnapshotRow.timed (row : SnapshotRow) : Option (τ × SnapshotRow) :=
  match F.fromisoformat row.createdAt with
  | some (.aware t) => some (t, row)
  | _ => none

/-- The first of the latest rows that are not after the target. -/
def nearest (rows : List SnapshotRow) : Option (τ × SnapshotRow) :=
  ((rows.filterMap (SnapshotRow.timed F)).filter fun c => c.1 ≤ target).argmax Prod.fst

variable {F target}

/-- A row that is passed over or raises leaves no candidates; otherwise they are the rows before the
target. -/
theorem candidates_eq {skipsMalformed : Bool} {rows : List SnapshotRow}
    (hrows : ∀ row ∈ rows, row.IsAware F ∨ skipsMalformed = true ∧ ¬ row.IsNaive F) :
    candidates F skipsMalformed target rows =
      .ok ((rows.filterMap (SnapshotRow.timed F)).filter fun c => c.1 ≤ target) := by
  induction rows with
  | nil => rfl
  | cons row rows ih =>
    rw [List.forall_mem_cons] at hrows
    have htail := ih hrows.2
    unfold candidates
    split
    next hnone =>
      rcases hrows.1 with ⟨t, ht⟩ | ⟨hskip, -⟩
      · rw [hnone] at ht
        cases ht
      · rw [if_pos hskip, htail]
        simp [SnapshotRow.timed, hnone]
    next t hnaive =>
      rcases hrows.1 with ⟨t', ht'⟩ | ⟨-, hno⟩
      · rw [hnaive] at ht'
        cases ht'
      · exact absurd ⟨t, hnaive⟩ hno
    next t haware =>
      rw [htail]
      by_cases hle : t ≤ target
      · simp [SnapshotRow.timed, haware, hle]
      · simp [SnapshotRow.timed, haware, hle]

/-- A row that can neither be read nor passed over raises. -/
theorem candidates_error (target : τ) (skipsMalformed : Bool) {rows : List SnapshotRow}
    (hrows : ¬ ∀ row ∈ rows, row.IsAware F ∨ skipsMalformed = true ∧ ¬ row.IsNaive F) :
    ∃ e, candidates F skipsMalformed target rows = .error e := by
  induction rows with
  | nil => simp at hrows
  | cons row rows ih =>
    rw [List.forall_mem_cons, not_and_or] at hrows
    unfold candidates
    split
    next hnone =>
      by_cases hskip : skipsMalformed = true
      · rw [if_pos hskip]
        refine ih (hrows.resolve_left fun hrow => hrow (Or.inr ⟨hskip, ?_⟩))
        rintro ⟨t, ht⟩
        rw [hnone] at ht
        cases ht
      · rw [if_neg hskip]
        exact ⟨_, rfl⟩
    next t hnaive => exact ⟨_, rfl⟩
    next t haware =>
      obtain ⟨e, he⟩ := ih (hrows.resolve_left fun hrow => hrow (Or.inl ⟨t, haware⟩))
      exact ⟨e, by rw [he]; rfl⟩

end Rows

/-! ### The three replays -/

section Outcomes

variable (F : Formats τ) (engine : Json → σ → Except PyError σ) (restored : SnapshotRow → σ)
  (download : String → Except PyError (List Line)) (now target : τ) (rows : List SnapshotRow)
  (objs : List StoredObject)

/-- The snapshot a replay chose and what it executed. -/
def outcome : Except (ReplayError τ) (Recovery σ) → Option (SnapshotRow × List Execution)
  | .error _ => none
  | .ok r => some (r.snapshot, r.replay.executed)

/-- What the restore executes. -/
def restoreRuns (startTime : τ) : List Execution :=
  fileRuns (Restore.verdict F target) true download (findWalFiles F false startTime target objs)

/-- What the preview executes. -/
def previewRuns (startTime : τ) : List Execution :=
  fileRuns (Preview.verdict F target) false download (findWalFiles F true startTime target objs)

/-- What the branch executes. -/
def branchRuns (startTime : τ) : List Execution :=
  fileRuns (Branch.verdict F target) false download (findWalFiles F true startTime target objs)

variable {F target} in
theorem key_of_walFile? {startTime : τ} {obj : StoredObject} {w : WalFile τ}
    (hw : walFile? F startTime target obj = some w) : w.key = obj.key := by
  unfold walFile? at hw
  split at hw
  · cases hw
  · split at hw
    · cases hw
      rfl
    · cases hw

/-- With the check of the suffix the objects are those of the others that end in `.log`. -/
theorem findWalFiles_true (startTime : τ) : findWalFiles F true startTime target objs =
    (findWalFiles F false startTime target objs).filter fun w => isLog w.key := by
  unfold findWalFiles
  rw [Lists.filter_insertionSort, List.filter_filterMap, List.filterMap_filter,
    List.filterMap_filter]
  congr 2
  funext obj
  cases hw : walFile? F startTime target obj with
  | none => simp
  | some w => simp [Option.filter, key_of_walFile? hw]

/-- The keys of the objects in range are keys of objects, in their order. -/
theorem sublist_keys (startTime : τ) :
    ((objs.filterMap (walFile? F startTime target)).map WalFile.key).Sublist
      (objs.map StoredObject.key) := by
  induction objs with
  | nil => exact List.Sublist.refl _
  | cons obj objs ih =>
    cases hw : walFile? F startTime target obj with
    | none =>
      rw [List.filterMap_cons_none hw]
      exact ih.cons _
    | some w =>
      rw [List.filterMap_cons_some hw, List.map_cons, List.map_cons, key_of_walFile? hw]
      exact ih.cons_cons _

/-- No two objects to be replayed have one key. -/
theorem nodup_findWalFiles (checksSuffix : Bool) (startTime : τ)
    (hkeys : (objs.map StoredObject.key).Nodup) :
    ((findWalFiles F checksSuffix startTime target objs).map WalFile.key).Nodup := by
  unfold findWalFiles
  rw [((List.perm_insertionSort _ _).map WalFile.key).nodup_iff]
  refine List.Nodup.sublist ?_ hkeys
  exact (sublist_keys F target _ startTime).trans (List.filter_sublist.map StoredObject.key)

variable {F now target rows}

theorem Restore.findNearestSnapshot_eq (haware : ∀ row ∈ rows, row.IsAware F) :
    Restore.findNearestSnapshot F rows target = .ok (nearest F target rows) := by
  rw [Restore.findNearestSnapshot, candidates_eq fun row hrow => Or.inl (haware row hrow)]
  rfl

theorem Restore.findNearestSnapshot_error (target : τ) (haware : ¬ ∀ row ∈ rows, row.IsAware F) :
    ∃ e, Restore.findNearestSnapshot F rows target = .error e := by
  have hrows : ¬ ∀ row ∈ rows, row.IsAware F ∨ false = true ∧ ¬ row.IsNaive F := by
    simpa using haware
  obtain ⟨e, he⟩ := candidates_error target false hrows
  exact ⟨e, by rw [Restore.findNearestSnapshot, he]; rfl⟩

theorem outcome_restore (hnow : target ≤ now) (haware : ∀ row ∈ rows, row.IsAware F) :
    outcome (Restore.recover F engine restored download now target rows (.ok objs)) =
      (nearest F target rows).map fun c => (c.2, restoreRuns F download target objs c.1) := by
  unfold Restore.recover
  rw [if_neg (not_lt.2 hnow), Restore.findNearestSnapshot_eq haware]
  cases nearest F target rows with
  | none => rfl
  | some c =>
    show some (_, (replayWalFiles _ _ _ _ _ _).executed) = _
    rw [executed_replayWalFiles]
    rfl

theorem outcome_restore_none (h : ¬ (target ≤ now ∧ ∀ row ∈ rows, row.IsAware F)) :
    outcome (Restore.recover F engine restored download now target rows (.ok objs)) = none := by
  unfold Restore.recover
  by_cases hnow : target ≤ now
  · obtain ⟨e, he⟩ := Restore.findNearestSnapshot_error target fun haware => h ⟨hnow, haware⟩
    rw [if_neg (not_lt.2 hnow), he]
    rfl
  · rw [if_pos (not_le.1 hnow)]
    rfl

theorem outcome_preview (hnaive : ∀ row ∈ rows, ¬ row.IsNaive F) :
    outcome (Preview.recover F engine restored download target rows (.ok objs)) =
      (nearest F target rows).map fun c => (c.2, previewRuns F download target objs c.1) := by
  have hfind : Preview.findNearestSnapshot F rows target = .ok (nearest F target rows) := by
    rw [Preview.findNearestSnapshot, candidates_eq fun row hrow => Or.inr ⟨rfl, hnaive row hrow⟩]
    exact congrArg Except.ok (Lists.head?_insertionSort_ge Prod.fst _)
  unfold Preview.recover
  rw [hfind]
  cases nearest F target rows with
  | none => rfl
  | some c =>
    show some (_, (replayWalFiles _ _ _ _ _ _).executed) = _
    rw [executed_replayWalFiles]
    rfl

theorem outcome_preview_none (h : ¬ ∀ row ∈ rows, ¬ row.IsNaive F) :
    outcome (Preview.recover F engine restored download target rows (.ok objs)) = none := by
  have hrows : ¬ ∀ row ∈ rows, row.IsAware F ∨ true = true ∧ ¬ row.IsNaive F := by
    refine fun hrows => h fun row hrow => ?_
    rcases hrows row hrow with ⟨t, ht⟩ | ⟨-, hno⟩
    · rintro ⟨t', ht'⟩
      rw [ht] at ht'
      cases ht'
    · exact hno
  obtain ⟨e, he⟩ := candidates_error target true hrows
  unfold Preview.recover
  rw [Preview.findNearestSnapshot, he]
  rfl

theorem outcome_branch (haware : ∀ row ∈ rows, row.IsAware F) :
    outcome (Branch.recover F engine restored download target rows (.ok objs)) =
      (nearest F target rows).map fun c => (c.2, branchRuns F download target objs c.1) := by
  unfold Branch.recover
  rw [show Branch.findNearestSnapshot F rows target = .ok (nearest F target rows) from
    Restore.findNearestSnapshot_eq haware]
  cases nearest F target rows with
  | none => rfl
  | some c =>
    show some (_, (replayWalFiles _ _ _ _ _ _).executed) = _
    rw [executed_replayWalFiles]
    rfl

theorem outcome_branch_none (h : ¬ ∀ row ∈ rows, row.IsAware F) :
    outcome (Branch.recover F engine restored download target rows (.ok objs)) = none := by
  obtain ⟨e, he⟩ := Restore.findNearestSnapshot_error target h
  unfold Branch.recover
  rw [show Branch.findNearestSnapshot F rows target = .error e from he]
  rfl

/-- The three execute the same lines of the objects from a time on. -/
theorem runs_eq_iff_filesAgree (startTime : τ) (hkeys : (objs.map StoredObject.key).Nodup) :
    (restoreRuns F download target objs startTime = previewRuns F download target objs startTime ∧
      previewRuns F download target objs startTime = branchRuns F download target objs startTime) ↔
      FilesAgree F target download (findWalFiles F false startTime target objs) := by
  unfold restoreRuns previewRuns branchRuns
  rw [findWalFiles_true]
  exact fileRuns_eq_iff (nodup_findWalFiles F target objs false startTime hkeys)

variable (F now target rows)

/-- The three choose one snapshot, or none, and execute the same lines. -/
def SameExecutions : Prop :=
  outcome (Restore.recover F engine restored download now target rows (.ok objs)) =
      outcome (Preview.recover F engine restored download target rows (.ok objs)) ∧
    outcome (Preview.recover F engine restored download target rows (.ok objs)) =
      outcome (Branch.recover F engine restored download target rows (.ok objs))

/-- The snapshot a replay chose and the queries it executed. -/
def queries (x : Option (SnapshotRow × List Execution)) : Option (SnapshotRow × List Json) :=
  x.map fun c => (c.1, c.2.map Execution.query)

/-- The three choose one snapshot, or none, and execute the same queries. -/
def SameQueries : Prop :=
  queries (outcome (Restore.recover F engine restored download now target rows (.ok objs))) =
      queries (outcome (Preview.recover F engine restored download target rows (.ok objs))) ∧
    queries (outcome (Preview.recover F engine restored download target rows (.ok objs))) =
      queries (outcome (Branch.recover F engine restored download target rows (.ok objs)))

/-- What the rows, the names and the lines have to meet: some row has a time without a time zone, on
which all three raise; or no row is before the target; or the target is not in the future, every
time has a time zone, and the objects agree. -/
def Agreeing : Prop :=
  (∃ row ∈ rows, row.IsNaive F) ∨ nearest F target rows = none ∨
    target ≤ now ∧ (∀ row ∈ rows, row.IsAware F) ∧ ∀ t row, nearest F target rows = some (t, row) →
      FilesAgree F target download (findWalFiles F false t target objs)

/-- **The three replays choose one snapshot and execute the same lines exactly when what they find
is agreeing**, and then they execute the same queries. -/
theorem sameExecutions_iff (hkeys : (objs.map StoredObject.key).Nodup) :
    (SameExecutions F engine restored download now target rows objs ↔
        Agreeing F download now target rows objs) ∧
      (Agreeing F download now target rows objs →
        SameQueries F engine restored download now target rows objs) := by
  have hiff : SameExecutions F engine restored download now target rows objs ↔
      Agreeing F download now target rows objs := by
    unfold SameExecutions Agreeing
    by_cases hnaive : ∃ row ∈ rows, row.IsNaive F
    · -- A time without a time zone ends all three.
      have haware : ¬ ∀ row ∈ rows, row.IsAware F := by
        obtain ⟨row, hrow, t, ht⟩ := hnaive
        intro haware
        obtain ⟨t', ht'⟩ := haware row hrow
        rw [ht] at ht'
        cases ht'
      rw [outcome_restore_none engine restored download objs fun h => haware h.2,
        outcome_preview_none engine restored download objs (by simpa using hnaive),
        outcome_branch_none engine restored download objs haware]
      simp [hnaive]
    · rw [outcome_preview engine restored download objs (by simpa using hnaive),
        or_iff_right hnaive]
      by_cases hok : target ≤ now ∧ ∀ row ∈ rows, row.IsAware F
      · rw [outcome_restore engine restored download objs hok.1 hok.2,
          outcome_branch engine restored download objs hok.2]
        cases hnearest : nearest F target rows with
        | none => simp
        | some c =>
          obtain ⟨t, row⟩ := c
          rw [← and_assoc, and_iff_right hok]
          simpa using runs_eq_iff_filesAgree download objs t hkeys
      · -- The restore raises, and the preview chooses what it finds.
        rw [outcome_restore_none engine restored download objs hok]
        have hbranch : outcome (Branch.recover F engine restored download target rows (.ok objs)) =
            none ∨ outcome (Branch.recover F engine restored download target rows (.ok objs)) =
              (nearest F target rows).map fun c =>
                (c.2, branchRuns F download target objs c.1) := by
          by_cases haware : ∀ row ∈ rows, row.IsAware F
          · exact Or.inr (outcome_branch engine restored download objs haware)
          · exact Or.inl (outcome_branch_none engine restored download objs haware)
        rw [← and_assoc, or_iff_left fun h => hok h.1]
        cases hnearest : nearest F target rows with
        | none =>
          rw [hnearest] at hbranch
          rcases hbranch with hbranch | hbranch <;> simp [hbranch]
        | some c => simp
  refine ⟨hiff, fun hagree => ?_⟩
  obtain ⟨hrp, hpb⟩ := hiff.2 hagree
  exact ⟨congrArg queries hrp, congrArg queries hpb⟩

end Outcomes

/-! ### The restore of the worker's log -/

/-- What the restore reads from a line of the worker's log, where queries are texts. -/
def Line.entry (F : Formats Instant) (line : Line) : Option ReplayEntry :=
  match line.ts? F with
  | some (.aware ts) => some ⟨ts, ((line.query?).bind Json.asStr).getD ""⟩
  | _ => none

/-! ### An object that starts with a malformed line -/

/-- The times of the test, in seconds of the epoch. -/
def testFormats : Formats ℕ where
  fromisoformat s :=
    if s = "1970-01-01T00:00:00+00:00" then some (.aware 0)
    else if s = "1970-01-01T00:00:05+00:00" then some (.aware 5)
    else none
  strptime cs := if cs = "19700101T000005Z".toList then some 5 else none
  fromisoformat_empty := by decide

/-- A line of the worker's log. -/
def testLine : Line :=
  .value (.object [("ts", .string "1970-01-01T00:00:05+00:00"), ("query", .string "CREATE (n)")])

/-- The one snapshot of the test. -/
def testRow : SnapshotRow := ⟨1, "snapshots/archive/snapshot.tar.gz", "1970-01-01T00:00:00+00:00"⟩

/-- The one object of the test. -/
def testObject : StoredObject := ⟨"tenants/0/0/wal/wal-19700101T000005Z.log", 0⟩

/-- With the worker's line alone, the object agrees and the three replays execute the line. -/
theorem sameExecutions_iff_testLine :
    Agreeing testFormats (fun _ => .ok [testLine]) 10 10 [testRow] [testObject] ∧
      SameQueries testFormats (fun _ => .ok) (fun _ => ()) (fun _ => .ok [testLine]) 10 10 [testRow]
        [testObject] := by
  have hiff := sameExecutions_iff testFormats (fun _ => .ok) (fun _ => ()) (fun _ => .ok [testLine])
    10 10 [testRow] [testObject] (by decide)
  have hagree := hiff.1.1 (by unfold SameExecutions; decide +kernel)
  exact ⟨hagree, hiff.2 hagree⟩

/-- After a malformed line the preview leaves the object, and the restore executes the next. -/
theorem not_sameQueries_malformed :
    ¬ SameQueries testFormats (fun _ => .ok) (fun _ => ()) (fun _ => .ok [.malformed, testLine])
      10 10 [testRow] [testObject] := by
  unfold SameQueries
  decide +kernel

end KuzuEventBus.Service.Replays
