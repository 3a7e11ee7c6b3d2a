import KuzuEventBus.Service.Replays
import Mathlib.Data.Prod.Lex

/-!
# The plan of a restore

`src/application/usecases/list_database_pitr.py`: the snapshots and the objects of the log in a
window, and, with a target, the plan to restore to it.  Without a start the window is the year
before now, by the calendar.  The plan is compared with what the restore does.

## Main definitions

* `DateTime`, `DateTime.replaceYear` — an instant by its date, and `datetime.replace` on its year.
* `listSnapshots`, `listWalFiles`, `execute` — the window, and the plan.
* `PlanMatches`, `PlanAgrees` — the plan is what the restore does, and when.

## Main results

* `planMatches_iff` — **the plan is what the restore does exactly when the snapshot lies in the
  window, and the objects in range end in `.log` and are listed in the order of their times.**
-/

namespace KuzuEventBus.Service.Replays.PitrPlan

/-! ### The calendar -/

/-- A leap year. -/
def isLeap (year : ℕ) : Bool := year % 4 = 0 && (year % 100 ≠ 0 || year % 400 = 0)

/-- The days of a month. -/
def daysInMonth (year month : ℕ) : ℕ :=
  match month with
  | 2 => if isLeap year then 29 else 28
  | 4 | 6 | 9 | 11 => 30
  | _ => 31

/-- There is such a date, between the years 1 and 9999. -/
def IsDate (year month day : ℕ) : Prop :=
  (1 ≤ year ∧ year ≤ 9999) ∧ (1 ≤ month ∧ month ≤ 12) ∧ 1 ≤ day ∧ day ≤ daysInMonth year month

instance (year month day : ℕ) : Decidable (IsDate year month day) :=
  inferInstanceAs (Decidable (_ ∧ _ ∧ _ ∧ _))

/-- A UTC `datetime`: its date, and the microsecond of the day. -/
structure DateTime where
  year : ℕ
  month : ℕ
  day : ℕ
  time : ℕ
  isDate : IsDate year month day

/-- The fields, in the order they are compared in. -/
def DateTime.fields (t : DateTime) : ℕ ×ₗ ℕ ×ₗ ℕ ×ₗ ℕ :=
  toLex (t.year, toLex (t.month, toLex (t.day, t.time)))

theorem DateTime.fields_injective : Function.Injective DateTime.fields := by
  rintro ⟨year, month, day, time, hdate⟩ ⟨year', month', day', time', hdate'⟩ h
  simp only [DateTime.fields, toLex_inj, Prod.mk.injEq] at h
  obtain ⟨rfl, rfl, rfl, rfl⟩ := h
  rfl

/-- An instant is before another when its fields are. -/
instance : LinearOrder DateTime := LinearOrder.lift' DateTime.fields DateTime.fields_injective

/-- `datetime.replace(year=year)`: it raises when there is no such date. -/
def DateTime.replaceYear (t : DateTime) (year : ℕ) : Option DateTime :=
  if h : IsDate year t.month t.day then some { t with year := year, isDate := h } else none

/-! ### The plan -/

/-- The exceptions of the list. -/
inductive PlanError where
  /-- `ValueError`: the default start is no date. -/
  | noSuchDate
  /-- `TypeError`: a `created_at` without a time zone is compared with the start. -/
  | naiveTimestamp
  /-- `FileNotFoundError(f"No snapshot found before {...}")` -/
  | noSnapshot (target : DateTime)
  /-- An exception of the storage. -/
  | raised (e : PyError)

/-- The plan: the snapshot, and the objects to replay. -/
structure Plan where
  snapshot : SnapshotRow
  walFiles : List (WalFile DateTime)

/-- The snapshots in the window; a `created_at` that cannot be read is passed over. -/
def listSnapshots (F : Formats DateTime) (startTime endTime : DateTime) :
    List SnapshotRow → Except PlanError (List (DateTime × SnapshotRow))
  | [] => .ok []
  | row :: rows =>
    match F.fromisoformat row.createdAt with
    | none => listSnapshots F startTime endTime rows
    | some (.naive _) => .error .naiveTimestamp
    | some (.aware t) => do
      let rest ← listSnapshots F startTime endTime rows
      pure (if startTime ≤ t ∧ t ≤ endTime then (t, row) :: rest else rest)

/-- The objects in the window, as the storage lists them. -/
def listWalFiles (F : Formats DateTime) (startTime endTime : DateTime) (objs : List StoredObject) :
    List (WalFile DateTime) :=
  (objs.filter fun obj => isLog obj.key).filterMap (walFile? F startTime endTime)

/-- `_nearest_snapshot_before`. -/
def nearestSnapshotBefore (snapshots : List (DateTime × SnapshotRow)) (target : DateTime) :
    Option (DateTime × SnapshotRow) :=
  ((snapshots.filter fun c => c.1 ≤ target).insertionSort fun a b => b.1 ≤ a.1).head?

/-- `ListDatabasePITRUseCase.execute` with a target, and neither start nor end: its plan. -/
def execute (F : Formats DateTime) (now target : DateTime) (rows : List SnapshotRow)
    (listObjects : Except PyError (List StoredObject)) : Except PlanError Plan := do
  match now.replaceYear (now.year - 1) with
  | none => throw .noSuchDate
  | some startTime =>
    let snapshots ← listSnapshots F startTime now rows
    match listObjects with
    | .error e => throw (.raised e)
    | .ok objs =>
      let walFiles := listWalFiles F startTime now objs
      match nearestSnapshotBefore snapshots target with
      | none => throw (.noSnapshot target)
      | some (snapTime, snapshot) =>
        pure ⟨snapshot, walFiles.filter fun wf => snapTime ≤ wf.timestamp ∧ wf.timestamp ≤ target⟩

/-! ### The plan and the restore -/

section

variable (F : Formats DateTime) (now target : DateTime) (rows : List SnapshotRow)
  (objs : List StoredObject)

/-- There is a plan when the restore finds a snapshot, and then it names that snapshot and the
objects that are replayed, in their order. -/
def PlanMatches : Prop :=
  ((∃ plan, execute F now target rows (.ok objs) = .ok plan) ↔
      ∃ c, Restore.findNearestSnapshot F rows target = .ok (some c)) ∧
    ∀ plan c, execute F now target rows (.ok objs) = .ok plan →
      Restore.findNearestSnapshot F rows target = .ok (some c) →
        plan.snapshot = c.2 ∧ plan.walFiles = Restore.findWalFilesInRange F (.ok objs) c.1 target

/-- The names of the objects in range end in `.log`, and the storage lists them in the order of
their times. -/
def FilesInOrder (startTime : DateTime) : Prop :=
  (objs.filterMap (walFile? F startTime target)).Pairwise (fun w w' => w.timestamp ≤ w'.timestamp) ∧
    ∀ w ∈ objs.filterMap (walFile? F startTime target), isLog w.key = true

/-- The start of the window is a date, and the nearest snapshot is not before it. -/
def InWindow (c : DateTime × SnapshotRow) : Prop :=
  ∃ startTime, now.replaceYear (now.year - 1) = some startTime ∧ startTime ≤ c.1

/-- What the rows, the names and the objects have to meet: a time without a time zone, on which both
raise; or times with a time zone, a nearest snapshot in the window and the objects in order, or no
snapshot; or, with a time that cannot be read, on which the restore raises, no snapshot in the
window. -/
def PlanAgrees : Prop :=
  (∃ row ∈ rows, row.IsNaive F) ∨
    ((∀ row ∈ rows, row.IsAware F) ∧ ∀ c, nearest F target rows = some c →
      InWindow now c ∧ FilesInOrder F target objs c.1) ∨
    (¬ (∀ row ∈ rows, row.IsAware F) ∧ ∀ c, nearest F target rows = some c → ¬ InWindow now c)

variable {F now target rows}

/-- Without a time without a time zone, the snapshots of the window are the timed rows in it. -/
theorem listSnapshots_eq {startTime : DateTime} (hnaive : ∀ row ∈ rows, ¬ row.IsNaive F) :
    listSnapshots F startTime now rows = .ok ((rows.filterMap (SnapshotRow.timed F)).filter
      fun c => startTime ≤ c.1 ∧ c.1 ≤ now) := by
  induction rows with
  | nil => rfl
  | cons row rows ih =>
    rw [List.forall_mem_cons] at hnaive
    unfold listSnapshots
    split
    next hnone =>
      rw [ih hnaive.2]
      simp [SnapshotRow.timed, hnone]
    next t ht => exact absurd ⟨t, ht⟩ hnaive.1
    next t ht =>
      rw [ih hnaive.2]
      by_cases hin : startTime ≤ t ∧ t ≤ now
      · simp [SnapshotRow.timed, ht, hin]
      · simp [SnapshotRow.timed, ht, hin]

theorem listSnapshots_error (now startTime : DateTime) (hnaive : ∃ row ∈ rows, row.IsNaive F) :
    ∃ e, listSnapshots F startTime now rows = .error e := by
  induction rows with
  | nil => simp at hnaive
  | cons row rows ih =>
    unfold listSnapshots
    split
    next hnone =>
      refine ih ?_
      rcases (List.exists_mem_cons_iff _ _ _).1 hnaive with ⟨t, ht⟩ | htail
      · rw [hnone] at ht
        cases ht
      · exact htail
    next t ht => exact ⟨_, rfl⟩
    next t ht =>
      rcases (List.exists_mem_cons_iff _ _ _).1 hnaive with ⟨t', ht'⟩ | htail
      · rw [ht] at ht'
        cases ht'
      · obtain ⟨e, he⟩ := ih htail
        exact ⟨e, by rw [he]; rfl⟩

/-- The nearest snapshot of the window is the nearest of all, if that is in the window. -/
theorem nearestSnapshotBefore_eq {startTime : DateTime} (hnow : target ≤ now) :
    nearestSnapshotBefore ((rows.filterMap (SnapshotRow.timed F)).filter
        fun c => startTime ≤ c.1 ∧ c.1 ≤ now) target =
      (nearest F target rows).filter fun c => startTime ≤ c.1 := by
  unfold nearestSnapshotBefore nearest
  rw [Lists.head?_insertionSort_ge, ← Lists.argmax_filter]
  · rw [List.filter_filter, List.filter_filter]
    congr 2
    funext c
    by_cases hc : c.1 ≤ target
    · simp [hc, hc.trans hnow]
    · simp [hc]
  · intro a b hab ha
    simp only [decide_eq_true_eq] at ha ⊢
    exact ha.trans hab

/-- The objects of the window that are not before the snapshot are those in range that end in
`.log`. -/
theorem filter_listWalFiles {startTime snapTime : DateTime} (hstart : startTime ≤ snapTime)
    (hnow : target ≤ now) :
    ((listWalFiles F startTime now objs).filter
        fun wf => snapTime ≤ wf.timestamp ∧ wf.timestamp ≤ target) =
      (objs.filterMap (walFile? F snapTime target)).filter fun w => isLog w.key := by
  unfold listWalFiles
  rw [List.filter_filterMap, List.filterMap_filter, List.filter_filterMap]
  congr 1
  funext obj
  unfold walFile?
  cases timeOf F obj.key with
  | none => cases isLog obj.key <;> rfl
  | some ts =>
    by_cases hin : snapTime ≤ ts ∧ ts ≤ target
    · have hwindow : startTime ≤ ts ∧ ts ≤ now := ⟨hstart.trans hin.1, hin.2.trans hnow⟩
      cases hlog : isLog obj.key <;> simp [Option.filter, hin, hwindow, hlog]
    · cases hlog : isLog obj.key
      · simp [Option.filter, hin]
      · by_cases hwindow : startTime ≤ ts ∧ ts ≤ now <;> simp [Option.filter, hin, hwindow]

theorem execute_of_start {startTime : DateTime}
    (hstart : now.replaceYear (now.year - 1) = some startTime) :
    execute F now target rows (.ok objs) =
      (listSnapshots F startTime now rows).bind fun snapshots =>
        match nearestSnapshotBefore snapshots target with
        | none => .error (.noSnapshot target)
        | some c => .ok ⟨c.2, (listWalFiles F startTime now objs).filter
            fun wf => c.1 ≤ wf.timestamp ∧ wf.timestamp ≤ target⟩ := by
  unfold execute
  rw [hstart]
  dsimp only
  rcases listSnapshots F startTime now rows with e | snapshots
  · rfl
  · dsimp only [bind, Except.bind]
    rcases nearestSnapshotBefore snapshots target with - | c <;> rfl

theorem execute_of_not_start (hstart : now.replaceYear (now.year - 1) = none) :
    execute F now target rows (.ok objs) = .error .noSuchDate := by
  unfold execute
  rw [hstart]
  rfl

/-- With times with a time zone or that cannot be read, there is a plan exactly when the nearest
snapshot is in the window. -/
theorem execute_eq_ok_iff (hnow : target ≤ now) (hnaive : ∀ row ∈ rows, ¬ row.IsNaive F)
    (plan : Plan) : execute F now target rows (.ok objs) = .ok plan ↔
      ∃ c, nearest F target rows = some c ∧ InWindow now c ∧ plan =
        ⟨c.2, (objs.filterMap (walFile? F c.1 target)).filter fun w => isLog w.key⟩ := by
  unfold InWindow
  cases hstart : now.replaceYear (now.year - 1) with
  | none => simp [execute_of_not_start objs hstart]
  | some startTime =>
    rw [execute_of_start objs hstart, listSnapshots_eq hnaive]
    simp only [Except.bind, nearestSnapshotBefore_eq hnow]
    cases nearest F target rows with
    | none => simp
    | some c =>
      by_cases hc : startTime ≤ c.1
      · rw [Option.filter_some_pos (by simpa using hc)]
        dsimp only
        rw [filter_listWalFiles objs hc hnow]
        constructor
        · intro h
          exact ⟨c, rfl, ⟨startTime, rfl, hc⟩, (Except.ok.inj h).symm⟩
        · rintro ⟨c', hc', -, rfl⟩
          cases hc'
          rfl
      · rw [Option.filter_some_neg (by simpa using hc)]
        constructor
        · intro h
          cases h
        · rintro ⟨c', hc', ⟨startTime', hstart', hle⟩, -⟩
          cases hc'
          cases hstart'
          exact absurd hle hc

/-- With a time without a time zone there is no plan. -/
theorem execute_ne_ok (hnaive : ∃ row ∈ rows, row.IsNaive F) (plan : Plan) :
    execute F now target rows (.ok objs) ≠ .ok plan := by
  cases hstart : now.replaceYear (now.year - 1) with
  | none =>
    rw [execute_of_not_start objs hstart]
    exact nofun
  | some startTime =>
    obtain ⟨e, he⟩ := listSnapshots_error now startTime hnaive
    rw [execute_of_start objs hstart, he]
    exact nofun

/-- The files of the plan are the ones that are replayed when they are in order. -/
theorem filter_eq_findWalFilesInRange_iff (startTime : DateTime) :
    ((objs.filterMap (walFile? F startTime target)).filter fun w => isLog w.key) =
        Restore.findWalFilesInRange F (.ok objs) startTime target ↔
      FilesInOrder F target objs startTime := by
  have hfind : Restore.findWalFilesInRange F (.ok objs) startTime target =
      (objs.filterMap (walFile? F startTime target)).insertionSort
        fun w w' => w.timestamp ≤ w'.timestamp := by
    simp [Restore.findWalFilesInRange, findWalFiles]
  rw [hfind, eq_comm, Lists.insertionSort_eq_filter_iff]
  rfl

/-- **The plan is what the restore does exactly when the rows and the objects agree.** -/
theorem planMatches_iff (hnow : target ≤ now) :
    PlanMatches F now target rows objs ↔ PlanAgrees F now target rows objs := by
  unfold PlanMatches PlanAgrees
  by_cases hnaive : ∃ row ∈ rows, row.IsNaive F
  · -- Both raise.
    have haware : ¬ ∀ row ∈ rows, row.IsAware F := by
      obtain ⟨row, hrow, t, ht⟩ := hnaive
      intro haware
      obtain ⟨t', ht'⟩ := haware row hrow
      rw [ht] at ht'
      cases ht'
    obtain ⟨e, he⟩ := Restore.findNearestSnapshot_error target haware
    rw [he]
    simp [execute_ne_ok objs hnaive, hnaive]
  · have hplan (plan : Plan) := execute_eq_ok_iff objs hnow (by simpa using hnaive) plan
    rw [or_iff_right hnaive]
    by_cases haware : ∀ row ∈ rows, row.IsAware F
    · rw [Restore.findNearestSnapshot_eq haware]
      rw [or_iff_left fun h => h.1 haware, and_iff_right haware]
      cases hnearest : nearest F target rows with
      | none => simp [hplan, hnearest]
      | some c =>
        rw [hnearest] at hplan
        constructor
        · rintro ⟨hiff, hall⟩ c' hc'
          cases hc'
          obtain ⟨plan, hok⟩ := hiff.2 ⟨c, rfl⟩
          obtain ⟨c', hc', hwindow, rfl⟩ := (hplan plan).1 hok
          cases hc'
          exact ⟨hwindow, (filter_eq_findWalFilesInRange_iff objs c.1).1 (hall _ c hok rfl).2⟩
        · intro h
          obtain ⟨hwindow, hfiles⟩ := h c rfl
          refine ⟨iff_of_true ⟨_, (hplan _).2 ⟨c, rfl, hwindow, rfl⟩⟩ ⟨c, rfl⟩, ?_⟩
          intro plan c' hok hc'
          cases hc'
          obtain ⟨c', hc', -, rfl⟩ := (hplan plan).1 hok
          cases hc'
          exact ⟨rfl, (filter_eq_findWalFilesInRange_iff objs c.1).2 hfiles⟩
    · obtain ⟨e, he⟩ := Restore.findNearestSnapshot_error target haware
      rw [he, or_iff_right fun h => haware h.1, and_iff_right haware]
      constructor
      · rintro ⟨hiff, -⟩ c hc hwindow
        obtain ⟨c', hc'⟩ := hiff.1 ⟨_, (hplan _).2 ⟨c, hc, hwindow, rfl⟩⟩
        cases hc'
      · intro h
        refine ⟨iff_of_false ?_ nofun, fun plan c _ hc => nomatch hc⟩
        rintro ⟨plan, hok⟩
        obtain ⟨c, hc, hwindow, -⟩ := (hplan plan).1 hok
        exact h c hc hwindow

end

/-! ### The 29th of February -/

/-- Midnight of a date of the year 2024. -/
def test2024 (month day : ℕ) (h : IsDate 2024 month day) : DateTime := ⟨2024, month, day, 0, h⟩

/-- The time of the snapshot of the test. -/
def testFormats2024 : Formats DateTime where
  fromisoformat s :=
    if s = "2024-01-01T00:00:00+00:00" then some (.aware (test2024 1 1 (by decide))) else none
  strptime _ := none
  fromisoformat_empty := by decide

/-- The snapshot of the test. -/
def testRow2024 : SnapshotRow :=
  ⟨1, "snapshots/archive/snapshot.tar.gz", "2024-01-01T00:00:00+00:00"⟩

theorem nearest_testRow2024 {target : DateTime} (h : test2024 1 1 (by decide) ≤ target) :
    nearest testFormats2024 target [testRow2024] =
      some (test2024 1 1 (by decide), testRow2024) := by
  simp [nearest, SnapshotRow.timed, testFormats2024, testRow2024, h]

theorem isAware_testRow2024 : ∀ row ∈ [testRow2024], row.IsAware testFormats2024 := by
  intro row hrow
  rw [List.mem_singleton.1 hrow]
  exact ⟨test2024 1 1 (by decide), rfl⟩

/-- On the first of March the plan is what the restore does. -/
theorem planMatches_iff_march :
    PlanMatches testFormats2024 (test2024 3 1 (by decide)) (test2024 3 1 (by decide)) [testRow2024]
      [] := by
  refine (planMatches_iff [] le_rfl).2 (Or.inr (Or.inl ⟨isAware_testRow2024, ?_⟩))
  intro c hc
  rw [nearest_testRow2024 (by decide)] at hc
  cases hc
  exact ⟨⟨⟨2023, 3, 1, 0, by decide⟩, rfl, by decide⟩, by simp [FilesInOrder]⟩

/-- On the 29th of February there is no plan, and the restore finds its snapshot. -/
theorem not_planMatches_february :
    ¬ PlanMatches testFormats2024 (test2024 2 29 (by decide)) (test2024 2 29 (by decide))
      [testRow2024] [] := by
  rintro ⟨hiff, -⟩
  obtain ⟨plan, hplan⟩ := hiff.2 ⟨(test2024 1 1 (by decide), testRow2024), by
    rw [Restore.findNearestSnapshot_eq isAware_testRow2024, nearest_testRow2024 (by decide)]⟩
  rw [execute_of_not_start [] (by decide)] at hplan
  cases hplan

end KuzuEventBus.Service.Replays.PitrPlan
