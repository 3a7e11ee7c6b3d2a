import KuzuEventBus.Lib.FixedWidth
import KuzuEventBus.Lib.Grouping
import KuzuEventBus.Service.PitrPlan

/-!
# Windows of the log

`src/application/usecases/list_database_pitr.py`: the objects of the log are counted by the minute
or by the hour of their names.  The times are handled as texts: a window is found, and sorted, by
the text of its start, and its end is read from that.

What `strptime` reads in a name is an argument, and so is where a second lies among the instants
that `start` and `end` are; the snapshots and the plan are answers of calls.  The queries and their
types, which are read from the contents of the log into the windows afterwards, are left out.

## Main definitions

* `UtcTime`, `isoformat`, `fromisoformat` — whole seconds, and their texts.
* `windowStart`, `windowEnd` — the ends of a window.
* `listWalFiles`, `countWindows`, `setEnds`, `execute` — the listing.
* `IsPartition` — the windows are a partition of the listed objects.

## Main results

* `isoformat_lt_iff` — texts are in the order of the times.
* `listWalFiles_toDateTime` — the objects are those of the plan of a restore.
* `contains_iff` — **what lies in a window is what its start is the start for.**
* `execute_isPartition` — **the windows of every answer are a partition of its objects.**
-/

namespace KuzuEventBus.Service.PitrWindows

open FixedWidth Replays PitrPlan

/-! ### Times -/

/-- A UTC `datetime` without microseconds. -/
structure UtcTime where
  year : ℕ
  month : ℕ
  day : ℕ
  hour : ℕ
  minute : ℕ
  second : ℕ
  isDate : IsDate year month day
  hour_lt : hour < 24
  minute_lt : minute < 60
  second_lt : second < 60
  deriving DecidableEq

/-- The fields, in the order they are compared in. -/
def UtcTime.fields (t : UtcTime) : List ℕ :=
  [t.year, t.month, t.day, t.hour, t.minute, t.second]

theorem UtcTime.fields_injective : Function.Injective UtcTime.fields := by
  rintro ⟨⟩ ⟨⟩ h
  simp only [UtcTime.fields, List.cons.injEq, and_true] at h
  obtain ⟨rfl, rfl, rfl, rfl, rfl, rfl⟩ := h
  rfl

/-- A time is before another when its fields are. -/
instance : LinearOrder UtcTime := LinearOrder.lift' UtcTime.fields UtcTime.fields_injective

/-- The time with these fields, if there is one. -/
def UtcTime.ofFields : List ℕ → Option UtcTime
  | [year, month, day, hour, minute, second] =>
    if h : IsDate year month day ∧ hour < 24 ∧ minute < 60 ∧ second < 60 then
      some ⟨year, month, day, hour, minute, second, h.1, h.2.1, h.2.2.1, h.2.2.2⟩
    else none
  | _ => none

theorem UtcTime.ofFields_fields (t : UtcTime) : UtcTime.ofFields t.fields = some t :=
  dif_pos ⟨t.isDate, t.hour_lt, t.minute_lt, t.second_lt⟩

/-- `YYYY-MM-DDTHH:MM:SS+00:00`. -/
def isoLayout : List Piece :=
  [.number 4, .word ['-'], .number 2, .word ['-'], .number 2, .word ['T'], .number 2, .word [':'],
    .number 2, .word [':'], .number 2, .word ['+', '0', '0', ':', '0', '0']]

/-- `isoformat`. -/
def isoformat (t : UtcTime) : String := String.ofList (render isoLayout t.fields)

/-- `datetime.fromisoformat`, on texts that `isoformat` returns. -/
def fromisoformat (text : String) : Option UtcTime :=
  (FixedWidth.parse isoLayout text.toList).bind UtcTime.ofFields

theorem fits_fields (t : UtcTime) : Fits isoLayout t.fields := by
  obtain ⟨year, month, day, hour, minute, second, ⟨⟨-, hyear⟩, ⟨-, hmonth⟩, -, hday⟩, hhour,
    hminute, hsecond⟩ := t
  have hdays : daysInMonth year month ≤ 31 := by
    unfold daysInMonth
    split
    · split <;> decide
    all_goals decide
  simp only [isoLayout, UtcTime.fields, Fits, and_true]
  omega

/-- **A text is read as the time that was written.** -/
@[simp] theorem fromisoformat_isoformat (t : UtcTime) : fromisoformat (isoformat t) = some t := by
  unfold fromisoformat isoformat
  rw [String.toList_ofList, parse_render (fits_fields t)]
  exact t.ofFields_fields

/-- **Texts are in the order of the times.** -/
theorem isoformat_lt_iff {t t' : UtcTime} : isoformat t < isoformat t' ↔ t < t' := by
  rw [String.lt_iff_toList_lt, isoformat, isoformat, String.toList_ofList, String.toList_ofList,
    render_lt_render_iff (fits_fields t) (fits_fields t')]
  rfl

example : isoformat ⟨2025, 1, 1, 14, 30, 0, by decide, by decide, by decide, by decide⟩ =
    "2025-01-01T14:30:00+00:00" := by decide +kernel

/-! ### Windows -/

/-- The size of the windows. -/
inductive WindowSize where
  | minute
  | hour
  deriving DecidableEq

/-- `(req.window or "minute").lower()`, and `"minute"` for any other text.  No letter but those of
ASCII has a lower case in `hour`. -/
def windowSize (window : Option String) : WindowSize :=
  if ((window.filter (· ≠ "")).getD "minute").toLower = "hour" then .hour else .minute

/-- `window_start`. -/
def windowStart (size : WindowSize) (t : UtcTime) : UtcTime :=
  match size with
  | .hour => { t with minute := 0, second := 0, minute_lt := by decide, second_lt := by decide }
  | .minute => { t with second := 0, second_lt := by decide }

/-- The last second of the window that starts there. -/
def windowEnd (size : WindowSize) (t : UtcTime) : UtcTime :=
  match size with
  | .hour => { t with minute := 59, second := 59, minute_lt := by decide, second_lt := by decide }
  | .minute => { t with second := 59, second_lt := by decide }

theorem UtcTime.lt_iff {t t' : UtcTime} : t < t' ↔ t.fields < t'.fields := Iff.rfl

/-- **What lies between the ends of a window is what its start is the start for.** -/
theorem between_iff (size : WindowSize) (s t : UtcTime) :
    windowStart size s ≤ t ∧ t ≤ windowEnd size (windowStart size s) ↔
      windowStart size t = windowStart size s := by
  have hs := s.second_lt
  have ht := t.second_lt
  have hs' := s.minute_lt
  have ht' := t.minute_lt
  rw [← not_lt, ← not_lt, UtcTime.lt_iff, UtcTime.lt_iff, ← UtcTime.fields_injective.eq_iff]
  cases size with
  | minute =>
    simp only [windowStart, windowEnd, UtcTime.fields, List.cons_lt_cons_iff, List.cons.injEq,
      List.not_lt_nil, and_false, or_false, and_true]
    omega
  | hour =>
    simp only [windowStart, windowEnd, UtcTime.fields, List.cons_lt_cons_iff, List.cons.injEq,
      List.not_lt_nil, and_false, or_false, and_true]
    omega

/-! ### The listing -/

/-- An entry of `wal_files`. -/
structure WalEntry where
  key : String
  timestamp : String
  size : ℕ

/-- An entry of `wal_windows`, as far as it is counted. -/
structure Slot where
  start : String
  end_ : Option String
  files : ℕ
  bytes : ℕ

/-- `fromisoformat`, where it raises. -/
def readTime (text : String) : Except PyError UtcTime :=
  match fromisoformat text with
  | none => .error ("Invalid isoformat string: '" ++ text ++ "'")
  | some t => .ok t

/-- A window as `setdefault` makes it. -/
def emptySlot (wstart : String) : Slot := ⟨wstart, none, 0, 0⟩

/-- An object is counted. -/
def Slot.count (slot : Slot) (wf : WalEntry) : Slot :=
  { slot with files := slot.files + 1, bytes := slot.bytes + wf.size }

/-- The loop that counts the objects. -/
def countWindows (size : WindowSize) :
    List WalEntry → HashMap String Slot → Except PyError (HashMap String Slot)
  | [], windows => .ok windows
  | wf :: walFiles, windows => do
    let ts ← readTime wf.timestamp
    let wstart := isoformat (windowStart size ts)
    let slot := (windows.lookup wstart).getD (emptySlot wstart)
    countWindows size walFiles (windows.insert wstart (slot.count wf))

/-- The loop that sets the ends. -/
def setEnds (size : WindowSize) :
    List (Sigma fun _ : String => Slot) → HashMap String Slot → Except PyError (HashMap String Slot)
  | [], windows => .ok windows
  | ⟨wstart, slot⟩ :: items, windows => do
    let ts ← readTime wstart
    setEnds size items
      (windows.insert wstart { slot with end_ := some (isoformat (windowEnd size ts)) })

/-- `[windows[k] for k in sorted(windows.keys())]`. -/
def sortedWindows (windows : HashMap String Slot) : List Slot :=
  (windows.keys.insertionSort (· ≤ ·)).filterMap windows.lookup

/-- The windows of the objects. -/
def walWindows (size : WindowSize) (walFiles : List WalEntry) : Except PyError (List Slot) := do
  let counted ← countWindows size walFiles ∅
  let windows ← setEnds size counted.entries counted
  pure (sortedWindows windows)

section

variable {ι S P : Type} [LinearOrder ι] (F : Formats UtcTime) (instant : UtcTime → ι)

/-- The objects between the start and the end, as the storage lists them. -/
def listWalFiles (startTime endTime : ι) (objs : List StoredObject) : List WalEntry :=
  (objs.filter fun obj => isLog obj.key).filterMap fun obj =>
    match timeOf F obj.key with
    | none => none
    | some ts =>
      if startTime ≤ instant ts ∧ instant ts ≤ endTime then some ⟨obj.key, isoformat ts, obj.size⟩
      else none

/-- The answer; the snapshots and the plan are as they were computed. -/
structure Answer (S P : Type) where
  snapshots : S
  walFiles : List WalEntry
  walWindows : List Slot
  plan : P

/-- How the calls of a listing answer. -/
structure ListAnswers (S P : Type) where
  checkPermission : Except PyError Bool
  snapshots : Except PyError S
  listObjects : Except PyError (List StoredObject)
  plan : S → List WalEntry → Except PyError P

/-- `ListDatabasePITRUseCase.execute`, with a start and an end. -/
def execute (a : ListAnswers S P) (startTime endTime : ι) (window : Option String) :
    Except PyError (Answer S P) := do
  match ← a.checkPermission with
  | false => throw "Not authorized to read database PITR timeline"
  | true =>
    let snapshots ← a.snapshots
    let objects ← a.listObjects
    let walFiles := listWalFiles F instant startTime endTime objects
    let windows ← walWindows (windowSize window) walFiles
    let plan ← a.plan snapshots walFiles
    pure ⟨snapshots, walFiles, windows, plan⟩

end

/-- The time as one with microseconds. -/
def UtcTime.toDateTime (t : UtcTime) : DateTime :=
  ⟨t.year, t.month, t.day, ((t.hour * 60 + t.minute) * 60 + t.second) * 1000000, t.isDate⟩

/-- **The objects are those of the plan of a restore**, when times are read alike. -/
theorem listWalFiles_toDateTime {F : Formats UtcTime} {G : Formats DateTime}
    (h : ∀ cs, G.strptime cs = (F.strptime cs).map UtcTime.toDateTime)
    (startTime endTime : DateTime) (objs : List StoredObject) :
    (listWalFiles F UtcTime.toDateTime startTime endTime objs).map
        (fun wf => (wf.key, wf.size)) =
      (PitrPlan.listWalFiles G startTime endTime objs).map fun wf => (wf.key, wf.size) := by
  have htime (key : String) : timeOf G key = (timeOf F key).map UtcTime.toDateTime := by
    unfold timeOf
    split
    · exact h _
    · rfl
  unfold listWalFiles PitrPlan.listWalFiles
  rw [List.map_filterMap, List.map_filterMap]
  refine List.filterMap_congr fun obj _ => ?_
  unfold Replays.walFile?
  rw [htime]
  cases timeOf F obj.key with
  | none => rfl
  | some ts =>
    dsimp only [Option.map_some]
    split <;> rfl

/-! ### What is asked for -/

/-- A time is between the ends of the window. -/
def Slot.Contains (w : Slot) (t : UtcTime) : Prop :=
  ∃ s e, fromisoformat w.start = some s ∧ w.end_.bind fromisoformat = some e ∧ s ≤ t ∧ t ≤ e

/-- The window has a start, and it is before the one of another. -/
def Slot.StartsBefore (w w' : Slot) : Prop :=
  ∃ s s', fromisoformat w.start = some s ∧ fromisoformat w'.start = some s' ∧ s < s'

/-- The time of an entry. -/
def WalEntry.HasTime (wf : WalEntry) (t : UtcTime) : Prop := fromisoformat wf.timestamp = some t

/-- **The windows are a partition of the objects**: every object is in exactly one, and the windows
are disjoint, in the order of their starts, not empty and counted. -/
structure IsPartition (walFiles : List WalEntry) (windows : List Slot) : Prop where
  one : ∀ wf ∈ walFiles, ∃ t, wf.HasTime t ∧ ∃! w, w ∈ windows ∧ w.Contains t
  disjoint : windows.Pairwise fun w w' => ∀ t, ¬ (w.Contains t ∧ w'.Contains t)
  increasing : windows.Pairwise Slot.StartsBefore
  nonempty : ∀ w ∈ windows, 0 < w.files ∧ ∃ wf ∈ walFiles, ∃ t, wf.HasTime t ∧ w.Contains t
  files : (windows.map Slot.files).sum = walFiles.length
  bytes : (windows.map Slot.bytes).sum = (walFiles.map WalEntry.size).sum

/-! ### The loops -/

/-- The text of the start of the window of an object. -/
def startText (size : WindowSize) (wf : WalEntry) : String :=
  match fromisoformat wf.timestamp with
  | none => ""
  | some t => isoformat (windowStart size t)

/-- The text of the end of the window with this start. -/
def endText (size : WindowSize) (wstart : String) : Option String :=
  (fromisoformat wstart).map fun t => isoformat (windowEnd size t)

/-- The window with this start, for the objects. -/
def slotOf (size : WindowSize) (walFiles : List WalEntry) (wstart : String) : Slot where
  start := wstart
  end_ := endText size wstart
  files := (walFiles.filter fun wf => startText size wf = wstart).length
  bytes := ((walFiles.filter fun wf => startText size wf = wstart).map WalEntry.size).sum

section

variable {size : WindowSize} {walFiles : List WalEntry}

theorem readTime_of_some {text : String} {t : UtcTime} (h : fromisoformat text = some t) :
    readTime text = .ok t := by
  unfold readTime
  rw [h]

/-- **The objects are counted under the starts of their windows.** -/
theorem countWindows_eq (h : ∀ wf ∈ walFiles, ∃ t, wf.HasTime t) (windows : HashMap String Slot) :
    countWindows size walFiles windows =
      .ok (Grouping.foldOn (startText size) emptySlot Slot.count walFiles windows) := by
  induction walFiles generalizing windows with
  | nil => rfl
  | cons wf walFiles ih =>
    rw [List.forall_mem_cons] at h
    obtain ⟨⟨t, ht⟩, htail⟩ := h
    have hstart : startText size wf = isoformat (windowStart size t) := by
      unfold startText
      rw [ht]
    unfold countWindows
    rw [readTime_of_some ht]
    refine (ih htail _).trans ?_
    rw [Grouping.foldOn, Grouping.foldOn, List.foldl_cons, hstart]

/-- What is counted of some objects. -/
theorem foldl_count (slot : Slot) : walFiles.foldl Slot.count slot =
    { slot with
      files := slot.files + walFiles.length
      bytes := slot.bytes + (walFiles.map WalEntry.size).sum } := by
  induction walFiles generalizing slot with
  | nil => rfl
  | cons wf walFiles ih =>
    rw [List.foldl_cons, ih]
    simp [Slot.count, Nat.add_comm, Nat.add_left_comm, Nat.add_assoc]

/-- Setting the ends leaves the other windows, and the rest of each. -/
theorem setEnds_eq {items : List (Sigma fun _ : String => Slot)}
    (h : ∀ item ∈ items, ∃ t, fromisoformat item.1 = some t) (windows : HashMap String Slot) :
    setEnds size items windows = .ok (windows.insertAll
      (items.map fun item => (item.1, { item.2 with end_ := endText size item.1 }))) := by
  induction items generalizing windows with
  | nil => rfl
  | cons item items ih =>
    rw [List.forall_mem_cons] at h
    obtain ⟨⟨t, ht⟩, htail⟩ := h
    unfold setEnds
    rw [readTime_of_some ht]
    refine (ih htail _).trans ?_
    rw [List.map_cons, AList.insertAll_cons, endText, ht]
    rfl

/-- The text of a start is the one of a time. -/
theorem fromisoformat_startText (h : ∀ wf ∈ walFiles, ∃ t, wf.HasTime t) {wstart : String}
    (hstart : ∃ wf ∈ walFiles, startText size wf = wstart) :
    ∃ wf ∈ walFiles, ∃ t, wf.HasTime t ∧ wstart = isoformat (windowStart size t) := by
  obtain ⟨wf, hwf, rfl⟩ := hstart
  obtain ⟨t, ht⟩ := h wf hwf
  refine ⟨wf, hwf, t, ht, ?_⟩
  unfold startText
  rw [ht]

/-- What is stored once the objects are counted. -/
theorem lookup_counted (wstart : String) :
    (Grouping.foldOn (startText size) emptySlot Slot.count walFiles ∅).lookup wstart =
      if ∃ wf ∈ walFiles, startText size wf = wstart then
        some { slotOf size walFiles wstart with end_ := none }
      else none := by
  have hnil : (walFiles.filter fun wf => startText size wf = wstart) = [] ↔
      ¬ ∃ wf ∈ walFiles, startText size wf = wstart := by
    simp [List.filter_eq_nil_iff]
  rw [Grouping.lookup_foldOn, AList.lookup_empty, Option.getD_none, foldl_count]
  by_cases hstart : ∃ wf ∈ walFiles, startText size wf = wstart
  · rw [if_neg (mt hnil.mp (not_not.mpr hstart)), if_pos hstart]
    simp [slotOf, emptySlot]
  · rw [if_pos (hnil.mpr hstart), if_neg hstart]

/-- What is stored once the ends are set. -/
theorem setEnds_counted (size : WindowSize) (h : ∀ wf ∈ walFiles, ∃ t, wf.HasTime t) :
    let counted := Grouping.foldOn (startText size) emptySlot Slot.count walFiles ∅
    ∃ windows, setEnds size counted.entries counted = .ok windows ∧ ∀ wstart,
      windows.lookup wstart = if ∃ wf ∈ walFiles, startText size wf = wstart then
        some (slotOf size walFiles wstart) else none := by
  intro counted
  have hcounted : ∀ wstart, counted.lookup wstart = _ := lookup_counted
  refine ⟨_, setEnds_eq (fun item hitem => ?_) counted, fun wstart => ?_⟩
  · have hlookup : counted.lookup item.1 = some item.2 := AList.mem_entries_iff.mp hitem
    rw [hcounted] at hlookup
    split at hlookup
    · next hstart =>
      obtain ⟨-, -, t, -, htext⟩ := fromisoformat_startText h hstart
      exact ⟨_, by rw [htext, fromisoformat_isoformat]⟩
    · cases hlookup
  · by_cases hstart : ∃ wf ∈ walFiles, startText size wf = wstart
    · rw [if_pos hstart]
      refine AList.lookup_insertAll_of_mem counted ?_ ?_
      · rw [List.map_map]
        exact counted.nodupKeys
      · have hlookup := hcounted wstart
        rw [if_pos hstart, ← AList.mem_entries_iff] at hlookup
        exact List.mem_map.mpr ⟨_, hlookup, rfl⟩
    · -- only what was counted gets an end
      rw [if_neg hstart, AList.lookup_insertAll_of_notMem, hcounted, if_neg hstart]
      intro kv hkv heq
      obtain ⟨item, hitem, rfl⟩ := List.mem_map.mp hkv
      have hlookup : counted.lookup item.1 = some item.2 := AList.mem_entries_iff.mp hitem
      rw [hcounted, if_neg (by rw [show item.1 = wstart from heq]; exact hstart)] at hlookup
      cases hlookup

/-- **The windows are those of the starts there are, in the order of their texts.** -/
theorem walWindows_eq (size : WindowSize) (h : ∀ wf ∈ walFiles, ∃ t, wf.HasTime t) :
    ∃ starts : List String, starts.Pairwise (· < ·) ∧
      (∀ wstart, wstart ∈ starts ↔ ∃ wf ∈ walFiles, startText size wf = wstart) ∧
      walWindows size walFiles = .ok (starts.map (slotOf size walFiles)) := by
  obtain ⟨windows, hset, hlookup⟩ := setEnds_counted size h
  have hmem (wstart : String) : wstart ∈ windows.keys.insertionSort (· ≤ ·) ↔
      ∃ wf ∈ walFiles, startText size wf = wstart := by
    rw [List.mem_insertionSort, ← AList.mem_keys, ← AList.lookup_isSome, hlookup]
    split
    · next hstart => exact iff_of_true rfl hstart
    · next hstart => exact iff_of_false (by simp) hstart
  refine ⟨windows.keys.insertionSort (· ≤ ·), ?_, hmem, ?_⟩
  · have hnodup : (windows.keys.insertionSort (· ≤ ·)).Nodup :=
      (List.perm_insertionSort _ _).nodup_iff.mpr windows.keys_nodup
    exact ((List.pairwise_insertionSort (· ≤ ·) windows.keys).and hnodup).imp
      fun hle => lt_of_le_of_ne hle.1 hle.2
  · have hsorted : sortedWindows windows =
        (windows.keys.insertionSort (· ≤ ·)).map (slotOf size walFiles) := by
      unfold sortedWindows
      rw [← List.filterMap_eq_map']
      refine List.filterMap_congr fun wstart hstart => ?_
      rw [hlookup, if_pos ((hmem wstart).mp hstart)]
    unfold walWindows
    rw [countWindows_eq h]
    dsimp only [bind, Except.bind]
    rw [hset, ← hsorted]
    rfl

/-- A window of a start has its ends. -/
theorem contains_slotOf_iff {s t : UtcTime} :
    (slotOf size walFiles (isoformat (windowStart size s))).Contains t ↔
      windowStart size t = windowStart size s := by
  rw [← between_iff size s t]
  unfold Slot.Contains
  simp only [slotOf, endText, fromisoformat_isoformat, Option.map_some, Option.bind_some,
    Option.some.injEq]
  constructor
  · rintro ⟨s', e', rfl, rfl, hle⟩
    exact hle
  · intro hle
    exact ⟨_, _, rfl, rfl, hle⟩

/-- **The windows are a partition of objects that have times.** -/
theorem isPartition_walWindows (size : WindowSize) (h : ∀ wf ∈ walFiles, ∃ t, wf.HasTime t) :
    ∃ windows, walWindows size walFiles = .ok windows ∧ IsPartition walFiles windows := by
  obtain ⟨starts, hsorted, hmem, hwindows⟩ := walWindows_eq size h
  have htime (wstart : String) (hstart : wstart ∈ starts) :=
    fromisoformat_startText h ((hmem wstart).mp hstart)
  refine ⟨_, hwindows, ?_, ?_, ?_, ?_, ?_, ?_⟩
  -- every object is in the window of its start, and in no other
  · intro wf hwf
    obtain ⟨t, ht⟩ := h wf hwf
    have hstart : startText size wf = isoformat (windowStart size t) := by
      unfold startText
      rw [ht]
    refine ⟨t, ht, slotOf size walFiles (isoformat (windowStart size t)), ⟨?_, ?_⟩, ?_⟩
    · exact List.mem_map_of_mem ((hmem _).mpr ⟨wf, hwf, hstart⟩)
    · exact contains_slotOf_iff.mpr rfl
    · rintro w ⟨hw, hcontains⟩
      obtain ⟨wstart, hwstart, rfl⟩ := List.mem_map.mp hw
      obtain ⟨-, -, s, -, rfl⟩ := htime wstart hwstart
      rw [contains_slotOf_iff.mp hcontains]
  -- a time in two windows has one start, and the starts differ
  · rw [List.pairwise_map]
    refine hsorted.imp_of_mem fun {wstart wstart'} hw hw' hlt t hboth => ?_
    obtain ⟨-, -, s, -, rfl⟩ := htime wstart hw
    obtain ⟨-, -, s', -, rfl⟩ := htime wstart' hw'
    rw [contains_slotOf_iff, contains_slotOf_iff] at hboth
    rw [← hboth.1, ← hboth.2] at hlt
    exact lt_irrefl _ hlt
  · rw [List.pairwise_map]
    refine hsorted.imp_of_mem fun {wstart wstart'} hw hw' hlt => ?_
    obtain ⟨-, -, s, -, rfl⟩ := htime wstart hw
    obtain ⟨-, -, s', -, rfl⟩ := htime wstart' hw'
    exact ⟨_, _, fromisoformat_isoformat _, fromisoformat_isoformat _, isoformat_lt_iff.mp hlt⟩
  · intro w hw
    obtain ⟨wstart, hwstart, rfl⟩ := List.mem_map.mp hw
    obtain ⟨wf, hwf, hstart⟩ := (hmem wstart).mp hwstart
    refine ⟨List.length_pos_of_mem (List.mem_filter.mpr ⟨hwf, by simpa using hstart⟩), ?_⟩
    obtain ⟨wf', hwf', t, ht, rfl⟩ := htime wstart hwstart
    exact ⟨wf', hwf', t, ht, contains_slotOf_iff.mpr rfl⟩
  -- the sums over the starts are those over the objects
  · have hcount := Grouping.sum_map_filter (hsorted.imp ne_of_lt)
      (fun wf hwf => (hmem _).mpr ⟨wf, hwf, rfl⟩) fun _ : WalEntry => 1
    rw [List.map_map]
    simpa [Function.comp_def, slotOf] using hcount
  · have hbytes := Grouping.sum_map_filter (hsorted.imp ne_of_lt)
      (fun wf hwf => (hmem _).mpr ⟨wf, hwf, rfl⟩) WalEntry.size
    rw [List.map_map]
    exact hbytes

/-- Every object that is listed has a time. -/
theorem hasTime_of_mem_listWalFiles {ι : Type} [LinearOrder ι] (F : Formats UtcTime)
    (instant : UtcTime → ι) (startTime endTime : ι) (objs : List StoredObject) :
    ∀ wf ∈ listWalFiles F instant startTime endTime objs, ∃ t, wf.HasTime t := by
  intro wf hwf
  obtain ⟨obj, -, hobj⟩ := List.mem_filterMap.mp hwf
  split at hobj
  · cases hobj
  · next ts hts =>
    split at hobj
    · cases hobj
      exact ⟨ts, fromisoformat_isoformat ts⟩
    · cases hobj

end

/-! ### Answers -/

section

variable {ι S P : Type} [LinearOrder ι]

/-- The request is permitted, and the calls for the snapshots, the objects and the plan return. -/
def ListAnswers.Return (F : Formats UtcTime) (instant : UtcTime → ι) (a : ListAnswers S P)
    (startTime endTime : ι) : Prop :=
  a.checkPermission = .ok true ∧ ∃ snapshots objs plan, a.snapshots = .ok snapshots ∧
    a.listObjects = .ok objs ∧
      a.plan snapshots (listWalFiles F instant startTime endTime objs) = .ok plan

/-- **The windows of every answer are a partition of its objects**, and there is an answer when the
calls return. -/
theorem execute_isPartition (F : Formats UtcTime) (instant : UtcTime → ι) (a : ListAnswers S P)
    (startTime endTime : ι) (window : Option String) :
    (∀ answer, execute F instant a startTime endTime window = .ok answer →
      IsPartition answer.walFiles answer.walWindows) ∧
    ((∃ answer, execute F instant a startTime endTime window = .ok answer) ↔
      a.Return F instant startTime endTime) := by
  unfold execute ListAnswers.Return
  dsimp only [bind, Except.bind]
  rcases a.checkPermission with e | _ | _
  · simp
  · simp [throw, throwThe, MonadExceptOf.throw]
  rcases a.snapshots with e | snapshots
  · simp
  rcases a.listObjects with e | objs
  · simp
  obtain ⟨windows, hwindows, hpartition⟩ := isPartition_walWindows (windowSize window)
    (hasTime_of_mem_listWalFiles F instant startTime endTime objs)
  dsimp only
  rw [hwindows]
  dsimp only
  rcases hplan : a.plan snapshots (listWalFiles F instant startTime endTime objs) with e | plan
  · simp [hplan]
  · refine ⟨fun answer hanswer => ?_, iff_of_true ⟨_, rfl⟩ ⟨rfl, _, _, _, rfl, rfl, hplan⟩⟩
    cases hanswer
    exact hpartition

end

end KuzuEventBus.Service.PitrWindows
