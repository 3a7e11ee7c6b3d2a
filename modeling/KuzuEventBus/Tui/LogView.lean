import KuzuEventBus.Core
import KuzuEventBus.Lib.Runs
import KuzuEventBus.Tui.History
import KuzuEventBus.Tui.Working

/-!
# The log view

`casys_tui/src/git_like.rs`: the latest commits, one a row, each with a bullet in the lane of the
branch it was made on.  Styles and colours are left out.  The commit under the cursor is the one
the next branch starts from; paging down leaves the cursor where it is on the page and can move it
past the first commit, and then there is none.

## Main definitions

* `LogRow`, `render` — the rows of the view.
* `PageFits` — paging down keeps the cursor on a commit.
* `AppState.Tracked` — both cursors are on commits, and no branch is empty.

## Main results

* `render_spec` — **the rows are those of the window, with one bullet each, and the row
  highlighted is that of the selected commit**.
* `always_tracked_iff` — **the cursors are on commits in every state of a run exactly when every
  page down fits**.
-/

namespace KuzuEventBus.Tui

namespace AppState

/-! ### Lanes -/

/-- The branches in the order of their lanes: main first. -/
def displayBranches (s : AppState) : List String :=
  if "main" ∈ s.sortedBranchNames then "main" :: s.sortedBranchNames.erase "main"
  else s.sortedBranchNames

/-- `branch_lanes`. -/
def branchLane (s : AppState) (branch : String) : Option ℕ := s.displayBranches.idxOf? branch

/-- The lane of a commit: that of the branch it was made on, or of the first one found that has
it; a branch that is gone has the first lane. -/
def commitLane (s : AppState) (id : String) : ℕ :=
  match s.commitOrigin.lookup id with
  | some branch => (s.branchLane branch).getD 0
  | none =>
    (s.branches.toPairs.findSome? fun kv =>
      if id ∈ kv.2 then s.branchLane kv.1 else none).getD 0

/-- The lane the second parent of a merge is found in. -/
def mergeSourceLane (s : AppState) (id : String) : Option ℕ :=
  match (s.parents.lookup id).getD [] with
  | _ :: parent :: _ =>
    (s.branches.toPairs.find? fun kv => parent ∈ kv.2).bind fun kv => s.branchLane kv.1
  | _ => none

/-- The commit has more than one parent. -/
def isMerge (s : AppState) (id : String) : Bool := 1 < ((s.parents.lookup id).getD []).length

/-! ### Rows -/

/-- The first and the last row of a lane, with one more row. -/
def widen (row : ℕ) : Option (ℕ × ℕ) → Option (ℕ × ℕ)
  | some (lo, hi) => some (if row < lo then row else lo, if row > hi then row else hi)
  | none => some (row, row)

/-- `lane_min_max`, entry by entry; a lane without an entry is a panic. -/
def laneMinMax (entries : ℕ) (lanes : List ℕ) : Except Fault (List (Option (ℕ × ℕ))) :=
  lanes.zipIdx.foldlM (fun table lr =>
    match table[lr.1]? with
    | some entry => .ok (table.set lr.1 (widen lr.2 entry))
    | none => .error (.panic ("index out of bounds: the len is " ++ toString table.length ++
        " but the index is " ++ toString lr.1))) (List.replicate entries none)

/-- One line of the view. -/
structure LogRow where
  cells : List String
  id : String
  badges : List String
  highlighted : Bool

/-- The bullet of a commit. -/
def bullet (merge highlighted : Bool) : String :=
  if highlighted then "◉─" else if merge then "◆─" else "●─"

/-- The cell of a row in a lane. -/
def cell (table : List (Option (ℕ × ℕ))) (row commitLane : ℕ) (mergeLane : Option ℕ)
    (merge highlighted : Bool) (lane : ℕ) : String :=
  if lane = commitLane then bullet merge highlighted
  else if some lane = mergeLane then if lane < commitLane then "╱─" else "─╲"
  else
    match table[lane]?.join with
    | some (lo, hi) => if row > lo ∧ row < hi then "│ " else "  "
    | none => "  "

/-- The badges of a commit: the branches it is the head of. -/
def badges (s : AppState) (id : String) : List String :=
  s.branches.toPairs.filterMap fun kv =>
    if kv.2.getLast? = some id then
      some (" [" ++ (if kv.1 = s.current then "HEAD" else kv.1) ++ "]")
    else none

/-- The commits of the window, the latest first. -/
def window (s : AppState) (rows : ℕ) : List String :=
  (s.commits.reverse.drop s.logScroll).take rows

/-- The line of the commit `id` in row `row`. -/
def logRow (s : AppState) (table : List (Option (ℕ × ℕ))) (row : ℕ) (id : String) : LogRow :=
  let highlighted := s.logScroll + row = s.logScroll + s.logCursor
  { cells := (List.range s.displayBranches.length).map
      (cell table row (s.commitLane id) (s.mergeSourceLane id) (s.isMerge id) highlighted)
    id := id
    badges := s.badges id
    highlighted := highlighted }

/-- `render` on an area of the given inner width and height. -/
def render (s : AppState) (width height : ℕ) : Except Fault (List LogRow) :=
  if height < 3 ∨ width < 20 then .ok []
  else if s.commits = [] then .ok []
  else do
    let shown := s.window (height - 1)
    let table ← laneMinMax (max s.displayBranches.length 1) (shown.map s.commitLane)
    pure (shown.zipIdx.map fun ir => s.logRow table ir.2 ir.1)

/-! ### The lanes of the window -/

/-- `entry` is the first and the last row that is in lane `lane`. -/
def Bounds (lanes : List ℕ) (lane : ℕ) : Option (ℕ × ℕ) → Prop
  | none => ∀ row : ℕ, lanes[row]? ≠ some lane
  | some (lo, hi) => lanes[lo]? = some lane ∧ lanes[hi]? = some lane ∧
      ∀ row : ℕ, lanes[row]? = some lane → lo ≤ row ∧ row ≤ hi

/-- The commits an area shows. -/
def shown (s : AppState) (width height : ℕ) : List String :=
  if height < 3 ∨ width < 20 then [] else s.window (height - 1)

/-- The actions as steps of a transition system; every one of them is enabled. -/
def next (s : AppState) (a : Action) : Option AppState := some (s.step a)

/-- Paging down keeps the cursor on a commit, if it moves at all. -/
def PageFits (s : AppState) : Prop :=
  s.logScroll + pageSize < s.commits.length →
    s.logScroll + pageSize + s.logCursor < s.commits.length

instance (s : AppState) : Decidable s.PageFits := inferInstanceAs (Decidable (_ → _))

/-- A commit is under the cursor of the log. -/
def Selecting (s : AppState) : Prop := s.logScroll + s.logCursor < s.commits.length

instance (s : AppState) : Decidable s.Selecting := inferInstanceAs (Decidable (_ < _))

theorem selecting_iff {s : AppState} : s.Selecting ↔ ∃ id, s.selectedCommitId = some id := by
  rw [← Option.isSome_iff_exists, selectedCommitId, isSome_getElem?, List.length_reverse, Selecting]

/-- No branch is empty. -/
def NoEmptyBranch (s : AppState) : Prop := ∀ name, s.branches.lookup name ≠ some []

/-- The cursor of the lanes is on a commit of its branch. -/
def RowInRange (s : AppState) : Prop :=
  ∀ list, s.branches.lookup s.cursorBranch = some list → s.cursorRow < list.length

/-- Both cursors are on commits, and no branch is empty. -/
structure Tracked (s : AppState) : Prop where
  selecting : s.Selecting
  noEmptyBranch : s.NoEmptyBranch
  rowInRange : s.RowInRange

theorem tracked_new : new.Tracked where
  selecting := by decide
  noEmptyBranch := by
    intro name h
    simp only [new, AList.lookup_insert_eq] at h
    split at h <;> cases h
  rowInRange := by
    intro list h
    cases h
    exact Nat.one_pos

variable {s : AppState}

theorem selecting_setCursorToHead (s : AppState) : s.setCursorToHead.Selecting ↔ s.Selecting := by
  obtain ⟨row, h⟩ := s.setCursorToHead_eq
  rw [h]
  rfl

/-- A page down keeps the selection exactly when it fits. -/
theorem selecting_logPageDown_iff (h : s.Selecting) : s.logPageDown.Selecting ↔ s.PageFits := by
  unfold logPageDown
  split
  · next hmove => exact ⟨fun hsel _ => hsel, fun hfits => hfits hmove⟩
  · next hstay => exact iff_of_true h fun hmove => absurd hmove hstay

/-- The other actions keep the selection. -/
theorem Selecting.step (h : s.Selecting) {a : Action} (ha : a ≠ .logPageDown) :
    (s.step a).Selecting := by
  unfold Selecting at h
  cases a with
  | logPageDown => exact absurd rfl ha
  | reset => exact tracked_new.selecting
  | toggleGraph | moveCursorUp | insert => exact h
  | setCursorToHead => exact s.selecting_setCursorToHead.mpr h
  | branchFromSelected _ | checkoutSelected => exact (selecting_setCursorToHead _).mpr h
  | snapshot =>
    rw [AppState.step, AppState.snapshot, selecting_setCursorToHead]
    simp [Selecting]
  | moveCursorLeft | moveCursorRight =>
    simp only [AppState.step, AppState.moveCursorLeft, AppState.moveCursorRight,
      AppState.moveCursor]
    split
    · exact (selecting_setCursorToHead _).mpr h
    · exact h
  | moveCursorDown =>
    simp only [AppState.step, AppState.moveCursorDown]
    split <;> exact h
  | logUp =>
    simp only [AppState.step, AppState.logUp]
    split <;> (simp only [Selecting]; omega)
  | logDown =>
    simp only [AppState.step, AppState.logDown]
    split
    · split <;> (simp only [Selecting]; omega)
    · exact h
  | logPageUp =>
    simp only [AppState.step, AppState.logPageUp, Selecting]
    omega
  | deleteCurrentBranch =>
    simp only [AppState.step, AppState.deleteCurrentBranch]
    split
    · exact h
    · exact (selecting_setCursorToHead _).mpr h
  | branch _ =>
    simp only [AppState.step, AppState.branch]
    split <;> exact h
  | merge =>
    simp only [AppState.step, AppState.merge]
    split
    · exact h
    · simp [Selecting]
  | recovery =>
    simp only [AppState.step, AppState.recovery]
    split
    · exact h
    · simp only [Selecting, List.length_append]
      omega

/-- Setting the cursor to the head puts it on a commit. -/
theorem rowInRange_setCursorToHead (h : s.NoEmptyBranch) : s.setCursorToHead.RowInRange := by
  intro list hlist
  cases hbranch : s.branches.lookup s.cursorBranch with
  | none =>
    rw [setCursorToHead, hbranch] at hlist
    simp only [hbranch] at hlist
    cases hlist
  | some items =>
    cases items with
    | nil => exact absurd hbranch (h _)
    | cons a rest =>
      rw [setCursorToHead, hbranch] at hlist ⊢
      simp only [hbranch] at hlist
      cases hlist
      exact Nat.lt_succ_self _

theorem NoEmptyBranch.insert (h : s.NoEmptyBranch) (name : String) {list : List String}
    (hne : list ≠ []) (name' : String) : (s.branches.insert name list).lookup name' ≠ some [] := by
  rw [AList.lookup_insert_eq]
  split
  · intro heq
    exact hne (Option.some.inj heq)
  · exact h name'

theorem SameWork.noEmptyBranch_iff {t : AppState} (h : s.SameWork t) :
    t.NoEmptyBranch ↔ s.NoEmptyBranch := by
  rw [NoEmptyBranch, NoEmptyBranch, h.branches]

theorem NoEmptyBranch.step (h : s.NoEmptyBranch) (hsel : s.Selecting) (a : Action) :
    (s.step a).NoEmptyBranch := by
  cases a with
  | insert => exact h
  | reset => exact tracked_new.noEmptyBranch
  | checkoutSelected => exact (sameWork_setCursorToHead _).noEmptyBranch_iff.mpr h
  | snapshot =>
    refine (sameWork_setCursorToHead _).noEmptyBranch_iff.mpr ?_
    exact h.insert s.current (by simp)
  | branchFromSelected name =>
    refine (sameWork_setCursorToHead _).noEmptyBranch_iff.mpr ?_
    obtain ⟨id, hid⟩ := selecting_iff.mp hsel
    exact h.insert _ (by simp [hid])
  | deleteCurrentBranch =>
    simp only [AppState.step, AppState.deleteCurrentBranch]
    split
    · exact h
    · refine (sameWork_setCursorToHead _).noEmptyBranch_iff.mpr fun name => ?_
      by_cases hname : name = s.current
      · rw [hname]
        simp
      · simpa [AList.lookup_erase_ne hname] using h name
  | branch name =>
    simp only [AppState.step, AppState.branch]
    split
    · exact h
    · exact h.insert name (by simp)
  | merge =>
    simp only [AppState.step, AppState.merge]
    split
    · exact h
    · cases hmain : s.branches.lookup "main" with
      | none => exact fun name => by simpa only [hmain] using h name
      | some list => exact fun name => by simpa only [hmain] using h.insert "main" (by simp) name
  | recovery =>
    simp only [AppState.step, AppState.recovery]
    split
    · exact h
    · exact h.insert "recovery" (by simp)
  | _ => exact (s.sameWork_step rfl).noEmptyBranch_iff.mpr h

/-- The row of the cursor stays in range when its branch is the same and not shorter. -/
theorem RowInRange.of_lookup {t : AppState} (h : s.RowInRange)
    (hcursor : t.cursorBranch = s.cursorBranch) (hrow : t.cursorRow = s.cursorRow)
    (hkeep : ∀ list, t.branches.lookup s.cursorBranch = some list →
      ∃ list', s.branches.lookup s.cursorBranch = some list' ∧ list'.length ≤ list.length) :
    t.RowInRange := by
  intro list hlist
  rw [hcursor] at hlist
  obtain ⟨list', hlist', hle⟩ := hkeep list hlist
  rw [hrow]
  exact (h list' hlist').trans_le hle

/-- A branch that was not there is not the one of the cursor. -/
theorem RowInRange.insert_fresh (h : s.RowInRange) (hplaced : s.Placed) {name : String}
    (hname : s.branches.lookup name = none) (list : List String) {t : AppState}
    (hcursor : t.cursorBranch = s.cursorBranch) (hrow : t.cursorRow = s.cursorRow)
    (hbranches : t.branches = s.branches.insert name list) : t.RowInRange := by
  refine h.of_lookup hcursor hrow fun list' hlist' => ?_
  have hne : s.cursorBranch ≠ name := by
    rintro rfl
    exact AList.lookup_eq_none.mp hname hplaced.cursorBranch
  rw [hbranches, AList.lookup_insert_ne hne] at hlist'
  exact ⟨list', hlist', le_rfl⟩

/-- Setting the cursor to the head last puts it on a commit, if no branch is empty then. -/
theorem rowInRange_of_noEmptyBranch {t : AppState} (h : t.setCursorToHead.NoEmptyBranch) :
    t.setCursorToHead.RowInRange :=
  rowInRange_setCursorToHead (t.sameWork_setCursorToHead.noEmptyBranch_iff.mp h)

theorem RowInRange.merge (h : s.RowInRange) : s.merge.RowInRange := by
  unfold AppState.merge
  split
  · exact h
  · refine h.of_lookup rfl rfl fun list hlist => ?_
    cases hmain : s.branches.lookup "main" with
    | none =>
      simp only [hmain] at hlist
      exact ⟨list, hlist, le_rfl⟩
    | some items =>
      simp only [hmain, AList.lookup_insert_eq] at hlist
      split at hlist
      · next hcursor =>
        cases hlist
        exact ⟨items, by rw [hcursor, hmain], by simp⟩
      · exact ⟨list, hlist, le_rfl⟩

theorem RowInRange.step (h : s.RowInRange) (hplaced : s.Placed) (hne : s.NoEmptyBranch)
    {a : Action} (hne' : (s.step a).NoEmptyBranch) : (s.step a).RowInRange := by
  cases a with
  | reset => exact tracked_new.rowInRange
  | insert | toggleGraph | logPageUp => exact h
  | setCursorToHead | checkoutSelected | snapshot | branchFromSelected _ =>
    exact rowInRange_of_noEmptyBranch hne'
  | moveCursorLeft | moveCursorRight =>
    simp only [AppState.step, AppState.moveCursorLeft, AppState.moveCursorRight,
      AppState.moveCursor]
    split
    · exact rowInRange_setCursorToHead hne
    · exact h
  | moveCursorUp =>
    intro list hlist
    exact lt_of_le_of_lt (Nat.sub_le _ _) (h list hlist)
  | moveCursorDown =>
    simp only [AppState.step, AppState.moveCursorDown]
    split
    · next a rest hbranch =>
      intro list hlist
      simp only [hbranch] at hlist
      cases hlist
      simp only [List.length_cons]
      omega
    · exact h
  | logUp =>
    simp only [AppState.step, AppState.logUp]
    split <;> exact h
  | logDown =>
    simp only [AppState.step, AppState.logDown]
    split
    · split <;> exact h
    · exact h
  | logPageDown =>
    simp only [AppState.step, AppState.logPageDown]
    split <;> exact h
  | deleteCurrentBranch =>
    simp only [AppState.step, AppState.deleteCurrentBranch] at hne' ⊢
    split
    · exact h
    · next hcurrent =>
      rw [if_neg hcurrent] at hne'
      exact rowInRange_of_noEmptyBranch hne'
  | branch name =>
    simp only [AppState.step, AppState.branch]
    split
    · exact h
    · next hname => exact h.insert_fresh hplaced hname _ rfl rfl rfl
  | merge => exact h.merge
  | recovery =>
    simp only [AppState.step, AppState.recovery]
    split
    · exact h
    · next hname => exact h.insert_fresh hplaced hname _ rfl rfl rfl

/-- The cursors stay on commits exactly when a page down, if it is one, fits. -/
theorem Tracked.step_iff (h : s.Tracked) (hplaced : s.Placed) (a : Action) :
    (s.step a).Tracked ↔ (a = .logPageDown → s.PageFits) := by
  constructor
  · rintro h' rfl
    exact (selecting_logPageDown_iff h.selecting).mp h'.selecting
  · intro hfits
    have hne := h.noEmptyBranch.step h.selecting a
    refine ⟨?_, hne, h.rowInRange.step hplaced h.noEmptyBranch hne⟩
    by_cases ha : a = .logPageDown
    · subst ha
      exact (selecting_logPageDown_iff h.selecting).mpr (hfits rfl)
    · exact h.selecting.step ha

/-- **The cursors are on commits and no branch is empty, in every state of a run, exactly when
every page down fits.** -/
theorem always_tracked_iff (actions : List Action) :
    Runs.Always next Tracked new actions ↔
      Runs.EachStep next (fun s a _ => a = .logPageDown → s.PageFits) new actions := by
  have hstep : ∀ (s : AppState) (a : Action) (s' : AppState), s.Placed ∧ s.Tracked →
      next s a = some s' → ((a = .logPageDown → s.PageFits) ↔ s'.Tracked) := by
    intro s a s' h hs'
    cases hs'
    exact (h.2.step_iff h.1 a).symm
  have hinv : ∀ (s : AppState) (a : Action) (s' : AppState), s.Placed ∧ s.Tracked →
      next s a = some s' → (a = .logPageDown → s.PageFits) → s'.Placed ∧ s'.Tracked := by
    intro s a s' h hs' hfits
    cases hs'
    exact ⟨h.1.step a, (h.2.step_iff h.1 a).mpr hfits⟩
  exact Runs.always_iff (fun s h => h.2) hstep hinv ⟨placed_new, tracked_new⟩ actions

/-- Twenty more commits, the last of them under the cursor, and a page down. -/
example : ¬ (((List.replicate 20 Action.snapshot ++ List.replicate 19 Action.logDown).foldl
    AppState.step new).PageFits) := by
  decide +kernel

end AppState

end KuzuEventBus.Tui
