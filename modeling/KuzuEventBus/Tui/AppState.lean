import KuzuEventBus.Lib.HashMap
import KuzuEventBus.Lib.Text

/-!
# The state of the terminal application

`AppState` of `casys_tui/src/lib.rs`: branches as lists of commit ids, the commits of the whole
application in the order they were made, the parents of each, and two views with cursors, the
lanes of the branches and the vertical log.  Node positions, which are floating-point layout, are
left out.

## Main definitions

* `AppState`, `AppState.new` — the state.
* `AppState.snapshot`, `AppState.merge`, `AppState.recovery` — the actions that commit.
* `AppState.branchFromSelected`, `AppState.branch`, `AppState.deleteCurrentBranch` — branches.
* `AppState.logDown`, `AppState.logPageDown`, `AppState.selectedCommitId` — the log view.
* `Action`, `AppState.step`, `AppState.run` — actions one after the other.
-/

namespace KuzuEventBus.Tui

open Text

/-- `DEFAULT_BRANCH`. -/
def defaultBranch : String := "main"

/-- `PAGE_SIZE`. -/
def pageSize : ℕ := 20

/-- `Node`. -/
structure Node where
  id : String
  label : String
  branch : String
  pending : Bool

/-- `Edge`. -/
structure Edge where
  fromNode : String
  toNode : String
  rel : String
  branch : String
  pending : Bool

/-- What `merge` does to a node or an edge: a pending one is published on main. -/
def Node.publish (n : Node) : Node :=
  if n.pending then { n with pending := false, branch := "main" } else n

@[inherit_doc Node.publish]
def Edge.publish (e : Edge) : Edge :=
  if e.pending then { e with pending := false, branch := "main" } else e

/-- `AppState`; of `UiState` it keeps `show_canvas`. -/
structure AppState where
  branches : HashMap String (List String)
  current : String
  commits : List String
  parents : HashMap String (List String)
  commitOrigin : HashMap String String
  nodes : List Node
  edges : List Edge
  showCanvas : Bool
  lastMergeFrom : Option String
  cursorBranch : String
  cursorRow : ℕ
  logScroll : ℕ
  logCursor : ℕ

namespace AppState

/-- `AppState::new`. -/
def new : AppState where
  branches := (∅ : HashMap String (List String)).insert "main" ["c1"]
  current := "main"
  commits := ["c1"]
  parents := ∅
  commitOrigin := (∅ : HashMap String String).insert "c1" "main"
  nodes := [⟨"N1", "Alice", "main", false⟩, ⟨"N2", "Bob", "main", false⟩,
    ⟨"N3", "Carol", "main", false⟩]
  edges := [⟨"N1", "N2", "KNOWS", "main", false⟩, ⟨"N1", "N3", "WORKS_WITH", "main", false⟩]
  showCanvas := true
  lastMergeFrom := none
  cursorBranch := defaultBranch
  cursorRow := 0
  logScroll := 0
  logCursor := 0

/-- `toggle_graph`. -/
def toggleGraph (s : AppState) : AppState := { s with showCanvas := !s.showCanvas }

/-! ### The lanes -/

/-- `sorted_branch_names`. -/
def sortedBranchNames (s : AppState) : List String := sortNames s.branches.keys

/-- `set_cursor_to_head`: an empty branch leaves the row. -/
def setCursorToHead (s : AppState) : AppState :=
  match s.branches.lookup s.cursorBranch with
  | some (_ :: rest) => { s with cursorRow := rest.length }
  | _ => s

/-- The cursor moves to the branch that `move` finds from the index of its own. -/
def moveCursor (s : AppState) (move : ℕ → ℕ) : AppState :=
  match s.sortedBranchNames.idxOf? s.cursorBranch with
  | some i =>
    setCursorToHead { s with
      cursorBranch := (s.sortedBranchNames[move i]?).getD s.cursorBranch }
  | none => s

/-- `move_cursor_left`. -/
def moveCursorLeft (s : AppState) : AppState := s.moveCursor (· - 1)

/-- `move_cursor_right`. -/
def moveCursorRight (s : AppState) : AppState :=
  s.moveCursor fun i => min (i + 1) (s.sortedBranchNames.length - 1)

/-- `move_cursor_up`. -/
def moveCursorUp (s : AppState) : AppState := { s with cursorRow := s.cursorRow - 1 }

/-- `move_cursor_down`. -/
def moveCursorDown (s : AppState) : AppState :=
  match s.branches.lookup s.cursorBranch with
  | some (_ :: rest) => { s with cursorRow := min (s.cursorRow + 1) rest.length }
  | _ => s

/-! ### The log -/

/-- `log_up`. -/
def logUp (s : AppState) : AppState :=
  if s.logCursor > 0 then { s with logCursor := s.logCursor - 1 }
  else { s with logScroll := s.logScroll - 1 }

/-- `log_down`. -/
def logDown (s : AppState) : AppState :=
  if s.logScroll + s.logCursor + 1 < s.commits.length then
    if s.logCursor + 1 < pageSize then { s with logCursor := s.logCursor + 1 }
    else { s with logScroll := s.logScroll + 1 }
  else s

/-- `log_page_up`. -/
def logPageUp (s : AppState) : AppState := { s with logScroll := s.logScroll - pageSize }

/-- `log_page_down`: the cursor stays where it is on the page. -/
def logPageDown (s : AppState) : AppState :=
  if s.logScroll + pageSize < s.commits.length then
    { s with logScroll := s.logScroll + pageSize }
  else s

/-- `selected_commit_id`, the latest commit on top. -/
def selectedCommitId (s : AppState) : Option String := s.commits.reverse[s.logScroll + s.logCursor]?

/-! ### Commits and branches -/

/-- `current_head`. -/
def currentHead (s : AppState) (branch : String) : Option String :=
  (s.branches.lookup branch).bind List.getLast?

/-- The id of the next commit. -/
def nextCommitId (s : AppState) (kind : String) : String :=
  kind ++ toString (s.commits.length + 1)

/-- `snapshot`. -/
def snapshot (s : AppState) : AppState :=
  let newId := s.nextCommitId "c"
  setCursorToHead { s with
    parents := s.parents.insert newId (s.currentHead s.current).toList
    commits := s.commits ++ [newId]
    branches := s.branches.pushTo s.current newId
    commitOrigin := s.commitOrigin.insert newId s.current
    cursorBranch := s.current
    logScroll := 0
    logCursor := 0 }

/-- The names the loop of `branch_from_selected` tries, as many as one of them must be free. -/
def devNames (s : AppState) : List String :=
  (List.range (s.branches.keys.length + 1)).map fun i => "dev" ++ toString (i + 2)

/-- The first name of the loop of `branch_from_selected` that is no branch. -/
def freeName (s : AppState) : String :=
  (s.devNames.find? fun name => (s.branches.lookup name).isNone).getD ""

/-- `branch_from_selected`: a branch of that name is replaced. -/
def branchFromSelected (s : AppState) (name : Option String) : AppState :=
  let newName := name.getD s.freeName
  setCursorToHead { s with
    branches := s.branches.insert newName s.selectedCommitId.toList
    current := newName
    cursorBranch := newName }

/-- `checkout_selected`. -/
def checkoutSelected (s : AppState) : AppState :=
  setCursorToHead { s with current := s.cursorBranch }

/-- `delete_current_branch`. -/
def deleteCurrentBranch (s : AppState) : AppState :=
  if s.current = defaultBranch then s
  else
    setCursorToHead { s with
      branches := s.branches.erase s.current
      current := defaultBranch
      cursorBranch := defaultBranch }

/-- `insert`. -/
def insert (s : AppState) : AppState :=
  let nid := "N" ++ toString (s.nodes.length + 1)
  let pending := s.current ≠ "main"
  { s with
    nodes := s.nodes ++ [⟨nid, "Node " ++ toString s.nodes.length, s.current, pending⟩]
    edges := s.edges ++ [⟨"N1", nid, "KNOWS", s.current, pending⟩] }

/-- `branch`. -/
def branch (s : AppState) (name : String) : AppState :=
  match s.branches.lookup name with
  | some _ => { s with current := name }
  | none =>
    { s with
      branches := s.branches.insert name [(s.currentHead s.current).getD "c1"]
      current := name }

/-- `merge`: whatever is pending is published, also that of other branches. -/
def merge (s : AppState) : AppState :=
  if s.current = "main" then s
  else
    let id := s.nextCommitId "m"
    { s with
      parents := s.parents.insert id
        ((s.currentHead "main").toList ++ (s.currentHead s.current).toList)
      commits := s.commits ++ [id]
      branches := match s.branches.lookup "main" with
        | some list => s.branches.insert "main" (list ++ [id])
        | none => s.branches
      commitOrigin := s.commitOrigin.insert id "main"
      nodes := s.nodes.map Node.publish
      edges := s.edges.map Edge.publish
      lastMergeFrom := some s.current
      current := "main"
      logScroll := 0
      logCursor := 0 }

/-- The commit a recovery branch starts at: the second one of main, or its last. -/
def recoveryBase (s : AppState) : String :=
  ((s.branches.lookup "main").bind fun list => (list[1]?).or list.getLast?).getD "c1"

/-- `recovery`: the commit it makes has no parents. -/
def recovery (s : AppState) : AppState :=
  match s.branches.lookup "recovery" with
  | some _ => { s with current := "recovery" }
  | none =>
    let id := s.nextCommitId "r"
    { s with
      commits := s.commits ++ [id]
      branches := s.branches.insert "recovery" [s.recoveryBase, id]
      current := "recovery" }

end AppState

/-! ### Actions -/

/-- The actions of the application. -/
inductive Action where
  | toggleGraph | setCursorToHead
  | moveCursorLeft | moveCursorRight | moveCursorUp | moveCursorDown
  | logUp | logDown | logPageUp | logPageDown
  | snapshot | branchFromSelected (name : Option String) | checkoutSelected | deleteCurrentBranch
  | insert | branch (name : String) | merge | recovery | reset

/-- What an action does. -/
def AppState.step (s : AppState) : Action → AppState
  | .toggleGraph => s.toggleGraph
  | .setCursorToHead => s.setCursorToHead
  | .moveCursorLeft => s.moveCursorLeft
  | .moveCursorRight => s.moveCursorRight
  | .moveCursorUp => s.moveCursorUp
  | .moveCursorDown => s.moveCursorDown
  | .logUp => s.logUp
  | .logDown => s.logDown
  | .logPageUp => s.logPageUp
  | .logPageDown => s.logPageDown
  | .snapshot => s.snapshot
  | .branchFromSelected name => s.branchFromSelected name
  | .checkoutSelected => s.checkoutSelected
  | .deleteCurrentBranch => s.deleteCurrentBranch
  | .insert => s.insert
  | .branch name => s.branch name
  | .merge => s.merge
  | .recovery => s.recovery
  | .reset => .new

/-- Actions one after the other, from the start. -/
def AppState.run (actions : List Action) : AppState := actions.foldl AppState.step .new

/-! ### What the views leave alone -/

/-- Two states with the same work: they differ in their views at most. -/
structure AppState.SameWork (s t : AppState) : Prop where
  branches : t.branches = s.branches
  current : t.current = s.current
  commits : t.commits = s.commits
  parents : t.parents = s.parents
  nodes : t.nodes = s.nodes
  edges : t.edges = s.edges

/-- The actions that change a view only. -/
def Action.isView : Action → Bool
  | .toggleGraph | .setCursorToHead | .moveCursorLeft | .moveCursorRight | .moveCursorUp
  | .moveCursorDown | .logUp | .logDown | .logPageUp | .logPageDown => true
  | .snapshot | .branchFromSelected _ | .checkoutSelected | .deleteCurrentBranch | .insert
  | .branch _ | .merge | .recovery | .reset => false

/-- Setting the cursor to the head changes its row only. -/
theorem AppState.setCursorToHead_eq (s : AppState) :
    ∃ row, s.setCursorToHead = { s with cursorRow := row } := by
  unfold setCursorToHead
  split
  · exact ⟨_, rfl⟩
  · exact ⟨s.cursorRow, rfl⟩

theorem AppState.sameWork_setCursorToHead (s : AppState) : s.SameWork s.setCursorToHead := by
  obtain ⟨row, h⟩ := s.setCursorToHead_eq
  rw [h]
  exact ⟨rfl, rfl, rfl, rfl, rfl, rfl⟩

theorem AppState.sameWork_moveCursor (s : AppState) (move : ℕ → ℕ) :
    s.SameWork (s.moveCursor move) := by
  unfold AppState.moveCursor
  split
  · obtain ⟨hb, hcur, hc, hp, hn, he⟩ := AppState.sameWork_setCursorToHead
      { s with cursorBranch := (s.sortedBranchNames[move _]?).getD s.cursorBranch }
    exact ⟨hb, hcur, hc, hp, hn, he⟩
  · exact ⟨rfl, rfl, rfl, rfl, rfl, rfl⟩

/-- **An action on a view leaves the work alone.** -/
theorem AppState.sameWork_step (s : AppState) {a : Action} (h : a.isView = true) :
    s.SameWork (s.step a) := by
  cases a <;> simp only [Action.isView, Bool.false_eq_true] at h
  case setCursorToHead => exact s.sameWork_setCursorToHead
  case moveCursorLeft => exact s.sameWork_moveCursor _
  case moveCursorRight => exact s.sameWork_moveCursor _
  case toggleGraph | moveCursorUp | logPageUp => exact ⟨rfl, rfl, rfl, rfl, rfl, rfl⟩
  case moveCursorDown =>
    simp only [AppState.step, AppState.moveCursorDown]
    split <;> exact ⟨rfl, rfl, rfl, rfl, rfl, rfl⟩
  case logUp =>
    simp only [AppState.step, AppState.logUp]
    split <;> exact ⟨rfl, rfl, rfl, rfl, rfl, rfl⟩
  case logDown =>
    simp only [AppState.step, AppState.logDown]
    split
    · split <;> exact ⟨rfl, rfl, rfl, rfl, rfl, rfl⟩
    · exact ⟨rfl, rfl, rfl, rfl, rfl, rfl⟩
  case logPageDown =>
    simp only [AppState.step, AppState.logPageDown]
    split <;> exact ⟨rfl, rfl, rfl, rfl, rfl, rfl⟩

/-- What holds at the start and is kept by every action holds after every run. -/
theorem AppState.run_induction {P : AppState → Prop} (hnew : P .new)
    (hstep : ∀ s a, P s → P (s.step a)) (actions : List Action) : P (AppState.run actions) :=
  List.foldlRecOn actions AppState.step hnew fun s hs a _ => hstep s a hs

end KuzuEventBus.Tui
