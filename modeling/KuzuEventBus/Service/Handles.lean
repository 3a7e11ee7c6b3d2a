import KuzuEventBus.Lib.Runs
import Mathlib.Logic.Function.Basic
import Mathlib.Tactic.Common

/-!
# Open databases and restores

The query execution adapter of a worker keeps the database it opened for as long as it lives.  An
open database refers to the files it opened, and a restore puts other files at their path.  This
module tells the files from their path, and asks which content a query is executed on after a
restore has returned.

## Main definitions

* `Files`, `Archive` — what is at the path of a database, and what a snapshot holds.
* `Host` — the files, the path, the connections of the adapters and the content that is expected.
* `executeQuery`, `restorePitr`, `restoreFromSnapshot`, `checkout` — the operations.
* `Sees`, `Current` — a query is executed on the expected content; the connection is one to the
  files at the path.

## Main results

* `sees_of_current` — **after a restore every query is executed on the restored content and the
  writes since, as long as the adapters' connections are to the files at the path.**
-/

namespace KuzuEventBus.Service.Handles

/-! ### Files -/

/-- Which files they are, whatever the path. -/
abbrev FileId := ℕ

/-- How a database is stored at its path. -/
inductive Layout where
  | directory
  | file
  deriving DecidableEq

/-- The files of a database. -/
structure Files (C : Type) where
  layout : Layout
  content : C

/-- The object of a snapshot, an archive or the database file itself. -/
inductive Archive (C : Type) where
  | tar (files : Files C)
  | raw (content : C)

/-- The database a snapshot holds. -/
def Archive.content {C : Type} : Archive C → C
  | .tar files => files.content
  | .raw content => content

/-- The files and the path of one database, the connection of each adapter, and, once a restore has
returned, the restored content with the writes made since. -/
structure Host (W C : Type) where
  files : FileId → Files C
  path : Option FileId
  next : FileId
  connections : W → Option FileId
  expected : Option C

section

variable {W C : Type}

/-- Other files are put at the path. -/
def Host.put (h : Host W C) (f : Files C) : Host W C :=
  { h with files := Function.update h.files h.next f, path := some h.next, next := h.next + 1 }

/-- Files are overwritten where they are. -/
def Host.overwrite (h : Host W C) (i : FileId) (c : C) : Host W C :=
  { h with files := Function.update h.files i { h.files i with content := c } }

/-- What is at the path has the layout. -/
def Host.pathIs (h : Host W C) (layout : Layout) : Prop :=
  ∃ i, h.path = some i ∧ (h.files i).layout = layout

/-- The content at the path. -/
def Host.pathContent (h : Host W C) : Option C := h.path.map fun i => (h.files i).content

end

/-! ### The operations -/

section

variable {W C Q : Type} [DecidableEq W]

/-- What the database engine does: the files of a new database, a query on a content, and the
content of a database directory that a file is copied into. -/
structure Engine (C Q : Type) where
  create : Files C
  query : Q → C → C
  copyInto : C → C → C

variable (e : Engine C Q)

/-- The files a query of the adapter is executed on, and the connection that is kept to them. -/
def ensureInitialized (h : Host W C) (w : W) : FileId × Host W C :=
  match h.connections w with
  | some i => (i, h)
  | none =>
    match h.path with
    | some i => (i, { h with connections := Function.update h.connections w (some i) })
    | none =>
      (h.next, { h.put e.create with connections := Function.update h.connections w (some h.next) })

/-- `KuzuQueryExecutionAdapter.execute_query`. -/
def executeQuery (h : Host W C) (w : W) (q : Q) : Host W C :=
  let (i, h) := ensureInitialized e h w
  { h.overwrite i (e.query q (h.files i).content) with expected := h.expected.map (e.query q) }

/-- The content a query of the adapter is executed on. -/
def operatesOn (h : Host W C) (w : W) : C :=
  let (i, h) := ensureInitialized e h w
  (h.files i).content

/-- `RestoreDatabasePITR`: the directory or the file is replaced, and the log is replayed through a
database that is opened at the path for each query.  Where the replacement raises there is no state:
nothing has changed. -/
def restorePitr (h : Host W C) (archive : Archive C) (log : List Q) : Option (Host W C) :=
  let content := log.foldl (fun c q => e.query q c) archive.content
  match archive with
  | .tar files => some { h.put { files with content } with expected := some content }
  | .raw _ =>
    match h.path with
    | none => some { h.put ⟨.file, content⟩ with expected := some content }
    | some i =>
      match (h.files i).layout with
      | .file => some { h.put ⟨.file, content⟩ with expected := some content }
      | .directory => none

/-- `RestoreDatabaseFromSnapshot`: a directory is removed and copied, a file copied onto what is
there. -/
def restoreFromSnapshot (h : Host W C) (archive : Archive C) : Option (Host W C) :=
  match archive, h.path with
  | .tar files, none => some { h.put files with expected := some files.content }
  | .raw content, none => some { h.put ⟨.file, content⟩ with expected := some content }
  | .tar ⟨.directory, content⟩, some i =>
    match (h.files i).layout with
    | .directory => some { h.put ⟨.directory, content⟩ with expected := some content }
    | .file => none
  | .tar ⟨.file, content⟩, some i =>
    match (h.files i).layout with
    | .file => some { h.overwrite i content with expected := some content }
    | .directory =>
      -- `copy2` to a directory copies into it.
      some { h.overwrite i (e.copyInto (h.files i).content content) with expected := some content }
  | .raw content, some i =>
    match (h.files i).layout with
    | .file => some { h.put ⟨.file, content⟩ with expected := some content }
    | .directory => none

/-- `QueryWorker._ensure_local_db`: without files at the path the last snapshot is put there. -/
def checkout (h : Host W C) (archive : Archive C) : Option (Host W C) :=
  match h.path, archive with
  | some _, _ => none
  | none, .tar files => some (h.put files)
  | none, .raw content => some (h.put ⟨.file, content⟩)

/-- What happens on the host. -/
inductive Action (W C Q : Type) where
  | execute (w : W) (q : Q)
  | restorePitr (archive : Archive C) (log : List Q)
  | restoreFromSnapshot (archive : Archive C)
  | checkout (archive : Archive C)

/-- One step of the host. -/
def step (h : Host W C) : Action W C Q → Option (Host W C)
  | .execute w q => some (executeQuery e h w q)
  | .restorePitr archive log => restorePitr e h archive log
  | .restoreFromSnapshot archive => restoreFromSnapshot e h archive
  | .checkout archive => checkout h archive

/-- A query is executed on the restored content and the writes since. -/
def Sees (h : Host W C) : Action W C Q → Prop
  | .execute w _ => ∀ c, h.expected = some c → operatesOn e h w = c
  | _ => True

/-- What a step has to meet: the connection of the adapter is to the files at the path, and a file
is not copied into a directory. -/
def Current (h : Host W C) : Action W C Q → Prop
  | .execute w _ => ∀ i, h.connections w = some i → h.path = some i
  | .restoreFromSnapshot (.tar ⟨.file, _⟩) => ¬ h.pathIs .directory
  | _ => True

/-! ### What a query is executed on -/

omit [DecidableEq W] in
@[simp] theorem pathContent_put (h : Host W C) (f : Files C) :
    (h.put f).pathContent = some f.content := by
  simp [Host.put, Host.pathContent]

omit [DecidableEq W] in
/-- Files that are at the path are found there when they are overwritten. -/
theorem pathContent_overwrite {h : Host W C} {i : FileId} (hi : h.path = some i) (c : C) :
    (h.overwrite i c).pathContent = some c := by
  simp [Host.overwrite, Host.pathContent, hi]

/-- What is expected is at the path. -/
def Inv (h : Host W C) : Prop := ∀ c, h.expected = some c → h.pathContent = some c

omit [DecidableEq W] in
theorem inv_of_pathContent {h : Host W C} {c : C} (hc : h.pathContent = some c)
    (hexp : h.expected = some c) : Inv h := by
  intro c' hc'
  rw [hc, ← hexp, hc']

/-- The three cases of `ensure_initialized`: a connection, files at the path, and neither. -/
theorem ensureInitialized_cases (h : Host W C) (w : W) :
    (∃ i, h.connections w = some i ∧ ensureInitialized e h w = (i, h)) ∨
    (∃ i, h.path = some i ∧ ensureInitialized e h w =
      (i, { h with connections := Function.update h.connections w (some i) })) ∨
    (h.path = none ∧ ensureInitialized e h w = (h.next,
      { h.put e.create with connections := Function.update h.connections w (some h.next) })) := by
  unfold ensureInitialized
  split
  next i hconn => exact Or.inl ⟨i, hconn, rfl⟩
  next =>
    split
    next i hpath => exact Or.inr (Or.inl ⟨i, hpath, rfl⟩)
    next hpath => exact Or.inr (Or.inr ⟨hpath, rfl⟩)

/-- A connection that is current is to the files at the path. -/
theorem ensureInitialized_path {h : Host W C} {w : W}
    (hcur : ∀ i, h.connections w = some i → h.path = some i) :
    (ensureInitialized e h w).2.path = some (ensureInitialized e h w).1 := by
  rcases ensureInitialized_cases e h w with ⟨i, hconn, heq⟩ | ⟨i, hpath, heq⟩ | ⟨-, heq⟩ <;>
    rw [heq]
  · exact hcur i hconn
  · exact hpath
  · rfl

/-- To open a database changes nothing that is expected at the path. -/
theorem ensureInitialized_inv {h : Host W C} (hinv : Inv h) (w : W) :
    Inv (ensureInitialized e h w).2 := by
  rcases ensureInitialized_cases e h w with ⟨i, -, heq⟩ | ⟨i, -, heq⟩ | ⟨hpath, heq⟩ <;> rw [heq]
  · exact hinv
  · exact hinv
  · -- Nothing is expected where no files are.
    intro c hc
    have hnone := hinv c hc
    simp [Host.pathContent, hpath] at hnone

theorem ensureInitialized_expected (h : Host W C) (w : W) :
    (ensureInitialized e h w).2.expected = h.expected := by
  rcases ensureInitialized_cases e h w with ⟨i, -, heq⟩ | ⟨i, -, heq⟩ | ⟨-, heq⟩ <;> rw [heq]
  rfl

/-- Through a current connection a query is executed on what is expected. -/
theorem operatesOn_eq {h : Host W C} (hinv : Inv h) {w : W}
    (hcur : ∀ i, h.connections w = some i → h.path = some i) {c : C} (hc : h.expected = some c) :
    operatesOn e h w = c := by
  have hpath := ensureInitialized_path e hcur
  have hcontent := ensureInitialized_inv e hinv w c ((ensureInitialized_expected e h w).trans hc)
  rw [Host.pathContent, hpath, Option.map_some] at hcontent
  exact Option.some.inj hcontent

/-- A query keeps what is expected at the path. -/
theorem executeQuery_inv {h : Host W C} (hinv : Inv h) {w : W}
    (hcur : ∀ i, h.connections w = some i → h.path = some i) (q : Q) :
    Inv (executeQuery e h w q) := by
  intro c' hc'
  have hpath := ensureInitialized_path e hcur
  obtain ⟨c, hc, rfl⟩ := Option.map_eq_some_iff.1 hc'
  have hc := (ensureInitialized_expected e h w).symm.trans hc
  rw [← operatesOn_eq e hinv hcur hc]
  exact pathContent_overwrite hpath (e.query q (operatesOn e h w))

omit [DecidableEq W] in
/-- A PITR restore leaves at the path what it restores. -/
theorem restorePitr_inv {h h' : Host W C} {archive : Archive C} {log : List Q}
    (hstep : restorePitr e h archive log = some h') : Inv h' := by
  unfold restorePitr at hstep
  cases archive with
  | tar files =>
    cases hstep
    exact inv_of_pathContent (pathContent_put h _) rfl
  | raw content =>
    cases hpath : h.path with
    | none =>
      rw [hpath] at hstep
      cases hstep
      exact inv_of_pathContent (pathContent_put h _) rfl
    | some i =>
      simp only [hpath] at hstep
      split at hstep
      · cases hstep
        exact inv_of_pathContent (pathContent_put h _) rfl
      · cases hstep

omit [DecidableEq W] in
/-- So does a snapshot restore, unless it copies a file into a directory. -/
theorem restoreFromSnapshot_inv {h h' : Host W C} {archive : Archive C}
    (hcur : Current h (.restoreFromSnapshot archive : Action W C Q))
    (hstep : restoreFromSnapshot e h archive = some h') : Inv h' := by
  unfold restoreFromSnapshot at hstep
  split at hstep
  · cases hstep
    exact inv_of_pathContent (pathContent_put h _) rfl
  · cases hstep
    exact inv_of_pathContent (pathContent_put h _) rfl
  next content i hpath =>
    split at hstep
    · cases hstep
      exact inv_of_pathContent (pathContent_put h _) rfl
    · cases hstep
  next content i hpath =>
    split at hstep
    · cases hstep
      exact inv_of_pathContent (pathContent_overwrite hpath _) rfl
    next hdir => exact absurd ⟨i, hpath, hdir⟩ hcur
  next content i hpath =>
    split at hstep
    · cases hstep
      exact inv_of_pathContent (pathContent_put h _) rfl
    · cases hstep

omit [DecidableEq W] in
/-- Nothing is expected yet when files are checked out that are not there. -/
theorem checkout_inv {h h' : Host W C} (hinv : Inv h) {archive : Archive C}
    (hstep : checkout h archive = some h') : Inv h' := by
  have hnone (hpath : h.path = none) : h.expected = none := by
    cases hexp : h.expected with
    | none => rfl
    | some c => simpa [Host.pathContent, hpath] using hinv c hexp
  unfold checkout at hstep
  split at hstep
  · cases hstep
  next files hpath =>
    cases hstep
    intro c hc
    rw [Host.put, hnone hpath] at hc
    cases hc
  next content hpath =>
    cases hstep
    intro c hc
    rw [Host.put, hnone hpath] at hc
    cases hc

/-- A step that is current keeps what is expected at the path. -/
theorem inv_step {h h' : Host W C} {a : Action W C Q} (hinv : Inv h) (hstep : step e h a = some h')
    (hcur : Current h a) : Inv h' := by
  cases a with
  | execute w q =>
    cases hstep
    exact executeQuery_inv e hinv hcur q
  | restorePitr archive log => exact restorePitr_inv e hstep
  | restoreFromSnapshot archive => exact restoreFromSnapshot_inv e hcur hstep
  | checkout archive => exact checkout_inv hinv hstep

/-- **In a run whose steps are current, every query that is executed after a restore is executed on
the restored content and the writes since.** -/
theorem sees_of_current (h : Host W C) (hstart : h.expected = none) (actions : List (Action W C Q))
    (hcur : Runs.EachStep (step e) (fun h a _ => Current h a) h actions) :
    Runs.EachStep (step e) (fun h a _ => Sees e h a) h actions := by
  refine Runs.eachStep_of_eachStep (fun h a h' (hinv : Inv h) _ hcur => ?_) ?_ ?_ actions hcur
  · cases a with
    | execute w q => exact fun c hc => operatesOn_eq e hinv hcur hc
    | restorePitr | restoreFromSnapshot | checkout => trivial
  · intro h a h' hinv hstep hcur
    exact inv_step e hinv hstep hcur
  · intro c hc
    rw [hstart] at hc
    cases hc

end

/-! ### An adapter that has executed a query before the restore -/

/-- Queries that append to a list. -/
def appends : Engine (List ℕ) ℕ := ⟨⟨.file, []⟩, fun q c => c ++ [q], fun c _ => c⟩

/-- A new database, with no connections. -/
def newDatabase : Host Unit (List ℕ) := ⟨fun _ => appends.create, some 0, 1, fun _ => none, none⟩

/-- The first query after the restore is executed on the restored content. -/
theorem sees_of_current_first : Runs.EachStep (step appends) (fun h a _ => Sees appends h a)
    newDatabase [.restorePitr (.tar ⟨.file, [7]⟩) [8], .execute () 1, .execute () 2] := by
  refine sees_of_current appends newDatabase rfl _ ?_
  refine Runs.eachStep_cons.2 fun h₁ hh₁ => ⟨trivial, ?_⟩
  cases hh₁
  refine Runs.eachStep_cons.2 fun h₂ hh₂ => ⟨?_, ?_⟩
  · intro i hi
    cases hi
  cases hh₂
  refine Runs.eachStep_cons.2 fun h₃ hh₃ => ⟨?_, Runs.eachStep_nil⟩
  intro i hi
  exact hi

/-- A query that follows another and a PITR restore is executed on the content before the restore.
-/
theorem not_sees_stale : ¬ Runs.EachStep (step appends) (fun h a _ => Sees appends h a)
    newDatabase [.execute () 1, .restorePitr (.tar ⟨.file, [7]⟩) [], .execute () 2] := by
  intro hsees
  have hlast := hsees [.execute () 1, .restorePitr (.tar ⟨.file, [7]⟩) []] (.execute () 2)
    List.prefix_rfl _ _ rfl rfl [7] rfl
  exact absurd hlast (by decide)

end KuzuEventBus.Service.Handles
