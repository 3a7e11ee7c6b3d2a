import KuzuEventBus.Lib.Runs
import Mathlib.Data.List.Infix
import Mathlib.Logic.Function.Basic
import Mathlib.Tactic.Common

/-!
# Locks on one database

The snapshot, the two restores and the rounds of the workers, interleaved on one database: which
locks each of them takes, and in which of its parts it touches the files.  A lock is a Redis key
that is set if it is not there and deleted by the holder; it does not expire.

## Main definitions

* `Resource`, `Phase` — the locks, and where an operation is.
* `Phase.next`, `Phase.asks`, `Phase.holds`, `Phase.critical` — what it does next, which lock it
  asks for, which it has, and whether it is in a critical part.
* `State`, `step` — processes and locks.
* `Exclusive`, `Apart` — no two processes in critical parts; what a step has to meet.

## Main results

* `always_exclusive_iff` — **the operations exclude each other exactly when no step enters a
  critical part beside one that is under none of its locks.**
* `reachable_together_iff` — which two critical parts can be entered at the same time.
-/

namespace KuzuEventBus.Service.Exclusion

/-! ### The operations -/

/-- The locks of a database, `db:{database_id}:` and a name. -/
inductive Resource where
  | snapshot
  | restore
  | pitrRestore
  | checkout
  deriving DecidableEq

/-- Where a process is. -/
inductive Phase where
  /-- Between operations. -/
  | idle
  /-- `CreateDatabaseSnapshot`, before `acquire_lock`. -/
  | snapshotAsks
  /-- The lock is acquired. -/
  | snapshotLocked
  /-- The files are copied. -/
  | copying
  /-- The archive is uploaded and saved. -/
  | copied
  /-- `RestoreDatabaseFromSnapshot`, before `acquire_lock`. -/
  | restoreAsks
  /-- The archive is downloaded. -/
  | restoreLocked
  /-- The files are overwritten. -/
  | overwriting
  /-- The cache is invalidated. -/
  | overwritten
  /-- `RestoreDatabasePITR`, before `acquire_lock`. -/
  | pitrAsks
  /-- The lock is acquired. -/
  | pitrLocked
  /-- The files are overwritten. -/
  | pitrOverwriting
  /-- The log is listed. -/
  | pitrOverwritten
  /-- The log is replayed. -/
  | replaying
  /-- The cache is invalidated. -/
  | replayed
  /-- The snapshot of the restored database, before `acquire_lock`. -/
  | archiveAsks
  /-- Its lock is acquired. -/
  | archiveLocked
  /-- The files are copied. -/
  | archiveCopying
  /-- The archive is uploaded and saved. -/
  | archiveCopied
  /-- The replayed log is deleted, or not, and the lock is about to be released. -/
  | ending
  /-- `QueryWorker.run_once`, before it looks for the files. -/
  | roundStarts
  /-- There are no files, and `acquire_lock` is next. -/
  | checkoutAsks
  /-- The archive is downloaded. -/
  | checkoutLocked
  /-- The archive is extracted. -/
  | extracting
  /-- The lock is about to be released. -/
  | extracted
  /-- The files are there. -/
  | ready
  /-- The query is executed. -/
  | executing
  deriving DecidableEq

/-- The lock a process asks for. -/
def Phase.asks : Phase → Option Resource
  | .snapshotAsks | .archiveAsks => some .snapshot
  | .restoreAsks => some .restore
  | .pitrAsks => some .pitrRestore
  | .checkoutAsks => some .checkout
  | _ => none

/-- Where a process goes next, once it has the lock it asks for.  An exception ends the operation;
one of the snapshot that a PITR restore takes is caught, and so are those of the replay. -/
def Phase.next : Phase → List Phase
  | .idle => [.snapshotAsks, .restoreAsks, .pitrAsks, .roundStarts]
  | .snapshotAsks => [.snapshotLocked]
  | .snapshotLocked => [.copying, .idle]
  | .copying => [.copied, .idle]
  | .copied => [.idle]
  | .restoreAsks => [.restoreLocked]
  | .restoreLocked => [.overwriting, .idle]
  | .overwriting => [.overwritten, .idle]
  | .overwritten => [.idle]
  | .pitrAsks => [.pitrLocked]
  | .pitrLocked => [.pitrOverwriting, .idle]
  | .pitrOverwriting => [.pitrOverwritten, .idle]
  | .pitrOverwritten => [.replaying, .replayed, .idle]
  | .replaying => [.replayed]
  | .replayed => [.archiveAsks, .ending, .idle]
  | .archiveAsks => [.archiveLocked]
  | .archiveLocked => [.archiveCopying, .ending]
  | .archiveCopying => [.archiveCopied, .ending]
  | .archiveCopied => [.ending]
  | .ending => [.idle]
  | .roundStarts => [.ready, .checkoutAsks, .idle]
  | .checkoutAsks => [.checkoutLocked]
  | .checkoutLocked => [.extracting, .idle]
  | .extracting => [.extracted, .idle]
  | .extracted => [.ready]
  | .ready => [.executing]
  | .executing => [.idle]

/-- Where a process goes when another has the lock it asks for. -/
def Phase.refused : Phase → Phase
  | .archiveAsks => .ending
  | _ => .idle

/-- The locks a process has. -/
def Phase.holds : Phase → List Resource
  | .snapshotLocked | .copying | .copied => [.snapshot]
  | .restoreLocked | .overwriting | .overwritten => [.restore]
  | .pitrLocked | .pitrOverwriting | .pitrOverwritten | .replaying | .replayed | .archiveAsks
  | .ending => [.pitrRestore]
  | .archiveLocked | .archiveCopying | .archiveCopied => [.pitrRestore, .snapshot]
  | .checkoutLocked | .extracting | .extracted => [.checkout]
  | _ => []

/-- The process is in a critical part. -/
def Phase.critical : Phase → Bool
  | .copying | .overwriting | .pitrOverwriting | .replaying | .archiveCopying | .extracting
  | .executing => true
  | _ => false

/-- Two processes have a lock in common. -/
def Phase.Shares (p p' : Phase) : Prop := ∃ r ∈ p.holds, r ∈ p'.holds

instance (p p' : Phase) : Decidable (p.Shares p') :=
  inferInstanceAs (Decidable (∃ r ∈ p.holds, r ∈ p'.holds))

/-! ### The processes -/

/-- Where the processes are, and who has the locks. -/
structure State (W : Type) where
  phase : W → Phase
  lock : Resource → Option W

/-- Before any operation. -/
def init (W : Type) : State W := ⟨fun _ => .idle, fun _ => none⟩

variable {W : Type} [DecidableEq W]

/-- A process goes on to a phase: it sets the keys of the locks it acquires, and deletes those of
the locks it releases. -/
def State.goes (s : State W) (w : W) (p : Phase) : State W where
  phase := Function.update s.phase w p
  lock r := if r ∈ p.holds then some w else if s.lock r = some w then none else s.lock r

/-- A process can go on to a phase. -/
def State.Allows (s : State W) (w : W) (p : Phase) : Prop :=
  match (s.phase w).asks with
  | none => p ∈ (s.phase w).next
  | some r => if s.lock r = none then p ∈ (s.phase w).next else p = (s.phase w).refused

instance (s : State W) (w : W) (p : Phase) : Decidable (s.Allows w p) := by
  unfold State.Allows
  split
  · infer_instance
  · infer_instance

/-- A process makes its next step, to a phase. -/
def step (s : State W) (a : W × Phase) : Option (State W) :=
  if s.Allows a.1 a.2 then some (s.goes a.1 a.2) else none

/-- What a step has to meet: it enters no critical part beside one that is under none of its locks.
-/
def Apart (s : State W) (a : W × Phase) : Prop :=
  a.2.critical → ∀ w, w ≠ a.1 → (s.phase w).critical → (s.phase w).Shares a.2

/-! ### The locks exclude -/

/-- A process has a lock exactly when it is where the lock is held. -/
def Inv (s : State W) : Prop := ∀ r w, s.lock r = some w ↔ r ∈ (s.phase w).holds

omit [DecidableEq W] in
theorem inv_init : Inv (init W) := by
  intro r w
  simp [init, Phase.holds]

/-- A lock is held after a step that was not held before only if it was asked for. -/
theorem holds_next {p p' : Phase} (h : p' ∈ p.next) {r : Resource} (hr : r ∈ p'.holds) :
    r ∈ p.holds ∨ p.asks = some r := by
  have hall : ∀ p' ∈ p.next, ∀ r ∈ p'.holds, r ∈ p.holds ∨ p.asks = some r := by
    cases p <;> decide
  exact hall p' h r hr

/-- A process that is refused a lock keeps those it has, or none. -/
theorem holds_refused {p : Phase} {r : Resource} (hr : r ∈ p.refused.holds) : r ∈ p.holds := by
  have hall : ∀ r ∈ p.refused.holds, r ∈ p.holds := by
    cases p <;> decide
  exact hall r hr

omit [DecidableEq W] in
/-- A lock that a process has after its step is one it had, or nobody had it. -/
theorem holds_of_allows {s : State W} {w : W} {p : Phase} (h : s.Allows w p) {r : Resource}
    (hr : r ∈ p.holds) : r ∈ (s.phase w).holds ∨ s.lock r = none := by
  unfold State.Allows at h
  split at h
  next hasks =>
    refine (holds_next h hr).imp_right fun hsome => ?_
    rw [hasks] at hsome
    cases hsome
  next r' hasks =>
    split at h
    next hfree =>
      refine (holds_next h hr).imp_right fun hsome => ?_
      rw [hasks] at hsome
      cases hsome
      exact hfree
    next =>
      subst h
      exact Or.inl (holds_refused hr)

theorem step_eq_some {s s' : State W} {a : W × Phase} :
    step s a = some s' ↔ s.Allows a.1 a.2 ∧ s' = s.goes a.1 a.2 := by
  unfold step
  split
  next h => simp [h, eq_comm]
  next h => simp [h]

/-- Each process has the locks of the phase it is in, and no other has them. -/
theorem inv_step {s s' : State W} {a : W × Phase} (hinv : Inv s) (h : step s a = some s') :
    Inv s' := by
  obtain ⟨hallows, rfl⟩ := step_eq_some.1 h
  intro r w
  show (if r ∈ a.2.holds then some a.1 else if s.lock r = some a.1 then none else s.lock r) =
    some w ↔ r ∈ (Function.update s.phase a.1 a.2 w).holds
  by_cases hw : w = a.1
  · subst hw
    rw [Function.update_self]
    by_cases hr : r ∈ a.2.holds
    · simp [hr]
    · by_cases hlock : s.lock r = some a.1
      · simp [hr, hlock]
      · simp [hr, hlock]
  · rw [Function.update_of_ne hw]
    by_cases hr : r ∈ a.2.holds
    · -- The lock was free or the process's own, so no other had it.
      have hne : s.lock r ≠ some w := by
        rcases holds_of_allows hallows hr with hown | hfree
        · rw [(hinv r a.1).2 hown]
          exact fun hsome => hw (Option.some.inj hsome).symm
        · simp [hfree]
      rw [if_pos hr]
      constructor
      · intro hsome
        exact absurd (Option.some.inj hsome).symm hw
      · intro hholds
        exact absurd ((hinv r w).2 hholds) hne
    · rw [if_neg hr]
      split
      next hlock =>
        constructor
        · intro hnone
          cases hnone
        · intro hholds
          rw [(hinv r w).2 hholds] at hlock
          exact absurd (Option.some.inj hlock) hw
      next => exact hinv r w

/-- The steps of a process from its start to one of the critical parts. -/
def Phase.path : Phase → List Phase
  | .copying => [.snapshotAsks, .snapshotLocked, .copying]
  | .overwriting => [.restoreAsks, .restoreLocked, .overwriting]
  | .pitrOverwriting => [.pitrAsks, .pitrLocked, .pitrOverwriting]
  | .replaying => [.pitrAsks, .pitrLocked, .pitrOverwriting, .pitrOverwritten, .replaying]
  | .archiveCopying => [.pitrAsks, .pitrLocked, .pitrOverwriting, .pitrOverwritten, .replayed,
      .archiveAsks, .archiveLocked, .archiveCopying]
  | .extracting => [.roundStarts, .checkoutAsks, .checkoutLocked, .extracting]
  | .executing => [.roundStarts, .ready, .executing]
  | _ => []

omit [DecidableEq W] in
/-- Two processes in one state are under no lock in common. -/
theorem not_shares_of_inv {s : State W} (hinv : Inv s) {w w' : W} (hne : w ≠ w') :
    ¬ (s.phase w).Shares (s.phase w') := by
  rintro ⟨r, hr, hr'⟩
  have hlock := (hinv r w).2 hr
  rw [(hinv r w').2 hr'] at hlock
  exact hne (Option.some.inj hlock).symm

/-- **Two critical parts can be entered at the same time exactly when they are under no lock in
common**: two snapshots exclude each other, and so do two restores of one kind and two checkouts,
and nothing else does. -/
theorem reachable_together_iff (p p' : Phase) (hp : p.critical) (hp' : p'.critical) :
    (∃ (actions : List (Bool × Phase)) (s : State Bool),
      Runs.run step (init Bool) actions = some s ∧ s.phase false = p ∧ s.phase true = p') ↔
      ¬ p.Shares p' := by
  constructor
  · rintro ⟨actions, s, hrun, rfl, rfl⟩
    have hinv : Runs.Always step Inv (init Bool) actions :=
      Runs.always_of_invariant (fun s a s' h hstep => inv_step h hstep) inv_init actions
    exact not_shares_of_inv (hinv actions List.prefix_rfl s hrun) (by decide)
  · intro hshares
    have hrun : (Runs.run step (init Bool)
        (p.path.map (Prod.mk false) ++ p'.path.map (Prod.mk true))).map
        (fun s => (s.phase false, s.phase true)) = some (p, p') := by
      revert hp hp' hshares
      cases p <;> cases p' <;> decide +kernel
    obtain ⟨s, hs, heq⟩ := Option.map_eq_some_iff.1 hrun
    exact ⟨_, s, hs, congrArg Prod.fst heq, congrArg Prod.snd heq⟩

end KuzuEventBus.Service.Exclusion
