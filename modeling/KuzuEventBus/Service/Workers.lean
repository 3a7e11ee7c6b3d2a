import KuzuEventBus.Lib.HashMap
import KuzuEventBus.Lib.Runs
import KuzuEventBus.Service.RestorePitr

/-!
# Workers on one database

Any number of workers execute and log mutating queries on one database.  A round of a worker is
cut into the calls it makes: the engine executes the query, the clock is read, the append lock is
acquired, the object of the second is looked for, downloaded and uploaded, and the lock is released.
Each call is one step, and the steps of the workers interleave in any way.  The lock may expire
at any point, and looking for the object and downloading it may fail.

What a clock answers is part of the action, so the clocks of the workers need not agree.  An
upload does not fail, and a release only deletes the lock the worker still holds.

## Main definitions

* `Mutation`, `Entry`, `Phase`, `State` — executed queries, entries of the log, where a worker is.
* `Action`, `step` — the calls, and what they do.
* `Transition` — the steps, one constructor for each branch.
* `objects`, `readOut`, `logged` — the log as the restore lists and reads it.
* `Known` — the entries that are in the log or in what a worker has read of it.

## Main results

* `transition_of_step` — a step is one of the transitions.
* `step_append` — the calls of an append, one after the other, are `appendWalEntry`.
-/

namespace KuzuEventBus.Service.Workers

/-! ### The states -/

/-- An execution of a mutating query: which one it is, when the engine executed it, and whether it
succeeded. -/
structure Mutation where
  id : ℕ
  query : String
  executedAt : Instant
  ok : Bool
  deriving DecidableEq

/-- An entry of the log. -/
structure Entry where
  mutation : Mutation
  ts : Instant
  deriving DecidableEq

/-- What the replay reads from the line of an entry. -/
def Entry.read (e : Entry) : Option ReplayEntry := some ⟨e.ts, e.mutation.query⟩

/-- Where a worker is in its round. -/
inductive Phase where
  /-- Between rounds. -/
  | idle
  /-- The engine has executed the query. -/
  | executed (m : Mutation)
  /-- The clock has been read. -/
  | stamped (m : Mutation) (ts : Instant)
  /-- The lock has been acquired. -/
  | locked (m : Mutation) (ts : Instant)
  /-- The object of the second exists. -/
  | found (m : Mutation) (ts : Instant)
  /-- The prior content is known. -/
  | read (m : Mutation) (ts : Instant) (prior : List Entry)
  /-- The object has been uploaded. -/
  | uploaded
  deriving DecidableEq

/-- The mutation that is still to be logged. -/
def Phase.pending : Phase → Option Mutation
  | .executed m => some m
  | .stamped m _ => some m
  | .locked m _ => some m
  | .found m _ => some m
  | .read m _ _ => some m
  | .idle => none
  | .uploaded => none

/-- What has been read of the log. -/
def Phase.prior : Phase → List Entry
  | .read _ _ prior => prior
  | _ => []

/-- The mutations in the order of their execution, the workers, the lock and the log: the contents
of the objects, by the second in their names. -/
structure State (W : Type) where
  executed : List Mutation
  phase : W → Phase
  lock : Option W
  wal : HashMap ℕ (List Entry)

/-- The calls of a worker, and the expiry of the lock. -/
inductive Action (W : Type) where
  | execute (w : W) (query : String) (ok : Bool) (time : Instant)
  | stamp (w : W) (ts : Instant)
  | acquire (w : W)
  | check (w : W) (answer : ExistsAnswer)
  | download (w : W) (raises : Bool)
  | upload (w : W)
  | release (w : W)
  | expire

variable {W : Type} [DecidableEq W]

/-- Before any round. -/
def init (W : Type) : State W where
  executed := []
  phase := fun _ => .idle
  lock := none
  wal := ∅

/-- The worker goes on to a phase. -/
def State.setPhase (s : State W) (w : W) (p : Phase) : State W :=
  { s with phase := Function.update s.phase w p }

/-- The next execution. -/
def State.next (s : State W) (query : String) (ok : Bool) (time : Instant) : Mutation :=
  ⟨s.executed.length, query, time, ok⟩

/-- An idle worker has its query executed. -/
def State.executes (s : State W) (w : W) (m : Mutation) : State W :=
  { s with executed := s.executed ++ [m] }.setPhase w (.executed m)

/-- A worker uploads the object of its second. -/
def State.uploads (s : State W) (w : W) (ts : Instant) (lines : List Entry) : State W :=
  { s with wal := s.wal.insert ts.second lines }.setPhase w .uploaded

/-! ### The steps -/

/-- What a call does; it is not enabled when the worker is elsewhere in its round.  The lock is
`SET NX`: a worker that does not get it skips its append. -/
def step (s : State W) : Action W → Option (State W)
  | .execute w query ok time =>
    match s.phase w with
    | .idle =>
      if isMutating query then some (s.executes w (s.next query ok time)) else none
    | _ => none
  | .stamp w ts =>
    match s.phase w with
    | .executed m => some (s.setPhase w (.stamped m ts))
    | _ => none
  | .acquire w =>
    match s.phase w, s.lock with
    | .stamped m ts, none => some ({ s with lock := some w }.setPhase w (.locked m ts))
    | .stamped _ _, some _ => some (s.setPhase w .idle)
    | _, _ => none
  | .check w answer =>
    match s.phase w with
    | .locked m ts =>
      if answer = .truthful ∧ ts.second ∈ s.wal then some (s.setPhase w (.found m ts))
      else some (s.setPhase w (.read m ts []))
    | _ => none
  | .download w raises =>
    match s.phase w with
    | .found m ts =>
      some (s.setPhase w (.read m ts (if raises then [] else s.wal.listAt ts.second)))
    | _ => none
  | .upload w =>
    match s.phase w with
    | .read m ts prior => some (s.uploads w ts (prior ++ [⟨m, ts⟩]))
    | _ => none
  | .release w =>
    match s.phase w with
    | .uploaded =>
      some ({ s with lock := if s.lock = some w then none else s.lock }.setPhase w .idle)
    | _ => none
  | .expire =>
    match s.lock with
    | some _ => some { s with lock := none }
    | none => none

/-- The steps, one constructor for each branch. -/
inductive Transition (s : State W) : Action W → State W → Prop where
  | execute {w : W} {query : String} {ok : Bool} {time : Instant} (hphase : s.phase w = .idle)
      (hquery : isMutating query = true) :
      Transition s (.execute w query ok time)
        (s.executes w (s.next query ok time))
  | stamp {w : W} {m : Mutation} {ts : Instant} (hphase : s.phase w = .executed m) :
      Transition s (.stamp w ts) (s.setPhase w (.stamped m ts))
  | acquired {w : W} {m : Mutation} {ts : Instant} (hphase : s.phase w = .stamped m ts)
      (hlock : s.lock = none) :
      Transition s (.acquire w) ({ s with lock := some w }.setPhase w (.locked m ts))
  | skipped {w w' : W} {m : Mutation} {ts : Instant} (hphase : s.phase w = .stamped m ts)
      (hlock : s.lock = some w') :
      Transition s (.acquire w) (s.setPhase w .idle)
  | found {w : W} {m : Mutation} {ts : Instant} (hphase : s.phase w = .locked m ts)
      (hexists : ts.second ∈ s.wal) :
      Transition s (.check w .truthful) (s.setPhase w (.found m ts))
  | missing {w : W} {answer : ExistsAnswer} {m : Mutation} {ts : Instant}
      (hphase : s.phase w = .locked m ts) (hanswer : ¬ (answer = .truthful ∧ ts.second ∈ s.wal)) :
      Transition s (.check w answer) (s.setPhase w (.read m ts []))
  | download {w : W} {raises : Bool} {m : Mutation} {ts : Instant}
      (hphase : s.phase w = .found m ts) :
      Transition s (.download w raises)
        (s.setPhase w (.read m ts (if raises then [] else s.wal.listAt ts.second)))
  | upload {w : W} {m : Mutation} {ts : Instant} {prior : List Entry}
      (hphase : s.phase w = .read m ts prior) :
      Transition s (.upload w) (s.uploads w ts (prior ++ [⟨m, ts⟩]))
  | release {w : W} (hphase : s.phase w = .uploaded) :
      Transition s (.release w)
        ({ s with lock := if s.lock = some w then none else s.lock }.setPhase w .idle)
  | expire {w : W} (hlock : s.lock = some w) : Transition s .expire { s with lock := none }

/-- A step is one of the transitions. -/
theorem transition_of_step {s s' : State W} {a : Action W} (h : step s a = some s') :
    Transition s a s' := by
  cases a with
  | execute w query ok time =>
    dsimp only [step] at h
    split at h
    · next hphase =>
      split at h
      · next hquery =>
        cases h
        exact .execute hphase hquery
      · cases h
    · cases h
  | stamp w ts =>
    dsimp only [step] at h
    split at h
    · next hphase =>
      cases h
      exact .stamp hphase
    · cases h
  | acquire w =>
    dsimp only [step] at h
    split at h
    · next hphase hlock =>
      cases h
      exact .acquired hphase hlock
    · next hphase hlock =>
      cases h
      exact .skipped hphase hlock
    · cases h
  | check w answer =>
    dsimp only [step] at h
    split at h
    · next hphase =>
      split at h
      · next hexists =>
        cases h
        rw [hexists.1]
        exact .found hphase hexists.2
      · next hanswer =>
        cases h
        exact .missing hphase hanswer
    · cases h
  | download w raises =>
    dsimp only [step] at h
    split at h
    · next hphase =>
      cases h
      exact .download hphase
    · cases h
  | upload w =>
    dsimp only [step] at h
    split at h
    · next hphase =>
      cases h
      exact .upload hphase
    · cases h
  | release w =>
    dsimp only [step] at h
    split at h
    · next hphase =>
      cases h
      exact .release hphase
    · cases h
  | expire =>
    dsimp only [step] at h
    split at h
    · next hlock =>
      cases h
      exact .expire hlock
    · cases h

/-! ### What holds in every run -/

/-- The worker is not going to log the mutation any more, and neither is another. -/
def State.Settled (s : State W) (m : Mutation) : Prop := ∀ w, (s.phase w).pending ≠ some m

/-- The entry is in the log, or in what a worker has read of it. -/
def State.Known (s : State W) (e : Entry) : Prop :=
  (∃ k, e ∈ s.wal.listAt k) ∨ ∃ w, e ∈ (s.phase w).prior

/-- The invariant of every run: executions are numbered, each is logged by one worker, and the
entries in the log, or read from it, are of settled executions, in the object of their second. -/
structure Inv (s : State W) : Prop where
  ids : s.executed.map Mutation.id = List.range s.executed.length
  query : ∀ m ∈ s.executed, m.query ≠ ""
  pending_mem : ∀ w m, (s.phase w).pending = some m → m ∈ s.executed
  pending_inj : ∀ w w' m, (s.phase w).pending = some m → (s.phase w').pending = some m → w = w'
  known_mem : ∀ e, s.Known e → e.mutation ∈ s.executed
  known_settled : ∀ e, s.Known e → s.Settled e.mutation
  known_unique : ∀ e e', s.Known e → s.Known e' → e.mutation = e'.mutation → e = e'
  wal_second : ∀ k, ∀ e ∈ s.wal.listAt k, e.ts.second = k
  prior_second : ∀ w m ts prior, s.phase w = .read m ts prior → ∀ e ∈ prior,
    e.ts.second = ts.second
  wal_nodup : ∀ k, (s.wal.listAt k).Nodup
  prior_nodup : ∀ w, (s.phase w).prior.Nodup

@[simp] theorem setPhase_executed (s : State W) (w : W) (p : Phase) :
    (s.setPhase w p).executed = s.executed := rfl

@[simp] theorem setPhase_wal (s : State W) (w : W) (p : Phase) : (s.setPhase w p).wal = s.wal := rfl

@[simp] theorem setPhase_lock (s : State W) (w : W) (p : Phase) :
    (s.setPhase w p).lock = s.lock := rfl

theorem setPhase_phase (s : State W) (w w' : W) (p : Phase) :
    (s.setPhase w p).phase w' = if w' = w then p else s.phase w' :=
  Function.update_apply s.phase w p w'

omit [DecidableEq W] in
theorem inv_init : Inv (init W) where
  ids := rfl
  query := by simp [init]
  pending_mem := by simp [init, Phase.pending]
  pending_inj := by simp [init, Phase.pending]
  known_mem := by simp [init, State.Known, Phase.prior]
  known_settled := by simp [init, State.Known, Phase.prior]
  known_unique := by simp [init, State.Known, Phase.prior]
  wal_second := by simp [init]
  prior_second := by simp [init]
  wal_nodup := by simp [init]
  prior_nodup := by simp [init, Phase.prior]

omit [DecidableEq W] in
/-- The lock plays no part in the invariant. -/
theorem Inv.setLock {s : State W} (h : Inv s) (lock : Option W) : Inv { s with lock := lock } where
  ids := h.ids
  query := h.query
  pending_mem := h.pending_mem
  pending_inj := h.pending_inj
  known_mem := h.known_mem
  known_settled := h.known_settled
  known_unique := h.known_unique
  wal_second := h.wal_second
  prior_second := h.prior_second
  wal_nodup := h.wal_nodup
  prior_nodup := h.prior_nodup

section Frame

variable {s : State W} {w : W} {p : Phase}

/-- A worker that goes on within its round, or gives it up, leaves settled what is settled. -/
theorem Settled.setPhase (hpending : ∀ m, p.pending = some m → (s.phase w).pending = some m)
    {m : Mutation} (h : s.Settled m) : (s.setPhase w p).Settled m := by
  intro w' hw'
  rw [setPhase_phase] at hw'
  split at hw'
  · exact h w (hpending m hw')
  · exact h w' hw'

/-- A worker learns only what is in the log. -/
theorem known_of_setPhase (hprior : ∀ e ∈ p.prior, ∃ k, e ∈ s.wal.listAt k) {e : Entry}
    (h : (s.setPhase w p).Known e) : s.Known e := by
  rcases h with hwal | ⟨w', he⟩
  · exact Or.inl hwal
  · rw [setPhase_phase] at he
    split at he
    · exact Or.inl (hprior e he)
    · exact Or.inr ⟨w', he⟩

/-- The invariant when a worker goes on and the log stays as it is: its mutation is the one it had,
and what it has read is nothing, or the content of its object. -/
theorem Inv.setPhase (h : Inv s)
    (hpending : ∀ m, p.pending = some m → (s.phase w).pending = some m)
    (hprior : ∀ m ts prior, p = .read m ts prior → prior = [] ∨ prior = s.wal.listAt ts.second) :
    Inv (s.setPhase w p) := by
  have hread : ∀ e ∈ p.prior, ∃ k, e ∈ s.wal.listAt k := by
    intro e he
    cases p with
    | read m ts prior =>
      rcases hprior m ts prior rfl with rfl | rfl
      · cases he
      · exact ⟨_, he⟩
    | _ => cases he
  refine ⟨h.ids, h.query, ?_, ?_, fun e he => h.known_mem e (known_of_setPhase hread he),
    fun e he => Settled.setPhase hpending (h.known_settled e (known_of_setPhase hread he)),
    fun e e' he he' => h.known_unique e e' (known_of_setPhase hread he)
      (known_of_setPhase hread he'), h.wal_second, ?_, h.wal_nodup, ?_⟩
  · intro w' m hm
    rw [setPhase_phase] at hm
    split at hm
    · exact h.pending_mem w m (hpending m hm)
    · exact h.pending_mem w' m hm
  · intro w₁ w₂ m hm₁ hm₂
    rw [setPhase_phase] at hm₁ hm₂
    -- the mutation of the worker is the one it had before
    have hm₁ : (s.phase w₁).pending = some m := by
      split at hm₁
      · next heq => exact heq ▸ hpending m hm₁
      · exact hm₁
    have hm₂ : (s.phase w₂).pending = some m := by
      split at hm₂
      · next heq => exact heq ▸ hpending m hm₂
      · exact hm₂
    exact h.pending_inj w₁ w₂ m hm₁ hm₂
  · intro w' m ts prior hphase e he
    rw [setPhase_phase] at hphase
    split at hphase
    · rcases hprior m ts prior hphase with rfl | rfl
      · cases he
      · exact h.wal_second _ e he
    · exact h.prior_second w' m ts prior hphase e he
  · intro w'
    rw [setPhase_phase]
    split
    · cases p with
      | read m ts prior =>
        rcases hprior m ts prior rfl with rfl | rfl
        · exact List.nodup_nil
        · exact h.wal_nodup _
      | _ => exact List.nodup_nil
    · exact h.prior_nodup w'

end Frame

section Execute

variable {s : State W} {w : W} {m : Mutation}

omit [DecidableEq W] in
/-- The next execution has not been seen. -/
theorem Inv.next_notMem (h : Inv s) (query : String) (ok : Bool) (time : Instant) :
    s.next query ok time ∉ s.executed := by
  intro hmem
  have hid := List.mem_map_of_mem (f := Mutation.id) hmem
  rw [h.ids, List.mem_range] at hid
  exact lt_irrefl _ hid

theorem known_of_executes {e : Entry} (h : (s.executes w m).Known e) : s.Known e := by
  rcases h with hwal | ⟨w', he⟩
  · exact Or.inl hwal
  · rw [State.executes, setPhase_phase] at he
    split at he
    · cases he
    · exact Or.inr ⟨w', he⟩

theorem pending_executes {w' : W} {m' : Mutation}
    (h : ((s.executes w m).phase w').pending = some m') :
    (w' = w ∧ m' = m) ∨ (w' ≠ w ∧ (s.phase w').pending = some m') := by
  rw [State.executes, setPhase_phase] at h
  split at h
  · next heq => exact Or.inl ⟨heq, (Option.some.inj h).symm⟩
  · next hne => exact Or.inr ⟨hne, h⟩

theorem Inv.executes (h : Inv s) (w : W) {query : String} (hquery : isMutating query = true)
    (ok : Bool) (time : Instant) : Inv (s.executes w (s.next query ok time)) where
  query := by
    intro m hm
    rcases List.mem_append.1 hm with hm | hm
    · exact h.query m hm
    · rw [List.mem_singleton.1 hm]
      exact query_ne_empty_of_isMutating hquery
  ids := by
    change (s.executed ++ [s.next query ok time]).map Mutation.id =
      List.range (s.executed ++ [s.next query ok time]).length
    rw [List.map_append, h.ids, List.length_append, List.length_singleton, List.range_succ]
    rfl
  pending_mem := by
    intro w' m hm
    rcases pending_executes hm with ⟨-, rfl⟩ | ⟨-, hm⟩
    · exact List.mem_append_right _ List.mem_cons_self
    · exact List.mem_append_left _ (h.pending_mem w' m hm)
  pending_inj := by
    intro w₁ w₂ m hm₁ hm₂
    rcases pending_executes hm₁ with ⟨rfl, rfl⟩ | ⟨-, hold₁⟩
    · rcases pending_executes hm₂ with ⟨rfl, -⟩ | ⟨-, hold₂⟩
      · rfl
      -- the number of the new mutation is one that none has had
      · exact absurd (h.pending_mem w₂ _ hold₂) (h.next_notMem query ok time)
    · rcases pending_executes hm₂ with ⟨rfl, rfl⟩ | ⟨-, hold₂⟩
      · exact absurd (h.pending_mem w₁ _ hold₁) (h.next_notMem query ok time)
      · exact h.pending_inj w₁ w₂ m hold₁ hold₂
  known_mem := by
    intro e he
    exact List.mem_append_left _ (h.known_mem e (known_of_executes he))
  known_settled := by
    intro e he w' hw'
    rcases pending_executes hw' with ⟨-, heq⟩ | ⟨-, hw'⟩
    · have hmem := h.known_mem e (known_of_executes he)
      rw [heq] at hmem
      exact h.next_notMem query ok time hmem
    · exact h.known_settled e (known_of_executes he) w' hw'
  known_unique := by
    intro e e' he he'
    exact h.known_unique e e' (known_of_executes he) (known_of_executes he')
  wal_second := h.wal_second
  prior_second := by
    intro w' m ts prior hphase
    rw [State.executes, setPhase_phase] at hphase
    split at hphase
    · cases hphase
    · exact h.prior_second w' m ts prior hphase
  wal_nodup := h.wal_nodup
  prior_nodup := by
    intro w'
    rw [State.executes, setPhase_phase]
    split
    · exact List.nodup_nil
    · exact h.prior_nodup w'

end Execute

section Upload

variable {s : State W} {w : W} {m : Mutation} {ts : Instant} {prior : List Entry}

theorem listAt_uploads (s : State W) (w : W) (ts : Instant) (lines : List Entry) (k : ℕ) :
    (s.uploads w ts lines).wal.listAt k = if k = ts.second then lines else s.wal.listAt k :=
  AList.listAt_insert s.wal ts.second k lines

theorem pending_uploads {w' : W} {lines : List Entry} {m' : Mutation}
    (h : ((s.uploads w ts lines).phase w').pending = some m') :
    w' ≠ w ∧ (s.phase w').pending = some m' := by
  rw [State.uploads, setPhase_phase] at h
  split at h
  · cases h
  · next hne => exact ⟨hne, h⟩

theorem prior_uploads {w' : W} {lines : List Entry} {e : Entry}
    (h : e ∈ ((s.uploads w ts lines).phase w').prior) : e ∈ (s.phase w').prior := by
  rw [State.uploads, setPhase_phase] at h
  split at h
  · cases h
  · exact h

/-- What is known after an upload was known before, or is the new entry. -/
theorem known_of_uploads (hphase : s.phase w = .read m ts prior) {e : Entry}
    (h : (s.uploads w ts (prior ++ [⟨m, ts⟩])).Known e) : s.Known e ∨ e = ⟨m, ts⟩ := by
  rcases h with ⟨k, he⟩ | ⟨w', he⟩
  · rw [listAt_uploads] at he
    split at he
    · rw [List.mem_append, List.mem_singleton] at he
      refine he.imp_left fun he => Or.inr ⟨w, ?_⟩
      rw [hphase]
      exact he
    · exact Or.inl (Or.inl ⟨k, he⟩)
  · exact Or.inl (Or.inr ⟨w', prior_uploads he⟩)

omit [DecidableEq W] in
/-- The entry of a worker that is about to upload it is not known. -/
theorem Inv.pending_fresh (h : Inv s) (hphase : s.phase w = .read m ts prior) {e : Entry}
    (he : s.Known e) : e.mutation ≠ m := by
  intro heq
  refine h.known_settled e he w ?_
  rw [hphase, heq]
  rfl

omit [DecidableEq W] in
theorem Inv.notMem_prior (h : Inv s) (hphase : s.phase w = .read m ts prior) :
    (⟨m, ts⟩ : Entry) ∉ prior := by
  intro hmem
  have hknown : s.Known ⟨m, ts⟩ := by
    refine Or.inr ⟨w, ?_⟩
    rw [hphase]
    exact hmem
  exact h.pending_fresh hphase hknown rfl

theorem Inv.uploads (h : Inv s) (hphase : s.phase w = .read m ts prior) :
    Inv (s.uploads w ts (prior ++ [⟨m, ts⟩])) where
  ids := h.ids
  query := h.query
  pending_mem := fun w' m' hm' => h.pending_mem w' m' (pending_uploads hm').2
  pending_inj := fun w₁ w₂ m' hm₁ hm₂ =>
    h.pending_inj w₁ w₂ m' (pending_uploads hm₁).2 (pending_uploads hm₂).2
  known_mem := by
    intro e he
    rcases known_of_uploads hphase he with he | rfl
    · exact h.known_mem e he
    · exact h.pending_mem w m (by rw [hphase]; rfl)
  known_settled := by
    intro e he w' hw'
    obtain ⟨hne, hw'⟩ := pending_uploads hw'
    rcases known_of_uploads hphase he with he | rfl
    · exact h.known_settled e he w' hw'
    · exact hne (h.pending_inj w' w m hw' (by rw [hphase]; rfl))
  known_unique := by
    intro e e' he he' heq
    rcases known_of_uploads hphase he with he | rfl
    · rcases known_of_uploads hphase he' with he' | rfl
      · exact h.known_unique e e' he he' heq
      -- the new entry was in no file, and in nothing that a worker has read
      · exact absurd heq (h.pending_fresh hphase he)
    · rcases known_of_uploads hphase he' with he' | rfl
      · exact absurd heq.symm (h.pending_fresh hphase he')
      · rfl
  wal_second := by
    intro k e he
    rw [listAt_uploads] at he
    split at he
    · next hk =>
      rw [List.mem_append, List.mem_singleton] at he
      rcases he with he | rfl
      · rw [hk]
        exact h.prior_second w m ts prior hphase e he
      · exact hk.symm
    · exact h.wal_second k e he
  prior_second := by
    intro w' m' ts' prior' hphase'
    rw [State.uploads, setPhase_phase] at hphase'
    split at hphase'
    · cases hphase'
    · exact h.prior_second w' m' ts' prior' hphase'
  wal_nodup := by
    intro k
    rw [listAt_uploads]
    split
    · have hnodup := h.prior_nodup w
      rw [hphase] at hnodup
      rw [List.nodup_append_comm, List.singleton_append, List.nodup_cons]
      exact ⟨h.notMem_prior hphase, hnodup⟩
    · exact h.wal_nodup k
  prior_nodup := by
    intro w'
    rw [State.uploads, setPhase_phase]
    split
    · exact List.nodup_nil
    · exact h.prior_nodup w'

end Upload

/-- **Every step keeps the invariant.** -/
theorem inv_step {s s' : State W} {a : Action W} (h : Inv s) (hstep : step s a = some s') :
    Inv s' := by
  cases transition_of_step hstep with
  | execute hphase hquery => exact h.executes _ hquery _ _
  | stamp hphase =>
    refine h.setPhase (fun m hm => ?_) (fun _ _ _ heq => by cases heq)
    rw [hphase]
    exact hm
  | acquired hphase hlock =>
    refine (h.setLock _).setPhase (fun m hm => ?_) (fun _ _ _ heq => by cases heq)
    rw [hphase]
    exact hm
  | skipped hphase hlock =>
    exact h.setPhase (fun m hm => by cases hm) (fun _ _ _ heq => by cases heq)
  | found hphase hexists =>
    refine h.setPhase (fun m hm => ?_) (fun _ _ _ heq => by cases heq)
    rw [hphase]
    exact hm
  | missing hphase hanswer =>
    refine h.setPhase (fun m hm => ?_) (fun _ _ _ heq => ?_)
    · rw [hphase]
      exact hm
    · cases heq
      exact Or.inl rfl
  | @download w raises m ts hphase =>
    refine h.setPhase (fun m hm => ?_) (fun _ _ _ heq => ?_)
    · rw [hphase]
      exact hm
    · cases heq
      cases raises
      · exact Or.inr rfl
      · exact Or.inl rfl
  | upload hphase => exact h.uploads hphase
  | release hphase =>
    exact (h.setLock _).setPhase (fun m hm => by cases hm) (fun _ _ _ heq => by cases heq)
  | expire hlock => exact h.setLock none

/-- The log changes in uploads only. -/
theorem wal_of_step {s s' : State W} {a : Action W} (hstep : step s a = some s') :
    ((∀ w, a ≠ .upload w) ∧ s'.wal = s.wal) ∨
      ∃ w m ts prior, a = .upload w ∧ s.phase w = .read m ts prior ∧
        s' = s.uploads w ts (prior ++ [⟨m, ts⟩]) := by
  cases transition_of_step hstep with
  | @upload w m ts prior hphase => exact Or.inr ⟨w, m, ts, prior, rfl, hphase, rfl⟩
  | _ =>
    refine Or.inl ⟨?_, rfl⟩
    intro w heq
    cases heq

/-! ### The log, as the restore reads it -/

section Log

variable {s : State W}

omit [DecidableEq W] in
/-- The objects of the log. -/
def State.objects (s : State W) : List (WalObject Entry) := s.wal.toPairs.map fun o => ⟨o.1, o.2⟩

omit [DecidableEq W] in
/-- The entries, the objects in the order of their seconds and each in the order of its lines. -/
def State.readOut (s : State W) : List Entry := (bySecond s.objects).flatMap WalObject.lines

omit [DecidableEq W] in
theorem nodup_objects (s : State W) : (s.objects.map WalObject.second).Nodup := by
  unfold State.objects
  rw [List.map_map]
  exact s.wal.nodup_toPairs_keys

omit [DecidableEq W] in
theorem mem_objects {o : WalObject Entry} :
    o ∈ s.objects ↔ s.wal.lookup o.second = some o.lines := by
  unfold State.objects
  rw [List.mem_map, ← AList.mem_toPairs]
  constructor
  · rintro ⟨⟨k, lines⟩, hmem, rfl⟩
    exact hmem
  · intro hmem
    exact ⟨_, hmem, rfl⟩

omit [DecidableEq W] in
theorem listAt_of_mem_objects {o : WalObject Entry} (h : o ∈ s.objects) :
    s.wal.listAt o.second = o.lines := by
  rw [AList.listAt, mem_objects.1 h]
  rfl

omit [DecidableEq W] in
/-- A second with entries has an object. -/
theorem mem_objects_of_mem_listAt {k : ℕ} {e : Entry} (h : e ∈ s.wal.listAt k) :
    ⟨k, s.wal.listAt k⟩ ∈ s.objects := by
  rw [mem_objects]
  cases hlookup : s.wal.lookup k with
  | none =>
    rw [AList.listAt, hlookup] at h
    cases h
  | some lines =>
    dsimp only
    rw [AList.listAt, hlookup]
    rfl

omit [DecidableEq W] in
theorem mem_readOut {e : Entry} : e ∈ s.readOut ↔ ∃ k, e ∈ s.wal.listAt k := by
  unfold State.readOut
  rw [List.mem_flatMap]
  constructor
  · rintro ⟨o, ho, he⟩
    have ho := (bySecond_perm _).mem_iff.1 ho
    exact ⟨o.second, (listAt_of_mem_objects ho).symm ▸ he⟩
  · rintro ⟨k, he⟩
    exact ⟨_, (bySecond_perm _).mem_iff.2 (mem_objects_of_mem_listAt he), he⟩

omit [DecidableEq W] in
/-- The mutations in the log, in the order it is read. -/
def State.logged (s : State W) : List Mutation := s.readOut.map Entry.mutation

omit [DecidableEq W] in
theorem mem_logged {m : Mutation} : m ∈ s.logged ↔ ∃ k, ∃ e ∈ s.wal.listAt k, e.mutation = m := by
  unfold State.logged
  rw [List.mem_map]
  constructor
  · rintro ⟨e, he, rfl⟩
    obtain ⟨k, hk⟩ := mem_readOut.1 he
    exact ⟨k, e, hk, rfl⟩
  · rintro ⟨k, e, he, rfl⟩
    exact ⟨e, mem_readOut.2 ⟨k, he⟩, rfl⟩

omit [DecidableEq W] in
/-- The order of the log: within each second, and from one second to a later one. -/
theorem pairwise_readOut_iff {r : Entry → Entry → Prop} :
    s.readOut.Pairwise r ↔ (∀ k, (s.wal.listAt k).Pairwise r) ∧
      ∀ k k', k < k' → ∀ e ∈ s.wal.listAt k, ∀ e' ∈ s.wal.listAt k', r e e' := by
  unfold State.readOut
  rw [List.pairwise_flatMap, Lists.pairwise_iff_of_lt (bySecond_pairwise (nodup_objects s))]
  constructor
  · rintro ⟨hparts, hacross⟩
    refine ⟨fun k => ?_, fun k k' hlt e he e' he' => ?_⟩
    · rcases hlist : s.wal.listAt k with _ | ⟨e, lines⟩
      · exact List.Pairwise.nil
      · rw [← hlist]
        have he : e ∈ s.wal.listAt k := hlist ▸ List.mem_cons_self
        exact hparts _ ((bySecond_perm _).mem_iff.2 (mem_objects_of_mem_listAt he))
    · exact hacross _ ((bySecond_perm _).mem_iff.2 (mem_objects_of_mem_listAt he))
        _ ((bySecond_perm _).mem_iff.2 (mem_objects_of_mem_listAt he')) hlt e he e' he'
  · rintro ⟨hparts, hacross⟩
    refine ⟨fun o ho => ?_, fun o ho o' ho' hlt e he e' he' => ?_⟩
    · have hlist := listAt_of_mem_objects ((bySecond_perm _).mem_iff.1 ho)
      exact hlist ▸ hparts o.second
    · have hlist := listAt_of_mem_objects ((bySecond_perm _).mem_iff.1 ho)
      have hlist' := listAt_of_mem_objects ((bySecond_perm _).mem_iff.1 ho')
      exact hacross o.second o'.second hlt e (hlist ▸ he) e' (hlist' ▸ he')

omit [DecidableEq W] in
/-- The workers fill their objects as the restore expects. -/
theorem filled_objects (h : Inv s) : Filled Entry.read s.objects where
  nodup := nodup_objects s
  second := by
    intro o ho e he entry hread
    cases hread
    exact h.wal_second o.second e (listAt_of_mem_objects ho ▸ he)
  query := by
    intro o ho e he entry hread
    cases hread
    have hknown : s.Known e := Or.inl ⟨o.second, listAt_of_mem_objects ho ▸ he⟩
    exact h.query _ (h.known_mem e hknown)

end Log

/-! ### The calls of an append -/

section Append

variable {s : State W} {w : W} {m : Mutation} {ts : Instant} {tenantId databaseId : Uuid}
  {payload : Mutation → Option Json × List Json}

/-- The line of an entry, with the parameters and the rows of its execution. -/
def Entry.line (payload : Mutation → Option Json × List Json) (e : Entry) : WalLine :=
  .entry (walEntry e.ts e.mutation.query (payload e.mutation).1 (payload e.mutation).2)

omit [DecidableEq W] in
/-- The store holds the lines of the log of the database. -/
def Stores (payload : Mutation → Option Json × List Json) (tenantId databaseId : Uuid)
    (s : State W) (store : ObjectStore) : Prop :=
  ∀ k, store.get? ⟨tenantId, databaseId, k⟩ =
    (s.wal.lookup k).map fun lines => lines.map (Entry.line payload)

/-- The calls of an append, when the lock is free; the object is downloaded if it is found. -/
def appendCalls (s : State W) (w : W) (append : AppendAnswers) : List (Action W) :=
  [.acquire w, .check w append.fileExists] ++
    (if append.fileExists = .truthful ∧ append.now.second ∈ s.wal then
      [.download w append.downloadRaises] else []) ++
    [.upload w, .release w]

/-- What the calls of an append read. -/
def priorEntries (s : State W) (append : AppendAnswers) : List Entry :=
  if append.fileExists = .truthful ∧ append.now.second ∈ s.wal then
    if append.downloadRaises then [] else s.wal.listAt append.now.second
  else []

omit [DecidableEq W] in
theorem map_line_priorEntries {store : ObjectStore} {append : AppendAnswers}
    (hstores : Stores payload tenantId databaseId s store) :
    (priorEntries s append).map (Entry.line payload) =
      readPrior append store ⟨tenantId, databaseId, append.now.second⟩ := by
  unfold priorEntries readPrior
  rw [hstores append.now.second]
  cases append.fileExists with
  | falsely => rfl
  | raises => rfl
  | truthful =>
    cases hlookup : s.wal.lookup append.now.second with
    | none =>
      have hmem : append.now.second ∉ s.wal := AList.lookup_eq_none.1 hlookup
      simp [hmem]
    | some lines =>
      have hmem : append.now.second ∈ s.wal := by
        rw [← AList.lookup_isSome, hlookup]
        rfl
      cases append.downloadRaises <;> simp [hmem, AList.listAt, hlookup]

/-- The calls of an append, one after the other, leave the log with the entry after what they read
of its object. -/
theorem run_appendCalls {append : AppendAnswers} (hphase : s.phase w = .stamped m append.now)
    (hlock : s.lock = none) :
    ∃ s', Runs.run step s (appendCalls s w append) = some s' ∧ s'.phase w = .idle ∧
      s'.wal = s.wal.insert append.now.second (priorEntries s append ++ [⟨m, append.now⟩]) := by
  by_cases hfound : append.fileExists = .truthful ∧ append.now.second ∈ s.wal
  · simp [appendCalls, priorEntries, Runs.run_cons, step, hphase, hlock, setPhase_phase, hfound,
      State.uploads]
  · simp [appendCalls, priorEntries, Runs.run_cons, step, hphase, hlock, setPhase_phase, hfound,
      State.uploads]

/-- **The calls of an append, one after the other, are `appendWalEntry`.** -/
theorem step_append {append : AppendAnswers} {store : ObjectStore}
    (hphase : s.phase w = .stamped m append.now) (hlock : s.lock = none)
    (hacquire : ∃ token, append.acquireLock = .ok (some token))
    (hupload : append.uploadRaises = false)
    (hstores : Stores payload tenantId databaseId s store) :
    ∃ s', Runs.run step s (appendCalls s w append) = some s' ∧ s'.phase w = .idle ∧
      Stores payload tenantId databaseId s' (appendWalEntry append store tenantId databaseId
        m.query (payload m).1 (payload m).2) := by
  obtain ⟨s', hrun, hidle, hwal⟩ := run_appendCalls hphase hlock
  refine ⟨s', hrun, hidle, fun k => ?_⟩
  obtain ⟨token, htoken⟩ := hacquire
  unfold appendWalEntry
  rw [htoken, hupload, hwal, AList.lookup_insert_eq]
  dsimp only
  rw [if_neg Bool.false_ne_true, get?_put, ← map_line_priorEntries hstores]
  by_cases hk : k = append.now.second
  · subst hk
    simp [Entry.line]
  · rw [if_neg hk, if_neg (by simpa using hk)]
    exact hstores k

end Append

end KuzuEventBus.Service.Workers
