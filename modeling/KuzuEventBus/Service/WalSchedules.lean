import KuzuEventBus.Service.Workers

/-!
# Schedules that keep the log faithful

The append reads an object and uploads it again whole, under a lock that may be refused or may
expire, after an existence check and a download whose failures are taken for an empty object; and
it is stamped between the execution and the lock.  So the log is faithful to the executions only
in some schedules: this module says which.

## Main definitions

* `Faithful` — successful executions are logged once, and in their order.
* `Kept` — no entry disappears.
* `WalFaithful` — a run is faithful in every state, and keeps every entry in every step.
* `Careful` — what a step has to meet: a successful execution finds the lock free, and an upload
  has read what the object holds and puts the entry in its place.

## Main results

* `faithful_and_kept_iff_careful` — one step, from a faithful state.
* `walFaithful_iff` — **a run is faithful exactly when each of its steps is careful.**
-/

namespace KuzuEventBus.Service.Workers

variable {W : Type} {s s' : State W}

/-! ### Faithful states -/

/-- Every successful execution that is settled is in the log once, and the log has the successful
executions in their order. -/
structure Faithful (s : State W) : Prop where
  once : ∀ m ∈ s.executed, m.ok = true → s.Settled m → s.logged.count m = 1
  order : (s.logged.filter Mutation.ok).Sublist s.executed

/-- No entry disappears. -/
def Kept (s s' : State W) : Prop := ∀ k, ∀ e ∈ s.wal.listAt k, e ∈ s'.wal.listAt k

/-- Of two entries of successful executions, the first is of the earlier one. -/
def InTurn (e e' : Entry) : Prop :=
  e.mutation.ok = true → e'.mutation.ok = true → e.mutation.id < e'.mutation.id

theorem executed_pairwise (h : Inv s) : s.executed.Pairwise fun m m' => m.id < m'.id := by
  have hrange : (s.executed.map Mutation.id).Pairwise (· < ·) := by
    rw [h.ids]
    exact List.pairwise_lt_range
  exact List.pairwise_map.1 hrange

theorem nodup_of_pairwise_id {l : List Mutation} (h : l.Pairwise fun m m' => m.id < m'.id) :
    l.Nodup := by
  refine h.imp ?_
  rintro m _ hlt rfl
  exact lt_irrefl _ hlt

theorem logged_pairwise_iff :
    (s.logged.filter Mutation.ok).Pairwise (fun m m' => m.id < m'.id) ↔
      s.readOut.Pairwise InTurn := by
  unfold State.logged
  rw [List.pairwise_filter, List.pairwise_map]
  rfl

/-- The log has the successful executions in their order when its entries are in turn. -/
theorem order_iff (h : Inv s) :
    (s.logged.filter Mutation.ok).Sublist s.executed ↔ s.readOut.Pairwise InTurn := by
  rw [← logged_pairwise_iff]
  constructor
  · intro hsub
    exact (executed_pairwise h).sublist hsub
  · intro hturn
    have hnodup := nodup_of_pairwise_id hturn
    have hsubset : s.logged.filter Mutation.ok ⊆ s.executed := by
      intro m hm
      obtain ⟨k, e, he, rfl⟩ := mem_logged.1 (List.mem_filter.1 hm).1
      exact h.known_mem e (Or.inl ⟨k, he⟩)
    have : Std.Antisymm fun m m' : Mutation => m.id < m'.id :=
      ⟨fun m m' hlt hgt => absurd hgt hlt.not_gt⟩
    exact List.sublist_of_subperm_of_pairwise (hnodup.subperm hsubset) hturn (executed_pairwise h)

/-- In a log that is in turn, a successful execution is there once when it is there at all. -/
theorem count_logged_iff (hturn : s.readOut.Pairwise InTurn) {m : Mutation} (hok : m.ok = true) :
    s.logged.count m = 1 ↔ m ∈ s.logged := by
  have hnodup := nodup_of_pairwise_id (logged_pairwise_iff.2 hturn)
  constructor
  · intro hcount
    exact List.count_pos_iff.1 (by omega)
  · intro hmem
    rw [← List.count_filter (p := Mutation.ok) hok]
    exact List.count_eq_one_of_mem hnodup (List.mem_filter.2 ⟨hmem, hok⟩)

/-! ### Careful steps -/

/-- The entry of a successful execution goes between the entries of the executions before and after
it: those of later ones are in later objects, those of earlier ones are not. -/
def InPlace (s : State W) (m : Mutation) (ts : Instant) : Prop :=
  m.ok = true → ∀ k, ∀ e ∈ s.wal.listAt k, e.mutation.ok = true →
    (k ≤ ts.second → e.mutation.id < m.id) ∧ (ts.second < k → m.id < e.mutation.id)

/-- What a step has to meet: the lock is free when a worker with a successful execution asks for
it; an upload has read what the object holds, and puts the entry in its place. -/
def Careful (s : State W) : Action W → Prop
  | .acquire w => ∀ m ts, s.phase w = .stamped m ts → m.ok = true → s.lock = none
  | .upload w => ∀ m ts prior, s.phase w = .read m ts prior →
      prior = s.wal.listAt ts.second ∧ InPlace s m ts
  | _ => True

/-- The state is faithful, and what a worker has read of an object is a first part of it. -/
structure Good (s : State W) : Prop where
  inv : Inv s
  faithful : Faithful s
  prior : ∀ w m ts prior, s.phase w = .read m ts prior → prior <+: s.wal.listAt ts.second

theorem good_init : Good (init W) where
  inv := inv_init
  faithful := ⟨by simp [init], by simp [State.logged, State.readOut, State.objects, init, bySecond,
    AList.toPairs]⟩
  prior := by simp [init]

theorem Faithful.setLock (h : Faithful s) (lock : Option W) : Faithful { s with lock := lock } :=
  ⟨h.once, h.order⟩

theorem Kept.refl (s : State W) : Kept s s := fun _ _ he => he

variable [DecidableEq W]

/-- A worker that keeps its mutation, if it was executed successfully, leaves the state faithful. -/
theorem Faithful.setPhase (h : Faithful s) {w : W} {p : Phase}
    (hkeep : ∀ m, m.ok = true → (s.phase w).pending = some m → p.pending = some m) :
    Faithful (s.setPhase w p) where
  once := by
    intro m hm hok hsettled
    refine h.once m hm hok fun w' hw' => ?_
    have hnot := hsettled w'
    rw [setPhase_phase] at hnot
    split at hnot
    · next heq => exact hnot (hkeep m hok (heq ▸ hw'))
    · exact hnot hw'
  order := h.order

/-- … and so does one of which the phase is known. -/
theorem Faithful.setPhase_of_phase (h : Faithful s) {w : W} {p q : Phase}
    (hphase : s.phase w = q) (hkeep : ∀ m, q.pending = some m → p.pending = some m) :
    Faithful (s.setPhase w p) := by
  refine h.setPhase fun m _ hm => hkeep m ?_
  rw [← hphase]
  exact hm

/-- What the workers have read, when one goes on. -/
theorem prior_setPhase (h : ∀ w m ts prior, s.phase w = .read m ts prior →
      prior <+: s.wal.listAt ts.second) {w : W} {p : Phase}
    (hprior : ∀ m ts prior, p = .read m ts prior → prior = [] ∨ prior = s.wal.listAt ts.second) :
    ∀ w' m ts prior, (s.setPhase w p).phase w' = .read m ts prior →
      prior <+: (s.setPhase w p).wal.listAt ts.second := by
  intro w' m ts prior hphase
  rw [setPhase_phase] at hphase
  split at hphase
  · rcases hprior m ts prior hphase with rfl | rfl
    · exact List.nil_prefix
    · exact List.prefix_rfl
  · exact h w' m ts prior hphase

/-- A worker goes on with what it has; the log stays as it is. -/
theorem Good.setPhase (h : Good s) {w : W} {p : Phase}
    (hpending : ∀ m, p.pending = some m → (s.phase w).pending = some m)
    (hkeep : ∀ m, m.ok = true → (s.phase w).pending = some m → p.pending = some m)
    (hprior : ∀ m ts prior, p = .read m ts prior → prior = [] ∨ prior = s.wal.listAt ts.second) :
    Good (s.setPhase w p) :=
  ⟨h.inv.setPhase hpending hprior, h.faithful.setPhase hkeep, prior_setPhase h.prior hprior⟩

omit [DecidableEq W] in
theorem Good.setLock (h : Good s) (lock : Option W) : Good { s with lock := lock } :=
  ⟨h.inv.setLock lock, h.faithful.setLock lock, h.prior⟩

/-! #### Executions and skipped appends -/

section Execute

variable {w : W}

theorem Good.executes (h : Good s) (hphase : s.phase w = .idle) {query : String}
    (hquery : isMutating query = true) (ok : Bool) (time : Instant) :
    Good (s.executes w (s.next query ok time)) := by
  refine ⟨h.inv.executes w hquery ok time, ⟨fun m hm hok hsettled => ?_, ?_⟩, ?_⟩
  · -- the new execution is still to be logged
    have hne : m ≠ s.next query ok time := by
      rintro rfl
      refine hsettled w ?_
      rw [State.executes, setPhase_phase, if_pos rfl]
      rfl
    have hold : m ∈ s.executed := by
      rcases List.mem_append.1 hm with hm | hm
      · exact hm
      · exact absurd (List.mem_singleton.1 hm) hne
    refine h.faithful.once m hold hok fun w' hw' => hsettled w' ?_
    have hw : w' ≠ w := by
      rintro rfl
      rw [hphase] at hw'
      cases hw'
    rw [State.executes, setPhase_phase, if_neg hw]
    exact hw'
  · exact h.faithful.order.trans (List.sublist_append_left _ _)
  · intro w' m ts prior hread
    rw [State.executes, setPhase_phase] at hread
    split at hread
    · cases hread
    · exact h.prior w' m ts prior hread

/-- A worker that gives its append up leaves the state faithful exactly when its execution
failed. -/
theorem faithful_skipped_iff (h : Good s) {m : Mutation} {ts : Instant}
    (hphase : s.phase w = .stamped m ts) :
    Faithful (s.setPhase w .idle) ↔ m.ok = false := by
  have hpending : (s.phase w).pending = some m := by
    rw [hphase]
    rfl
  constructor
  · intro hfaithful
    by_contra hok
    rw [Bool.not_eq_false] at hok
    have hsettled : (s.setPhase w .idle).Settled m := by
      intro w' hw'
      rw [setPhase_phase] at hw'
      split at hw'
      · cases hw'
      · next hne => exact hne (h.inv.pending_inj w' w m hw' hpending)
    have hcount := hfaithful.once m (h.inv.pending_mem w m hpending) hok hsettled
    have hmem : m ∈ s.logged :=
      (count_logged_iff ((order_iff h.inv).1 h.faithful.order) hok).1 hcount
    obtain ⟨k, e, he, rfl⟩ := mem_logged.1 hmem
    exact h.inv.known_settled e (Or.inl ⟨k, he⟩) w hpending
  · intro hfailed
    refine h.faithful.setPhase fun m' hok hm' => ?_
    rw [hpending] at hm'
    cases hm'
    rw [hfailed] at hok
    cases hok

end Execute

/-! #### Uploads -/

section Upload

variable {w : W} {m : Mutation} {ts : Instant} {prior : List Entry}

/-- An upload keeps every entry exactly when it has read what the object holds. -/
theorem kept_uploads_iff (h : Good s) (hphase : s.phase w = .read m ts prior) :
    Kept s (s.uploads w ts (prior ++ [⟨m, ts⟩])) ↔ prior = s.wal.listAt ts.second := by
  constructor
  · intro hkept
    have hsubset : s.wal.listAt ts.second ⊆ prior := by
      intro e he
      have hmem := hkept ts.second e he
      rw [listAt_uploads, if_pos rfl, List.mem_append, List.mem_singleton] at hmem
      rcases hmem with hmem | rfl
      · exact hmem
      · exact absurd rfl (h.inv.pending_fresh hphase (Or.inl ⟨_, he⟩))
    have hlength := ((h.inv.wal_nodup ts.second).subperm hsubset).length_le
    exact (h.prior w m ts prior hphase).eq_of_length_le hlength
  · rintro rfl k e he
    rw [listAt_uploads]
    split
    · next hk => exact List.mem_append_left _ (hk ▸ he)
    · exact he

/-- An upload of what the object holds keeps the entries in turn exactly when the entry goes in
its place. -/
theorem inTurn_uploads_iff (hturn : s.readOut.Pairwise InTurn) :
    (s.uploads w ts (s.wal.listAt ts.second ++ [⟨m, ts⟩])).readOut.Pairwise InTurn ↔
      InPlace s m ts := by
  rw [pairwise_readOut_iff] at hturn ⊢
  obtain ⟨hparts, hacross⟩ := hturn
  simp only [listAt_uploads]
  constructor
  · rintro ⟨hparts', hacross'⟩ hok k e he hok'
    have hnew := hparts' ts.second
    rw [if_pos rfl, List.pairwise_append] at hnew
    refine ⟨fun hle => ?_, fun hlt => ?_⟩
    · rcases hle.lt_or_eq with hlt | rfl
      · refine hacross' k ts.second hlt e ?_ ⟨m, ts⟩ ?_ hok' hok
        · rw [if_neg hlt.ne]
          exact he
        · rw [if_pos rfl]
          exact List.mem_append_right _ List.mem_cons_self
      · exact hnew.2.2 e he ⟨m, ts⟩ List.mem_cons_self hok' hok
    · refine hacross' ts.second k hlt ⟨m, ts⟩ ?_ e ?_ hok hok'
      · rw [if_pos rfl]
        exact List.mem_append_right _ List.mem_cons_self
      · rw [if_neg hlt.ne']
        exact he
  · intro hplace
    refine ⟨fun k => ?_, fun k k' hlt e he e' he' => ?_⟩
    · split
      · rw [List.pairwise_append]
        refine ⟨hparts _, List.pairwise_singleton _ _, fun e he e' he' hok hok' => ?_⟩
        rw [List.mem_singleton.1 he'] at hok' ⊢
        exact (hplace hok' ts.second e he hok).1 le_rfl
      · exact hparts k
    · split at he
      · next hk =>
        rw [if_neg (hk ▸ hlt.ne')] at he'
        rcases List.mem_append.1 he with he | he
        · exact hacross k k' hlt e (hk ▸ he) e' he'
        · intro hok hok'
          rw [List.mem_singleton.1 he] at hok ⊢
          exact (hplace hok k' e' he' hok').2 (hk ▸ hlt)
      · split at he'
        · next hk' =>
          rcases List.mem_append.1 he' with he' | he'
          · exact hacross k k' hlt e he e' (hk' ▸ he')
          · intro hok hok'
            rw [List.mem_singleton.1 he'] at hok' ⊢
            exact (hplace hok' k e he hok).1 (hk' ▸ hlt.le)
        · exact hacross k k' hlt e he e' he'

/-- After an upload of what the object holds, every settled successful execution is in the log. -/
theorem faithful_uploads_iff (h : Good s)
    (hphase : s.phase w = .read m ts (s.wal.listAt ts.second)) :
    Faithful (s.uploads w ts (s.wal.listAt ts.second ++ [⟨m, ts⟩])) ↔ InPlace s m ts := by
  have hinv := h.inv.uploads hphase
  have hturn := (order_iff h.inv).1 h.faithful.order
  rw [← inTurn_uploads_iff (w := w) hturn, ← order_iff hinv]
  refine ⟨fun hfaithful => hfaithful.order, fun horder => ⟨fun m' hm' hok hsettled => ?_, horder⟩⟩
  rw [count_logged_iff ((order_iff hinv).1 horder) hok]
  by_cases heq : m' = m
  · refine mem_logged.2 ⟨ts.second, ⟨m, ts⟩, ?_, heq.symm⟩
    rw [listAt_uploads, if_pos rfl]
    exact List.mem_append_right _ List.mem_cons_self
  · have hold : s.Settled m' := by
      intro w' hw'
      by_cases hw : w' = w
      · rw [hw, hphase] at hw'
        exact heq (Option.some.inj hw').symm
      · refine hsettled w' ?_
        rw [State.uploads, setPhase_phase, if_neg hw]
        exact hw'
    obtain ⟨k, e, he, hmutation⟩ :=
      mem_logged.1 ((count_logged_iff hturn hok).1 (h.faithful.once m' hm' hok hold))
    exact mem_logged.2 ⟨k, e, (kept_uploads_iff h hphase).2 rfl k e he, hmutation⟩

/-- What the workers have read of the objects after an upload of what an object holds. -/
theorem prior_uploads_prefix (h : Good s) :
    ∀ w' m' ts' prior', (s.uploads w ts (s.wal.listAt ts.second ++ [⟨m, ts⟩])).phase w' =
        .read m' ts' prior' →
      prior' <+: (s.uploads w ts (s.wal.listAt ts.second ++ [⟨m, ts⟩])).wal.listAt ts'.second := by
  intro w' m' ts' prior' hread
  rw [State.uploads, setPhase_phase] at hread
  split at hread
  · cases hread
  · have hprior := h.prior w' m' ts' prior' hread
    rw [listAt_uploads]
    split
    · next hk => exact (hk ▸ hprior).trans (List.prefix_append _ _)
    · exact hprior

end Upload

/-! ### Runs -/

/-- **One step, from a good state**: the next state is faithful, and no entry disappears, exactly
when the step is careful. -/
theorem faithful_and_kept_iff_careful (h : Good s) {a : Action W} (hstep : step s a = some s') :
    Careful s a ↔ Faithful s' ∧ Kept s s' := by
  cases transition_of_step hstep with
  | execute hphase hquery =>
    exact iff_of_true trivial ⟨(h.executes hphase hquery _ _).faithful, Kept.refl s⟩
  | stamp hphase =>
    exact iff_of_true trivial
      ⟨h.faithful.setPhase_of_phase hphase fun _ hm => hm, Kept.refl s⟩
  | acquired hphase hlock =>
    exact iff_of_true (fun _ _ _ _ => hlock)
      ⟨(h.faithful.setLock _).setPhase_of_phase hphase fun _ hm => hm, Kept.refl s⟩
  | @skipped w w' m ts hphase hlock =>
    -- the worker gives up, and its mutation is never logged
    have hkept : Kept s (s.setPhase w .idle) := Kept.refl s
    rw [and_iff_left hkept, faithful_skipped_iff h hphase]
    constructor
    · intro hcareful
      by_contra hok
      have hfree := hcareful m ts hphase (Bool.not_eq_false _ ▸ hok)
      rw [hlock] at hfree
      cases hfree
    · intro hfailed m' ts' hphase' hok
      rw [hphase] at hphase'
      cases hphase'
      rw [hfailed] at hok
      cases hok
  | found hphase hexists =>
    exact iff_of_true trivial
      ⟨h.faithful.setPhase_of_phase hphase fun _ hm => hm, Kept.refl s⟩
  | missing hphase hanswer =>
    exact iff_of_true trivial
      ⟨h.faithful.setPhase_of_phase hphase fun _ hm => hm, Kept.refl s⟩
  | download hphase =>
    exact iff_of_true trivial
      ⟨h.faithful.setPhase_of_phase hphase fun _ hm => hm, Kept.refl s⟩
  | @upload w m ts prior hphase =>
    rw [kept_uploads_iff h hphase]
    constructor
    · intro hcareful
      obtain ⟨rfl, hplace⟩ := hcareful m ts prior hphase
      exact ⟨(faithful_uploads_iff h hphase).2 hplace, rfl⟩
    · rintro ⟨hfaithful, rfl⟩ m' ts' prior' hphase'
      rw [hphase] at hphase'
      cases hphase'
      exact ⟨rfl, (faithful_uploads_iff h hphase).1 hfaithful⟩
  | release hphase =>
    exact iff_of_true trivial
      ⟨(h.faithful.setLock _).setPhase_of_phase hphase nofun, Kept.refl s⟩
  | expire hlock => exact iff_of_true trivial ⟨h.faithful.setLock none, Kept.refl s⟩

/-- A careful step leads from a good state to a good state. -/
theorem good_step (h : Good s) {a : Action W} (hstep : step s a = some s')
    (hcareful : Careful s a) : Good s' := by
  have hfaithful := ((faithful_and_kept_iff_careful h hstep).1 hcareful).1
  refine ⟨inv_step h.inv hstep, hfaithful, ?_⟩
  cases transition_of_step hstep with
  | execute hphase hquery => exact (h.executes hphase hquery _ _).prior
  | stamp hphase => exact prior_setPhase h.prior fun _ _ _ heq => by cases heq
  | acquired hphase hlock =>
    exact prior_setPhase (h.setLock _).prior fun _ _ _ heq => by cases heq
  | skipped hphase hlock => exact prior_setPhase h.prior fun _ _ _ heq => by cases heq
  | found hphase hexists => exact prior_setPhase h.prior fun _ _ _ heq => by cases heq
  | missing hphase hanswer =>
    refine prior_setPhase h.prior fun _ _ _ heq => ?_
    cases heq
    exact Or.inl rfl
  | @download w raises m ts hphase =>
    refine prior_setPhase h.prior fun _ _ _ heq => ?_
    cases heq
    cases raises
    · exact Or.inr rfl
    · exact Or.inl rfl
  | @upload w m ts prior hphase =>
    obtain ⟨rfl, -⟩ := hcareful m ts prior hphase
    exact prior_uploads_prefix h
  | release hphase => exact prior_setPhase (h.setLock _).prior fun _ _ _ heq => by cases heq
  | expire hlock => exact h.prior

/-- The run is faithful in every state, and no step makes an entry disappear. -/
def WalFaithful (actions : List (Action W)) : Prop :=
  Runs.Always step Faithful (init W) actions ∧
    Runs.EachStep step (fun s _ s' => Kept s s') (init W) actions

/-- **A run is faithful exactly when each of its steps is careful**: the lock is free whenever a
worker with a successful execution asks for it, and every upload has read what the object
holds and puts its entry between those of the executions before and after it. -/
theorem walFaithful_iff (actions : List (Action W)) :
    WalFaithful actions ↔
      Runs.EachStep step (fun s a _ => Careful s a) (init W) actions := by
  unfold WalFaithful
  refine Runs.always_and_eachStep_iff ?_ ?_ ?_ good_init actions
  · intro s h
    exact h.faithful
  · intro s a s' h hstep
    exact faithful_and_kept_iff_careful h hstep
  · intro s a s' h hstep hcareful
    exact good_step h hstep hcareful

/-- Two workers: the second asks for the lock while the first holds it. -/
def overlappingAppends : List (Action Bool) :=
  [.execute false "CREATE (n)" true 1000000, .stamp false 1000001, .acquire false,
    .execute true "CREATE (m)" true 1000002, .stamp true 1000003, .acquire true]

theorem isMutating_create : isMutating "CREATE (n)" = true ∧ isMutating "CREATE (m)" = true := by
  constructor <;> decide +kernel

/-- The state after the appends that overlap: the second mutation is settled, and not logged. -/
theorem exists_run_overlappingAppends :
    ∃ s, Runs.run step (init Bool) overlappingAppends = some s ∧
      ⟨1, "CREATE (m)", 1000002, true⟩ ∈ s.executed ∧
      (s.phase true).pending = none ∧
      (s.phase false).pending = some ⟨0, "CREATE (n)", 1000000, true⟩ ∧ s.wal = ∅ := by
  simp [overlappingAppends, Runs.run_cons, step, isMutating_create, init, setPhase_phase,
    State.executes, State.next, Phase.pending]

/-- **A worker that finds the lock held loses its mutation.** -/
theorem not_walFaithful_overlappingAppends : ¬ WalFaithful overlappingAppends := by
  rintro ⟨halways, -⟩
  obtain ⟨s, hrun, hmem, htrue, hfalse, hwal⟩ := exists_run_overlappingAppends
  have hfaithful := halways overlappingAppends List.prefix_rfl s hrun
  have hcount := hfaithful.once _ hmem rfl fun w hw => by
    cases w with
    | false =>
      rw [hfalse] at hw
      exact absurd hw (by decide)
    | true =>
      rw [htrue] at hw
      cases hw
  have hlogged : s.logged = [] := by
    unfold State.logged State.readOut State.objects
    rw [hwal]
    rfl
  rw [hlogged] at hcount
  exact absurd hcount (by decide)

end KuzuEventBus.Service.Workers
