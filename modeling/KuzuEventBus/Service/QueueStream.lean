import KuzuEventBus.Lib.RedisStream
import KuzuEventBus.Lib.Runs
import KuzuEventBus.Service.QueryWorker

/-!
# The transaction queue

`src/infrastructure/queue/redis_queue_service.py`, under any number of submissions and workers,
which may crash with a message in hand.  The stream is capped: an enqueue trims the oldest entries,
delivered or not.  A dequeue asks for new entries alone, and nothing claims what a crashed worker
has left pending.

## Main definitions

* `Payload`, `Phase`, `Action`, `step` — the calls of the service, one command at a time.
* `Kept` — a submission is still to be delivered, or pending with its payload, or old.
* `NotAgain` — what has been delivered is not returned again.

## Main results

* `inv_step` — stream, cursor and pending list account for every submission.
* `kept_and_notAgain` — **in every run, what is submitted and not acknowledged is undelivered, or
  pending and readable, or `max_length` submissions old; and no message is returned twice.**
-/

namespace KuzuEventBus.Service.QueueStream

open RedisStream

/-! ### The service -/

/-- The fields of an entry. -/
structure Payload where
  transactionId : Uuid
  tenantId : Uuid
  priority : ℤ

/-- `max_length`, as the services are wired. -/
def defaultMaxLength : ℕ := 10000

/-- Where a worker is. -/
inductive Phase where
  | idle
  /-- `dequeue_transaction` has made sure that the group exists. -/
  | ready
  /-- It has a message. -/
  | holding (id : ℕ)
  /-- `acknowledge_transaction` has acknowledged it, and is to delete it. -/
  | acked (id : ℕ)
  | crashed
  deriving DecidableEq

/-- The stream, where the workers are, and what has been submitted, acknowledged and delivered. -/
structure State (W : Type) where
  stream : Stream Payload
  phase : W → Phase
  submitted : List (Entry Payload)
  acked : List ℕ
  delivered : List ℕ

/-- The commands, and what befalls the workers. -/
inductive Action (W : Type) where
  | submit (payload : Payload)
  | ensureGroup (w : W)
  | read (w : W)
  | ack (w : W)
  | delete (w : W)
  | crash (w : W)
  | restart (w : W)

/-- An empty queue. -/
def init (W : Type) : State W := ⟨.empty, fun _ => .idle, [], [], []⟩

variable {W : Type} [DecidableEq W]

/-- A worker is in a phase. -/
def State.goes (s : State W) (w : W) (p : Phase) : State W :=
  { s with phase := Function.update s.phase w p }

/-- What a command does; `submit` is the enqueue of `SubmitAsyncQuery`, after which it returns. -/
def step (maxLength : ℕ) (s : State W) : Action W → Option (State W)
  | .submit payload =>
    some { s with
      stream := s.stream.xadd maxLength payload
      submitted := s.submitted ++ [s.stream.next payload] }
  | .ensureGroup w =>
    match s.phase w with
    | .idle => some { s.goes w .ready with stream := s.stream.xgroupCreate }
    | _ => none
  | .read w =>
    match s.phase w with
    | .ready =>
      match s.stream.xreadgroup with
      | none => some (s.goes w .idle)
      | some (e, stream) =>
        some { s.goes w (.holding e.id) with stream := stream, delivered := e.id :: s.delivered }
    | _ => none
  | .ack w =>
    match s.phase w with
    | .holding id =>
      some { s.goes w (.acked id) with stream := s.stream.xack id, acked := id :: s.acked }
    | _ => none
  | .delete w =>
    match s.phase w with
    | .acked id => some { s.goes w .idle with stream := s.stream.xdel id }
    | _ => none
  | .crash w => some (s.goes w .crashed)
  | .restart w =>
    match s.phase w with
    | .crashed => some (s.goes w .idle)
    | _ => none

/-! ### What holds -/

/-- How many submissions came after an entry. -/
def later (submitted : List (Entry Payload)) (e : Entry Payload) : ℕ :=
  (submitted.filter fun e' => e.id < e'.id).length

/-- It is in the stream, and the group has not delivered it. -/
def Undelivered (stream : Stream Payload) (e : Entry Payload) : Prop :=
  e ∈ stream.entries ∧ ∀ g, stream.group = some g → g.lastDelivered < e.id

/-- It is pending, and its payload can be read. -/
def Pending (stream : Stream Payload) (e : Entry Payload) : Prop :=
  e ∈ stream.entries ∧ ∃ g, stream.group = some g ∧ e.id ∈ g.pending

/-- What is submitted and not acknowledged is undelivered, or pending and readable, or has
`max_length` submissions after it. -/
def Kept (maxLength : ℕ) (s : State W) : Prop :=
  ∀ e ∈ s.submitted, e.id ∉ s.acked →
    Undelivered s.stream e ∨ Pending s.stream e ∨ maxLength ≤ later s.submitted e

/-- A worker that comes to hold a message is the first to. -/
def NotAgain (s s' : State W) : Prop :=
  ∀ w id, s'.phase w = .holding id → s.phase w ≠ .holding id → id ∉ s.delivered

/-- The stream, the cursor and the pending list account for every submission. -/
structure Inv (maxLength : ℕ) (s : State W) : Prop where
  sorted : s.submitted.Pairwise fun a b => a.id < b.id
  bounded : ∀ e ∈ s.submitted, e.id ≤ s.stream.lastId
  entries : s.stream.entries.Sublist s.submitted
  gone : ∀ e ∈ s.submitted, e ∈ s.stream.entries ∨ e.id ∈ s.acked ∨ maxLength ≤ later s.submitted e
  cursor : ∀ g, s.stream.group = some g → g.lastDelivered ≤ s.stream.lastId
  taken : ∀ g, s.stream.group = some g → ∀ e ∈ s.stream.entries, e.id ≤ g.lastDelivered →
    e.id ∈ g.pending ∨ e.id ∈ s.acked
  positive : ∀ e ∈ s.submitted, 0 < e.id
  delivered : ∀ id ∈ s.delivered, ∃ g, s.stream.group = some g ∧ id ≤ g.lastDelivered
  acked : ∀ w id, s.phase w = .acked id → id ∈ s.acked

section Steps

variable {maxLength : ℕ} {s s' : State W} {a : Action W} {w : W}

omit [DecidableEq W] in
/-- **The invariant accounts for every submission.** -/
theorem kept_of_inv (h : Inv maxLength s) : Kept maxLength s := by
  intro e he hacked
  rcases h.gone e he with hentry | hacked' | hold
  · cases hgroup : s.stream.group with
    | none =>
      refine Or.inl ⟨hentry, fun g hg => ?_⟩
      rw [hgroup] at hg
      cases hg
    | some g =>
      rcases Nat.lt_or_ge g.lastDelivered e.id with hafter | hbefore
      · refine Or.inl ⟨hentry, fun g' hg' => ?_⟩
        rw [hgroup] at hg'
        cases hg'
        exact hafter
      · have hpending := (h.taken g hgroup e hentry hbefore).resolve_right hacked
        exact Or.inr (Or.inl ⟨hentry, g, hgroup, hpending⟩)
  · exact absurd hacked' hacked
  · exact Or.inr (Or.inr hold)

theorem phase_goes (s : State W) (w w' : W) (p : Phase) :
    (s.goes w p).phase w' = if w' = w then p else s.phase w' := Function.update_apply ..

/-- A worker goes to a phase that owes nothing. -/
theorem inv_goes (h : Inv maxLength s) {p : Phase} (hp : ∀ id, p = .acked id → id ∈ s.acked) :
    Inv maxLength (s.goes w p) := by
  refine ⟨h.sorted, h.bounded, h.entries, h.gone, h.cursor, h.taken, h.positive, h.delivered,
    fun w' id hw' => ?_⟩
  rw [phase_goes] at hw'
  split at hw'
  · exact hp id hw'
  · exact h.acked w' id hw'

omit [DecidableEq W] in
theorem inv_submit (h : Inv maxLength s) (payload : Payload) :
    Inv maxLength { s with
      stream := s.stream.xadd maxLength payload
      submitted := s.submitted ++ [s.stream.next payload] } := by
  have hsorted : (s.submitted ++ [s.stream.next payload]).Pairwise fun a b => a.id < b.id := by
    rw [List.pairwise_append]
    refine ⟨h.sorted, List.pairwise_singleton .., fun e he e' he' => ?_⟩
    rw [List.mem_singleton.1 he']
    exact Nat.lt_succ_of_le (h.bounded e he)
  have hentries : (s.stream.entries ++ [s.stream.next payload]).Sublist
      (s.submitted ++ [s.stream.next payload]) := h.entries.append (List.Sublist.refl _)
  have hlater : ∀ e, later s.submitted e ≤ later (s.submitted ++ [s.stream.next payload]) e :=
    fun e => (((List.sublist_append_left _ _).filter _)).length_le
  refine ⟨hsorted, fun e he => ?_, (xadd_sublist ..).trans hentries, fun e he => ?_, fun g hg => ?_,
    fun g hg e he hle => ?_, fun e he => ?_, h.delivered, h.acked⟩
  · rcases List.mem_append.1 he with hbefore | hnew
    · exact (h.bounded e hbefore).trans (Nat.le_succ _)
    · rw [List.mem_singleton.1 hnew]
      exact le_rfl
  · -- the trim takes away only what has `maxLength` entries after it
    have htrim : e ∈ s.stream.entries ++ [s.stream.next payload] →
        e ∈ (s.stream.xadd maxLength payload).entries ∨
          maxLength ≤ later (s.submitted ++ [s.stream.next payload]) e := by
      intro hin
      refine (mem_xadd_or (hsorted.sublist hentries) hin).imp_right fun hle => ?_
      exact hle.trans (hentries.filter _).length_le
    rcases List.mem_append.1 he with hbefore | hnew
    · rcases h.gone e hbefore with hentry | hacked | hold
      · exact (htrim (List.mem_append_left _ hentry)).imp_right Or.inr
      · exact Or.inr (Or.inl hacked)
      · exact Or.inr (Or.inr (hold.trans (hlater e)))
    · exact (htrim (List.mem_append_right _ hnew)).imp_right Or.inr
  · exact (h.cursor g hg).trans (Nat.le_succ _)
  · rcases List.mem_append.1 ((xadd_sublist ..).subset he) with hbefore | hnew
    · exact h.taken g hg e hbefore hle
    · -- the new entry is after the cursor
      rw [List.mem_singleton.1 hnew] at hle
      have hcursor := h.cursor g hg
      exact absurd (hle.trans hcursor) (Nat.not_succ_le_self _)
  · rcases List.mem_append.1 he with hbefore | hnew
    · exact h.positive e hbefore
    · rw [List.mem_singleton.1 hnew]
      exact Nat.succ_pos _

omit [DecidableEq W] in
theorem inv_ensureGroup (h : Inv maxLength s) :
    Inv maxLength { s with stream := s.stream.xgroupCreate } := by
  unfold Stream.xgroupCreate
  cases hgroup : s.stream.group with
  | some g => exact h
  | none =>
    refine ⟨h.sorted, h.bounded, h.entries, h.gone, fun g hg => ?_, fun g hg e he hle => ?_,
      h.positive, fun id hid => ?_, h.acked⟩
    · cases hg
      exact Nat.zero_le _
    · cases hg
      have hpositive := h.positive e (h.entries.subset he)
      exact absurd hle (Nat.not_le_of_gt hpositive)
    · obtain ⟨g, hg, -⟩ := h.delivered id hid
      rw [hgroup] at hg
      cases hg

omit [DecidableEq W] in
/-- A read delivers what comes next. -/
theorem inv_read (h : Inv maxLength s) {e : Entry Payload} {stream : Stream Payload}
    (hread : s.stream.xreadgroup = some (e, stream)) :
    Inv maxLength { s with stream := stream, delivered := e.id :: s.delivered } := by
  obtain ⟨g, hgroup, hafter, hentry, holder, rfl⟩ :=
    xreadgroup_eq_some (h.sorted.sublist h.entries) hread
  refine ⟨h.sorted, h.bounded, h.entries, h.gone, fun g' hg' => ?_, fun g' hg' e' he' hle => ?_,
    h.positive, fun id hid => ?_, h.acked⟩
  · cases hg'
    exact h.bounded e (h.entries.subset hentry)
  · cases hg'
    rcases Nat.lt_or_eq_of_le hle with hlt | heq
    · -- what is older than the message was before the cursor already
      rcases h.taken g hgroup e' he' (holder e' he' hlt) with hpending | hacked
      · exact Or.inl (List.mem_append_left _ hpending)
      · exact Or.inr hacked
    · rw [heq]
      exact Or.inl (List.mem_append_right _ (List.mem_singleton_self _))
  · refine ⟨_, rfl, ?_⟩
    rcases List.mem_cons.1 hid with rfl | hbefore
    · exact le_rfl
    · obtain ⟨g', hg', hle⟩ := h.delivered id hbefore
      rw [hgroup] at hg'
      cases hg'
      exact hle.trans hafter.le

omit [DecidableEq W] in
theorem inv_ack (h : Inv maxLength s) (id : ℕ) :
    Inv maxLength { s with stream := s.stream.xack id, acked := id :: s.acked } := by
  refine ⟨h.sorted, h.bounded, h.entries, fun e he => ?_, fun g hg => ?_, fun g hg e he hle => ?_,
    h.positive, fun id' hid' => ?_, fun w id' hw => List.mem_cons_of_mem _ (h.acked w id' hw)⟩
  · exact (h.gone e he).imp_right (Or.imp_left (List.mem_cons_of_mem _))
  · obtain ⟨g₁, hg₁, rfl⟩ := Option.map_eq_some_iff.1 hg
    exact h.cursor g₁ hg₁
  · obtain ⟨g₁, hg₁, rfl⟩ := Option.map_eq_some_iff.1 hg
    by_cases heq : e.id = id
    · rw [heq]
      exact Or.inr List.mem_cons_self
    · refine (h.taken g₁ hg₁ e he hle).imp (fun hpending => ?_) (List.mem_cons_of_mem _)
      exact List.mem_filter.2 ⟨hpending, decide_eq_true heq⟩
  · obtain ⟨g, hg, hle⟩ := h.delivered id' hid'
    exact ⟨_, congrArg (Option.map _) hg, hle⟩

omit [DecidableEq W] in
/-- What is acknowledged may be deleted. -/
theorem inv_delete (h : Inv maxLength s) {id : ℕ} (hacked : id ∈ s.acked) :
    Inv maxLength { s with stream := s.stream.xdel id } := by
  refine ⟨h.sorted, h.bounded, (List.filter_sublist ..).trans h.entries, fun e he => ?_, h.cursor,
    fun g hg e he hle => ?_, h.positive, h.delivered, h.acked⟩
  · by_cases heq : e.id = id
    · rw [← heq] at hacked
      exact Or.inr (Or.inl hacked)
    · refine (h.gone e he).imp_left fun hentry => ?_
      exact List.mem_filter.2 ⟨hentry, decide_eq_true heq⟩
  · exact h.taken g hg e (List.mem_filter.1 he).1 hle

/-- **Every command keeps the invariant.** -/
theorem inv_step (h : Inv maxLength s) (hstep : step maxLength s a = some s') :
    Inv maxLength s' := by
  cases a with
  | submit payload =>
    cases hstep
    exact inv_submit h payload
  | ensureGroup w =>
    dsimp only [step] at hstep
    split at hstep
    · cases hstep
      exact inv_ensureGroup (inv_goes (p := .ready) h nofun)
    · cases hstep
  | read w =>
    dsimp only [step] at hstep
    split at hstep
    · cases hread : s.stream.xreadgroup with
      | none =>
        rw [hread] at hstep
        cases hstep
        exact inv_goes h nofun
      | some p =>
        rw [hread] at hstep
        cases hstep
        exact inv_read (inv_goes (p := .holding _) h nofun) hread
    · cases hstep
  | ack w =>
    dsimp only [step] at hstep
    split at hstep
    · next id hphase =>
      cases hstep
      refine inv_goes (inv_ack h id) fun id' hid' => ?_
      cases hid'
      exact List.mem_cons_self
    · cases hstep
  | delete w =>
    dsimp only [step] at hstep
    split at hstep
    · next id hphase =>
      cases hstep
      exact inv_delete (inv_goes (p := .idle) h nofun) (h.acked w id hphase)
    · cases hstep
  | crash w =>
    cases hstep
    exact inv_goes h nofun
  | restart w =>
    dsimp only [step] at hstep
    split at hstep
    · cases hstep
      exact inv_goes h nofun
    · cases hstep

/-- **A message is delivered once**: the cursor is past all that was delivered. -/
theorem notAgain_step (h : Inv maxLength s) (hstep : step maxLength s a = some s') :
    NotAgain s s' := by
  intro w id hafter hbefore hdelivered
  have hgoes : ∀ (w' : W) (p : Phase), (∀ id, p ≠ .holding id) →
      ¬ (s.goes w' p).phase w = .holding id := by
    intro w' p hp heq
    rw [phase_goes] at heq
    split at heq
    · exact hp id heq
    · exact hbefore heq
  cases a with
  | submit payload =>
    cases hstep
    exact hbefore hafter
  | read w' =>
    dsimp only [step] at hstep
    split at hstep
    · cases hread : s.stream.xreadgroup with
      | none =>
        rw [hread] at hstep
        cases hstep
        exact hgoes w' .idle nofun hafter
      | some p =>
        rw [hread] at hstep
        cases hstep
        -- what is read lies past the cursor, and nothing that was delivered does
        obtain ⟨g, hgroup, hlt, -⟩ := xreadgroup_eq_some (h.sorted.sublist h.entries) hread
        obtain ⟨g', hgroup', hle⟩ := h.delivered id hdelivered
        rw [hgroup] at hgroup'
        cases hgroup'
        have hphase : (s.goes w' (.holding p.1.id)).phase w = .holding id := hafter
        rw [phase_goes] at hphase
        split at hphase
        · cases hphase
          exact absurd hlt (Nat.not_lt_of_le hle)
        · exact hbefore hphase
    · cases hstep
  | ensureGroup w' | ack w' | delete w' | restart w' =>
    dsimp only [step] at hstep
    split at hstep
    · cases hstep
      refine hgoes w' _ ?_ hafter
      exact nofun
    · cases hstep
  | crash w' =>
    cases hstep
    exact hgoes w' .crashed nofun hafter

/-- What has been delivered, and is in nobody's hands, stays out of them. -/
theorem not_holding_step {id : ℕ} (h : Inv maxLength s) (hstep : step maxLength s a = some s')
    (hdelivered : id ∈ s.delivered) (hphase : ∀ w, s.phase w ≠ .holding id) :
    id ∈ s'.delivered ∧ ∀ w, s'.phase w ≠ .holding id := by
  refine ⟨?_, fun w hw => notAgain_step h hstep w id hw (hphase w) hdelivered⟩
  cases a with
  | read w =>
    dsimp only [step] at hstep
    split at hstep
    · cases hread : s.stream.xreadgroup with
      | none =>
        rw [hread] at hstep
        cases hstep
        exact hdelivered
      | some p =>
        rw [hread] at hstep
        cases hstep
        exact List.mem_cons_of_mem _ hdelivered
    · cases hstep
  | submit | crash =>
    cases hstep
    exact hdelivered
  | ensureGroup | ack | delete | restart =>
    dsimp only [step] at hstep
    split at hstep
    · cases hstep
      exact hdelivered
    · cases hstep

end Steps

/-! ### Runs -/

omit [DecidableEq W] in
theorem inv_init (maxLength : ℕ) : Inv maxLength (init W) :=
  ⟨List.Pairwise.nil, nofun, List.Sublist.slnil, nofun, nofun, nofun, nofun, nofun, nofun⟩

/-- **In every run, what is submitted and not acknowledged is undelivered, or pending and readable,
or `max_length` submissions old; and no message is returned twice.** -/
theorem kept_and_notAgain (maxLength : ℕ) (actions : List (Action W)) :
    Runs.Always (step maxLength) (Kept maxLength) (init W) actions ∧
      Runs.EachStep (step maxLength) (fun s _ s' => NotAgain s s') (init W) actions := by
  have heach : Runs.EachStep (step maxLength) (fun _ _ _ => True) (init W) actions :=
    fun _ _ _ _ _ _ _ => trivial
  refine (Runs.always_and_eachStep_iff (fun s h => kept_of_inv h) (fun s a s' h hstep => ?_)
    (fun s a s' h hstep _ => inv_step h hstep) (inv_init maxLength) actions).2 heach
  exact iff_of_true trivial ⟨kept_of_inv (inv_step h hstep), notAgain_step h hstep⟩

/-- The ids that are left after `n` submissions: the last `maxLength` of them. -/
theorem exists_run_submits (maxLength : ℕ) (payload : Payload) (n : ℕ) :
    ∃ s, Runs.run (step maxLength) (init W) (List.replicate n (.submit payload)) = some s ∧
      s.stream.lastId = n ∧ s.stream.group = none ∧ s.acked = [] ∧
      s.stream.entries.map Entry.id = List.range' (n + 1 - min n maxLength) (min n maxLength) ∧
      s.submitted.map Entry.id = List.range' 1 n := by
  induction n with
  | zero => exact ⟨init W, rfl, rfl, rfl, rfl, by simp [init, Stream.empty], rfl⟩
  | succ n ih =>
    obtain ⟨s, hrun, hlast, hgroup, hacked, hentries, hsubmitted⟩ := ih
    refine ⟨{ s with
      stream := s.stream.xadd maxLength payload
      submitted := s.submitted ++ [s.stream.next payload] }, ?_, ?_, hgroup, hacked, ?_, ?_⟩
    · rw [List.replicate_succ', Runs.run_append, hrun]
      rfl
    · show s.stream.lastId + 1 = n + 1
      rw [hlast]
    · have hlength : s.stream.entries.length = min n maxLength := by
        rw [← List.length_map Entry.id, hentries, List.length_range']
      have hnext : [s.stream.next payload].map Entry.id = [s.stream.lastId + 1] := rfl
      show ((s.stream.entries ++ [s.stream.next payload]).drop _).map Entry.id = _
      rw [List.map_drop, List.map_append, hentries, hnext, hlength, hlast]
      rcases Nat.lt_or_ge n maxLength with hlt | hge
      · rw [min_eq_left hlt.le, min_eq_left (Nat.succ_le_of_lt hlt), Nat.sub_eq_zero_of_le hlt,
          List.drop_zero, List.range'_concat]
        congr 2 <;> omega
      · rw [min_eq_right hge, min_eq_right (hge.trans (Nat.le_succ n)), Nat.add_sub_cancel_left]
        have hgrow : List.range' (n + 1 - maxLength) maxLength ++ [n + 1] =
            List.range' (n + 1 - maxLength) (maxLength + 1) := by
          rw [List.range'_concat]
          congr 2
          omega
        rw [hgrow, List.range'_succ, List.drop_one, List.tail_cons]
        congr 1
        omega
    · show (s.submitted ++ [_]).map Entry.id = _
      rw [List.map_append, hsubmitted, List.range'_concat]
      simp [Stream.next, hlast, Nat.add_comm]

/-- After one submission too many the first is neither in the stream nor pending, and nobody has
acknowledged it. -/
theorem not_undelivered_or_pending (maxLength : ℕ) (payload : Payload) :
    ∃ s : State W, Runs.run (step maxLength) (init W)
        (List.replicate (maxLength + 1) (.submit payload)) = some s ∧
      ∃ e ∈ s.submitted, e.id ∉ s.acked ∧ ¬ Undelivered s.stream e ∧ ¬ Pending s.stream e := by
  obtain ⟨s, hrun, -, -, hacked, hentries, hsubmitted⟩ :=
    exists_run_submits (W := W) maxLength payload (maxLength + 1)
  have hfirst : 1 ∈ s.submitted.map Entry.id := by
    rw [hsubmitted]
    simp
  obtain ⟨e, he, hid⟩ := List.mem_map.1 hfirst
  have hgone : e ∉ s.stream.entries := by
    intro hentry
    have hmem := List.mem_map_of_mem (f := Entry.id) hentry
    rw [hentries, List.mem_range'_1, hid] at hmem
    omega
  refine ⟨s, hrun, e, he, ?_, fun h => hgone h.1, fun h => hgone h.1⟩
  rw [hacked]
  exact List.not_mem_nil

/-- What has been delivered to a worker that is gone is in nobody's hands in any later state. -/
theorem always_not_holding {maxLength id : ℕ} {s : State W} (h : Inv maxLength s)
    (hdelivered : id ∈ s.delivered) (hphase : ∀ w, s.phase w ≠ .holding id)
    (actions : List (Action W)) :
    Runs.Always (step maxLength) (fun s => ∀ w, s.phase w ≠ .holding id) s actions := by
  have hinv : ∀ s a s', (Inv maxLength s ∧ id ∈ s.delivered ∧ ∀ w, s.phase w ≠ .holding id) →
      step maxLength s a = some s' →
        (Inv maxLength s' ∧ id ∈ s'.delivered ∧ ∀ w : W, s'.phase w ≠ .holding id) :=
    fun s a s' h hstep =>
      ⟨inv_step h.1 hstep, not_holding_step h.1 hstep h.2.1 h.2.2⟩
  intro actions' hactions s' hrun
  exact (Runs.always_of_invariant hinv ⟨h, hdelivered, hphase⟩ actions actions' hactions s'
    hrun).2.2

/-- **A full stream trims what nobody has read, and what a crashed worker has taken is returned to
nobody**, although it is still pending. -/
theorem not_kept_and_returned :
    (∃ (actions : List (Action Unit)) (s : State Unit),
      Runs.run (step defaultMaxLength) (init Unit) actions = some s ∧
        ∃ e ∈ s.submitted, e.id ∉ s.acked ∧ ¬ Undelivered s.stream e ∧ ¬ Pending s.stream e) ∧
      ∃ (actions : List (Action Unit)) (s : State Unit),
        Runs.run (step defaultMaxLength) (init Unit) actions = some s ∧
          (∃ e ∈ s.submitted, e.id = 1 ∧ e.id ∉ s.acked ∧ Pending s.stream e) ∧
            ∀ actions' s', Runs.run (step defaultMaxLength) s actions' = some s' →
              ∀ w, s'.phase w ≠ .holding 1 := by
  constructor
  · obtain ⟨s, hrun, hlost⟩ := not_undelivered_or_pending (W := Unit) defaultMaxLength ⟨7, 0, 0⟩
    exact ⟨_, s, hrun, hlost⟩
  · obtain ⟨s, hrun, hsubmitted, hacked, hentries, hgroup, hdelivered, hphase⟩ : ∃ s,
        Runs.run (step defaultMaxLength) (init Unit)
          [.submit ⟨7, 0, 0⟩, .ensureGroup (), .read (), .crash ()] = some s ∧
          s.submitted = [⟨1, 7, 0, 0⟩] ∧ s.acked = [] ∧ s.stream.entries = [⟨1, 7, 0, 0⟩] ∧
          s.stream.group = some ⟨1, [1]⟩ ∧ s.delivered = [1] ∧ s.phase () = .crashed :=
      ⟨_, rfl, rfl, rfl, rfl, rfl, rfl, rfl⟩
    have hinv : Inv defaultMaxLength s :=
      Runs.always_of_invariant (fun s a s' h hstep => inv_step h hstep)
        (inv_init defaultMaxLength) _ _ List.prefix_rfl s hrun
    refine ⟨_, s, hrun, ⟨⟨1, 7, 0, 0⟩, ?_, rfl, ?_, ?_, _, hgroup, ?_⟩, fun actions' s' hrun' => ?_⟩
    · rw [hsubmitted]
      exact List.mem_cons_self
    · rw [hacked]
      exact List.not_mem_nil
    · rw [hentries]
      exact List.mem_cons_self
    · exact List.mem_cons_self
    · refine always_not_holding hinv ?_ (fun w => ?_) actions' _ List.prefix_rfl s' hrun'
      · rw [hdelivered]
        exact List.mem_cons_self
      · rw [hphase]
        exact nofun

end KuzuEventBus.Service.QueueStream
