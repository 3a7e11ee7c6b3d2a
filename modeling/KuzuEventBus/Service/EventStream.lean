import KuzuEventBus.Lib.HashMap
import KuzuEventBus.Lib.RedisStream
import KuzuEventBus.Lib.Runs

/-!
# The event stream of a tenant

`src/presentation/api/events/routes.py`: a client reads the Redis stream `events:{tenant_id}` with
blocking reads, one after the other.  The cursor of the next read is the id of the last entry that
was sent; until there is one it is what the client gave as `Last-Event-ID`, or `$`, which the server
takes for the last id there is when the read arrives.

## Main definitions

* `Cursor`, `Frame`, `Client` — a run of `_sse_stream`, and what it has sent.
* `State`, `step` — appends, reads, timeouts and read errors.
* `Delivered`, `Covered` — what is asked for in a state, and what a step has to meet.

## Main results

* `inv_step` — the cursor accounts for what was sent.
* `always_delivered_iff` — **every entry is delivered exactly when none is appended between the
  reads of a client that started at `$` and has not been sent anything.**
* `always_delivered_of_lastEventId` — a client that connects with an id misses nothing.
* `exists_reads` — a client that keeps reading comes to wait.
-/

namespace KuzuEventBus.Service.EventStream

open RedisStream

/-! ### The loop -/

/-- The fields of an event. -/
abbrev Fields := HashMap String String

/-- The `maxlen` of `_emit_event`. -/
def maxLength : ℕ := 10000

/-- The `count` of a read. -/
def readCount : ℕ := 10

/-- `last_id`. -/
inductive Cursor where
  | dollar
  | id (n : ℕ)
  deriving DecidableEq

/-- The id a read starts after when it arrives. -/
def Cursor.resolve (stream : Stream Fields) : Cursor → ℕ
  | dollar => stream.lastId
  | id n => n

/-- What `_sse_stream` yields. -/
inductive Frame where
  /-- The comment `b":\n\n"`. -/
  | keepAlive
  /-- `id`, `event` and `data`. -/
  | message (id : ℕ) (event : String) (data : Fields)

/-- The frame of an entry. -/
def Frame.ofEntry (entry : Entry Fields) : Frame :=
  message entry.id ((entry.payload.lookup "event_type").getD "notification") entry.payload

/-- The entry of a frame. -/
def Frame.entry? : Frame → Option (Entry Fields)
  | keepAlive => none
  | message id _ data => some ⟨id, data⟩

/-- A connected client: the cursor, the id after which a read waits, the id the client started
after, once its first read began, and what it was sent. -/
structure Client where
  lastId : Cursor
  waiting : Option ℕ
  start : Option ℕ
  output : List Frame

/-- The entries a client was sent. -/
def Client.received (c : Client) : List (Entry Fields) := c.output.filterMap Frame.entry?

/-- `_sse_stream` begins, with the `Last-Event-ID` if there is one. -/
def Client.connect (lastEventId : Option ℕ) : Client where
  lastId := lastEventId.elim .dollar .id
  waiting := none
  start := lastEventId
  output := []

/-- A read returns entries: they are sent, and the last one moves the cursor. -/
def Client.receive (c : Client) (entries : List (Entry Fields)) : Client where
  lastId := (entries.getLast?.map fun entry => .id entry.id).getD c.lastId
  waiting := none
  start := c.start
  output := c.output ++ entries.map .ofEntry

/-- A read of the stream waits for entries after an id, unless there are some. -/
def Client.await (c : Client) (stream : Stream Fields) (after : ℕ) : Client :=
  match stream.xread readCount after with
  | [] => { c with waiting := some after }
  | entry :: entries => c.receive (entry :: entries)

/-- The first read begins. -/
def Client.begin (c : Client) (stream : Stream Fields) : Client :=
  { c with start := some (c.start.getD (c.lastId.resolve stream)) }

/-- The stream, everything that was appended to it, and the client once it is connected. -/
structure State where
  stream : Stream Fields
  appended : List (Entry Fields)
  client : Option Client

/-- What happens to the stream and the client. -/
inductive Action where
  /-- `_emit_event`; Redis trims so many of the entries that are too many. -/
  | append (fields : Fields) (trimmed : ℕ)
  /-- The client connects. -/
  | connect (lastEventId : Option ℕ)
  /-- A read arrives. -/
  | read
  /-- A read times out. -/
  | timeout
  /-- A read fails, while it waits or at once. -/
  | error

/-- A read that waits is answered by the first append it waits for. -/
def State.append (s : State) (fields : Fields) (trimmed : ℕ) : State :=
  let stream := s.stream.xaddAbout maxLength trimmed fields
  { stream
    appended := s.appended ++ [s.stream.next fields]
    client := s.client.map fun c =>
      match c.waiting with
      | none => c
      | some after => c.await stream after }

/-- One step. -/
def step (s : State) : Action → Option State
  | .append fields trimmed => some (s.append fields trimmed)
  | .connect lastEventId =>
    match s.client with
    | none => some { s with client := some (.connect lastEventId) }
    | some _ => none
  | .read =>
    match s.client with
    | some c =>
      if c.waiting = none then
        some { s with
          client := some ((c.begin s.stream).await s.stream (c.lastId.resolve s.stream)) }
      else none
    | none => none
  | .timeout =>
    match s.client with
    | some c =>
      if c.waiting = none then none
      else some { s with
        client := some { c with waiting := none, output := c.output ++ [.keepAlive] } }
    | none => none
  | .error =>
    match s.client with
    | some c => some { s with client := some { c.begin s.stream with waiting := none } }
    | none => none

/-- An empty stream, and nobody connected. -/
def init : State := ⟨.empty, [], none⟩

/-! ### What is asked for -/

/-- The client was sent entries that were appended after its start, each once and in order; an
entry of the stream after its start was sent, or comes after the cursor; and when a read waits, all
of them were sent. -/
structure DeliveredTo (s : State) (c : Client) (start : ℕ) : Prop where
  inOrder : c.received.Sublist s.appended
  after : ∀ e ∈ c.received, start < e.id
  all : ∀ e ∈ s.stream.entries, start < e.id →
    e ∈ c.received ∨ c.lastId.resolve s.stream < e.id
  waiting : c.waiting.isSome → ∀ e ∈ s.stream.entries, start < e.id → e ∈ c.received

/-- **Every entry is delivered**, once the first read has begun. -/
def Delivered (s : State) : Prop :=
  ∀ c, s.client = some c → ∀ start, c.start = some start → DeliveredTo s c start

/-- No entry is appended while a client that started at `$` has not been sent anything, its first
read has begun and no read is waiting. -/
def Covered (s : State) (a : Action) (_ : State) : Prop :=
  match a with
  | .append _ _ => ∀ c, s.client = some c → c.lastId = .dollar → c.start.isSome → c.waiting.isSome
  | .connect _ | .read | .timeout | .error => True

/-! ### What a read does -/

theorem received_receive (c : Client) (entries : List (Entry Fields)) :
    (c.receive entries).received = c.received ++ entries := by
  have hentries : (entries.map Frame.ofEntry).filterMap Frame.entry? = entries := by
    rw [List.filterMap_map]
    exact List.filterMap_some
  rw [Client.received, Client.receive, List.filterMap_append, hentries]
  rfl

theorem received_keepAlive (c : Client) :
    Client.received { c with waiting := none, output := c.output ++ [.keepAlive] } =
      c.received := by
  rw [Client.received, List.filterMap_append]
  exact List.append_nil _

/-- A read waits, or its entries are sent and the cursor is the id of the last one. -/
theorem await_cases (c : Client) (stream : Stream Fields) (a : ℕ) :
    (stream.xread readCount a = [] ∧ c.await stream a = { c with waiting := some a }) ∨
      ∃ hne : stream.xread readCount a ≠ [],
        c.await stream a = c.receive (stream.xread readCount a) ∧
        (c.receive (stream.xread readCount a)).lastId =
          .id ((stream.xread readCount a).getLast hne).id := by
  unfold Client.await
  cases hread : stream.xread readCount a with
  | nil => exact .inl ⟨rfl, rfl⟩
  | cons entry entries =>
    refine .inr ⟨List.cons_ne_nil _ _, rfl, ?_⟩
    rw [Client.receive, List.getLast?_eq_getLast_of_ne_nil (List.cons_ne_nil _ _)]
    rfl

theorem start_await (c : Client) (stream : Stream Fields) (a : ℕ) :
    (c.await stream a).start = c.start := by
  obtain ⟨-, hawait⟩ | ⟨-, hawait, -⟩ := await_cases c stream a
  · rw [hawait]
  · rw [hawait]
    rfl

/-- What was delivered does not depend on the client of the state. -/
theorem DeliveredTo.withClient {s : State} {c : Client} {b : ℕ} (h : DeliveredTo s c b)
    (client : Option Client) : DeliveredTo { s with client } c b :=
  ⟨h.inOrder, h.after, h.all, h.waiting⟩

/-- The stream holds some of the entries that were appended, whose ids grow up to the last one. -/
structure Grows (s : State) : Prop where
  sorted : s.appended.Pairwise fun e e' => e.id < e'.id
  bound : ∀ e ∈ s.appended, e.id ≤ s.stream.lastId
  entries : s.stream.entries.Sublist s.appended

/-- The cursor accounts for what was sent. -/
structure Tracks (s : State) (c : Client) : Prop where
  inOrder : c.received.Sublist s.appended
  upTo : ∀ e ∈ c.received, e.id ≤ c.lastId.resolve s.stream
  dollar : c.lastId = .dollar → c.received = []
  start : ∀ b, c.start = some b → b ≤ c.lastId.resolve s.stream
  cursor : c.lastId.resolve s.stream ≤ s.stream.lastId ∨
    c.start = some (c.lastId.resolve s.stream)
  started : c.lastId ≠ .dollar → c.start.isSome

/-- When a read waits, the first one has begun, and there is nothing after the cursor. -/
def Waits (s : State) (c : Client) : Prop :=
  ∀ a, c.waiting = some a → c.start.isSome ∧ a = c.lastId.resolve s.stream ∧
    ∀ e ∈ s.stream.entries, e.id ≤ a

/-- **What holds in every state of a run.** -/
structure Inv (s : State) : Prop where
  grows : Grows s
  tracks : ∀ c, s.client = some c → Tracks s c
  waits : ∀ c, s.client = some c → Waits s c

section Reads

variable {s : State} {c : Client} {a b : ℕ}

theorem Grows.sortedEntries (h : Grows s) :
    s.stream.entries.Pairwise fun e e' => e.id < e'.id :=
  h.sorted.sublist h.entries

/-- What a read needs to go on from: everything up to its id was sent. -/
structure ReadsFrom (s : State) (c : Client) (a b : ℕ) : Prop where
  inOrder : c.received.Sublist s.appended
  upTo : ∀ e ∈ c.received, e.id ≤ a
  start : b ≤ a
  after : ∀ e ∈ c.received, b < e.id
  all : ∀ e ∈ s.stream.entries, b < e.id → e ∈ c.received ∨ a < e.id

/-- **A read delivers**: it waits when everything was sent, or sends the next entries in order. -/
theorem deliveredTo_await (hs : Grows s) (h : ReadsFrom s c a b) :
    DeliveredTo s (c.await s.stream a) b := by
  obtain ⟨hnil, hawait⟩ | ⟨hne, hawait, hlast⟩ := await_cases c s.stream a
  · have hnone := (xread_eq_nil (by decide)).mp hnil
    have hsent : ∀ e ∈ s.stream.entries, b < e.id → e ∈ c.received :=
      fun e he hb => (h.all e he hb).resolve_right (hnone e he).not_gt
    rw [hawait]
    exact ⟨h.inOrder, h.after, fun e he hb => .inl (hsent e he hb), fun _ => hsent⟩
  · rw [hawait]
    have hread {e} (he : e ∈ s.stream.xread readCount a) := mem_xread he
    constructor
    · rw [received_receive]
      refine append_sublist hs.sorted h.inOrder ?_ h.upTo fun e he => (hread he).2
      exact (List.take_sublist _ _).trans ((List.filter_sublist).trans hs.entries)
    · intro e he
      rw [received_receive] at he
      obtain he | he := List.mem_append.mp he
      · exact h.after e he
      · exact h.start.trans_lt (hread he).2
    · intro e he hb
      rw [received_receive, hlast]
      obtain hsent | hlater := h.all e he hb
      · exact .inl (List.mem_append_left _ hsent)
      · obtain hnow | hnext := mem_xread_or hs.sortedEntries he hlater
        · exact .inl (List.mem_append_right _ hnow)
        · exact .inr (hnext _ (List.getLast_mem hne))
    · exact nofun

/-- The cursor goes on accounting for what was sent. -/
theorem tracks_await (hs : Grows s) (h : Tracks s c) (hstarted : c.start.isSome)
    (hstart : ∀ b, c.start = some b → b ≤ a) (hupTo : ∀ e ∈ c.received, e.id ≤ a) :
    Tracks s (c.await s.stream a) := by
  obtain ⟨-, hawait⟩ | ⟨hne, hawait, hlast⟩ := await_cases c s.stream a
  · rw [hawait]
    exact ⟨h.inOrder, h.upTo, h.dollar, h.start, h.cursor, h.started⟩
  · rw [hawait]
    have hread {e} (he : e ∈ s.stream.xread readCount a) := mem_xread he
    have hsorted : (s.stream.xread readCount a).Pairwise fun e e' => e.id < e'.id :=
      hs.sortedEntries.sublist ((List.take_sublist _ _).trans List.filter_sublist)
    have hlastmem := hread (List.getLast_mem hne)
    refine ⟨?_, ?_, ?_, ?_, .inl ?_, fun _ => hstarted⟩
    · rw [received_receive]
      refine append_sublist hs.sorted h.inOrder ?_ hupTo fun e he => (hread he).2
      exact (List.take_sublist _ _).trans ((List.filter_sublist).trans hs.entries)
    · intro e he
      rw [received_receive] at he
      rw [hlast]
      obtain he | he := List.mem_append.mp he
      · exact (hupTo e he).trans hlastmem.2.le
      · exact id_le_getLast hsorted hne he
    · rw [hlast]
      exact nofun
    · intro b hb
      rw [hlast]
      exact (hstart b hb).trans hlastmem.2.le
    · rw [hlast]
      exact hs.bound _ (hs.entries.subset hlastmem.1)

theorem waits_await (hstarted : c.start.isSome)
    (hpos : c.lastId.resolve s.stream = a ∨ ∃ e ∈ s.stream.entries, a < e.id) :
    Waits s (c.await s.stream a) := by
  obtain ⟨hnil, hawait⟩ | ⟨-, hawait, -⟩ := await_cases c s.stream a
  · have hnone := (xread_eq_nil (by decide)).mp hnil
    rw [hawait]
    rintro _ ⟨⟩
    refine ⟨hstarted, ?_, hnone⟩
    obtain hpos | ⟨e, he, hlater⟩ := hpos
    · exact hpos.symm
    · exact absurd (hnone e he) hlater.not_ge
  · rw [hawait]
    exact nofun

/-- The first read has begun: the client has a start, and nothing else is new. -/
theorem tracks_begin (h : Tracks s c) : Tracks s (c.begin s.stream) := by
  refine ⟨h.inOrder, h.upTo, h.dollar, ?_, ?_, fun _ => rfl⟩
  · rintro _ ⟨⟩
    cases hstart : c.start with
    | none => exact le_rfl
    | some b => exact h.start b hstart
  · obtain hle | hstart := h.cursor
    · exact .inl hle
    · exact .inr (by rw [Client.begin, hstart]; rfl)

/-- A read goes on from the cursor. -/
theorem readsFrom_begin (h : Tracks s c)
    (hdelivered : ∀ start, c.start = some start → DeliveredTo s c start)
    (hb : (c.begin s.stream).start = some b) :
    ReadsFrom s (c.begin s.stream) (c.lastId.resolve s.stream) b := by
  have hbegin := tracks_begin h
  refine ⟨h.inOrder, h.upTo, hbegin.start b hb, ?_, ?_⟩
  · intro e he
    cases hstart : c.start with
    | some b' =>
      rw [Client.begin, hstart] at hb
      cases hb
      exact (hdelivered _ hstart).after e he
    | none =>
      have hdollar : c.lastId = .dollar := by
        by_contra hne
        have hsome := h.started hne
        rw [hstart] at hsome
        cases hsome
      have hnone := h.dollar hdollar
      rw [show (c.begin s.stream).received = [] from hnone] at he
      cases he
  · intro e he hlater
    cases hstart : c.start with
    | some b' =>
      rw [Client.begin, hstart] at hb
      cases hb
      exact (hdelivered _ hstart).all e he hlater
    | none =>
      rw [Client.begin, hstart] at hb
      cases hb
      exact .inr hlater

end Reads

/-! ### What a step keeps -/

section Steps

variable {s s' : State} {c : Client} {fields : Fields} {trimmed b : ℕ}

theorem grows_append (h : Grows s) (fields : Fields) (trimmed : ℕ) :
    Grows (s.append fields trimmed) := by
  obtain ⟨n, hentries⟩ := entries_xaddAbout s.stream (show 0 < maxLength by decide) trimmed fields
  refine ⟨?_, ?_, ?_⟩
  · refine List.pairwise_append.mpr ⟨h.sorted, List.pairwise_singleton _ _, fun e he e' he' => ?_⟩
    rw [List.mem_singleton.mp he']
    exact Nat.lt_succ_of_le (h.bound e he)
  · intro e he
    show e.id ≤ s.stream.lastId + 1
    obtain he | he := List.mem_append.mp he
    · exact (h.bound e he).trans (Nat.le_succ _)
    · rw [List.mem_singleton.mp he]
      exact le_rfl
  · show (s.stream.xaddAbout maxLength trimmed fields).entries.Sublist _
    rw [hentries]
    exact ((List.drop_sublist n _).trans h.entries).append (List.Sublist.refl _)

/-- The entries after an append. -/
theorem mem_append_entries {e : Entry Fields}
    (he : e ∈ (s.append fields trimmed).stream.entries) :
    e ∈ s.stream.entries ∨ e = s.stream.next fields := by
  obtain ⟨n, hentries⟩ := entries_xaddAbout s.stream (show 0 < maxLength by decide) trimmed fields
  rw [State.append, hentries] at he
  obtain he | he := List.mem_append.mp he
  · exact .inl (List.mem_of_mem_drop he)
  · exact .inr (List.mem_singleton.mp he)

theorem next_mem_append : s.stream.next fields ∈ (s.append fields trimmed).stream.entries := by
  obtain ⟨n, hentries⟩ := entries_xaddAbout s.stream (show 0 < maxLength by decide) trimmed fields
  rw [State.append, hentries]
  exact List.mem_append_right _ (List.mem_singleton_self _)

/-- An append leaves the cursor of a client alone, except that `$` moves with the stream. -/
theorem tracks_append (h : Tracks s c) : Tracks (s.append fields trimmed) c := by
  have hle : c.lastId.resolve s.stream ≤ c.lastId.resolve (s.append fields trimmed).stream := by
    cases c.lastId with
    | dollar => exact Nat.le_succ _
    | id n => exact le_rfl
  refine ⟨h.inOrder.trans (List.sublist_append_left _ _), fun e he => (h.upTo e he).trans hle,
    h.dollar, fun b hb => (h.start b hb).trans hle, ?_, h.started⟩
  have hcursor := h.cursor
  cases hlast : c.lastId with
  | dollar => exact .inl le_rfl
  | id n =>
    rw [hlast] at hcursor
    exact hcursor.imp (fun hn => hn.trans (Nat.le_succ _)) fun hstart => hstart

/-- A new entry that comes after the start comes after the cursor. -/
theorem resolve_lt_next (h : Tracks s c) (hb : c.start = some b)
    (hlater : b < (s.stream.next fields).id) :
    c.lastId.resolve s.stream < (s.stream.next fields).id := by
  obtain hle | hstart := h.cursor
  · exact Nat.lt_succ_of_le hle
  · rw [hb] at hstart
    rwa [← Option.some.inj hstart]

/-- Either the cursor is an id, or the new entry is after it. -/
theorem append_position (c : Client) :
    c.lastId.resolve (s.append fields trimmed).stream = c.lastId.resolve s.stream ∨
      ∃ e ∈ (s.append fields trimmed).stream.entries, c.lastId.resolve s.stream < e.id := by
  cases c.lastId with
  | dollar => exact .inr ⟨_, next_mem_append, Nat.lt_succ_self _⟩
  | id n => exact .inl rfl

/-- **An append is delivered to a read that waits.** -/
theorem append_waiting (hs : Grows s) (h : Tracks s c) (hwaits : Waits s c) {a : ℕ}
    (ha : c.waiting = some a)
    (hdelivered : ∀ start, c.start = some start → DeliveredTo s c start)
    (hb : c.start = some b) :
    DeliveredTo (s.append fields trimmed)
      (c.await (s.append fields trimmed).stream a) b := by
  obtain ⟨-, rfl, -⟩ := hwaits a ha
  have hsent := hdelivered b hb
  refine deliveredTo_await (grows_append hs fields trimmed)
    ⟨h.inOrder.trans (List.sublist_append_left _ _), h.upTo, h.start b hb, hsent.after, ?_⟩
  intro e he hlater
  obtain he | rfl := mem_append_entries he
  · exact .inl (hsent.waiting (by rw [ha]; rfl) e he hlater)
  · exact .inr (resolve_lt_next h hb hlater)

/-- **An append beside no read** is to be read later, unless the cursor is still `$`. -/
theorem append_idle_iff (h : Tracks s c) (hidle : c.waiting = none) (hb : c.start = some b)
    (hdelivered : DeliveredTo s c b) :
    DeliveredTo (s.append fields trimmed) c b ↔ c.lastId ≠ .dollar := by
  cases hlast : c.lastId with
  | dollar =>
    refine iff_of_false (fun hsent => ?_) (not_not.mpr rfl)
    have hstart := h.start b hb
    rw [hlast] at hstart
    have hnext := hsent.all _ next_mem_append (Nat.lt_succ_of_le hstart)
    rw [h.dollar hlast, hlast] at hnext
    obtain hnext | hnext := hnext
    · cases hnext
    · exact absurd hnext (lt_irrefl (s.stream.lastId + 1))
  | id n =>
    refine iff_of_true ⟨hdelivered.inOrder.trans (List.sublist_append_left _ _),
      hdelivered.after, fun e he hlater => ?_, by rw [hidle]; exact nofun⟩ nofun
    obtain he | rfl := mem_append_entries he
    · have hall := hdelivered.all e he hlater
      rw [hlast] at hall ⊢
      exact hall
    · have hnext := resolve_lt_next h hb hlater
      rw [hlast] at hnext ⊢
      exact .inr hnext

/-- The client after an append. -/
theorem client_append {c' : Client} (h : (s.append fields trimmed).client = some c') :
    ∃ c, s.client = some c ∧ ((c.waiting = none ∧ c' = c) ∨
      ∃ a, c.waiting = some a ∧ c' = c.await (s.append fields trimmed).stream a) := by
  obtain ⟨c, hc, rfl⟩ := Option.map_eq_some_iff.mp h
  refine ⟨c, hc, ?_⟩
  cases hwaiting : c.waiting with
  | none => exact .inl ⟨rfl, rfl⟩
  | some a => exact .inr ⟨a, rfl, rfl⟩

theorem step_connect {lastEventId : Option ℕ} (h : step s (.connect lastEventId) = some s') :
    s.client = none ∧ s' = { s with client := some (.connect lastEventId) } := by
  simp only [step] at h
  split at h
  next hc => exact ⟨hc, (Option.some.inj h).symm⟩
  · cases h

theorem step_read (h : step s .read = some s') :
    ∃ c, s.client = some c ∧ c.waiting = none ∧ s' = { s with
      client := some ((c.begin s.stream).await s.stream (c.lastId.resolve s.stream)) } := by
  simp only [step] at h
  split at h
  next c hc =>
    split at h
    next hidle => exact ⟨c, hc, hidle, (Option.some.inj h).symm⟩
    · cases h
  · cases h

theorem step_timeout (h : step s .timeout = some s') :
    ∃ c, s.client = some c ∧ s' = { s with
      client := some { c with waiting := none, output := c.output ++ [.keepAlive] } } := by
  simp only [step] at h
  split at h
  next c hc =>
    split at h
    · cases h
    · exact ⟨c, hc, (Option.some.inj h).symm⟩
  · cases h

theorem step_error (h : step s .error = some s') :
    ∃ c, s.client = some c ∧
      s' = { s with client := some { c.begin s.stream with waiting := none } } := by
  simp only [step] at h
  split at h
  next c hc => exact ⟨c, hc, (Option.some.inj h).symm⟩
  · cases h

/-- A state with another client. -/
theorem Inv.withClient (h : Inv s) {c : Client} (htracks : Tracks s c) (hwaits : Waits s c) :
    Inv { s with client := some c } := by
  refine ⟨⟨h.grows.sorted, h.grows.bound, h.grows.entries⟩, ?_, ?_⟩
  · rintro _ ⟨⟩
    exact ⟨htracks.inOrder, htracks.upTo, htracks.dollar, htracks.start, htracks.cursor,
      htracks.started⟩
  · rintro _ ⟨⟩
    exact hwaits

/-- **Every step keeps the invariant.** -/
theorem inv_step {a : Action} (h : Inv s) (hstep : step s a = some s') : Inv s' := by
  cases a with
  | append fields trimmed =>
    cases hstep
    have hgrows := grows_append h.grows fields trimmed
    refine ⟨hgrows, ?_, ?_⟩
    · intro c' hc'
      obtain ⟨c, hc, ⟨-, rfl⟩ | ⟨a, ha, rfl⟩⟩ := client_append hc'
      · exact tracks_append (h.tracks _ hc)
      -- a client that waits is served at once
      · obtain ⟨hstarted, rfl, -⟩ := h.waits c hc a ha
        have htracks := h.tracks c hc
        exact tracks_await hgrows (tracks_append htracks) hstarted htracks.start htracks.upTo
    · intro c' hc'
      obtain ⟨c, hc, ⟨hidle, rfl⟩ | ⟨a, ha, rfl⟩⟩ := client_append hc'
      · intro a ha
        rw [hidle] at ha
        cases ha
      · obtain ⟨hstarted, rfl, -⟩ := h.waits c hc a ha
        exact waits_await hstarted (append_position c)
  | connect lastEventId =>
    obtain ⟨-, rfl⟩ := step_connect hstep
    refine h.withClient ⟨List.nil_sublist _, nofun, fun _ => rfl, ?_, ?_, ?_⟩ nofun
    · cases lastEventId with
      | none => exact nofun
      | some e =>
        rintro _ ⟨⟩
        exact le_rfl
    · cases lastEventId with
      | none => exact .inl le_rfl
      | some e => exact .inr rfl
    · cases lastEventId with
      | none => exact fun hne => absurd rfl hne
      | some e => exact fun _ => rfl
  | read =>
    obtain ⟨c, hc, hidle, rfl⟩ := step_read hstep
    have hbegin := tracks_begin (h.tracks c hc)
    exact h.withClient (tracks_await h.grows hbegin rfl hbegin.start hbegin.upTo)
      (waits_await rfl (.inl rfl))
  | timeout =>
    obtain ⟨c, hc, rfl⟩ := step_timeout hstep
    have htracks := h.tracks c hc
    have hreceived := received_keepAlive c
    refine h.withClient ⟨?_, ?_, ?_, htracks.start, htracks.cursor, htracks.started⟩ nofun
    · rw [hreceived]
      exact htracks.inOrder
    · rw [hreceived]
      exact htracks.upTo
    · rw [hreceived]
      exact htracks.dollar
  | error =>
    obtain ⟨c, hc, rfl⟩ := step_error hstep
    have hbegin := tracks_begin (h.tracks c hc)
    exact h.withClient ⟨hbegin.inOrder, hbegin.upTo, hbegin.dollar, hbegin.start, hbegin.cursor,
      hbegin.started⟩ nofun

/-- An entry that is appended is covered exactly when it will be delivered. -/
theorem covered_append_iff {fields : Fields} {trimmed : ℕ} (h : Inv s) (hs : Delivered s) :
    Covered s (.append fields trimmed) (s.append fields trimmed) ↔
      Delivered (s.append fields trimmed) := by
  cases hclient : s.client with
  | none =>
    refine iff_of_true (fun c hc => ?_) fun c' hc' => ?_
    · rw [hclient] at hc
      cases hc
    · obtain ⟨c, hc, -⟩ := client_append hc'
      rw [hclient] at hc
      cases hc
  | some c =>
    have htracks := h.tracks c hclient
    cases hwaiting : c.waiting with
    | some a =>
      refine iff_of_true (fun c' hc' => ?_) fun c' hc' start hstart => ?_
      · rw [hclient] at hc'
        cases hc'
        exact fun _ _ => by rw [hwaiting]; rfl
      · obtain ⟨c₂, hc₂, ⟨hidle, -⟩ | ⟨a₂, ha₂, rfl⟩⟩ := client_append hc' <;>
          rw [hclient] at hc₂ <;> cases hc₂
        · rw [hwaiting] at hidle
          cases hidle
        · rw [start_await] at hstart
          exact append_waiting h.grows htracks (h.waits c hclient) ha₂ (hs c hclient) hstart
    | none =>
      have hclient' : (s.append fields trimmed).client = some c := by
        simp [State.append, hclient, hwaiting]
      constructor
      · intro hcovered c' hc' start hstart
        rw [hclient'] at hc'
        cases hc'
        refine (append_idle_iff htracks hwaiting hstart (hs c hclient start hstart)).mpr ?_
        intro hdollar
        have hsome := hcovered c hclient hdollar (by rw [hstart]; rfl)
        rw [hwaiting] at hsome
        cases hsome
      · intro hdelivered c' hc' hdollar hsome
        rw [hclient] at hc'
        cases hc'
        obtain ⟨start, hstart⟩ := Option.isSome_iff_exists.mp hsome
        exact absurd hdollar ((append_idle_iff htracks hwaiting hstart
          (hs c hclient start hstart)).mp (hdelivered c hclient' start hstart))

/-- **A step delivers exactly when it is covered.** -/
theorem covered_iff {a : Action} (h : Inv s) (hs : Delivered s) (hstep : step s a = some s') :
    Covered s a s' ↔ Delivered s' := by
  cases a with
  | append fields trimmed =>
    cases hstep
    exact covered_append_iff h hs
  | connect lastEventId =>
    obtain ⟨-, rfl⟩ := step_connect hstep
    refine iff_of_true trivial ?_
    rintro _ ⟨⟩ start hstart
    refine ⟨List.nil_sublist _, nofun, fun e _ hlater => .inr ?_, nofun⟩
    cases lastEventId with
    | none => cases hstart
    | some b =>
      cases hstart
      exact hlater
  | read =>
    obtain ⟨c, hc, hidle, rfl⟩ := step_read hstep
    refine iff_of_true trivial ?_
    rintro _ ⟨⟩ start hstart
    rw [start_await] at hstart
    have hreads := readsFrom_begin (h.tracks c hc) (hs c hc) hstart
    exact (deliveredTo_await h.grows hreads).withClient _
  | timeout =>
    obtain ⟨c, hc, rfl⟩ := step_timeout hstep
    refine iff_of_true trivial ?_
    rintro _ ⟨⟩ start hstart
    have hsent := hs c hc start hstart
    have hreceived := received_keepAlive c
    refine ⟨?_, ?_, fun e he hlater => ?_, nofun⟩
    · rw [hreceived]
      exact hsent.inOrder
    · rw [hreceived]
      exact hsent.after
    · rw [hreceived]
      exact hsent.all e he hlater
  | error =>
    obtain ⟨c, hc, rfl⟩ := step_error hstep
    refine iff_of_true trivial ?_
    rintro _ ⟨⟩ start hstart
    have hreads := readsFrom_begin (h.tracks c hc) (hs c hc) hstart
    exact ⟨hreads.inOrder, hreads.after, hreads.all, nofun⟩

end Steps

theorem inv_init : Inv init where
  grows := ⟨List.Pairwise.nil, nofun, List.Sublist.refl _⟩
  tracks := nofun
  waits := nofun

/-- **Every entry is delivered in a whole run exactly when every append is covered.** -/
theorem always_delivered_iff (l : List Action) :
    Runs.Always step Delivered init l ↔ Runs.EachStep step Covered init l := by
  have hstep (s : State) (a : Action) (s' : State) (hs : Inv s ∧ Delivered s)
      (h : step s a = some s') : Covered s a s' ↔ Delivered s' := covered_iff hs.1 hs.2 h
  refine Runs.always_iff (fun s hs => hs.2) hstep (fun s a s' hs h hok => ?_) ⟨inv_init, ?_⟩ l
  · exact ⟨inv_step hs.1 h, (hstep s a s' hs h).mp hok⟩
  · exact nofun

/-- An event is appended after the first read of a client without an id has timed out. -/
def missedEvent : List Action := [.connect none, .read, .timeout, .append ∅ 0, .read]

/-- **Between two reads at `$` an event is lost**: the second read waits, and nothing was sent. -/
theorem not_always_delivered_missedEvent :
    ¬ Runs.Always step Delivered init missedEvent := by
  intro halways
  have hdelivered := halways missedEvent List.prefix_rfl _ rfl _ rfl 0 rfl
  have hlost : (⟨1, ∅⟩ : Entry Fields) ∈ ([] : List (Entry Fields)) ∨ 1 < 1 :=
    hdelivered.all ⟨1, ∅⟩ List.mem_cons_self Nat.one_pos
  obtain hlost | hlost := hlost
  · cases hlost
  · exact absurd hlost (lt_irrefl 1)

/-! ### Clients with an id, and clients that keep reading -/

/-- The client is not at `$`. -/
def HasId (s : State) : Prop := ∀ c, s.client = some c → c.lastId ≠ .dollar

/-- A cursor that is an id stays one. -/
theorem lastId_await {c : Client} (h : c.lastId ≠ .dollar) (stream : Stream Fields) (a : ℕ) :
    (c.await stream a).lastId ≠ .dollar := by
  obtain ⟨-, hawait⟩ | ⟨hne, hawait, hlast⟩ := await_cases c stream a
  · rw [hawait]
    exact h
  · rw [hawait, hlast]
    exact nofun

theorem hasId_step {s s' : State} {a : Action} (hs : HasId s) (hconnect : a ≠ .connect none)
    (h : step s a = some s') : HasId s' := by
  cases a with
  | append fields trimmed =>
    cases h
    intro c' hc'
    obtain ⟨c, hc, ⟨-, rfl⟩ | ⟨a, -, rfl⟩⟩ := client_append hc'
    · exact hs _ hc
    · exact lastId_await (hs c hc) _ a
  | connect lastEventId =>
    obtain ⟨-, rfl⟩ := step_connect h
    rintro _ ⟨⟩
    cases lastEventId with
    | none => exact absurd rfl hconnect
    | some e => exact nofun
  | read =>
    obtain ⟨c, hc, -, rfl⟩ := step_read h
    rintro _ ⟨⟩
    have hid : (c.begin s.stream).lastId ≠ .dollar := hs c hc
    exact lastId_await hid s.stream _
  | timeout =>
    obtain ⟨c, hc, rfl⟩ := step_timeout h
    rintro _ ⟨⟩
    exact hs c hc
  | error =>
    obtain ⟨c, hc, rfl⟩ := step_error h
    rintro _ ⟨⟩
    exact hs c hc

/-- **A client that connects with an id misses nothing**, whatever times out or fails. -/
theorem always_delivered_of_lastEventId {l : List Action} (h : ∀ a ∈ l, a ≠ .connect none) :
    Runs.Always step Delivered init l := by
  have hinit : Inv init ∧ Delivered init ∧ HasId init := ⟨inv_init, nofun, nofun⟩
  refine Runs.always_of_eachStep (fun s hs => hs.2.1)
    (fun s a s' (hs : Inv s ∧ Delivered s ∧ HasId s) hstep hconnect => ?_) hinit l
    (Runs.eachStep_of_forall_mem h)
  refine ⟨inv_step hs.1 hstep, (covered_iff hs.1 hs.2.1 hstep).mp ?_,
    hasId_step hs.2.2 hconnect hstep⟩
  cases a with
  | append fields trimmed => exact fun c hc hdollar => absurd hdollar (hs.2.2 c hc)
  | connect _ | read | timeout | error => trivial

/-- A read waits, or moves the cursor to an entry after it. -/
theorem step_read_progress {s : State} {c : Client} (hc : s.client = some c)
    (hidle : c.waiting = none) : ∃ c', step s .read = some { s with client := some c' } ∧
      (c'.waiting.isSome ∨ ∃ e ∈ s.stream.entries, c.lastId.resolve s.stream < e.id ∧
        c'.lastId.resolve s.stream = e.id) := by
  refine ⟨(c.begin s.stream).await s.stream (c.lastId.resolve s.stream), ?_, ?_⟩
  · simp [step, hc, hidle]
  · obtain ⟨-, hawait⟩ | ⟨hne, hawait, hlast⟩ :=
      await_cases (c.begin s.stream) s.stream (c.lastId.resolve s.stream)
    · rw [hawait]
      exact .inl rfl
    · obtain ⟨hmem, hlater⟩ := mem_xread (List.getLast_mem hne)
      rw [hawait, hlast]
      exact .inr ⟨_, hmem, hlater, rfl⟩

/-- There are fewer entries after a later one. -/
theorem length_filter_lt {l : List (Entry Fields)} {n : ℕ} {e : Entry Fields} (he : e ∈ l)
    (hn : n < e.id) : (l.filter fun e' => e.id < e'.id).length <
      (l.filter fun e' => n < e'.id).length := by
  have hsplit : (l.filter fun e' => e.id < e'.id) =
      (l.filter fun e' => n < e'.id).filter fun e' => e.id < e'.id := by
    rw [List.filter_filter]
    refine List.filter_congr fun e' _ => ?_
    rw [Bool.eq_iff_iff, Bool.and_eq_true, decide_eq_true_iff, decide_eq_true_iff]
    exact (and_iff_left_of_imp hn.trans).symm
  rw [hsplit, List.length_filter_lt_length_iff_exists]
  exact ⟨e, List.mem_filter.mpr ⟨he, decide_eq_true hn⟩, by simp⟩

/-- **A client that keeps reading comes to wait**, so that it was sent everything there is. -/
theorem exists_reads (s : State) (c : Client) (hc : s.client = some c) :
    ∃ n s' c', Runs.run step s (List.replicate n .read) = some s' ∧ s'.stream = s.stream ∧
      s'.client = some c' ∧ c'.waiting.isSome := by
  -- each read takes at least one of the entries that are left
  induction hleft : (s.stream.entries.filter fun e => c.lastId.resolve s.stream < e.id).length
    using Nat.strong_induction_on generalizing s c with
  | _ k ih =>
    cases hwaiting : c.waiting with
    | some a => exact ⟨0, s, c, rfl, rfl, hc, by rw [hwaiting]; rfl⟩
    | none =>
      obtain ⟨c₁, hread, hwaits | ⟨e, he, hlater, hcursor⟩⟩ := step_read_progress hc hwaiting
      · refine ⟨1, { s with client := some c₁ }, c₁, ?_, rfl, rfl, hwaits⟩
        rw [List.replicate_one, Runs.run_cons, hread]
        rfl
      · have hfewer : (s.stream.entries.filter fun e =>
            c₁.lastId.resolve s.stream < e.id).length < k := by
          rw [← hleft, hcursor]
          exact length_filter_lt he hlater
        obtain ⟨n, s', c', hrun, hstream, hc', hwait⟩ :=
          ih _ hfewer { s with client := some c₁ } c₁ rfl rfl
        refine ⟨n + 1, s', c', ?_, hstream, hc', hwait⟩
        rw [List.replicate_succ, Runs.run_cons, hread]
        exact hrun

end KuzuEventBus.Service.EventStream
