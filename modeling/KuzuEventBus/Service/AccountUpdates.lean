import KuzuEventBus.Lib.Runs
import KuzuEventBus.Service.Accounts
import Mathlib.Logic.Function.Basic

/-!
# Updates of an account, interleaved

Every authenticated request reads the account, marks its key as used and saves it, and so do, with
changes of their own, the use cases that suspend an account and revoke its key.  A save writes the
whole row and compares nothing with the row it replaces.  The read and the save are one step each,
and so is what is done to the copy in between.

## Main definitions

* `Operation`, `Task`, `State`, `step` — the operations in flight, and their steps.
* `Standing`, `Kept` — the suspensions and revocations that have returned, and that the stored row
  shows them.
* `InTime` — what a step has to meet.

## Main results

* `kept_save_iff` — when a save keeps what has returned before it.
* `always_kept_iff` — **suspensions and revocations last exactly when no request and no revocation
  saves a copy that is older than one of them.**
-/

namespace KuzuEventBus.Service.AccountUpdates

/-! ### The operations -/

/-- What reads an account, changes it and saves it. -/
inductive Operation where
  /-- `AuthenticationMiddleware.dispatch`. -/
  | request (apiKey : String)
  /-- `UpdateCustomerSubscriptionStatus`. -/
  | updateStatus (id : Uuid) (newStatus : String)
  /-- `RevokeCustomerApiKey`. -/
  | revoke (id : Uuid) (apiKey : String)
  /-- `activate_account`. -/
  | activate (id : Uuid)

/-- An operation in flight, with its copy of the account. -/
structure Task where
  operation : Operation
  account : CustomerAccount
  changed : Bool

/-- What has returned success, with no activation of the account since. -/
inductive Standing where
  | suspended (id : Uuid)
  | revoked (id : Uuid)
  deriving DecidableEq

/-- The account it is about. -/
def Standing.id : Standing → Uuid
  | suspended id | revoked id => id

/-- A row shows it. -/
def Standing.shownBy (account : CustomerAccount) : Standing → Bool
  | suspended _ => account.status = .suspended
  | revoked _ => !account.apiKey.isActive

/-- The repository, the keys of the authentication service, the operations in flight, and what has
returned. -/
structure State where
  accounts : Accounts
  keys : Keys
  tasks : ℕ → Option Task
  standing : List Standing

/-- The steps of the operations. -/
inductive Action where
  /-- An operation reads its account. -/
  | read (n : ℕ) (operation : Operation)
  /-- It changes its copy, at a time; a new key has the token. -/
  | change (n : ℕ) (now : Instant) (token : Token)
  /-- It saves its copy. -/
  | save (n : ℕ)
  /-- An exception ends it. -/
  | abort (n : ℕ)

/-- The account an operation reads; there is none when the request is refused, or nothing is found.
-/
def Operation.find (accounts : Accounts) : Operation → Option CustomerAccount
  | request apiKey => validateApiKey accounts apiKey
  | updateStatus id _ | revoke id _ | activate id => accounts.findById id

/-- An operation ends. -/
def State.finish (s : State) (n : ℕ) : State :=
  { s with tasks := Function.update s.tasks n none }

/-- An operation has changed its copy. -/
def State.advance (s : State) (n : ℕ) (task : Task) (account : CustomerAccount) : State :=
  { s with tasks := Function.update s.tasks n (some ⟨task.operation, account, true⟩) }

/-- A revocation returns success and has nothing to save.  It stands for something when the key is
the one of the account, which was inactive already. -/
def State.revokedOther (s : State) (n : ℕ) (task : Task) (apiKey : String) (keys : Keys) : State :=
  { s.finish n with
    keys
    standing :=
      if task.account.apiKey.value = apiKey then .revoked task.account.id :: s.standing
      else s.standing }

/-- The change an operation makes between its read and its save. -/
def State.change (s : State) (n : ℕ) (task : Task) (now : Instant) (token : Token) : State :=
  match task.operation with
  | .request _ =>
    match task.account.apiKey.markAsUsed now with
    | .ok apiKey => s.advance n task { task.account with apiKey }
    | .error _ => s.finish n
  | .updateStatus _ newStatus =>
    match updateSubscriptionStatus newStatus now task.account with
    | .ok (some account) => s.advance n task account
    | .ok none | .error _ => s.finish n
  | .activate _ =>
    match activateAccount token now task.account with
    | .ok account => s.advance n task account
    | .error _ => s.finish n
  | .revoke _ apiKey =>
    match revokeApiKey s.keys apiKey now with
    | none => s.finish n
    | some keys =>
      if revokesOwnKey task.account apiKey then
        { s.advance n task { task.account with apiKey := task.account.apiKey.deactivate } with
          keys }
      else s.revokedOther n task apiKey keys

/-- What stands once an operation has saved its copy and returned. -/
def Task.standing (task : Task) (standing : List Standing) : List Standing :=
  match task.operation with
  | .request _ => standing
  | .updateStatus _ _ => .suspended task.account.id :: standing
  | .revoke _ _ => .revoked task.account.id :: standing
  | .activate _ => standing.filter fun x => x.id ≠ task.account.id

/-- An operation saves its copy and returns. -/
def State.save (s : State) (n : ℕ) (task : Task) : State :=
  { s.finish n with
    accounts := s.accounts.save task.account
    standing := task.standing s.standing }

/-- One step. -/
def step (s : State) : Action → Option State
  | .read n operation =>
    match s.tasks n with
    | some _ => none
    | none =>
      match operation.find s.accounts with
      | none => some s
      | some account =>
        some { s with tasks := Function.update s.tasks n (some ⟨operation, account, false⟩) }
  | .change n now token =>
    match s.tasks n with
    | some task => if task.changed then none else some (s.change n task now token)
    | none => none
  | .save n =>
    match s.tasks n with
    | some task => if task.changed then some (s.save n task) else none
    | none => none
  | .abort n => some (s.finish n)

/-- Nothing is in flight. -/
def start (accounts : Accounts) (keys : Keys) : State := ⟨accounts, keys, fun _ => none, []⟩

/-! ### What is asked for -/

/-- The stored row shows it. -/
def Standing.Shown (accounts : Accounts) (x : Standing) : Prop :=
  (accounts.findById x.id).any (fun account => x.shownBy account) = true

/-- **The stored rows show every suspension and every revocation that has returned.** -/
def Kept (s : State) : Prop := ∀ x ∈ s.standing, x.Shown s.accounts

/-- A request saves an account for which no suspension and no revocation stands, and a revocation
saves a suspended copy of an account for which a suspension stands; and when a revocation finds the
key of its copy inactive already, so is the one that is stored. -/
def InTime (s : State) (a : Action) (_ : State) : Prop :=
  match a with
  | .save n => ∀ task, s.tasks n = some task →
      match task.operation with
      | .request _ => ∀ x ∈ s.standing, x.id ≠ task.account.id
      | .revoke _ _ => .suspended task.account.id ∈ s.standing → task.account.status = .suspended
      | .updateStatus _ _ | .activate _ => True
  | .change n now _ => ∀ task, s.tasks n = some task →
      match task.operation with
      | .revoke _ apiKey =>
        (revokeApiKey s.keys apiKey now).isSome → task.account.apiKey.value = apiKey →
          task.account.apiKey.isActive = false → (Standing.revoked task.account.id).Shown s.accounts
      | _ => True
  | .read _ _ | .abort _ => True

instance (accounts : Accounts) (x : Standing) : Decidable (x.Shown accounts) :=
  inferInstanceAs (Decidable (_ = true))

instance (s : State) : Decidable (Kept s) :=
  inferInstanceAs (Decidable (∀ x ∈ s.standing, x.Shown s.accounts))

/-! ### What the copies look like -/

/-- The copy of a request can be used, and the one that is about to be saved is as the operation
leaves it. -/
def Task.Sound (task : Task) : Prop :=
  match task.operation with
  | .request _ => task.account.apiKey.isActive = true ∧ task.account.status.usable = true
  | .updateStatus _ _ => task.changed = true →
      task.account.status = .suspended ∧ task.account.apiKey.isActive = false
  | .revoke _ _ => task.changed = true → task.account.apiKey.isActive = false
  | .activate _ => True

/-- Every task is sound. -/
def Sound (s : State) : Prop := ∀ n task, s.tasks n = some task → task.Sound

section Steps

variable {s s' : State} {n : ℕ} {task : Task}

theorem Sound.finish (h : Sound s) (n : ℕ) : Sound (s.finish n) := by
  intro m task hm
  obtain rfl | hne := eq_or_ne m n
  · simp [State.finish] at hm
  · simp only [State.finish, Function.update_of_ne hne] at hm
    exact h m task hm

theorem Sound.update (h : Sound s) {n : ℕ} {task : Task} (htask : task.Sound) {accounts : Accounts}
    {keys : Keys} {standing : List Standing} :
    Sound ⟨accounts, keys, Function.update s.tasks n (some task), standing⟩ := by
  intro m task' hm
  obtain rfl | hne := eq_or_ne m n
  · obtain rfl : task = task' := by simpa using hm
    exact htask
  · simp only [Function.update_of_ne hne] at hm
    exact h m task' hm

/-- What a change can come to: the operation ends or goes on, or it is a revocation with nothing to
save. -/
theorem change_cases (s : State) (n : ℕ) (task : Task) (now : Instant) (token : Token) :
    ((∀ id apiKey, task.operation = .revoke id apiKey →
        (revokeApiKey s.keys apiKey now).isSome → revokesOwnKey task.account apiKey = true) ∧
      (s.change n task now token = s.finish n ∨
        ∃ account keys, (task.Sound → Task.Sound ⟨task.operation, account, true⟩) ∧
          s.change n task now token = { s.advance n task account with keys })) ∨
      ∃ id apiKey keys, task.operation = .revoke id apiKey ∧
        (revokeApiKey s.keys apiKey now).isSome ∧ revokesOwnKey task.account apiKey = false ∧
        s.change n task now token = s.revokedOther n task apiKey keys := by
  unfold State.change
  cases hop : task.operation with
  | request apiKey =>
    refine .inl ⟨nofun, ?_⟩
    dsimp only
    unfold ApiKey.markAsUsed
    split
    · next hmark =>
      refine .inr ⟨_, s.keys, fun hsound => ?_, rfl⟩
      split at hmark
      · cases hmark
        simpa [Task.Sound, hop] using hsound
      · cases hmark
    · exact .inl rfl
  | updateStatus id newStatus =>
    refine .inl ⟨nofun, ?_⟩
    dsimp only
    split
    · next account hupdate =>
      obtain ⟨hstatus, hkey, -⟩ :=
        status_of_suspendAccount (updateSubscriptionStatus_some hupdate)
      exact .inr ⟨account, s.keys, fun _ _ => ⟨hstatus, by rw [hkey]; rfl⟩, rfl⟩
    · exact .inl rfl
    · exact .inl rfl
  | activate id =>
    refine .inl ⟨nofun, ?_⟩
    dsimp only
    split
    · exact .inr ⟨_, s.keys, fun _ => trivial, rfl⟩
    · exact .inl rfl
  | revoke id apiKey =>
    dsimp only
    cases hrevoke : revokeApiKey s.keys apiKey now with
    | none =>
      refine .inl ⟨?_, .inl rfl⟩
      rintro _ _ ⟨⟩ hsome
      rw [hrevoke] at hsome
      cases hsome
    | some keys =>
      cases hown : revokesOwnKey task.account apiKey with
      | true =>
        refine .inl ⟨?_, .inr ⟨_, keys, fun _ _ => rfl, rfl⟩⟩
        rintro _ _ ⟨⟩ -
        exact hown
      | false => exact .inr ⟨id, apiKey, keys, rfl, by rw [hrevoke]; rfl, hown, rfl⟩

theorem step_read {operation : Operation} (h : step s (.read n operation) = some s') :
    s' = s ∨ ∃ account, operation.find s.accounts = some account ∧
      s' = { s with tasks := Function.update s.tasks n (some ⟨operation, account, false⟩) } := by
  simp only [step] at h
  split at h
  · cases h
  split at h
  · exact .inl (Option.some.inj h).symm
  next account hfind => exact .inr ⟨account, hfind, (Option.some.inj h).symm⟩

theorem step_change {now : Instant} {token : Token}
    (h : step s (.change n now token) = some s') :
    ∃ task, s.tasks n = some task ∧ s' = s.change n task now token := by
  simp only [step] at h
  split at h
  next task htask =>
    split at h <;> cases h
    exact ⟨task, htask, rfl⟩
  · cases h

theorem step_save (h : step s (.save n) = some s') :
    ∃ task, s.tasks n = some task ∧ task.changed = true ∧ s' = s.save n task := by
  simp only [step] at h
  split at h
  next task htask =>
    split at h
    next hchanged =>
      cases h
      exact ⟨task, htask, hchanged, rfl⟩
    · cases h
  · cases h

/-- What an operation reads is sound. -/
theorem sound_find {operation : Operation} {account : CustomerAccount}
    (h : operation.find s.accounts = some account) : Task.Sound ⟨operation, account, false⟩ := by
  cases operation with
  | request apiKey => exact (validateApiKey_eq_some h).2
  | updateStatus id newStatus => exact nofun
  | revoke id apiKey => exact nofun
  | activate id => trivial

/-- **Every step keeps the tasks sound.** -/
theorem sound_step {a : Action} (hs : Sound s) (h : step s a = some s') : Sound s' := by
  cases a with
  | read n operation =>
    obtain rfl | ⟨account, hfind, rfl⟩ := step_read h
    · exact hs
    · exact hs.update (sound_find hfind)
  | change n now token =>
    obtain ⟨task, htask, rfl⟩ := step_change h
    obtain ⟨-, heq | ⟨account, keys, hsound, heq⟩⟩ | ⟨id, apiKey, keys, -, -, -, heq⟩ :=
      change_cases s n task now token
    · rw [heq]
      exact hs.finish n
    · rw [heq]
      exact hs.update (hsound (hs n task htask))
    · rw [heq]
      exact hs.finish n
  | save n =>
    obtain ⟨task, -, -, rfl⟩ := step_save h
    exact hs.finish n
  | abort n =>
    cases h
    exact hs.finish n

/-! ### What a step keeps -/

/-- A save touches the row of its account. -/
theorem shown_save (accounts : Accounts) (account : CustomerAccount) (x : Standing) :
    x.Shown (accounts.save account) ↔
      if x.id = account.id then x.shownBy account = true else x.Shown accounts := by
  unfold Standing.Shown Accounts.findById
  rw [Accounts.lookup_save]
  split
  · rfl
  · rfl

/-- **When a save keeps what has returned before it**: the copy shows what stands for its account.
-/
theorem kept_save_iff (hs : Kept s) :
    Kept (s.save n task) ↔
      ∀ x ∈ task.standing s.standing, x.id = task.account.id → x.shownBy task.account = true := by
  have hmem : ∀ x ∈ task.standing s.standing, x.id ≠ task.account.id → x ∈ s.standing := by
    intro x hx hne
    unfold Task.standing at hx
    split at hx
    · exact hx
    · exact List.mem_of_ne_of_mem (fun heq => hne (by rw [heq]; rfl)) hx
    · exact List.mem_of_ne_of_mem (fun heq => hne (by rw [heq]; rfl)) hx
    · exact (List.mem_filter.mp hx).1
  refine forall₂_congr fun x hx => ?_
  show x.Shown (s.accounts.save task.account) ↔ _
  rw [shown_save]
  split
  next heq => simp [heq]
  next hne => simp [hne, hs x (hmem x hx hne)]

/-- A revocation that has nothing to save keeps what has returned, and is shown when the stored key
is inactive. -/
theorem kept_revokedOther_iff (hs : Kept s) {apiKey : String} {keys : Keys} :
    Kept (s.revokedOther n task apiKey keys) ↔ (task.account.apiKey.value = apiKey →
      (Standing.revoked task.account.id).Shown s.accounts) := by
  unfold Kept State.revokedOther
  dsimp only [State.finish]
  split
  next hvalue =>
    rw [List.forall_mem_cons, imp_iff_right hvalue]
    exact and_iff_left hs
  next hvalue => exact iff_of_true hs fun heq => absurd heq hvalue

/-- A usable account is not suspended. -/
theorem ne_suspended_of_usable {status : CustomerAccountStatus} (h : status.usable = true) :
    status ≠ .suspended := by
  rintro rfl
  cases h

/-- The copy a request saves shows neither a suspension nor a revocation. -/
theorem request_shownBy (hsound : task.account.apiKey.isActive = true ∧
    task.account.status.usable = true) (x : Standing) : x.shownBy task.account = false := by
  cases x with
  | suspended id => simpa [Standing.shownBy] using ne_suspended_of_usable hsound.2
  | revoked id => simp [Standing.shownBy, hsound.1]

/-- A sound task saves in time exactly when it keeps what has returned. -/
theorem inTime_save_iff (hs : Kept s) (htask : s.tasks n = some task) (hsound : task.Sound)
    (hchanged : task.changed = true) :
    InTime s (.save n) (s.save n task) ↔ Kept (s.save n task) := by
  rw [kept_save_iff hs]
  simp only [InTime, htask, Option.some.injEq, forall_eq']
  unfold Task.Sound at hsound
  unfold Task.standing
  cases hop : task.operation with
  | request apiKey =>
    rw [hop] at hsound
    simp [request_shownBy hsound]
  | updateStatus id newStatus =>
    rw [hop] at hsound
    obtain ⟨hstatus, hkey⟩ := hsound hchanged
    refine iff_of_true trivial fun x _ _ => ?_
    cases x with
    | suspended id => exact decide_eq_true hstatus
    | revoked id => simp [Standing.shownBy, hkey]
  | revoke id apiKey =>
    rw [hop] at hsound
    have hkey : task.account.apiKey.isActive = false := hsound hchanged
    constructor
    · intro h x hx hid
      cases x with
      | suspended id' =>
        obtain rfl : id' = task.account.id := hid
        obtain heq | hmem := List.mem_cons.mp hx
        · cases heq
        · exact decide_eq_true (h hmem)
      | revoked id' => simp [Standing.shownBy, hkey]
    · intro h hmem
      exact of_decide_eq_true (h _ (List.mem_cons_of_mem _ hmem) rfl)
  | activate id =>
    refine iff_of_true trivial fun x hx hid => ?_
    exact absurd hid (of_decide_eq_true (List.mem_filter.mp hx).2)

/-- **A step keeps what has returned exactly when it is in time.** -/
theorem inTime_iff {a : Action} (hs : Kept s) (hsound : Sound s) (h : step s a = some s') :
    InTime s a s' ↔ Kept s' := by
  cases a with
  | read n operation =>
    refine iff_of_true trivial ?_
    obtain rfl | ⟨account, -, rfl⟩ := step_read h
    · exact hs
    · exact hs
  | save n =>
    obtain ⟨task, htask, hchanged, rfl⟩ := step_save h
    exact inTime_save_iff hs htask (hsound n task htask) hchanged
  | abort n =>
    cases h
    exact iff_of_true trivial hs
  | change n now token =>
    obtain ⟨task, htask, rfl⟩ := step_change h
    simp only [InTime, htask, Option.some.injEq, forall_eq']
    obtain ⟨hown, hcases⟩ | ⟨id, apiKey, keys, hop, hsome, hown, heq⟩ :=
      change_cases s n task now token
    · have hkept : Kept (s.change n task now token) := by
        obtain heq | ⟨account, keys, -, heq⟩ := hcases
        · rw [heq]
          exact hs
        · rw [heq]
          exact hs
      refine iff_of_true ?_ hkept
      split
      next id apiKey hop =>
        intro hsome hvalue hinactive
        have hactive := hown id apiKey hop hsome
        simp [revokesOwnKey, hinactive] at hactive
      · trivial
    · rw [heq, kept_revokedOther_iff hs, hop]
      have hinactive (hvalue : task.account.apiKey.value = apiKey) :
          task.account.apiKey.isActive = false := by
        simpa [revokesOwnKey, hvalue] using hown
      constructor
      · intro h hvalue
        exact h hsome hvalue (hinactive hvalue)
      · intro h _ hvalue _
        exact h hvalue

end Steps

/-- **Suspensions and revocations last exactly when every step is in time.** -/
theorem always_kept_iff (accounts : Accounts) (keys : Keys) (l : List Action) :
    Runs.Always step Kept (start accounts keys) l ↔
      Runs.EachStep step InTime (start accounts keys) l := by
  have hstep (s : State) (a : Action) (s' : State) (hs : Kept s ∧ Sound s)
      (h : step s a = some s') : InTime s a s' ↔ Kept s' := inTime_iff hs.1 hs.2 h
  refine Runs.always_iff (fun s hs => hs.1) hstep (fun s a s' hs h hok => ?_) ⟨?_, ?_⟩ l
  · exact ⟨(hstep s a s' hs h).mp hok, sound_step hs.2 h⟩
  · intro x hx
    exact absurd hx List.not_mem_nil
  · intro n task htask
    cases htask

/-- An active account, with the key of a token. -/
def activeAccount (id : Uuid) (token : Token) (now : Instant) : CustomerAccount where
  id := id
  name := "tenant"
  email := "admin@example.com"
  apiKey := .new token now
  status := .active
  subscription := .default now
  currentStorageUsage := 0
  databaseCount := 0
  createdAt := now
  updatedAt := now
  lastLogin := none
  organizationName := none
  passwordHash := none

/-- A token of 43 characters. -/
def someToken : Token := ⟨String.ofList (List.replicate 43 'a'), by decide⟩

/-- One active account, whose key the authentication service has. -/
def oneAccount : State :=
  start ((∅ : Accounts).save (activeAccount 1 someToken 0))
    (generateApiKey ∅ 1 "default" [] someToken 0)

/-- A request reads the account, `operation` runs from its read to its return, and the request
saves. -/
def overlapped (operation : Operation) : List Action :=
  [.read 0 (.request (keyText someToken)), .change 0 1 someToken, .read 1 operation,
    .change 1 2 someToken, .save 1, .save 0]

/-- **Traffic undoes a suspension, and a revocation**: after a request that was in flight the
account is active again, and so is its key. -/
theorem not_always_kept_overlapped :
    ¬ Runs.Always step Kept oneAccount (overlapped (.updateStatus 1 "suspended")) ∧
      ¬ Runs.Always step Kept oneAccount (overlapped (.revoke 1 (keyText someToken))) := by
  have hsuspend : (Runs.run step oneAccount
    (overlapped (.updateStatus 1 "suspended"))).any (fun s => ¬ Kept s) = true := by decide +kernel
  have hrevoke : (Runs.run step oneAccount
    (overlapped (.revoke 1 (keyText someToken)))).any (fun s => ¬ Kept s) = true := by
      decide +kernel
  exact ⟨Runs.not_always_of_last hsuspend, Runs.not_always_of_last hrevoke⟩

end KuzuEventBus.Service.AccountUpdates
