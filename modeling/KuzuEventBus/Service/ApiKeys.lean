import KuzuEventBus.Lib.Runs
import KuzuEventBus.Service.Accounts

/-!
# The life of an API key

The use cases that return keys and change what becomes of them, one after the other, and restarts of
the process.  The middleware compares a request with the keys in the rows of the accounts; keys are
generated and revoked in the map of the authentication service, which a restart empties.

## Main definitions

* `Draws` — the random draws, no two of which are the same.
* `World` — the repository, the map of keys, and how many draws have been made.
* `registerCustomer`, `createCustomerApiKey`, `updateStatus`, `activate`, `revokeCustomerApiKey`,
  `restart` — the operations.
* `State`, `step` — with the keys that were returned, and those whose revocation returned success.
* `Lifecycle`, `Lasting` — what is asked for in a state, and what a step has to meet.
* `Confined` — a revocation changes no flag of another customer's key.

## Main results

* `lifecycle_iff` — what is asked for, in terms of the row of the owner.
* `always_lifecycle_iff` — **the keys that were returned behave as they should in a whole run
  exactly when every step meets the condition.**
* `confined_iff` — **a revocation is confined to the requester exactly when it fails or the key is
  the requester's.**
-/

namespace KuzuEventBus.Service.ApiKeys

/-! ### The operations -/

/-- What `token_urlsafe` and `uuid4` give, one draw after the other. -/
structure Draws where
  token : ℕ → Token
  uuid : ℕ → Uuid
  token_injective : Function.Injective token
  uuid_injective : Function.Injective uuid

/-- The repository, the map of the authentication service, and the number of draws made. -/
structure World where
  accounts : Accounts
  keys : Keys
  draws : ℕ

/-- `RegisterCustomerRequest`, with the answer of `hash_password`. -/
structure RegisterCustomerRequest where
  tenantName : String
  adminEmail : String
  organizationName : String
  passwordHash : String

/-- The account `RegisterCustomer` makes. -/
def newAccount (req : RegisterCustomerRequest) (id : Uuid) (token : Token) (now : Instant) :
    CustomerAccount where
  id := id
  name := req.tenantName
  email := req.adminEmail
  apiKey := .new token now
  status := .active
  subscription := .default now
  currentStorageUsage := 0
  databaseCount := 0
  createdAt := now
  updatedAt := now
  lastLogin := none
  organizationName := some req.organizationName
  passwordHash := some req.passwordHash

/-- `RegisterCustomer`: the id and the key of the new customer. -/
def registerCustomer (d : Draws) (w : World) (req : RegisterCustomerRequest) (now : Instant) :
    Except AccountError (World × Uuid × String) :=
  if (w.accounts.findByTenantName req.tenantName).isSome then
    .error (.valueError ("Tenant '" ++ req.tenantName ++ "' already exists"))
  else if (w.accounts.findByEmail req.adminEmail).isSome then
    .error (.valueError "Admin email already in use")
  else
    let id := d.uuid w.draws
    let token := d.token w.draws
    .ok (⟨w.accounts.save (newAccount req id token now),
      generateApiKey w.keys id "default" ["database:read", "database:write", "query:execute"] token
        now, w.draws + 1⟩, id, keyText token)

/-- `CreateCustomerApiKey`: the account is read, and the map has the key. -/
def createCustomerApiKey (d : Draws) (w : World) (id : Uuid) (keyName : String)
    (permissions : List String) (now : Instant) : Except AccountError (World × String) :=
  match w.accounts.findById id with
  | none => .error (.valueError ("Customer " ++ toString id ++ " not found"))
  | some account =>
    if account.status = .active then
      let token := d.token w.draws
      .ok ({ w with
        keys := generateApiKey w.keys id keyName permissions token now
        draws := w.draws + 1 }, keyText token)
    else .error (.valueError "Account is not active")

/-- `UpdateCustomerSubscriptionStatus`. -/
def updateStatus (w : World) (id : Uuid) (newStatus : String) (now : Instant) :
    Except AccountError (World × Bool) :=
  match w.accounts.findById id with
  | none => .ok (w, false)
  | some account =>
    (updateSubscriptionStatus newStatus now account).map fun
      | none => (w, true)
      | some account => ({ w with accounts := w.accounts.save account }, true)

/-- An account is read, activated and saved. -/
def activate (d : Draws) (w : World) (id : Uuid) (now : Instant) : Except AccountError World :=
  match w.accounts.findById id with
  | none => .ok w
  | some account =>
    (activateAccount (d.token w.draws) now account).map fun account =>
      { w with accounts := w.accounts.save account, draws := w.draws + 1 }

/-- `RevokeCustomerApiKey`. -/
def revokeCustomerApiKey (w : World) (id : Uuid) (apiKey : String) (now : Instant) :
    World × Bool :=
  match w.accounts.findById id with
  | none => (w, false)
  | some account =>
    match revokeApiKey w.keys apiKey now with
    | none => (w, false)
    | some keys =>
      if revokesOwnKey account apiKey then
        let account := { account with apiKey := account.apiKey.deactivate }
        ({ w with accounts := w.accounts.save account, keys }, true)
      else ({ w with keys }, true)

/-- The process restarts with an empty map. -/
def restart (w : World) : World := { w with keys := ∅ }

/-- The middleware accepts a request with the key. -/
def World.authenticates (w : World) (apiKey : String) : Bool :=
  (validateApiKey w.accounts apiKey).isSome

/-- The account is `ACTIVE` or `TRIAL`. -/
def World.usable (w : World) (id : Uuid) : Bool :=
  (w.accounts.findById id).any fun account => account.status.usable

/-! ### Runs -/

/-- The world, the keys that were returned, with their customers, and the keys whose revocation
returned success. -/
structure State where
  world : World
  returned : List (Uuid × String)
  revoked : List String

/-- The operations of a run. -/
inductive Action where
  | register (req : RegisterCustomerRequest) (now : Instant)
  | createKey (id : Uuid) (keyName : String) (permissions : List String) (now : Instant)
  | updateStatus (id : Uuid) (newStatus : String) (now : Instant)
  | activate (id : Uuid) (now : Instant)
  | revoke (id : Uuid) (apiKey : String) (now : Instant)
  | restart

/-- The state after an operation, which is as before when the operation raises. -/
def next (d : Draws) (s : State) : Action → State
  | .register req now =>
    match registerCustomer d s.world req now with
    | .ok (world, id, apiKey) => { s with world, returned := (id, apiKey) :: s.returned }
    | .error _ => s
  | .createKey id keyName permissions now =>
    match createCustomerApiKey d s.world id keyName permissions now with
    | .ok (world, apiKey) => { s with world, returned := (id, apiKey) :: s.returned }
    | .error _ => s
  | .updateStatus id newStatus now =>
    match updateStatus s.world id newStatus now with
    | .ok (world, _) => { s with world }
    | .error _ => s
  | .activate id now =>
    match activate d s.world id now with
    | .ok world => { s with world }
    | .error _ => s
  | .revoke id apiKey now =>
    match revokeCustomerApiKey s.world id apiKey now with
    | (world, true) => { s with world, revoked := apiKey :: s.revoked }
    | (world, false) => { s with world }
  | .restart => { s with world := restart s.world }

/-- One step; every operation can be called in every state. -/
def step (d : Draws) (s : State) (a : Action) : Option State := some (next d s a)

/-- Nothing is there. -/
def init : State := ⟨⟨∅, ∅, 0⟩, [], []⟩

/-- **Every key that was returned authenticates exactly while it is not revoked and the account can
be used, and its owner can revoke it until it is revoked.** -/
def Lifecycle (s : State) : Prop :=
  ∀ p ∈ s.returned,
    (s.world.authenticates p.2 = true ↔ p.2 ∉ s.revoked ∧ s.world.usable p.1 = true) ∧
      (p.2 ∉ s.revoked → ∀ now, (revokeCustomerApiKey s.world p.1 p.2 now).2 = true)

/-- No key is created for an active account; no account that can be activated is, when its key is
inactive, while one of its keys is not revoked; no key is revoked in the name of another customer
while its owner's account can be used; and there is no restart while a key is not revoked. -/
def Lasting (s : State) (a : Action) (_ : State) : Prop :=
  match a with
  | .createKey id _ _ _ =>
    ∀ account, s.world.accounts.findById id = some account → account.status ≠ .active
  | .activate id now => ∀ account, s.world.accounts.findById id = some account →
      account.status ≠ .deleted → account.subscription.isExpired now = false →
      account.apiKey.isActive = false → ∀ apiKey, (id, apiKey) ∈ s.returned → apiKey ∈ s.revoked
  | .revoke id apiKey _ => (s.world.accounts.findById id).isSome →
      ∀ rec, s.world.keys.lookup apiKey = some rec → rec.revoked = false → rec.tenantId ≠ id →
        s.world.usable rec.tenantId = false
  | .restart => ∀ p ∈ s.returned, p.2 ∈ s.revoked
  | .register _ _ | .updateStatus _ _ _ => True

/-! ### What an operation can do -/

section Operations

variable {d : Draws} {s : State}

/-- The state after the account and the key of a registration. -/
def State.registered (d : Draws) (s : State) (req : RegisterCustomerRequest) (now : Instant) :
    State where
  world := ⟨s.world.accounts.save
      (newAccount req (d.uuid s.world.draws) (d.token s.world.draws) now),
    generateApiKey s.world.keys (d.uuid s.world.draws) "default"
      ["database:read", "database:write", "query:execute"] (d.token s.world.draws) now,
    s.world.draws + 1⟩
  returned := (d.uuid s.world.draws, keyText (d.token s.world.draws)) :: s.returned
  revoked := s.revoked

/-- The state after a new key of a customer. -/
def State.created (d : Draws) (s : State) (id : Uuid) (keyName : String)
    (permissions : List String) (now : Instant) : State where
  world := { s.world with
    keys := generateApiKey s.world.keys id keyName permissions (d.token s.world.draws) now
    draws := s.world.draws + 1 }
  returned := (id, keyText (d.token s.world.draws)) :: s.returned
  revoked := s.revoked

/-- The state after an account is saved, with more draws made perhaps. -/
def State.saved (s : State) (account : CustomerAccount) (draws : ℕ) : State :=
  { s with world := { s.world with accounts := s.world.accounts.save account, draws } }

/-- The world after a revocation, with the record that the map then has. -/
def World.afterRevoke (w : World) (account : CustomerAccount) (apiKey : String)
    (rec : KeyRecord) : World :=
  { w with
    accounts := if revokesOwnKey account apiKey then
        w.accounts.save { account with apiKey := account.apiKey.deactivate }
      else w.accounts
    keys := w.keys.insert apiKey rec }

/-- The state after a revocation. -/
def State.afterRevoke (s : State) (account : CustomerAccount) (apiKey : String)
    (rec : KeyRecord) : State where
  world := s.world.afterRevoke account apiKey rec
  returned := s.returned
  revoked := apiKey :: s.revoked

/-- A registration that succeeds draws an id and a token. -/
theorem registerCustomer_ok {d : Draws} {w world : World} {req : RegisterCustomerRequest}
    {now : Instant} {id : Uuid} {apiKey : String}
    (h : registerCustomer d w req now = .ok (world, id, apiKey)) :
    world = ⟨w.accounts.save (newAccount req (d.uuid w.draws) (d.token w.draws) now),
        generateApiKey w.keys (d.uuid w.draws) "default"
          ["database:read", "database:write", "query:execute"] (d.token w.draws) now,
        w.draws + 1⟩ ∧
      id = d.uuid w.draws ∧ apiKey = keyText (d.token w.draws) := by
  unfold registerCustomer at h
  by_cases htenant : (w.accounts.findByTenantName req.tenantName).isSome = true
  · rw [if_pos htenant] at h
    cases h
  rw [if_neg htenant] at h
  by_cases hemail : (w.accounts.findByEmail req.adminEmail).isSome = true
  · rw [if_pos hemail] at h
    cases h
  rw [if_neg hemail] at h
  simp only [Except.ok.injEq, Prod.mk.injEq] at h
  exact ⟨h.1.symm, h.2.1.symm, h.2.2.symm⟩

theorem next_register (d : Draws) (s : State) (req : RegisterCustomerRequest) (now : Instant) :
    next d s (.register req now) = s ∨
      next d s (.register req now) = s.registered d req now := by
  cases h : registerCustomer d s.world req now with
  | error e => exact .inl (by simp only [next, h])
  | ok r =>
    obtain ⟨world, id, apiKey⟩ := r
    obtain ⟨hworld, hid, hkey⟩ := registerCustomer_ok h
    exact .inr (by simp only [next, h, State.registered, hworld, hid, hkey])

/-- A key is created exactly for an active account. -/
theorem next_createKey (d : Draws) (s : State) (id : Uuid) (keyName : String)
    (permissions : List String) (now : Instant) :
    (next d s (.createKey id keyName permissions now) = s ∧ ∀ account,
        s.world.accounts.findById id = some account → account.status ≠ .active) ∨
      ∃ account, s.world.accounts.findById id = some account ∧ account.status = .active ∧
        next d s (.createKey id keyName permissions now) =
          s.created d id keyName permissions now := by
  cases hfind : s.world.accounts.findById id with
  | none =>
    refine .inl ⟨?_, fun account h => ?_⟩
    · simp only [next, createCustomerApiKey, hfind]
    · cases h
  | some account =>
    by_cases hactive : account.status = .active
    · refine .inr ⟨account, rfl, hactive, ?_⟩
      simp only [next, createCustomerApiKey, hfind, hactive, if_true]
      rfl
    · refine .inl ⟨?_, ?_⟩
      · simp only [next, createCustomerApiKey, hfind, hactive, if_false]
      · rintro _ ⟨⟩
        exact hactive

theorem next_updateStatus (d : Draws) (s : State) (id : Uuid) (newStatus : String)
    (now : Instant) :
    next d s (.updateStatus id newStatus now) = s ∨
      ∃ account account', s.world.accounts.findById id = some account ∧
        suspendAccount now account = .ok account' ∧
        next d s (.updateStatus id newStatus now) = s.saved account' s.world.draws := by
  simp only [next, updateStatus]
  cases hfind : s.world.accounts.findById id with
  | none => exact .inl rfl
  | some account =>
    dsimp only
    cases hupdate : updateSubscriptionStatus newStatus now account with
    | error e => exact .inl rfl
    | ok changed =>
      cases changed with
      | none => exact .inl rfl
      | some account' =>
        exact .inr ⟨account, account', rfl, updateSubscriptionStatus_some hupdate, rfl⟩

theorem next_activate (d : Draws) (s : State) (id : Uuid) (now : Instant) :
    (next d s (.activate id now) = s ∧ ∀ account account',
        s.world.accounts.findById id = some account →
          activateAccount (d.token s.world.draws) now account ≠ .ok account') ∨
      ∃ account account', s.world.accounts.findById id = some account ∧
        activateAccount (d.token s.world.draws) now account = .ok account' ∧
        next d s (.activate id now) = s.saved account' (s.world.draws + 1) := by
  simp only [next, activate]
  cases hfind : s.world.accounts.findById id with
  | none =>
    refine .inl ⟨rfl, fun a a' ha => ?_⟩
    cases ha
  | some account =>
    dsimp only
    cases hactivate : activateAccount (d.token s.world.draws) now account with
    | error e =>
      refine .inl ⟨rfl, fun a a' ha h => ?_⟩
      obtain rfl := Option.some.inj ha
      rw [hactivate] at h
      cases h
    | ok account' => exact .inr ⟨account, account', rfl, hactivate, rfl⟩

/-- A revocation succeeds when the account is found and the map has the key, not revoked. -/
theorem revokeCustomerApiKey_cases (w : World) (id : Uuid) (apiKey : String) (now : Instant) :
    (revokeCustomerApiKey w id apiKey now = (w, false) ∧ ¬ ((w.accounts.findById id).isSome ∧
        ∃ rec, w.keys.lookup apiKey = some rec ∧ rec.revoked = false)) ∨
      ∃ account rec, w.accounts.findById id = some account ∧
        w.keys.lookup apiKey = some rec ∧ rec.revoked = false ∧
        revokeCustomerApiKey w id apiKey now = (w.afterRevoke account apiKey
          { rec with revoked := true, revokedAt := some now }, true) := by
  simp only [revokeCustomerApiKey]
  cases hfind : w.accounts.findById id with
  | none => exact .inl ⟨rfl, by simp⟩
  | some account =>
    dsimp only
    cases hrevoke : revokeApiKey w.keys apiKey now with
    | none =>
      refine .inl ⟨rfl, fun h => ?_⟩
      rw [← @isSome_revokeApiKey _ _ now, hrevoke] at h
      cases h.2
    | some keys =>
      obtain ⟨rec, hrec, hrevoked, rfl⟩ := revokeApiKey_eq_some hrevoke
      refine .inr ⟨account, rec, rfl, hrec, hrevoked, ?_⟩
      dsimp only
      unfold World.afterRevoke
      cases hown : revokesOwnKey account apiKey with
      | true => rfl
      | false => rfl

theorem next_revoke (d : Draws) (s : State) (id : Uuid) (apiKey : String) (now : Instant) :
    (next d s (.revoke id apiKey now) = s ∧ ¬ ((s.world.accounts.findById id).isSome ∧
        ∃ rec, s.world.keys.lookup apiKey = some rec ∧ rec.revoked = false)) ∨
      ∃ account rec, s.world.accounts.findById id = some account ∧
        s.world.keys.lookup apiKey = some rec ∧ rec.revoked = false ∧
        next d s (.revoke id apiKey now) = s.afterRevoke account apiKey
          { rec with revoked := true, revokedAt := some now } := by
  simp only [next]
  obtain ⟨heq, hnone⟩ | ⟨account, rec, hfind, hrec, hrevoked, heq⟩ :=
    revokeCustomerApiKey_cases s.world id apiKey now
  · rw [heq]
    exact .inl ⟨rfl, hnone⟩
  · rw [heq]
    exact .inr ⟨account, rec, hfind, hrec, hrevoked, rfl⟩

theorem revokeCustomerApiKey_iff {w : World} {id : Uuid} {apiKey : String} {now : Instant} :
    (revokeCustomerApiKey w id apiKey now).2 = true ↔ (w.accounts.findById id).isSome ∧
      ∃ rec, w.keys.lookup apiKey = some rec ∧ rec.revoked = false := by
  obtain ⟨heq, hnone⟩ | ⟨account, rec, hfind, hrec, hrevoked, heq⟩ :=
    revokeCustomerApiKey_cases w id apiKey now
  · rw [heq]
    exact iff_of_false Bool.false_ne_true hnone
  · rw [heq, hfind]
    exact iff_of_true rfl ⟨rfl, rec, hrec, hrevoked⟩

end Operations

/-! ### What holds in every state -/

/-- The key of one of the first draws. -/
def Drawn (d : Draws) (n : ℕ) (apiKey : String) : Prop :=
  ∃ i < n, apiKey = keyText (d.token i)

theorem Drawn.mono {d : Draws} {n m : ℕ} {apiKey : String} (h : Drawn d n apiKey) (hle : n ≤ m) :
    Drawn d m apiKey := by
  obtain ⟨i, hi, rfl⟩ := h
  exact ⟨i, hi.trans_le hle, rfl⟩

theorem drawn_succ (d : Draws) (n : ℕ) : Drawn d (n + 1) (keyText (d.token n)) :=
  ⟨n, n.lt_succ_self, rfl⟩

/-- The next draw is new. -/
theorem not_drawn (d : Draws) (n : ℕ) : ¬ Drawn d n (keyText (d.token n)) := by
  rintro ⟨i, hi, heq⟩
  exact hi.ne' (d.token_injective (keyText_injective heq))

/-- The rows have different ids and keys, all of them drawn; an account that is not active is
suspended, with an inactive key; the map has keys that were returned, with their customers, and
those that are revoked in it; and a key was returned to one customer, and is in no other row. -/
structure Wf (d : Draws) (s : State) : Prop where
  unique : s.world.accounts.Unique fun account => account.apiKey.value
  ids : ∀ {id account}, s.world.accounts.lookup id = some account →
    ∃ i < s.world.draws, id = d.uuid i
  row : ∀ {id account}, s.world.accounts.lookup id = some account →
    Drawn d s.world.draws account.apiKey.value
  status : ∀ {id account}, s.world.accounts.lookup id = some account →
    account.status = .active ∨ account.status = .suspended ∧ account.apiKey.isActive = false
  key : ∀ {apiKey rec}, s.world.keys.lookup apiKey = some rec →
    (rec.tenantId, apiKey) ∈ s.returned ∧ (rec.revoked = true ↔ apiKey ∈ s.revoked)
  returned : ∀ {id apiKey}, (id, apiKey) ∈ s.returned →
    Drawn d s.world.draws apiKey ∧ (s.world.accounts.lookup id).isSome
  owner : ∀ {id id' apiKey}, (id, apiKey) ∈ s.returned → (id', apiKey) ∈ s.returned → id' = id
  rowOwner : ∀ {id id' apiKey account}, (id, apiKey) ∈ s.returned →
    s.world.accounts.lookup id' = some account → account.apiKey.value = apiKey → id' = id
  revoked : ∀ apiKey ∈ s.revoked, Drawn d s.world.draws apiKey

theorem wf_init (d : Draws) : Wf d init where
  unique := ⟨nofun, nofun⟩
  ids := nofun
  row := nofun
  status := nofun
  key := nofun
  returned := nofun
  owner := nofun
  rowOwner := nofun
  revoked := nofun

namespace Wf

variable {d : Draws} {s : State} {id : Uuid} {account account' : CustomerAccount}

/-- A row is saved again, with its key or a new one. -/
theorem saved (h : Wf d s) {n : ℕ} (hfind : s.world.accounts.findById id = some account)
    (hid : account'.id = account.id) (hn : s.world.draws ≤ n)
    (hdrawn : Drawn d n account'.apiKey.value)
    (hkey : account'.apiKey.value = account.apiKey.value ∨
      ¬ Drawn d s.world.draws account'.apiKey.value)
    (hstatus : account'.status = .active ∨
      account'.status = .suspended ∧ account'.apiKey.isActive = false) :
    Wf d (s.saved account' n) := by
  have hlookup : s.world.accounts.lookup account'.id = some account := by
    rw [hid, h.unique.id hfind]
    exact hfind
  have hrow {id'' account''} (h' : (s.world.accounts.save account').lookup id'' = some account'') :
      id'' = account'.id ∧ account'' = account' ∨
        id'' ≠ account'.id ∧ s.world.accounts.lookup id'' = some account'' := by
    rw [Accounts.lookup_save] at h'
    split at h'
    next heq => exact .inl ⟨heq, (Option.some.inj h').symm⟩
    next hne => exact .inr ⟨hne, h'⟩
  refine ⟨h.unique.save ?_, ?_, ?_, ?_, h.key, ?_, h.owner, ?_, ?_⟩
  · intro id'' account'' h'' hne heq
    obtain hsame | hnew := hkey
    · exact hne (h.unique.eq h'' hlookup (heq.trans hsame))
    · exact hnew (heq ▸ h.row h'')
  · intro id'' account'' h''
    obtain ⟨rfl, -⟩ | ⟨-, h''⟩ := hrow h''
    · obtain ⟨i, hi, heq⟩ := h.ids hlookup
      exact ⟨i, hi.trans_le hn, heq⟩
    · obtain ⟨i, hi, heq⟩ := h.ids h''
      exact ⟨i, hi.trans_le hn, heq⟩
  · intro id'' account'' h''
    obtain ⟨-, rfl⟩ | ⟨-, h''⟩ := hrow h''
    · exact hdrawn
    · exact (h.row h'').mono hn
  · intro id'' account'' h''
    obtain ⟨-, rfl⟩ | ⟨-, h''⟩ := hrow h''
    · exact hstatus
    · exact h.status h''
  · intro id'' apiKey h''
    obtain ⟨hapiKey, hsome⟩ := h.returned h''
    refine ⟨hapiKey.mono hn, ?_⟩
    show ((s.world.accounts.save account').lookup id'').isSome
    rw [Accounts.lookup_save]
    split
    · rfl
    · exact hsome
  · intro id₁ id₂ apiKey account'' h₁ h₂ hvalue
    obtain ⟨rfl, rfl⟩ | ⟨-, h₂⟩ := hrow h₂
    · obtain hsame | hnew := hkey
      · exact h.rowOwner h₁ hlookup (hsame.symm.trans hvalue)
      · exact absurd (hvalue ▸ (h.returned h₁).1) hnew
    · exact h.rowOwner h₁ h₂ hvalue
  · intro apiKey hmem
    exact (h.revoked apiKey hmem).mono hn

/-- The map loses its keys. -/
theorem restarted (h : Wf d s) : Wf d { s with world := restart s.world } :=
  ⟨h.unique, h.ids, h.row, h.status, nofun, h.returned, h.owner, h.rowOwner, h.revoked⟩

/-- A key is generated and returned to a customer, who has a row already or a new one with the key.
-/
theorem issued (h : Wf d s) {accounts : Accounts}
    (hunique : accounts.Unique fun account => account.apiKey.value)
    (hrow : ∀ {id' account'}, accounts.lookup id' = some account' →
      s.world.accounts.lookup id' = some account' ∨ id' = id ∧ id' = d.uuid s.world.draws ∧
        account'.apiKey.value = keyText (d.token s.world.draws) ∧ account'.status = .active)
    (hkeep : ∀ {id'}, (s.world.accounts.lookup id').isSome → (accounts.lookup id').isSome)
    (hsome : (accounts.lookup id).isSome) (keyName : String) (permissions : List String)
    (now : Instant) :
    Wf d ⟨⟨accounts, generateApiKey s.world.keys id keyName permissions (d.token s.world.draws) now,
      s.world.draws + 1⟩, (id, keyText (d.token s.world.draws)) :: s.returned, s.revoked⟩ := by
  have hn := s.world.draws.le_succ
  have hnew {id' apiKey} (h' : (id', apiKey) ∈ s.returned) :
      apiKey ≠ keyText (d.token s.world.draws) := by
    rintro rfl
    exact not_drawn d _ (h.returned h').1
  refine ⟨hunique, ?_, ?_, ?_, ?_, ?_, ?_, ?_, fun apiKey h' => (h.revoked apiKey h').mono hn⟩
  · intro id' account' h'
    obtain h' | ⟨-, heq, -⟩ := hrow h'
    · obtain ⟨i, hi, heq⟩ := h.ids h'
      exact ⟨i, hi.trans_le hn, heq⟩
    · exact ⟨_, Nat.lt_succ_self _, heq⟩
  · intro id' account' h'
    obtain h' | ⟨-, -, hvalue, -⟩ := hrow h'
    · exact (h.row h').mono hn
    · rw [hvalue]
      exact drawn_succ d _
  · intro id' account' h'
    obtain h' | ⟨-, -, -, hstatus⟩ := hrow h'
    · exact h.status h'
    · exact .inl hstatus
  · intro apiKey rec h'
    rw [generateApiKey, AList.lookup_insert_eq] at h'
    split at h'
    next heq =>
      cases h'
      rw [heq]
      refine ⟨List.mem_cons_self, iff_of_false Bool.false_ne_true fun hmem => ?_⟩
      exact not_drawn d _ (h.revoked _ hmem)
    · obtain ⟨hmem, hrevoked⟩ := h.key h'
      exact ⟨List.mem_cons_of_mem _ hmem, hrevoked⟩
  · intro id' apiKey h'
    obtain heq | h' := List.mem_cons.mp h'
    · cases heq
      exact ⟨drawn_succ d _, hsome⟩
    · exact ⟨(h.returned h').1.mono hn, hkeep (h.returned h').2⟩
  · intro id₁ id₂ apiKey h₁ h₂
    obtain heq₁ | h₁ := List.mem_cons.mp h₁
    · obtain heq₂ | h₂ := List.mem_cons.mp h₂
      · rw [(Prod.mk.inj heq₁).1, (Prod.mk.inj heq₂).1]
      · exact absurd (Prod.mk.inj heq₁).2 (hnew h₂)
    · obtain heq₂ | h₂ := List.mem_cons.mp h₂
      · exact absurd (Prod.mk.inj heq₂).2 (hnew h₁)
      · exact h.owner h₁ h₂
  · intro id₁ id₂ apiKey account' h₁ h₂ hvalue
    obtain heq₁ | h₁ := List.mem_cons.mp h₁
    · -- an old row does not have the new key
      obtain h₂ | ⟨rfl, -⟩ := hrow h₂
      · have hdrawn := h.row h₂
        rw [hvalue, (Prod.mk.inj heq₁).2] at hdrawn
        exact absurd hdrawn (not_drawn d _)
      · exact (Prod.mk.inj heq₁).1.symm
    · -- the new row does not have an old key
      obtain h₂ | ⟨-, -, hvalue', -⟩ := hrow h₂
      · exact h.rowOwner h₁ h₂ hvalue
      · exact absurd (hvalue.symm.trans hvalue') (hnew h₁)

theorem created (h : Wf d s) (hfind : s.world.accounts.findById id = some account)
    (keyName : String) (permissions : List String) (now : Instant) :
    Wf d (s.created d id keyName permissions now) :=
  h.issued h.unique .inl (fun hsome => hsome) (Option.isSome_iff_exists.mpr ⟨account, hfind⟩)
    keyName permissions now

/-- The id of the next customer is new. -/
theorem lookup_uuid (h : Wf d s) : s.world.accounts.lookup (d.uuid s.world.draws) = none := by
  cases hlookup : s.world.accounts.lookup (d.uuid s.world.draws) with
  | none => rfl
  | some account =>
    obtain ⟨i, hi, heq⟩ := h.ids hlookup
    exact absurd (d.uuid_injective heq) hi.ne'

theorem registered (h : Wf d s) (req : RegisterCustomerRequest) (now : Instant) :
    Wf d (s.registered d req now) := by
  have hlookup := Accounts.lookup_save s.world.accounts
    (newAccount req (d.uuid s.world.draws) (d.token s.world.draws) now)
  refine h.issued (h.unique.save fun id' account' h' _ heq => ?_) (fun {id' account'} h' => ?_)
    (fun {id'} hsome => ?_) ?_ _ _ now
  · have hdrawn := h.row h'
    rw [heq] at hdrawn
    exact not_drawn d _ hdrawn
  · rw [hlookup] at h'
    split at h'
    next heq =>
      cases h'
      exact .inr ⟨heq, heq, rfl, rfl⟩
    · exact .inl h'
  · rw [hlookup]
    split
    · rfl
    · exact hsome
  · rw [hlookup]
    simp [newAccount]

/-- A key of the map is revoked, with the row it may be in. -/
theorem afterRevoke (h : Wf d s) {apiKey : String} {rec : KeyRecord}
    (hfind : s.world.accounts.findById id = some account)
    (hrec : s.world.keys.lookup apiKey = some rec) (now : Instant) :
    Wf d (s.afterRevoke account apiKey { rec with revoked := true, revokedAt := some now }) := by
  obtain ⟨hmem, -⟩ := h.key hrec
  -- the row first, and then the map
  have hsaved : Wf d { s with world := { s.world with
      accounts := if revokesOwnKey account apiKey then
          s.world.accounts.save { account with apiKey := account.apiKey.deactivate }
        else s.world.accounts } } := by
    split
    · have hdrawn : Drawn d s.world.draws account.apiKey.value := h.row hfind
      refine h.saved hfind rfl le_rfl hdrawn (.inl rfl) ?_
      obtain hactive | ⟨hsuspended, -⟩ := h.status hfind
      · exact .inl hactive
      · exact .inr ⟨hsuspended, rfl⟩
    · exact h
  refine ⟨hsaved.unique, hsaved.ids, hsaved.row, hsaved.status, ?_, hsaved.returned, hsaved.owner,
    hsaved.rowOwner, ?_⟩
  · intro apiKey' rec' h'
    rw [State.afterRevoke, World.afterRevoke, AList.lookup_insert_eq] at h'
    split at h'
    next heq =>
      cases h'
      rw [heq]
      exact ⟨hmem, iff_of_true rfl List.mem_cons_self⟩
    next hne =>
      obtain ⟨hmem', hrevoked⟩ := h.key h'
      refine ⟨hmem', hrevoked.trans ?_⟩
      exact ⟨List.mem_cons_of_mem _, List.mem_of_ne_of_mem hne⟩
  · intro apiKey' h'
    obtain rfl | h' := List.mem_cons.mp h'
    · exact (h.returned hmem).1
    · exact h.revoked apiKey' h'

/-- **Every operation keeps the state well formed.** -/
theorem next (h : Wf d s) (a : Action) : Wf d (next d s a) := by
  cases a with
  | register req now =>
    obtain heq | heq := next_register d s req now
    · rw [heq]
      exact h
    · rw [heq]
      exact h.registered req now
  | createKey id keyName permissions now =>
    obtain ⟨heq, -⟩ | ⟨account, hfind, -, heq⟩ := next_createKey d s id keyName permissions now
    · rw [heq]
      exact h
    · rw [heq]
      exact h.created hfind keyName permissions now
  | updateStatus id newStatus now =>
    obtain heq | ⟨account, account', hfind, hsuspend, heq⟩ := next_updateStatus d s id newStatus now
    · rw [heq]
      exact h
    · rw [heq]
      obtain ⟨hstatus, hkey, hid, -⟩ := status_of_suspendAccount hsuspend
      have hvalue : account'.apiKey.value = account.apiKey.value := by rw [hkey]; rfl
      refine h.saved hfind hid le_rfl ?_ (.inl hvalue) (.inr ⟨hstatus, by rw [hkey]; rfl⟩)
      rw [hvalue]
      exact h.row hfind
  | activate id now =>
    obtain ⟨heq, -⟩ | ⟨account, account', hfind, hactivate, heq⟩ := next_activate d s id now
    · rw [heq]
      exact h
    · rw [heq]
      obtain ⟨hstatus, hkey, hid, -⟩ := status_of_activateAccount hactivate
      split at hkey
      · refine h.saved hfind hid (Nat.le_succ _) ?_ (.inl (by rw [hkey])) (.inl hstatus)
        rw [hkey]
        exact (h.row hfind).mono (Nat.le_succ _)
      · refine h.saved hfind hid (Nat.le_succ _) ?_ (.inr ?_) (.inl hstatus)
        · rw [hkey]
          exact drawn_succ d _
        · rw [hkey]
          exact not_drawn d _
  | revoke id apiKey now =>
    obtain ⟨heq, -⟩ | ⟨account, rec, hfind, hrec, -, heq⟩ := next_revoke d s id apiKey now
    · rw [heq]
      exact h
    · rw [heq]
      exact h.afterRevoke hfind hrec now
  | restart => exact h.restarted

end Wf

/-! ### What is asked for, in terms of the rows -/

/-- The key authenticates with the row exactly when it is not revoked and the row can be used, and
the map has it until it is revoked. -/
def GoodKey (s : State) (account : CustomerAccount) (apiKey : String) : Prop :=
  ((account.apiKey.value = apiKey ∧ account.apiKey.isActive = true ∧
      account.status.usable = true) ↔ apiKey ∉ s.revoked ∧ account.status.usable = true) ∧
    (apiKey ∉ s.revoked → (s.world.keys.lookup apiKey).isSome)

section Lifecycles

variable {d : Draws} {s : State} {id : Uuid} {apiKey : String} {account : CustomerAccount}

/-- A key that was returned authenticates with the row of its customer. -/
theorem authenticates_iff (h : Wf d s) (hmem : (id, apiKey) ∈ s.returned)
    (hid : s.world.accounts.lookup id = some account) :
    s.world.authenticates apiKey = true ↔ account.apiKey.value = apiKey ∧
      account.apiKey.isActive = true ∧ account.status.usable = true := by
  unfold World.authenticates validateApiKey Accounts.findByApiKey
  constructor
  · intro hauth
    split at hauth
    · cases hauth
    next account' hfind =>
      split at hauth
      next hok =>
        obtain ⟨hlookup, hvalue⟩ := (Accounts.find_eq_some_iff h.unique).mp hfind
        obtain rfl := h.rowOwner hmem hlookup hvalue
        rw [hid] at hlookup
        cases hlookup
        exact ⟨hvalue, by simpa using hok⟩
      · cases hauth
  · rintro ⟨hvalue, hactive, husable⟩
    have hfind := (Accounts.find_eq_some_iff h.unique).mpr
      ⟨by rw [h.unique.id hid]; exact hid, hvalue⟩
    rw [hfind]
    simp [hactive, husable]

/-- The owner can revoke a key that the map has and that is not revoked. -/
theorem revocable_iff (h : Wf d s) (hid : s.world.accounts.lookup id = some account)
    (hnot : apiKey ∉ s.revoked) :
    (∀ now, (revokeCustomerApiKey s.world id apiKey now).2 = true) ↔
      (s.world.keys.lookup apiKey).isSome := by
  have hfind : (s.world.accounts.findById id).isSome := by
    rw [Accounts.findById, hid]
    rfl
  constructor
  · intro hrevoke
    obtain ⟨-, rec, hrec, -⟩ := revokeCustomerApiKey_iff.mp (hrevoke 0)
    exact Option.isSome_iff_exists.mpr ⟨rec, hrec⟩
  · intro hsome now
    obtain ⟨rec, hrec⟩ := Option.isSome_iff_exists.mp hsome
    refine revokeCustomerApiKey_iff.mpr ⟨hfind, rec, hrec, ?_⟩
    rw [← Bool.not_eq_true, (h.key hrec).2]
    exact hnot

/-- **What is asked for, in terms of the row of the owner.** -/
theorem lifecycle_iff (h : Wf d s) :
    Lifecycle s ↔ ∀ id apiKey account, (id, apiKey) ∈ s.returned →
      s.world.accounts.lookup id = some account → GoodKey s account apiKey := by
  have husable {id account} (hid : s.world.accounts.lookup id = some account) :
      s.world.usable id = account.status.usable := by
    rw [World.usable, Accounts.findById, hid]
    rfl
  constructor
  · intro hlife id apiKey account hmem hid
    obtain ⟨hauth, hrevoke⟩ := hlife _ hmem
    rw [authenticates_iff h hmem hid, husable hid] at hauth
    exact ⟨hauth, fun hnot => (revocable_iff h hid hnot).mp (hrevoke hnot)⟩
  · rintro hgood ⟨id, apiKey⟩ hmem
    obtain ⟨account, hid⟩ := Option.isSome_iff_exists.mp (h.returned hmem).2
    obtain ⟨hauth, hrevoke⟩ := hgood id apiKey account hmem hid
    rw [authenticates_iff h hmem hid, husable hid]
    exact ⟨hauth, fun hnot => (revocable_iff h hid hnot).mpr (hrevoke hnot)⟩

/-! ### What an operation keeps -/

/-- What is asked for after a row is saved: it is about the keys of this customer. -/
theorem lifecycle_saved_iff {account' : CustomerAccount} {n : ℕ} (h : Wf d s)
    (h' : Wf d (s.saved account' n)) (hlife : Lifecycle s) :
    Lifecycle (s.saved account' n) ↔
      ∀ apiKey, (account'.id, apiKey) ∈ s.returned → GoodKey s account' apiKey := by
  rw [lifecycle_iff h']
  rw [lifecycle_iff h] at hlife
  have hlookup := Accounts.lookup_save s.world.accounts account'
  constructor
  · intro hgood apiKey hmem
    exact hgood _ apiKey account' hmem ((hlookup _).trans (if_pos rfl))
  · intro hgood id apiKey account hmem hid
    rw [State.saved, hlookup] at hid
    split at hid
    next heq =>
      cases hid
      exact hgood apiKey (heq ▸ hmem)
    · exact hlife id apiKey account hmem hid

theorem lifecycle_registered (h : Wf d s) (hlife : Lifecycle s) (req : RegisterCustomerRequest)
    (now : Instant) : Lifecycle (s.registered d req now) := by
  rw [lifecycle_iff (h.registered req now)]
  rw [lifecycle_iff h] at hlife
  intro id apiKey account hmem hid
  have hnot : keyText (d.token s.world.draws) ∉ s.revoked :=
    fun hrevoked => not_drawn d _ (h.revoked _ hrevoked)
  rw [State.registered, Accounts.lookup_save] at hid
  obtain heq | hmem := List.mem_cons.mp hmem
  · obtain ⟨rfl, rfl⟩ := Prod.mk.inj heq
    obtain rfl : newAccount req _ _ now = account := Option.some.inj ((if_pos rfl).symm.trans hid)
    refine ⟨iff_of_true ⟨rfl, rfl, rfl⟩ ⟨hnot, rfl⟩, fun _ => ?_⟩
    show ((generateApiKey _ _ _ _ _ _).lookup _).isSome
    rw [generateApiKey, AList.lookup_insert]
    rfl
  · split at hid
    next heq =>
      obtain ⟨account', hid'⟩ := Option.isSome_iff_exists.mp (h.returned hmem).2
      rw [heq] at hid'
      exact absurd (h.lookup_uuid.symm.trans hid') nofun
    · obtain ⟨hauth, hkeys⟩ := hlife id apiKey account hmem hid
      refine ⟨hauth, fun hnot' => ?_⟩
      show ((generateApiKey _ _ _ _ _ _).lookup _).isSome
      rw [generateApiKey, AList.lookup_insert_eq]
      split
      · rfl
      · exact hkeys hnot'

/-- A new key of an active account does not authenticate: no row has it. -/
theorem not_lifecycle_created (h : Wf d s) (hfind : s.world.accounts.findById id = some account)
    (hactive : account.status = .active) (keyName : String) (permissions : List String)
    (now : Instant) : ¬ Lifecycle (s.created d id keyName permissions now) := by
  rw [lifecycle_iff (h.created hfind keyName permissions now)]
  intro hgood
  obtain ⟨hauth, -⟩ := hgood id _ account List.mem_cons_self hfind
  have hnot : keyText (d.token s.world.draws) ∉ s.revoked :=
    fun hrevoked => not_drawn d _ (h.revoked _ hrevoked)
  obtain ⟨hvalue, -⟩ := hauth.mpr ⟨hnot, by rw [hactive]; rfl⟩
  have hdrawn := h.row hfind
  rw [hvalue] at hdrawn
  exact not_drawn d _ hdrawn

theorem lifecycle_suspended {account' : CustomerAccount} {now : Instant} {n : ℕ} (h : Wf d s)
    (h' : Wf d (s.saved account' n)) (hlife : Lifecycle s)
    (hfind : s.world.accounts.findById id = some account)
    (hsuspend : suspendAccount now account = .ok account') : Lifecycle (s.saved account' n) := by
  rw [lifecycle_saved_iff h h' hlife]
  rw [lifecycle_iff h] at hlife
  obtain ⟨hstatus, -, hid, -⟩ := status_of_suspendAccount hsuspend
  intro apiKey hmem
  rw [hid, h.unique.id hfind] at hmem
  have hunusable : ¬ account'.status.usable = true := by
    rw [hstatus]
    decide
  refine ⟨iff_of_false ?_ ?_, (hlife id apiKey account hmem hfind).2⟩
  · rintro ⟨-, -, husable⟩
    exact hunusable husable
  · rintro ⟨-, husable⟩
    exact hunusable husable

/-- An activation that makes a new key makes the customer's other keys useless. -/
theorem lifecycle_activated_iff {account' : CustomerAccount} {now : Instant} {n : ℕ} (h : Wf d s)
    (h' : Wf d (s.saved account' n)) (hlife : Lifecycle s)
    (hfind : s.world.accounts.findById id = some account)
    (hactivate : activateAccount (d.token s.world.draws) now account = .ok account') :
    Lifecycle (s.saved account' n) ↔ (account.apiKey.isActive = false →
      ∀ apiKey, (id, apiKey) ∈ s.returned → apiKey ∈ s.revoked) := by
  rw [lifecycle_saved_iff h h' hlife]
  rw [lifecycle_iff h] at hlife
  obtain ⟨hstatus, hkey, hid, -⟩ := status_of_activateAccount hactivate
  rw [hid, h.unique.id hfind]
  split at hkey
  next hactive =>
    refine iff_of_true (fun apiKey hmem => ?_) fun hinactive => ?_
    · -- the account was active, and nothing of this changes
      obtain hwas | ⟨-, hinactive⟩ := h.status hfind
      · have hgood := hlife id apiKey account hmem hfind
        unfold GoodKey at hgood ⊢
        rw [hkey, hstatus]
        rw [hwas] at hgood
        exact hgood
      · rw [hactive] at hinactive
        cases hinactive
    · rw [hactive] at hinactive
      cases hinactive
  next hinactive =>
    rw [imp_iff_right (Bool.not_eq_true _ ▸ hinactive)]
    refine forall₂_congr fun apiKey hmem => ?_
    -- the new key is none of those that were returned
    have hne : account'.apiKey.value ≠ apiKey := by
      rw [hkey]
      rintro rfl
      exact not_drawn d _ (h.returned hmem).1
    constructor
    · rintro ⟨hauth, -⟩
      by_contra hnot
      exact hne (hauth.mpr ⟨hnot, by rw [hstatus]; rfl⟩).1
    · intro hrevoked
      exact ⟨iff_of_false (fun hauth => hne hauth.1) fun hauth => hauth.1 hrevoked,
        fun hnot => absurd hrevoked hnot⟩

/-- A row after a revocation is the row before it, with the key inactive if it is the one that is
revoked in the customer's name. -/
theorem lookup_afterRevoke (h : Wf d s) (hfind : s.world.accounts.findById id = some account)
    {rec : KeyRecord} {id' : Uuid} {account' : CustomerAccount}
    (hid' : (s.afterRevoke account apiKey rec).world.accounts.lookup id' = some account') :
    ∃ old, s.world.accounts.lookup id' = some old ∧ account'.status = old.status ∧
      account'.apiKey.value = old.apiKey.value ∧ (account'.apiKey.isActive = true ↔
        old.apiKey.isActive = true ∧ ¬ (id' = id ∧ old.apiKey.value = apiKey)) := by
  have hid := h.unique.id hfind
  simp only [State.afterRevoke, World.afterRevoke] at hid'
  split at hid'
  next hown =>
    obtain ⟨hvalue, -⟩ : account.apiKey.value = apiKey ∧ account.apiKey.isActive = true := by
      simpa [revokesOwnKey] using hown
    rw [Accounts.lookup_save] at hid'
    split at hid'
    next heq =>
      cases hid'
      rw [show id' = id from heq.trans hid]
      exact ⟨account, hfind, rfl, rfl, by simp [hvalue]⟩
    next hne =>
      have hne' : id' ≠ id := fun heq => hne (heq.trans hid.symm)
      exact ⟨account', hid', rfl, rfl, by simp [hne']⟩
  next hown =>
    refine ⟨account', hid', rfl, rfl, ?_⟩
    rw [iff_self_and]
    rintro hactive ⟨rfl, hvalue⟩
    rw [Accounts.findById, hid'] at hfind
    cases hfind
    exact hown (by simp [revokesOwnKey, hvalue, hactive])

/-- A key that is revoked in the name of a customer is to be one of theirs, or one of a customer
whose account cannot be used. -/
theorem lifecycle_afterRevoke_iff (h : Wf d s) (hlife : Lifecycle s) {rec : KeyRecord}
    (hfind : s.world.accounts.findById id = some account)
    (hrec : s.world.keys.lookup apiKey = some rec) (hrevoked : rec.revoked = false)
    (now : Instant) :
    Lifecycle (s.afterRevoke account apiKey { rec with revoked := true, revokedAt := some now }) ↔
      (rec.tenantId ≠ id → s.world.usable rec.tenantId = false) := by
  have hwf := h.afterRevoke hfind hrec now
  obtain ⟨hmem, hflag⟩ := h.key hrec
  have hnot : apiKey ∉ s.revoked := by
    rw [← hflag, hrevoked]
    exact Bool.false_ne_true
  obtain ⟨owner, howner⟩ := Option.isSome_iff_exists.mp (h.returned hmem).2
  have husable : s.world.usable rec.tenantId = owner.status.usable := by
    rw [World.usable, Accounts.findById, howner]
    rfl
  rw [lifecycle_iff hwf, husable]
  rw [lifecycle_iff h] at hlife
  constructor
  · intro hgood hne
    -- the row of the owner is as before
    obtain ⟨account', haccount'⟩ := Option.isSome_iff_exists.mp (hwf.returned hmem).2
    obtain ⟨old, hold, hstatus, hvalue, hactive⟩ := lookup_afterRevoke h hfind haccount'
    rw [howner] at hold
    cases hold
    obtain ⟨hauth, -⟩ := hgood _ _ account' hmem haccount'
    by_contra hcan
    have hbefore := (hlife _ _ owner hmem howner).1.mpr ⟨hnot, Bool.not_eq_false _ ▸ hcan⟩
    refine (hauth.mp ⟨hvalue.trans hbefore.1, hactive.mpr ⟨hbefore.2.1, ?_⟩, ?_⟩).1
      List.mem_cons_self
    · exact fun hboth => hne hboth.1
    · rw [hstatus]
      exact hbefore.2.2
  · intro howns id' apiKey' account' hmem' haccount'
    obtain ⟨old, hold, hstatus, hvalue, hactive⟩ := lookup_afterRevoke h hfind haccount'
    obtain ⟨hauth, hkeys⟩ := hlife _ _ old hmem' hold
    unfold GoodKey
    rw [hstatus, hvalue, hactive]
    by_cases heq : apiKey' = apiKey
    · subst heq
      obtain rfl := h.owner hmem hmem'
      rw [howner] at hold
      cases hold
      refine ⟨iff_of_false ?_ fun hboth => hboth.1 List.mem_cons_self,
        fun hno => absurd List.mem_cons_self hno⟩
      rintro ⟨hvalue', ⟨-, hno⟩, hcan⟩
      have hcannot := howns fun hid => hno ⟨hid, hvalue'⟩
      rw [hcannot] at hcan
      cases hcan
    · constructor
      · rw [State.afterRevoke, List.mem_cons, not_or, and_iff_right heq, ← hauth]
        refine and_congr_right fun hvalue' => and_congr_left' (and_iff_left ?_)
        exact fun hboth => heq (hvalue'.symm.trans hboth.2)
      · intro hno
        show ((s.world.keys.insert _ _).lookup _).isSome
        rw [AList.lookup_insert_ne heq]
        exact hkeys fun hrevoked' => hno (List.mem_cons_of_mem _ hrevoked')

theorem lifecycle_restart_iff (h : Wf d s) (hlife : Lifecycle s) :
    Lifecycle { s with world := restart s.world } ↔ ∀ p ∈ s.returned, p.2 ∈ s.revoked := by
  rw [lifecycle_iff h.restarted]
  rw [lifecycle_iff h] at hlife
  constructor
  · rintro hgood ⟨id, apiKey⟩ hmem
    obtain ⟨account, hid⟩ := Option.isSome_iff_exists.mp (h.returned hmem).2
    by_contra hnot
    exact absurd ((hgood id apiKey account hmem hid).2 hnot) Bool.false_ne_true
  · intro hrevoked id apiKey account hmem hid
    exact ⟨(hlife id apiKey account hmem hid).1, fun hnot => absurd (hrevoked _ hmem) hnot⟩

/-- **An operation keeps what is asked for exactly under its condition.** -/
theorem lasting_iff (h : Wf d s) (hlife : Lifecycle s) (a : Action) :
    Lasting s a (next d s a) ↔ Lifecycle (next d s a) := by
  have hwf := h.next a
  cases a with
  | register req now =>
    refine iff_of_true trivial ?_
    obtain heq | heq := next_register d s req now
    · rw [heq]
      exact hlife
    · rw [heq]
      exact lifecycle_registered h hlife req now
  | createKey id keyName permissions now =>
    obtain ⟨heq, hnone⟩ | ⟨account, hfind, hactive, heq⟩ :=
      next_createKey d s id keyName permissions now
    · rw [heq]
      exact iff_of_true hnone hlife
    · rw [heq]
      exact iff_of_false (fun hlasting => hlasting account hfind hactive)
        (not_lifecycle_created h hfind hactive keyName permissions now)
  | updateStatus id newStatus now =>
    refine iff_of_true trivial ?_
    obtain heq | ⟨account, account', hfind, hsuspend, heq⟩ := next_updateStatus d s id newStatus now
    · rw [heq]
      exact hlife
    · rw [heq] at hwf ⊢
      exact lifecycle_suspended h hwf hlife hfind hsuspend
  | activate id now =>
    obtain ⟨heq, hnone⟩ | ⟨account, account', hfind, hactivate, heq⟩ := next_activate d s id now
    · rw [heq]
      refine iff_of_true (fun account hfind hdeleted hexpired => ?_) hlife
      obtain ⟨account', hactivate⟩ := exists_activateAccount_iff.mpr ⟨hdeleted, hexpired⟩
      exact absurd hactivate (hnone account account' hfind)
    · rw [heq] at hwf ⊢
      rw [lifecycle_activated_iff h hwf hlife hfind hactivate]
      obtain ⟨hdeleted, hexpired⟩ := exists_activateAccount_iff.mp ⟨account', hactivate⟩
      constructor
      · intro hlasting
        exact hlasting account hfind hdeleted hexpired
      · intro hkeys account₂ hfind₂ _ _
        rw [hfind] at hfind₂
        cases hfind₂
        exact hkeys
  | revoke id apiKey now =>
    obtain ⟨heq, hnone⟩ | ⟨account, rec, hfind, hrec, hrevoked, heq⟩ :=
      next_revoke d s id apiKey now
    · rw [heq]
      refine iff_of_true (fun hfind rec hrec hrevoked => ?_) hlife
      exact absurd ⟨hfind, rec, hrec, hrevoked⟩ hnone
    · rw [heq, lifecycle_afterRevoke_iff h hlife hfind hrec hrevoked]
      constructor
      · intro hlasting
        exact hlasting (by rw [hfind]; rfl) rec hrec hrevoked
      · intro hkeys _ rec' hrec' _
        rw [hrec] at hrec'
        cases hrec'
        exact hkeys
  | restart => exact (lifecycle_restart_iff h hlife).symm

end Lifecycles

/-- **The keys that were returned behave as they should in a whole run exactly when every step
meets its condition.** -/
theorem always_lifecycle_iff (d : Draws) (l : List Action) :
    Runs.Always (step d) Lifecycle init l ↔ Runs.EachStep (step d) Lasting init l := by
  have hstep (s : State) (a : Action) (s' : State) (hs : Wf d s ∧ Lifecycle s)
      (h : step d s a = some s') : Lasting s a s' ↔ Lifecycle s' := by
    cases h
    exact lasting_iff hs.1 hs.2 a
  refine Runs.always_iff (fun s hs => hs.2) hstep (fun s a s' hs h hok => ?_) ⟨wf_init d, ?_⟩ l
  · refine ⟨?_, (hstep s a s' hs h).mp hok⟩
    cases h
    exact hs.1.next a
  · intro p hp
    exact absurd hp List.not_mem_nil

/-! ### Runs in which keys fail -/

/-- Draws of which each is one character longer than the one before. -/
def someDraws : Draws where
  token n := ⟨String.ofList (List.replicate (43 + n) 'a'), by simp; omega⟩
  uuid n := n
  token_injective n m h := by
    have hlength := congrArg (fun token : Token => token.1.length) h
    simpa using hlength
  uuid_injective := Function.injective_id

/-- Some customer. -/
def someCustomer (tenantName adminEmail : String) : RegisterCustomerRequest :=
  ⟨tenantName, adminEmail, "organization", "salt:hash"⟩

/-- Some key that was returned does not behave as it should, as far as the first clause goes and
the time of a revocation is 0. -/
def Fails (s : State) : Bool :=
  s.returned.any fun p =>
    (s.world.authenticates p.2 ≠ (decide (p.2 ∉ s.revoked) && s.world.usable p.1)) ||
      (decide (p.2 ∉ s.revoked) && !(revokeCustomerApiKey s.world p.1 p.2 0).2)

theorem not_lifecycle_of_fails {s : State} (h : Fails s = true) : ¬ Lifecycle s := by
  intro hlife
  obtain ⟨p, hp, hfails⟩ := List.any_eq_true.mp h
  obtain ⟨hauth, hrevoke⟩ := hlife p hp
  have hsame : s.world.authenticates p.2 = (decide (p.2 ∉ s.revoked) && s.world.usable p.1) := by
    rw [Bool.eq_iff_iff, hauth, Bool.and_eq_true, decide_eq_true_iff]
  rw [Bool.or_eq_true, Bool.and_eq_true] at hfails
  obtain hauth' | ⟨hnot, hno⟩ := hfails
  · exact of_decide_eq_true hauth' hsame
  · rw [hrevoke (of_decide_eq_true hnot) 0] at hno
    cases hno

/-- A run ends in a state in which a key fails. -/
theorem not_always_lifecycle {d : Draws} {l : List Action}
    (h : (Runs.run (step d) init l).any Fails = true) :
    ¬ Runs.Always (step d) Lifecycle init l := by
  obtain ⟨s, hs, hfails⟩ := (Option.any_eq_true _ _).mp h
  exact fun halways => not_lifecycle_of_fails hfails (halways l List.prefix_rfl s hs)

/-- **Keys fail in four ways**: one that is created, one whose account is activated, one that
another customer revokes, and one that is to be revoked after a restart. -/
theorem not_always_lifecycle_of_four :
    ¬ Runs.Always (step someDraws) Lifecycle init
        [.register (someCustomer "one" "1@a.b") 0, .createKey 0 "prod" [] 1] ∧
      ¬ Runs.Always (step someDraws) Lifecycle init
        [.register (someCustomer "one" "1@a.b") 0, .updateStatus 0 "suspended" 1,
          .activate 0 2] ∧
      ¬ Runs.Always (step someDraws) Lifecycle init
        [.register (someCustomer "one" "1@a.b") 0, .register (someCustomer "two" "2@a.b") 1,
          .revoke 1 (keyText (someDraws.token 0)) 2] ∧
      ¬ Runs.Always (step someDraws) Lifecycle init
        [.register (someCustomer "one" "1@a.b") 0, .restart] :=
  ⟨not_always_lifecycle (by decide +kernel), not_always_lifecycle (by decide +kernel),
    not_always_lifecycle (by decide +kernel), not_always_lifecycle (by decide +kernel)⟩

/-! ### Whose keys a revocation changes -/

/-- **A revocation changes no flag of a key of another customer**, neither in the map nor in a row.
-/
def Confined (w : World) (id : Uuid) (apiKey : String) (now : Instant) : Prop :=
  let w' := (revokeCustomerApiKey w id apiKey now).1
  (∀ apiKey' rec, w.keys.lookup apiKey' = some rec → rec.tenantId ≠ id →
      (w'.keys.lookup apiKey').map KeyRecord.revoked = some rec.revoked) ∧
    ∀ id' account, w.accounts.lookup id' = some account → id' ≠ id →
      (w'.accounts.lookup id').map CustomerAccount.apiKey = some account.apiKey

/-- The state of every run is well formed. -/
theorem wf_run {d : Draws} {l : List Action} {s : State}
    (h : Runs.run (step d) init l = some s) : Wf d s := by
  refine Runs.always_of_invariant (fun s a s' hs hstep => ?_) (wf_init d) l l List.prefix_rfl s h
  cases hstep
  exact hs.next a

/-- **A revocation is confined to the requester exactly when it fails or the key is the
requester's.** -/
theorem confined_iff (d : Draws) (l : List Action) (s : State)
    (hrun : Runs.run (step d) init l = some s) (id : Uuid) (apiKey : String) (now : Instant) :
    Confined s.world id apiKey now ↔ ((s.world.accounts.findById id).isSome →
      ∀ rec, s.world.keys.lookup apiKey = some rec → rec.revoked = false → rec.tenantId = id) := by
  have hwf := wf_run hrun
  unfold Confined
  obtain ⟨heq, hnone⟩ | ⟨account, rec, hfind, hrec, hrevoked, heq⟩ :=
    revokeCustomerApiKey_cases s.world id apiKey now
  · rw [heq]
    refine iff_of_true ⟨?_, ?_⟩ fun hfind rec hrec hrevoked => ?_
    · intro apiKey' rec hrec _
      rw [hrec]
      rfl
    · intro id' account hid' _
      rw [hid']
      rfl
    · exact absurd ⟨hfind, rec, hrec, hrevoked⟩ hnone
  · rw [heq]
    dsimp only
    constructor
    · rintro ⟨hmap, -⟩ _ rec' hrec' _
      rw [hrec] at hrec'
      cases hrec'
      by_contra hne
      have hflag := hmap apiKey rec hrec hne
      rw [World.afterRevoke, AList.lookup_insert, hrevoked] at hflag
      cases hflag
    · intro howner
      have hid := howner (by rw [hfind]; rfl) rec hrec hrevoked
      constructor
      · intro apiKey' rec' hrec' hne
        rw [World.afterRevoke, AList.lookup_insert_ne, hrec']
        · rfl
        · rintro rfl
          rw [hrec] at hrec'
          cases hrec'
          exact hne hid
      · intro id' account' hid' hne
        simp only [World.afterRevoke]
        split
        · rw [Accounts.lookup_save, if_neg, hid']
          · rfl
          · rw [hwf.unique.id hfind]
            exact hne
        · rw [hid']
          rfl

/-- Two customers are registered. -/
def twoCustomers : List Action :=
  [.register (someCustomer "one" "1@a.b") 0, .register (someCustomer "two" "2@a.b") 1]

/-- The state after that. -/
def afterTwo : State := next someDraws (next someDraws init
  (.register (someCustomer "one" "1@a.b") 0)) (.register (someCustomer "two" "2@a.b") 1)

/-- A customer's own key can be revoked without harm. -/
theorem confined_iff_own_key :
    Runs.run (step someDraws) init twoCustomers = some afterTwo ∧
      (Confined afterTwo.world 0 (keyText (someDraws.token 0)) 2 ↔
        ((afterTwo.world.accounts.findById 0).isSome → ∀ rec,
          afterTwo.world.keys.lookup (keyText (someDraws.token 0)) = some rec →
            rec.revoked = false → rec.tenantId = 0)) :=
  ⟨rfl, confined_iff someDraws twoCustomers afterTwo rfl 0 _ 2⟩

/-- **One customer revokes the key of another.** -/
theorem not_confined_other_key :
    Runs.run (step someDraws) init twoCustomers = some afterTwo ∧
      ¬ Confined afterTwo.world 1 (keyText (someDraws.token 0)) 2 := by
  refine ⟨rfl, fun h => ?_⟩
  have hrec : ∃ rec, afterTwo.world.keys.lookup (keyText (someDraws.token 0)) = some rec ∧
      rec.tenantId = 0 ∧ rec.revoked = false := by
    refine ⟨⟨0, "default", ["database:read", "database:write", "query:execute"], false, 0, none⟩,
      ?_, rfl, rfl⟩
    decide +kernel
  obtain ⟨rec, hrec, htenant, hrevoked⟩ := hrec
  have hflag := h.1 _ rec hrec (by rw [htenant]; decide)
  rw [hrevoked] at hflag
  revert hflag
  decide +kernel

end KuzuEventBus.Service.ApiKeys
