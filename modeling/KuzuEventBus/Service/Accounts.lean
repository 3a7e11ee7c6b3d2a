import KuzuEventBus.Lib.HashMap
import KuzuEventBus.Service.QueryWorker

/-!
# Customer accounts and API keys

A customer has one row in the table of accounts, with one API key, which the authentication
middleware compares requests with.  The authentication service has a map of its own, in the memory
of the process, of the keys it has generated.

The random draws (`secrets.token_urlsafe(32)`) and the readings of the clock are arguments.  The
names and addresses are the texts that `TenantName` and `EmailAddress` have normalised, and sizes
are in megabytes.

## Main definitions

* `ApiKey`, `CustomerAccount`, `Accounts` — the row, and the repository, in which a save replaces
  the whole row.
* `suspendAccount`, `activateAccount` — the changes of the aggregate.
* `validateApiKey` — what the middleware accepts.
* `KeyRecord`, `generateApiKey`, `revokeApiKey` — the authentication service.
* `updateSubscriptionStatus`, `revokesOwnKey` — what the use cases change in the row they have read.

## Main results

* `find_eq_some_iff` — what a search by a unique column finds.
* `status_of_suspendAccount`, `status_of_activateAccount` — what a change leaves.
-/

namespace KuzuEventBus.Service

/-- The exceptions of the use cases for accounts. -/
inductive AccountError where
  | businessRuleViolation (message : String)
  | valueError (message : String)
  | attributeError (message : String)
  deriving DecidableEq

/-! ### The account -/

/-- `CustomerAccountStatus`. -/
inductive CustomerAccountStatus where
  | active
  | suspended
  | trial
  | expired
  | deleted
  deriving DecidableEq

/-- `SubscriptionPlan`. -/
inductive SubscriptionPlan where
  | trial
  | basic
  | professional
  | enterprise
  deriving DecidableEq

/-- What `token_urlsafe(32)` gives: 32 random bytes are spelled with 43 characters. -/
abbrev Token := { text : String // 32 ≤ text.length }

/-- `ApiKey`, with what `__post_init__` checks. -/
structure ApiKey where
  value : String
  createdAt : Instant
  lastUsed : Option Instant
  isActive : Bool
  startsWith : "kb_".toList <+: value.toList
  long : 35 ≤ value.length
  deriving DecidableEq

/-- The text of the key of a token, `f"kb_{token}"`. -/
def keyText (token : Token) : String := "kb_" ++ token.1

theorem keyText_startsWith (token : Token) : "kb_".toList <+: (keyText token).toList := by
  rw [keyText, String.toList_append]
  exact List.prefix_append _ _

theorem keyText_length (token : Token) : 35 ≤ (keyText token).length := by
  have h3 : "kb_".length = 3 := rfl
  have htoken := token.2
  rw [keyText, String.length_append]
  omega

theorem keyText_injective : Function.Injective keyText := by
  intro t t' h
  have hlist := congrArg String.toList h
  rw [keyText, keyText, String.toList_append, String.toList_append] at hlist
  exact Subtype.ext (String.toList_inj.mp (List.append_cancel_left hlist))

/-- `ApiKey(value)`, for the text of a token. -/
def ApiKey.new (token : Token) (now : Instant) : ApiKey where
  value := keyText token
  createdAt := now
  lastUsed := none
  isActive := true
  startsWith := keyText_startsWith token
  long := keyText_length token

/-- `mark_as_used`. -/
def ApiKey.markAsUsed (now : Instant) (key : ApiKey) : Except AccountError ApiKey :=
  if key.isActive then .ok { key with lastUsed := some now }
  else .error (.businessRuleViolation "Cannot use inactive API key")

/-- `deactivate`. -/
def ApiKey.deactivate (key : ApiKey) : ApiKey := { key with isActive := false }

@[simp] theorem ApiKey.deactivate_value (key : ApiKey) : key.deactivate.value = key.value := rfl

@[simp] theorem ApiKey.deactivate_isActive (key : ApiKey) : key.deactivate.isActive = false := rfl

/-- `SubscriptionDetails`, with what `__post_init__` checks. -/
structure SubscriptionDetails where
  plan : SubscriptionPlan
  storageQuota : ℕ
  maxDatabases : ℕ
  maxConcurrentQueries : ℕ
  startedAt : Instant
  expiresAt : Option Instant
  maxDatabases_pos : 0 < maxDatabases
  maxConcurrentQueries_pos : 0 < maxConcurrentQueries
  deriving DecidableEq

/-- `is_expired`. -/
def SubscriptionDetails.isExpired (now : Instant) (subscription : SubscriptionDetails) : Bool :=
  match subscription.expiresAt with
  | none => false
  | some expiresAt => decide (expiresAt < now)

/-- The subscription of a new account. -/
def SubscriptionDetails.default (now : Instant) : SubscriptionDetails where
  plan := .trial
  storageQuota := 100
  maxDatabases := 3
  maxConcurrentQueries := 5
  startedAt := now
  expiresAt := none
  maxDatabases_pos := by decide
  maxConcurrentQueries_pos := by decide

/-- `CustomerAccount`, and the row that `_populate_model` makes of it. -/
structure CustomerAccount where
  id : Uuid
  name : String
  email : String
  apiKey : ApiKey
  status : CustomerAccountStatus
  subscription : SubscriptionDetails
  currentStorageUsage : ℕ
  databaseCount : ℕ
  createdAt : Instant
  updatedAt : Instant
  lastLogin : Option Instant
  organizationName : Option String
  passwordHash : Option String
  deriving DecidableEq

/-- `suspend_account`. -/
def suspendAccount (now : Instant) (account : CustomerAccount) :
    Except AccountError CustomerAccount :=
  if account.status = .deleted then
    .error (.businessRuleViolation "Cannot suspend deleted account")
  else if account.status = .suspended then
    .error (.businessRuleViolation "Account is already suspended")
  else
    .ok { account with
      status := .suspended
      apiKey := account.apiKey.deactivate
      updatedAt := now }

/-- `activate_account`; an inactive key is replaced with a new one. -/
def activateAccount (token : Token) (now : Instant) (account : CustomerAccount) :
    Except AccountError CustomerAccount :=
  if account.status = .deleted then
    .error (.businessRuleViolation "Cannot activate deleted account")
  else if account.subscription.isExpired now then
    .error (.businessRuleViolation "Cannot activate account with expired subscription")
  else
    .ok { account with
      status := .active
      apiKey := if account.apiKey.isActive then account.apiKey else .new token now
      updatedAt := now }

/-- A suspension leaves the account suspended, and its key as it was but inactive. -/
theorem status_of_suspendAccount {now : Instant} {account account' : CustomerAccount}
    (h : suspendAccount now account = .ok account') :
    account'.status = .suspended ∧ account'.apiKey = account.apiKey.deactivate ∧
      account'.id = account.id ∧ account'.name = account.name ∧
      account'.email = account.email := by
  unfold suspendAccount at h
  split at h
  · cases h
  split at h
  · cases h
  cases h
  exact ⟨rfl, rfl, rfl, rfl, rfl⟩

/-- An activation leaves the account active, with its key or, for an inactive one, a new one. -/
theorem status_of_activateAccount {token : Token} {now : Instant}
    {account account' : CustomerAccount} (h : activateAccount token now account = .ok account') :
    account'.status = .active ∧
      account'.apiKey = (if account.apiKey.isActive then account.apiKey else .new token now) ∧
      account'.id = account.id ∧ account'.name = account.name ∧
      account'.email = account.email := by
  unfold activateAccount at h
  split at h
  · cases h
  split at h
  · cases h
  cases h
  exact ⟨rfl, rfl, rfl, rfl, rfl⟩

/-- An account can be activated unless it is deleted or its subscription has expired. -/
theorem exists_activateAccount_iff {token : Token} {now : Instant} {account : CustomerAccount} :
    (∃ account', activateAccount token now account = .ok account') ↔
      account.status ≠ .deleted ∧ account.subscription.isExpired now = false := by
  unfold activateAccount
  by_cases hdeleted : account.status = .deleted
  · simp [hdeleted]
  · cases hexpired : account.subscription.isExpired now <;> simp [hdeleted]

/-! ### The repository -/

/-- The table of accounts, by `customer_id`. -/
abbrev Accounts := HashMap Uuid CustomerAccount

namespace Accounts

/-- `save`: every column of the row is written. -/
def save (accounts : Accounts) (account : CustomerAccount) : Accounts :=
  accounts.insert account.id account

/-- `find_by_id`. -/
def findById (accounts : Accounts) (id : Uuid) : Option CustomerAccount := accounts.lookup id

/-- `find_by_api_key`. -/
def findByApiKey (accounts : Accounts) (apiKey : String) : Option CustomerAccount :=
  accounts.values.find? fun account => account.apiKey.value = apiKey

/-- `find_by_tenant_name`. -/
def findByTenantName (accounts : Accounts) (name : String) : Option CustomerAccount :=
  accounts.values.find? fun account => account.name = name

/-- `find_by_email`. -/
def findByEmail (accounts : Accounts) (email : String) : Option CustomerAccount :=
  accounts.values.find? fun account => account.email = email

/-- Each row is under its own id, and no two have the same value in a column. -/
structure Unique {α : Type} (accounts : Accounts) (column : CustomerAccount → α) : Prop where
  id : ∀ {id account}, accounts.lookup id = some account → account.id = id
  eq : ∀ {id id' account account'}, accounts.lookup id = some account →
    accounts.lookup id' = some account' → column account = column account' → id = id'

theorem lookup_save (accounts : Accounts) (account : CustomerAccount) (id : Uuid) :
    (accounts.save account).lookup id =
      if id = account.id then some account else accounts.lookup id :=
  AList.lookup_insert_eq _ _ _ _

/-- What a search by a unique column finds. -/
theorem find_eq_some_iff {α : Type} [DecidableEq α] {accounts : Accounts}
    {column : CustomerAccount → α} (h : accounts.Unique column) {x : α}
    {account : CustomerAccount} :
    (accounts.values.find? fun account => column account = x) = some account ↔
      accounts.lookup account.id = some account ∧ column account = x := by
  constructor
  · intro hfind
    obtain ⟨id, hid⟩ := AList.mem_values_iff.mp (List.mem_of_find?_eq_some hfind)
    have hcolumn := List.find?_some hfind
    rw [h.id hid]
    exact ⟨hid, of_decide_eq_true hcolumn⟩
  · rintro ⟨hid, hcolumn⟩
    have hmem := AList.mem_values_iff.mpr ⟨_, hid⟩
    cases hfind : accounts.values.find? fun account => column account = x with
    | none =>
      have hnone := List.find?_eq_none.mp hfind account hmem
      exact absurd (decide_eq_true hcolumn) hnone
    | some account' =>
      obtain ⟨id', hid'⟩ := AList.mem_values_iff.mp (List.mem_of_find?_eq_some hfind)
      have hcolumn' : column account' = x := by simpa using List.find?_some hfind
      rw [h.eq hid' hid (hcolumn'.trans hcolumn.symm), hid] at hid'
      cases hid'
      rfl

/-- A save keeps a column unique when no other row has the value. -/
theorem Unique.save {α : Type} {accounts : Accounts} {column : CustomerAccount → α}
    (h : accounts.Unique column) {account : CustomerAccount}
    (hnew : ∀ id account', accounts.lookup id = some account' → id ≠ account.id →
      column account' ≠ column account) : (accounts.save account).Unique column where
  id := by
    intro id account' hid
    rw [lookup_save] at hid
    split at hid
    next heq =>
      cases hid
      exact heq.symm
    · exact h.id hid
  eq := by
    intro id id' a a' hid hid' heq
    rw [lookup_save] at hid hid'
    split at hid <;> split at hid'
    · next h₁ h₂ => exact h₁.trans h₂.symm
    · next h₁ h₂ =>
      cases hid
      exact absurd heq.symm (hnew _ _ hid' h₂)
    · next h₁ h₂ =>
      cases hid'
      exact absurd heq (hnew _ _ hid h₁)
    · exact h.eq hid hid' heq

end Accounts

/-! ### The middleware -/

/-- The statuses with which a request is accepted. -/
def CustomerAccountStatus.usable (status : CustomerAccountStatus) : Bool :=
  status = .active || status = .trial

/-- `_validate_api_key`. -/
def validateApiKey (accounts : Accounts) (apiKey : String) : Option CustomerAccount :=
  match accounts.findByApiKey apiKey with
  | none => none
  | some customer =>
    if customer.apiKey.isActive && customer.status.usable then some customer else none

theorem validateApiKey_eq_some {accounts : Accounts} {apiKey : String}
    {customer : CustomerAccount} (h : validateApiKey accounts apiKey = some customer) :
    accounts.findByApiKey apiKey = some customer ∧ customer.apiKey.isActive = true ∧
      customer.status.usable = true := by
  unfold validateApiKey at h
  split at h
  · cases h
  · split at h
    next hfind hok =>
      cases h
      obtain ⟨hactive, husable⟩ := Bool.and_eq_true _ _ ▸ hok
      exact ⟨hfind, hactive, husable⟩
    · cases h

/-! ### The authentication service -/

/-- A record of `_keys`. -/
structure KeyRecord where
  tenantId : Uuid
  keyName : String
  permissions : List String
  revoked : Bool
  createdAt : Instant
  revokedAt : Option Instant
  deriving DecidableEq

/-- The map `_keys` of the service. -/
abbrev Keys := HashMap String KeyRecord

/-- `generate_api_key`: the map with the new key. -/
def generateApiKey (keys : Keys) (tenantId : Uuid) (keyName : String) (permissions : List String)
    (token : Token) (now : Instant) : Keys :=
  keys.insert (keyText token) ⟨tenantId, keyName, permissions, false, now, none⟩

/-- `revoke_api_key`; there is no map when it returns `False`. -/
def revokeApiKey (keys : Keys) (apiKey : String) (now : Instant) : Option Keys :=
  match keys.lookup apiKey with
  | none => none
  | some rec =>
    if rec.revoked then none
    else some (keys.insert apiKey { rec with revoked := true, revokedAt := some now })

theorem revokeApiKey_eq_some {keys keys' : Keys} {apiKey : String} {now : Instant}
    (h : revokeApiKey keys apiKey now = some keys') :
    ∃ rec, keys.lookup apiKey = some rec ∧ rec.revoked = false ∧
      keys' = keys.insert apiKey { rec with revoked := true, revokedAt := some now } := by
  unfold revokeApiKey at h
  split at h
  · cases h
  · split at h
    · cases h
    next rec hrec hrevoked =>
      cases h
      exact ⟨rec, hrec, Bool.not_eq_true _ ▸ hrevoked, rfl⟩

/-- A key can be revoked when the map has it and it is not revoked yet. -/
theorem isSome_revokeApiKey {keys : Keys} {apiKey : String} {now : Instant} :
    (revokeApiKey keys apiKey now).isSome ↔
      ∃ rec, keys.lookup apiKey = some rec ∧ rec.revoked = false := by
  unfold revokeApiKey
  cases hrec : keys.lookup apiKey with
  | none => simp
  | some rec => cases hrevoked : rec.revoked <;> simp [hrevoked]

/-! ### The use cases -/

/-- What `UpdateCustomerSubscriptionStatus` makes of the account it has read; there is nothing to
save when the status is not one it acts on.  The account has no method `reactivate_account`. -/
def updateSubscriptionStatus (newStatus : String) (now : Instant) (account : CustomerAccount) :
    Except AccountError (Option CustomerAccount) :=
  if newStatus = "suspended" then (suspendAccount now account).map some
  else if newStatus = "active" ∧ account.status = .suspended then
    .error (.attributeError "'CustomerAccount' object has no attribute 'reactivate_account'")
  else .ok none

/-- What it saves is a suspension. -/
theorem updateSubscriptionStatus_some {newStatus : String} {now : Instant}
    {account account' : CustomerAccount}
    (h : updateSubscriptionStatus newStatus now account = .ok (some account')) :
    suspendAccount now account = .ok account' := by
  unfold updateSubscriptionStatus at h
  split at h
  · cases hsuspend : suspendAccount now account with
    | error e => rw [hsuspend] at h; cases h
    | ok a => rw [hsuspend] at h; cases h; rfl
  · split at h <;> cases h

/-- The key that is revoked is the one of the account, and it is active: `RevokeCustomerApiKey`
deactivates it and saves the account. -/
def revokesOwnKey (account : CustomerAccount) (apiKey : String) : Bool :=
  account.apiKey.value = apiKey && account.apiKey.isActive

end KuzuEventBus.Service
