import KuzuEventBus.Lib.Effects
import KuzuEventBus.Lib.Runs
import KuzuEventBus.Service.AccountUpdates
import Mathlib.Algebra.Order.Field.Rat
import Mathlib.Tactic.Linarith
import Mathlib.Tactic.Positivity

/-!
# The aggregate of an account

`src/domain/tenant_management/customer_account.py`: the methods of an account in memory, with its
sizes in their units and its events.  A method assigns to the fields one after the other, and an
exception leaves what was assigned before it.

Sizes are rational numbers.  The readings of the clock and the random draws are arguments.  The ids
and times of events are left out.

## Main definitions

* `StorageSize` — amounts with a unit, which are not negative.
* `CustomerAccount` — the aggregate.
* `allocateStorage`, …, `upgradeSubscription` — its methods; `Call`, `step` — calls of them.
* `WithinQuota`, `Fits` — usage is within the limits of the plan, and what a call has to meet.
* `KeepsOnRaise`, `Checked` — a call that raises changes nothing, and what it has to meet.

## Main results

* `suspendAccount_ofRow`, `activateAccount_ofRow` — the methods are those of the stored row.
* `always_withinQuota_iff` — **usage stays within the limits exactly when no plan is taken whose
  limits are below it.**
* `keepsOnRaise_iff` — **calls that raise change nothing exactly when no login is recorded for an
  inactive key, and no storage is allocated with a quota of zero.**
-/

namespace KuzuEventBus.Service.Quotas

open EffectM

/-! ### Sizes -/

/-- `StorageUnit`. -/
inductive StorageUnit where
  | bytes
  | kb
  | mb
  | gb
  deriving DecidableEq

/-- `StorageSize`, with what `__post_init__` checks. -/
structure StorageSize where
  amount : ℚ
  unit : StorageUnit
  nonneg : 0 ≤ amount
  deriving DecidableEq

/-- `to_megabytes`. -/
def StorageSize.toMegabytes (size : StorageSize) : ℚ :=
  match size.unit with
  | .bytes => size.amount / (1024 * 1024)
  | .kb => size.amount / 1024
  | .mb => size.amount
  | .gb => size.amount * 1024

theorem StorageSize.toMegabytes_nonneg (size : StorageSize) : 0 ≤ size.toMegabytes := by
  have h := size.nonneg
  unfold StorageSize.toMegabytes
  split <;> positivity

/-- `__add__`, in megabytes. -/
def StorageSize.add (size other : StorageSize) : StorageSize :=
  ⟨size.toMegabytes + other.toMegabytes, .mb,
    add_nonneg size.toMegabytes_nonneg other.toMegabytes_nonneg⟩

/-- `__sub__`, in megabytes, and 0 when there would be less. -/
def StorageSize.sub (size other : StorageSize) : StorageSize :=
  if h : size.toMegabytes - other.toMegabytes < 0 then ⟨0, .mb, le_rfl⟩
  else ⟨size.toMegabytes - other.toMegabytes, .mb, not_lt.mp h⟩

/-- Subtracting leaves no more than there was. -/
theorem StorageSize.toMegabytes_sub_le (size other : StorageSize) :
    (size.sub other).toMegabytes ≤ size.toMegabytes := by
  have hsize := size.toMegabytes_nonneg
  have hother := other.toMegabytes_nonneg
  unfold StorageSize.sub
  split
  · exact hsize
  · show size.toMegabytes - other.toMegabytes ≤ size.toMegabytes
    linarith

/-! ### The account -/

/-- `SubscriptionDetails`, with what `__post_init__` checks. -/
structure SubscriptionDetails where
  plan : SubscriptionPlan
  storageQuota : StorageSize
  maxDatabases : ℤ
  maxConcurrentQueries : ℤ
  startedAt : Instant
  expiresAt : Option Instant
  maxDatabases_pos : 0 < maxDatabases
  maxConcurrentQueries_pos : 0 < maxConcurrentQueries
  deriving DecidableEq

/-- `is_expired`. -/
def SubscriptionDetails.isExpired (now : Instant) (subscription : SubscriptionDetails) : Bool :=
  match subscription.expiresAt with
  | none => false
  | some expiresAt => decide (expiresAt < now)

/-- The events of an account. -/
inductive Event where
  | created
  | suspended (reason : String)
  | activated
  | storageQuotaExceeded (currentUsageMb quotaMb usagePercentage : ℚ)
  deriving DecidableEq

/-- `CustomerAccount`. -/
structure CustomerAccount where
  id : Uuid
  name : String
  email : String
  apiKey : ApiKey
  status : CustomerAccountStatus
  subscription : SubscriptionDetails
  currentStorageUsage : StorageSize
  databaseCount : ℤ
  createdAt : Instant
  updatedAt : Instant
  lastLogin : Option Instant
  events : List Event
  deriving DecidableEq

/-- The exceptions of the methods. -/
inductive Raised where
  | businessRuleViolation (message : String)
  | zeroDivisionError
  deriving DecidableEq

/-- What a method does. -/
abbrev Method := EffectM Raised CustomerAccount Unit

/-- The readings of the clock in a method, and a draw. -/
structure Readings where
  /-- Where the end of the subscription is looked at, or a login is recorded. -/
  checked : Instant
  /-- Where a key or a subscription is made. -/
  created : Instant
  /-- The last one. -/
  now : Instant
  token : Token

/-- `_add_event`. -/
def addEvent (event : Event) : Method :=
  modify fun account => { account with events := account.events ++ [event] }

/-- `suspend_account`. -/
def suspendAccount (reason : String) (r : Readings) : Method := do
  if (← get).status = .deleted then
    throw (.businessRuleViolation "Cannot suspend deleted account")
  else if (← get).status = .suspended then
    throw (.businessRuleViolation "Account is already suspended")
  else
    modify fun account => { account with status := .suspended }
    modify fun account => { account with apiKey := account.apiKey.deactivate }
    modify fun account => { account with updatedAt := r.now }
    addEvent (.suspended reason)

/-- `activate_account`; an inactive key is replaced with a new one. -/
def activateAccount (r : Readings) : Method := do
  if (← get).status = .deleted then
    throw (.businessRuleViolation "Cannot activate deleted account")
  else if (← get).subscription.isExpired r.checked then
    throw (.businessRuleViolation "Cannot activate account with expired subscription")
  else
    modify fun account => { account with status := .active }
    modify fun account => { account with
      apiKey := if account.apiKey.isActive then account.apiKey else .new r.token r.created }
    modify fun account => { account with updatedAt := r.now }
    addEvent .activated

/-- `can_create_database`. -/
def CustomerAccount.canCreateDatabase (account : CustomerAccount) (now : Instant) : Bool :=
  account.status = .active && account.databaseCount < account.subscription.maxDatabases &&
    !account.subscription.isExpired now

/-- `can_upload_file`. -/
def CustomerAccount.canUploadFile (account : CustomerAccount) (fileSize : StorageSize)
    (now : Instant) : Bool :=
  account.status = .active && !account.subscription.isExpired now &&
    !decide (account.subscription.storageQuota.toMegabytes <
      (account.currentStorageUsage.add fileSize).toMegabytes)

/-- The warning of `allocate_storage`, at 90 % of the quota. -/
def warnAboutQuota : Method := do
  let quotaMb := (← get).subscription.storageQuota.toMegabytes
  let usageMb := (← get).currentStorageUsage.toMegabytes
  if quotaMb * (9 / 10) ≤ usageMb then
    if quotaMb = 0 then throw .zeroDivisionError
    else addEvent (.storageQuotaExceeded usageMb quotaMb (usageMb / quotaMb * 100))
  else pure ()

/-- `allocate_storage`. -/
def allocateStorage (size : StorageSize) (r : Readings) : Method := do
  if (← get).canUploadFile size r.checked then
    modify fun account =>
      { account with currentStorageUsage := account.currentStorageUsage.add size }
    modify fun account => { account with updatedAt := r.now }
    warnAboutQuota
  else throw (.businessRuleViolation "Storage allocation would exceed quota")

/-- `deallocate_storage`. -/
def deallocateStorage (size : StorageSize) (r : Readings) : Method := do
  modify fun account =>
    { account with currentStorageUsage := account.currentStorageUsage.sub size }
  modify fun account => { account with updatedAt := r.now }

/-- `increment_database_count`. -/
def incrementDatabaseCount (r : Readings) : Method := do
  if (← get).canCreateDatabase r.checked then
    modify fun account => { account with databaseCount := account.databaseCount + 1 }
    modify fun account => { account with updatedAt := r.now }
  else throw (.businessRuleViolation "Cannot create more databases")

/-- `decrement_database_count`. -/
def decrementDatabaseCount (r : Readings) : Method := do
  if 0 < (← get).databaseCount then
    modify fun account => { account with databaseCount := account.databaseCount - 1 }
    modify fun account => { account with updatedAt := r.now }
  else pure ()

/-- `ApiKey.mark_as_used`, on the key of the account. -/
def markAsUsed (r : Readings) : Method := do
  if (← get).apiKey.isActive then
    modify fun account =>
      { account with apiKey := { account.apiKey with lastUsed := some r.now } }
  else throw (.businessRuleViolation "Cannot use inactive API key")

/-- `update_last_login`. -/
def updateLastLogin (r : Readings) : Method := do
  modify fun account => { account with lastLogin := some r.checked }
  markAsUsed r

/-- The quota of a plan, in megabytes, and its numbers of databases and of queries. -/
def planLimits : SubscriptionPlan → ℕ × ℕ × ℕ
  | .trial => (100, 3, 5)
  | .basic => (1000, 10, 20)
  | .professional => (10000, 50, 100)
  | .enterprise => (100000, 1000, 1000)

/-- The subscription to a plan. -/
def SubscriptionDetails.ofPlan (plan : SubscriptionPlan) (now : Instant) : SubscriptionDetails where
  plan
  storageQuota := ⟨(planLimits plan).1, .mb, by positivity⟩
  maxDatabases := (planLimits plan).2.1
  maxConcurrentQueries := (planLimits plan).2.2
  startedAt := now
  expiresAt := none
  maxDatabases_pos := by cases plan <;> decide
  maxConcurrentQueries_pos := by cases plan <;> decide

/-- `upgrade_subscription`. -/
def upgradeSubscription (newPlan : SubscriptionPlan) (r : Readings) : Method := do
  if (← get).status = .deleted then
    throw (.businessRuleViolation "Cannot upgrade deleted account")
  else
    modify fun account => { account with subscription := .ofPlan newPlan r.created }
    modify fun account => { account with updatedAt := r.now }

/-- The calls of the methods. -/
inductive Call where
  | suspendAccount (reason : String)
  | activateAccount
  | allocateStorage (size : StorageSize)
  | deallocateStorage (size : StorageSize)
  | incrementDatabaseCount
  | decrementDatabaseCount
  | updateLastLogin
  | upgradeSubscription (newPlan : SubscriptionPlan)

/-- The method that is called. -/
def Call.method : Call → Readings → Method
  | suspendAccount reason => Quotas.suspendAccount reason
  | activateAccount => Quotas.activateAccount
  | allocateStorage size => Quotas.allocateStorage size
  | deallocateStorage size => Quotas.deallocateStorage size
  | incrementDatabaseCount => Quotas.incrementDatabaseCount
  | decrementDatabaseCount => Quotas.decrementDatabaseCount
  | updateLastLogin => Quotas.updateLastLogin
  | upgradeSubscription newPlan => Quotas.upgradeSubscription newPlan

/-- A call, and what it leaves of the account, however it ends. -/
def step (account : CustomerAccount) (call : Call × Readings) : Option CustomerAccount :=
  some ((call.1.method call.2).run account).2

/-! ### What is asked for -/

/-- **The usage and the number of databases are within the limits of the subscription.** -/
structure WithinQuota (account : CustomerAccount) : Prop where
  storage_nonneg : 0 ≤ account.currentStorageUsage.toMegabytes
  storage_le : account.currentStorageUsage.toMegabytes ≤
    account.subscription.storageQuota.toMegabytes
  databases_nonneg : 0 ≤ account.databaseCount
  databases_le : account.databaseCount ≤ account.subscription.maxDatabases

instance : DecidablePred WithinQuota := fun account =>
  decidable_of_iff (0 ≤ account.currentStorageUsage.toMegabytes ∧
      account.currentStorageUsage.toMegabytes ≤ account.subscription.storageQuota.toMegabytes ∧
      0 ≤ account.databaseCount ∧ account.databaseCount ≤ account.subscription.maxDatabases)
    ⟨fun ⟨h₁, h₂, h₃, h₄⟩ => ⟨h₁, h₂, h₃, h₄⟩, fun ⟨h₁, h₂, h₃, h₄⟩ => ⟨h₁, h₂, h₃, h₄⟩⟩

/-- The limits of a plan that is taken are not below the usage. -/
def Fits (account : CustomerAccount) (call : Call × Readings) (_ : CustomerAccount) : Prop :=
  match call.1 with
  | .upgradeSubscription newPlan => account.status = .deleted ∨
      (account.currentStorageUsage.toMegabytes ≤ (planLimits newPlan).1 ∧
        account.databaseCount ≤ (planLimits newPlan).2.1)
  | _ => True

/-- **A call that raises changes nothing.** -/
def KeepsOnRaise (account : CustomerAccount) (call : Call × Readings) (_ : CustomerAccount) :
    Prop :=
  wp (call.1.method call.2) (fun _ _ => True) (fun _ account' => account' = account) account

instance (account : CustomerAccount) (call : Call × Readings) (account' : CustomerAccount) :
    Decidable (KeepsOnRaise account call account') :=
  inferInstanceAs (Decidable (wp _ _ _ _))

/-- A login is recorded for an active key, and storage that can be allocated is not allocated with a
quota of zero, unless all that would be assigned is there already. -/
def Checked (account : CustomerAccount) (call : Call × Readings) (_ : CustomerAccount) : Prop :=
  match call.1 with
  | .updateLastLogin => account.apiKey.isActive = true ∨ account.lastLogin = some call.2.checked
  | .allocateStorage size => account.canUploadFile size call.2.checked = true →
      account.subscription.storageQuota.toMegabytes = 0 →
        account.currentStorageUsage.add size = account.currentStorageUsage ∧
          account.updatedAt = call.2.now
  | _ => True

/-! ### What the methods do -/

section Methods

variable {Q : Unit → CustomerAccount → Prop} {E : Raised → CustomerAccount → Prop}
  {account account' : CustomerAccount} {r : Readings}

@[simp] theorem wp_addEvent (event : Event) : wp (addEvent event) Q E account =
    Q () { account with events := account.events ++ [event] } := rfl

theorem wp_suspendAccount (reason : String) : wp (suspendAccount reason r) Q E account =
    if account.status = .deleted then
      E (.businessRuleViolation "Cannot suspend deleted account") account
    else if account.status = .suspended then
      E (.businessRuleViolation "Account is already suspended") account
    else Q () { account with
      status := .suspended
      apiKey := account.apiKey.deactivate
      updatedAt := r.now
      events := account.events ++ [.suspended reason] } := by
  simp only [suspendAccount, wp_bind, wp_get, wp_ite, wp_throw, wp_modify, wp_addEvent]

theorem wp_activateAccount : wp (activateAccount r) Q E account =
    if account.status = .deleted then
      E (.businessRuleViolation "Cannot activate deleted account") account
    else if account.subscription.isExpired r.checked then
      E (.businessRuleViolation "Cannot activate account with expired subscription") account
    else Q () { account with
      status := .active
      apiKey := if account.apiKey.isActive then account.apiKey else .new r.token r.created
      updatedAt := r.now
      events := account.events ++ [.activated] } := by
  simp only [activateAccount, wp_bind, wp_get, wp_ite, wp_throw, wp_modify, wp_addEvent]

/-- The account as an allocation assigns it. -/
def CustomerAccount.allocated (account : CustomerAccount) (size : StorageSize) (now : Instant) :
    CustomerAccount :=
  { account with
    currentStorageUsage := account.currentStorageUsage.add size
    updatedAt := now }

/-- **The warning at the end of an allocation divides by the quota.** -/
theorem wp_allocateStorage (size : StorageSize) : wp (allocateStorage size r) Q E account =
    if account.canUploadFile size r.checked then
      wp warnAboutQuota Q E (account.allocated size r.now)
    else E (.businessRuleViolation "Storage allocation would exceed quota") account := by
  simp only [allocateStorage, wp_bind, wp_get, wp_ite, wp_throw, wp_modify]
  rfl

theorem wp_warnAboutQuota : wp warnAboutQuota Q E account =
    if account.subscription.storageQuota.toMegabytes * (9 / 10) ≤
        account.currentStorageUsage.toMegabytes then
      if account.subscription.storageQuota.toMegabytes = 0 then E .zeroDivisionError account
      else Q () { account with
        events := account.events ++ [.storageQuotaExceeded
          account.currentStorageUsage.toMegabytes
          account.subscription.storageQuota.toMegabytes
          (account.currentStorageUsage.toMegabytes /
            account.subscription.storageQuota.toMegabytes * 100)] }
    else Q () account := by
  simp only [warnAboutQuota, wp_bind, wp_get, wp_ite, wp_throw, wp_pure, wp_addEvent]

theorem wp_incrementDatabaseCount : wp (incrementDatabaseCount r) Q E account =
    if account.canCreateDatabase r.checked then
      Q () { account with databaseCount := account.databaseCount + 1, updatedAt := r.now }
    else E (.businessRuleViolation "Cannot create more databases") account := by
  simp only [incrementDatabaseCount, wp_bind, wp_get, wp_ite, wp_throw, wp_modify]

theorem wp_decrementDatabaseCount : wp (decrementDatabaseCount r) Q E account =
    if 0 < account.databaseCount then
      Q () { account with databaseCount := account.databaseCount - 1, updatedAt := r.now }
    else Q () account := by
  simp only [decrementDatabaseCount, wp_bind, wp_get, wp_ite, wp_pure, wp_modify]

theorem wp_updateLastLogin : wp (updateLastLogin r) Q E account =
    if account.apiKey.isActive then
      Q () { account with
        lastLogin := some r.checked
        apiKey := { account.apiKey with lastUsed := some r.now } }
    else E (.businessRuleViolation "Cannot use inactive API key")
      { account with lastLogin := some r.checked } := by
  simp only [updateLastLogin, markAsUsed, wp_bind, wp_get, wp_ite, wp_throw, wp_modify]

theorem wp_upgradeSubscription (newPlan : SubscriptionPlan) :
    wp (upgradeSubscription newPlan r) Q E account =
      if account.status = .deleted then
        E (.businessRuleViolation "Cannot upgrade deleted account") account
      else Q () { account with
        subscription := .ofPlan newPlan r.created
        updatedAt := r.now } := by
  simp only [upgradeSubscription, wp_bind, wp_get, wp_ite, wp_throw, wp_modify]

/-! ### Limits -/

/-- A change of other fields keeps within the limits. -/
theorem WithinQuota.of_eq (h : WithinQuota account)
    (hstorage : account'.currentStorageUsage = account.currentStorageUsage)
    (hcount : account'.databaseCount = account.databaseCount)
    (hsubscription : account'.subscription = account.subscription) : WithinQuota account' := by
  refine ⟨?_, ?_, ?_, ?_⟩
  · rw [hstorage]
    exact h.storage_nonneg
  · rw [hstorage, hsubscription]
    exact h.storage_le
  · rw [hcount]
    exact h.databases_nonneg
  · rw [hcount, hsubscription]
    exact h.databases_le

/-- What can be uploaded is within the quota. -/
theorem WithinQuota.allocated {size : StorageSize} {now : Instant} (h : WithinQuota account)
    (hcan : account.canUploadFile size now = true) (now' : Instant) :
    WithinQuota (account.allocated size now') := by
  unfold CustomerAccount.canUploadFile at hcan
  simp only [Bool.and_eq_true, Bool.not_eq_true', decide_eq_false_iff_not, not_lt] at hcan
  refine ⟨?_, hcan.2, h.databases_nonneg, h.databases_le⟩
  exact add_nonneg account.currentStorageUsage.toMegabytes_nonneg size.toMegabytes_nonneg

/-- A plan that is taken keeps within the limits exactly when its own are not below the usage. -/
theorem withinQuota_ofPlan_iff (h : WithinQuota account) (newPlan : SubscriptionPlan)
    (created now : Instant) :
    WithinQuota { account with subscription := .ofPlan newPlan created, updatedAt := now } ↔
      account.currentStorageUsage.toMegabytes ≤ (planLimits newPlan).1 ∧
        account.databaseCount ≤ (planLimits newPlan).2.1 := by
  constructor
  · intro hnew
    exact ⟨hnew.storage_le, hnew.databases_le⟩
  · rintro ⟨hstorage, hcount⟩
    exact ⟨h.storage_nonneg, hstorage, h.databases_nonneg, hcount⟩

/-- **A call keeps within the limits exactly when it fits.** -/
theorem fits_iff {call : Call × Readings} (h : WithinQuota account)
    (hstep : step account call = some account') :
    Fits account call account' ↔ WithinQuota account' := by
  cases hstep
  rw [← wp_state_iff (P := WithinQuota)]
  obtain ⟨call, r⟩ := call
  cases call with
  | suspendAccount reason =>
    refine iff_of_true trivial ?_
    simp only [Call.method, wp_suspendAccount]
    split_ifs
    · exact h
    · exact h
    · exact h.of_eq rfl rfl rfl
  | activateAccount =>
    refine iff_of_true trivial ?_
    simp only [Call.method, wp_activateAccount]
    split
    · exact h
    · split
      · exact h
      · exact h.of_eq rfl rfl rfl
  | allocateStorage size =>
    refine iff_of_true trivial ?_
    simp only [Call.method, wp_allocateStorage, wp_warnAboutQuota]
    split_ifs with hcan
    · exact h.allocated hcan r.now
    · exact (h.allocated hcan r.now).of_eq rfl rfl rfl
    · exact h.allocated hcan r.now
    · exact h
  | deallocateStorage size =>
    refine iff_of_true trivial ⟨?_, ?_, h.databases_nonneg, h.databases_le⟩
    · exact (account.currentStorageUsage.sub size).toMegabytes_nonneg
    · exact (account.currentStorageUsage.toMegabytes_sub_le size).trans h.storage_le
  | incrementDatabaseCount =>
    refine iff_of_true trivial ?_
    simp only [Call.method, wp_incrementDatabaseCount]
    split_ifs with hcan
    · -- the check compares the count before it is incremented
      unfold CustomerAccount.canCreateDatabase at hcan
      simp only [Bool.and_eq_true, decide_eq_true_eq] at hcan
      have hnonneg := h.databases_nonneg
      exact ⟨h.storage_nonneg, h.storage_le, by dsimp only; omega, hcan.1.2⟩
    · exact h
  | decrementDatabaseCount =>
    refine iff_of_true trivial ?_
    simp only [Call.method, wp_decrementDatabaseCount]
    split_ifs with hpos
    · have hle := h.databases_le
      exact ⟨h.storage_nonneg, h.storage_le, by dsimp only; omega, by dsimp only; omega⟩
    · exact h
  | updateLastLogin =>
    refine iff_of_true trivial ?_
    simp only [Call.method, wp_updateLastLogin]
    split_ifs
    · exact h.of_eq rfl rfl rfl
    · exact h.of_eq rfl rfl rfl
  | upgradeSubscription newPlan =>
    simp only [Call.method, wp_upgradeSubscription, Fits]
    by_cases hdeleted : account.status = .deleted
    · rw [if_pos hdeleted]
      exact iff_of_true (.inl hdeleted) h
    · rw [if_neg hdeleted, or_iff_right hdeleted, withinQuota_ofPlan_iff h]

/-! ### Calls that raise -/

/-- An allocation assigns what is there already. -/
theorem allocated_eq_iff {size : StorageSize} {now : Instant} :
    account.allocated size now = account ↔
      account.currentStorageUsage.add size = account.currentStorageUsage ∧
        account.updatedAt = now := by
  cases account
  simp [CustomerAccount.allocated, eq_comm]

/-- **A call keeps what was there when it raises exactly when it is checked.** -/
theorem checked_iff {call : Call × Readings} :
    Checked account call account' ↔ KeepsOnRaise account call account' := by
  unfold KeepsOnRaise
  obtain ⟨call, r⟩ := call
  cases call with
  | suspendAccount reason =>
    refine iff_of_true trivial ?_
    simp only [Call.method, wp_suspendAccount]
    split_ifs
  | activateAccount =>
    refine iff_of_true trivial ?_
    simp only [Call.method, wp_activateAccount]
    split_ifs
  | allocateStorage size =>
    simp only [Call.method, wp_allocateStorage, Checked]
    by_cases hcan : account.canUploadFile size r.checked = true
    · rw [if_pos hcan, wp_warnAboutQuota, forall_prop_of_true hcan]
      dsimp only [CustomerAccount.allocated]
      by_cases hquota : account.subscription.storageQuota.toMegabytes = 0
      · -- no usage is below nine tenths of a quota of zero
        simp only [hquota, zero_mul, StorageSize.toMegabytes_nonneg, if_true, true_implies]
        exact allocated_eq_iff.symm
      · simp only [hquota, if_false, false_implies, ite_self]
    · rw [if_neg hcan]
      exact iff_of_true (fun h => absurd h hcan) trivial
  | deallocateStorage size => exact iff_of_true trivial trivial
  | incrementDatabaseCount =>
    refine iff_of_true trivial ?_
    simp only [Call.method, wp_incrementDatabaseCount]
    split_ifs
  | decrementDatabaseCount =>
    refine iff_of_true trivial ?_
    simp only [Call.method, wp_decrementDatabaseCount]
    split_ifs
  | updateLastLogin =>
    simp only [Call.method, wp_updateLastLogin, Checked]
    by_cases hactive : account.apiKey.isActive = true
    · rw [if_pos hactive]
      exact iff_of_true (.inl hactive) trivial
    · -- the login is recorded before the key is refused
      rw [if_neg hactive, or_iff_right hactive]
      cases account
      simp [eq_comm]
  | upgradeSubscription newPlan =>
    refine iff_of_true trivial ?_
    simp only [Call.method, wp_upgradeSubscription]
    split_ifs

/-! ### Runs of calls -/

/-- **Usage stays within the limits exactly when no plan is taken whose limits are below it.** -/
theorem always_withinQuota_iff (account : CustomerAccount)
    (hstorage : account.currentStorageUsage.toMegabytes = 0) (hcount : account.databaseCount = 0)
    (calls : List (Call × Readings)) :
    Runs.Always step WithinQuota account calls ↔ Runs.EachStep step Fits account calls := by
  have hstart : WithinQuota account := by
    refine ⟨hstorage.ge, ?_, hcount.ge, ?_⟩
    · rw [hstorage]
      exact account.subscription.storageQuota.toMegabytes_nonneg
    · rw [hcount]
      exact account.subscription.maxDatabases_pos.le
  have hstep : ∀ s call s', WithinQuota s → step s call = some s' →
      (Fits s call s' ↔ WithinQuota s') :=
    fun _ _ _ h hcall => fits_iff h hcall
  exact Runs.always_iff (fun s (h : WithinQuota s) => h) hstep
    (fun s call s' h hcall hok => (hstep s call s' h hcall).mp hok) hstart calls

/-- **Calls that raise change nothing exactly when no login is recorded for an inactive key, and no
storage is allocated with a quota of zero.** -/
theorem keepsOnRaise_iff (account : CustomerAccount) (calls : List (Call × Readings)) :
    Runs.EachStep step KeepsOnRaise account calls ↔ Runs.EachStep step Checked account calls :=
  Runs.eachStep_iff (fun _ _ _ (_ : True) _ => checked_iff) (fun _ _ _ _ _ => trivial) trivial calls

end Methods

/-! ### The stored row -/

/-- The account of a row, with events. -/
def ofRow (row : Service.CustomerAccount) (events : List Event) : CustomerAccount where
  id := row.id
  name := row.name
  email := row.email
  apiKey := row.apiKey
  status := row.status
  subscription :=
    { plan := row.subscription.plan
      storageQuota := ⟨row.subscription.storageQuota, .mb, by positivity⟩
      maxDatabases := row.subscription.maxDatabases
      maxConcurrentQueries := row.subscription.maxConcurrentQueries
      startedAt := row.subscription.startedAt
      expiresAt := row.subscription.expiresAt
      maxDatabases_pos := mod_cast row.subscription.maxDatabases_pos
      maxConcurrentQueries_pos := mod_cast row.subscription.maxConcurrentQueries_pos }
  currentStorageUsage := ⟨row.currentStorageUsage, .mb, by positivity⟩
  databaseCount := row.databaseCount
  createdAt := row.createdAt
  updatedAt := row.updatedAt
  lastLogin := row.lastLogin
  events

section Rows

variable (row : Service.CustomerAccount) (events : List Event) (r : Readings)

/-- **A suspension is the one of the row.** -/
theorem suspendAccount_ofRow (reason : String) : wp (suspendAccount reason r)
    (fun _ account => ∃ row', Service.suspendAccount r.now row = .ok row' ∧
      account = ofRow row' (events ++ [.suspended reason]))
    (fun _ account => (∃ e, Service.suspendAccount r.now row = .error e) ∧
      account = ofRow row events) (ofRow row events) := by
  rw [wp_suspendAccount]
  unfold Service.suspendAccount
  by_cases hdeleted : row.status = .deleted
  · simp [ofRow, hdeleted]
  · by_cases hsuspended : row.status = .suspended
    · simp [ofRow, hsuspended]
    · simp [ofRow, hdeleted, hsuspended]

/-- **An activation is the one of the row.** -/
theorem activateAccount_ofRow (h : r.checked = r.now ∧ r.created = r.now) :
    wp (activateAccount r)
      (fun _ account => ∃ row', Service.activateAccount r.token r.now row = .ok row' ∧
        account = ofRow row' (events ++ [.activated]))
      (fun _ account => (∃ e, Service.activateAccount r.token r.now row = .error e) ∧
        account = ofRow row events) (ofRow row events) := by
  have hexpired : (ofRow row events).subscription.isExpired r.checked =
      row.subscription.isExpired r.now := by
    rw [h.1]
    rfl
  rw [wp_activateAccount, hexpired, h.2]
  unfold Service.activateAccount
  by_cases hdeleted : row.status = .deleted
  · simp [ofRow, hdeleted]
  · cases row.subscription.isExpired r.now
    · by_cases hactive : row.apiKey.isActive = true
      · simp [ofRow, hdeleted, hactive]
      · simp [ofRow, hdeleted, hactive]
    · simp [ofRow, hdeleted]

end Rows

/-! ### Runs that break what is asked for -/

/-- A new account, with the plan of a professional. -/
def professional : CustomerAccount :=
  { ofRow (AccountUpdates.activeAccount 1 AccountUpdates.someToken 0) [] with
    subscription := .ofPlan .professional 0 }

/-- The account, with a quota of zero. -/
def noQuota : CustomerAccount :=
  { professional with
    subscription := { professional.subscription with storageQuota := ⟨0, .gb, le_rfl⟩ } }

/-- The clock, and the draw. -/
def someReadings : Readings := ⟨1, 1, 1, AccountUpdates.someToken⟩

/-- Four databases are made, and the account goes over to the plan with three. -/
def downgraded : List (Call × Readings) :=
  List.replicate 4 (.incrementDatabaseCount, someReadings) ++
    [(.upgradeSubscription .trial, someReadings)]

/-- A new account has neither usage nor databases. -/
theorem always_withinQuota_iff_professional :
    Runs.Always step WithinQuota professional downgraded ↔
      Runs.EachStep step Fits professional downgraded :=
  always_withinQuota_iff professional rfl rfl downgraded

/-- **A smaller plan leaves more databases than it allows.** -/
theorem not_always_withinQuota_downgraded :
    ¬ Runs.Always step WithinQuota professional downgraded := by
  have h : (Runs.run step professional downgraded).any (fun account => ¬ WithinQuota account) =
    true := by decide +kernel
  exact Runs.not_always_of_last h

/-- **A call that raises leaves a change**: after a suspension a login is recorded and then
refused, and with a quota of zero an allocation is made and then raises. -/
theorem not_keepsOnRaise_suspended :
    ¬ Runs.EachStep step KeepsOnRaise professional
      ([(.suspendAccount "", someReadings)] ++ [(.updateLastLogin, someReadings)]) ∧
    ¬ Runs.EachStep step KeepsOnRaise noQuota
      ([] ++ [(.allocateStorage ⟨0, .kb, le_rfl⟩, someReadings)]) := by
  constructor
  · refine Runs.not_eachStep_concat (by decide +kernel) (by decide +kernel) fun h => ?_
    revert h
    decide +kernel
  · refine Runs.not_eachStep_concat (by decide +kernel) (by decide +kernel) fun h => ?_
    revert h
    decide +kernel

end KuzuEventBus.Service.Quotas
