import KuzuEventBus.Lib.Effects
import KuzuEventBus.Service.AccountUpdates

/-!
# Requests for the status of a subscription

`src/application/usecases/update_customer_subscription_status.py`, one request after the other for
one customer.  The use case suspends an account, and lets an account that is suspended be
reactivated by a method that accounts do not have.  The cache and the events are left out.

## Main definitions

* `NewStatus`, `execute`, `step` — the requests.
* `TakesEffect` — a request returns `True`, and the stored account is as requested.
* `Possible` — what a request has to meet.

## Main results

* `execute_run` — how a request ends, and what it leaves.
* `takesEffect_iff` — **requests take effect exactly when none is made for a suspended account, and
  `active` is requested only where the key is active.**
-/

namespace KuzuEventBus.Service.StatusRequests

open EffectM

/-! ### The requests -/

/-- The statuses that are requested. -/
inductive NewStatus where
  | active
  | suspended
  deriving DecidableEq

/-- `new_status`. -/
def NewStatus.text : NewStatus → String
  | active => "active"
  | suspended => "suspended"

/-- `UpdateCustomerSubscriptionStatusUseCase.execute`. -/
def execute (customerId : Uuid) (newStatus : String) (now : Instant) :
    EffectM AccountError Accounts Bool := do
  match (← get).findById customerId with
  | none => pure false
  | some account =>
    match ← ofExcept (updateSubscriptionStatus newStatus now account) with
    | none => pure true
    | some account =>
      modify fun accounts => accounts.save account
      pure true

/-- A request, at a time; an exception leaves what was saved before. -/
def step (customerId : Uuid) (accounts : Accounts) (request : NewStatus × Instant) :
    Option Accounts :=
  some ((execute customerId request.1.text request.2).run accounts).2

/-- The stored account shows a status. -/
def Shows (account : CustomerAccount) : NewStatus → Prop
  | .active => account.status ≠ .suspended ∧ account.apiKey.isActive = true
  | .suspended => account.status = .suspended ∧ account.apiKey.isActive = false

/-- **A request returns `True`, and the stored account shows what was requested.** -/
def TakesEffect (customerId : Uuid) (accounts : Accounts) (request : NewStatus × Instant)
    (_ : Accounts) : Prop :=
  wp (execute customerId request.1.text request.2)
    (fun returned accounts' => returned = true ∧
      ∃ account, accounts'.findById customerId = some account ∧ Shows account request.1)
    (fun _ _ => False) accounts

/-- The account is not suspended, and its key is active if `active` is requested. -/
def Possible (customerId : Uuid) (accounts : Accounts) (request : NewStatus × Instant)
    (_ : Accounts) : Prop :=
  ∃ account, accounts.findById customerId = some account ∧ account.status ≠ .suspended ∧
    (request.1 = .active → account.apiKey.isActive = true)

/-! ### What a request leaves -/

/-- The account of the customer is there, under its own id, and is not deleted. -/
def Stored (customerId : Uuid) (accounts : Accounts) : Prop :=
  ∃ account, accounts.findById customerId = some account ∧ account.id = customerId ∧
    account.status ≠ .deleted

section Requests

variable {customerId : Uuid} {accounts accounts' : Accounts} {account : CustomerAccount}

/-- **How a request ends, and what it leaves.** -/
theorem wp_execute {Q : Bool → Accounts → Prop} {E : AccountError → Accounts → Prop}
    (hfind : accounts.findById customerId = some account) (newStatus : String) (now : Instant) :
    wp (execute customerId newStatus now) Q E accounts =
      match updateSubscriptionStatus newStatus now account with
      | .error e => E e accounts
      | .ok none => Q true accounts
      | .ok (some account) => Q true (accounts.save account) := by
  unfold execute
  simp only [wp_bind, wp_get, hfind]
  cases updateSubscriptionStatus newStatus now account with
  | error e => rfl
  | ok changed => cases changed <;> rfl

/-- What a request for `active` makes of the account: it raises, or there is nothing to save. -/
theorem update_active (account : CustomerAccount) (now : Instant) :
    updateSubscriptionStatus "active" now account =
      if account.status = .suspended then
        .error (.attributeError "'CustomerAccount' object has no attribute 'reactivate_account'")
      else .ok none := by
  unfold updateSubscriptionStatus
  rw [if_neg (by decide)]
  simp only [true_and]

/-- What a request for `suspended` makes of it. -/
theorem update_suspended (account : CustomerAccount) (now : Instant) :
    updateSubscriptionStatus "suspended" now account =
      (suspendAccount now account).map some := if_pos rfl

/-- A suspended account cannot be suspended, and any other that is not deleted is. -/
theorem suspendAccount_eq (hdeleted : account.status ≠ .deleted) (now : Instant) :
    suspendAccount now account =
      if account.status = .suspended then
        .error (.businessRuleViolation "Account is already suspended")
      else .ok { account with
        status := .suspended, apiKey := account.apiKey.deactivate, updatedAt := now } := by
  unfold suspendAccount
  rw [if_neg hdeleted]

/-- The account stays, and is not deleted. -/
theorem stored_step {request : NewStatus × Instant} (h : Stored customerId accounts)
    (hstep : step customerId accounts request = some accounts') : Stored customerId accounts' := by
  obtain ⟨account, hfind, hid, hdeleted⟩ := h
  cases hstep
  refine (wp_state_iff (P := Stored customerId)).mp ?_
  rw [wp_execute hfind]
  have hsame : Stored customerId accounts := ⟨account, hfind, hid, hdeleted⟩
  obtain ⟨newStatus, now⟩ := request
  cases newStatus with
  | active =>
    rw [NewStatus.text, update_active]
    by_cases hstatus : account.status = .suspended
    · rw [if_pos hstatus]
      exact hsame
    · rw [if_neg hstatus]
      exact hsame
  | suspended =>
    rw [NewStatus.text, update_suspended, suspendAccount_eq hdeleted]
    by_cases hstatus : account.status = .suspended
    · rw [if_pos hstatus]
      exact hsame
    · rw [if_neg hstatus]
      let account' : CustomerAccount :=
        { account with
          status := .suspended, apiKey := account.apiKey.deactivate, updatedAt := now }
      have hsaved : (accounts.save account').findById customerId = some account' :=
        (Accounts.lookup_save _ _ _).trans (if_pos hid.symm)
      exact ⟨account', hsaved, hid, nofun⟩

/-- **A request takes effect exactly when it is possible.** -/
theorem possible_iff {request : NewStatus × Instant} (h : Stored customerId accounts) :
    Possible customerId accounts request accounts' ↔
      TakesEffect customerId accounts request accounts' := by
  obtain ⟨account, hfind, hid, hdeleted⟩ := h
  obtain ⟨newStatus, now⟩ := request
  unfold Possible TakesEffect
  rw [wp_execute hfind]
  simp only [hfind, Option.some.injEq, exists_eq_left']
  cases newStatus with
  | active =>
    rw [NewStatus.text, update_active]
    by_cases hstatus : account.status = .suspended
    · simp [hstatus]
    · simp [hstatus, Shows]
  | suspended =>
    rw [NewStatus.text, update_suspended, suspendAccount_eq hdeleted]
    by_cases hstatus : account.status = .suspended
    · simp [hstatus, Except.map]
    · simp [hstatus, Except.map, Shows, Accounts.findById, Accounts.lookup_save, hid]

end Requests

/-- **Requests take effect exactly when none is made for a suspended account, and `active` is
requested only where the key is active.** -/
theorem takesEffect_iff (accounts : Accounts) (account : CustomerAccount)
    (hstored : accounts.findById account.id = some account) (hdeleted : account.status ≠ .deleted)
    (requests : List (NewStatus × Instant)) :
    Runs.EachStep (step account.id) (TakesEffect account.id) accounts requests ↔
      Runs.EachStep (step account.id) (Possible account.id) accounts requests :=
  Runs.eachStep_iff (fun accounts _ _ (h : Stored account.id accounts) _ => possible_iff h)
    (fun _ _ _ h hstep => stored_step h hstep) ⟨account, hstored, rfl, hdeleted⟩ requests

/-- The repository with one active account. -/
def oneActive : Accounts :=
  (∅ : Accounts).save (AccountUpdates.activeAccount 1 AccountUpdates.someToken 0)

theorem find_oneActive : oneActive.findById 1 =
    some (AccountUpdates.activeAccount 1 AccountUpdates.someToken 0) :=
  AList.lookup_insert _

/-- A suspension of an active account. -/
theorem takesEffect_iff_oneActive :
    Runs.EachStep (step 1) (TakesEffect 1) oneActive [(.suspended, 5)] ↔
      Runs.EachStep (step 1) (Possible 1) oneActive [(.suspended, 5)] :=
  takesEffect_iff oneActive (AccountUpdates.activeAccount 1 AccountUpdates.someToken 0)
    find_oneActive (by decide) [(.suspended, 5)]

/-- **After a suspension a request for `active` does not take effect**: it raises. -/
theorem not_takesEffect_reactivation :
    ¬ Runs.EachStep (step 1) (TakesEffect 1) oneActive [(.suspended, 5), (.active, 6)] := by
  intro h
  obtain ⟨-, htail⟩ := Runs.eachStep_cons.mp h _ rfl
  obtain ⟨heffect, -⟩ := Runs.eachStep_cons.mp htail _ rfl
  have hstored : Stored 1 oneActive := ⟨_, find_oneActive, rfl, by decide⟩
  have hnext : Stored 1 ((execute 1 "suspended" 5).run oneActive).2 :=
    stored_step hstored (rfl : step 1 oneActive (.suspended, 5) = some _)
  obtain ⟨account, hfind, hstatus, -⟩ := (possible_iff hnext).mpr heffect
  have hsuspended : ((execute 1 "suspended" 5).run oneActive).2.findById 1 =
      some { AccountUpdates.activeAccount 1 AccountUpdates.someToken 0 with
        status := .suspended
        apiKey := (ApiKey.new AccountUpdates.someToken 0).deactivate
        updatedAt := 5 } := AList.lookup_insert _
  rw [hsuspended] at hfind
  cases hfind
  exact hstatus rfl

end KuzuEventBus.Service.StatusRequests
