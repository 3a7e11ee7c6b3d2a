import KuzuEventBus.Lib.Runs
import Mathlib.Data.List.Infix
import Mathlib.Logic.Function.Basic
import Mathlib.Tactic.Common

/-!
# Ownership of a lock

`src/infrastructure/lock/redis_lock_service.py`, on one resource.  A lock is a Redis key with the
token of its holder and a time at which it expires.  A release is one script, which compares the
token; an extension compares it with one command and sets the time with another.

Every command of every client is a step of its own, and so is the passing of time.

## Main definitions

* `Lock`, `set`, `releaseScript`, `ttl`, `expire` — the key, and the commands on it.
* `Phase`, `State`, `Action`, `step` — the calls of the clients, one command at a time.
* `OneHolder`, `Owned` — what is asked for.
* `StillHeld` — what a step has to meet.

## Main results

* `key_of_release` — a release leaves the lock of another token as it is.
* `owned_iff` — when a step touches the lock of another token.
* `always_owned_iff` — **no call touches the lock of another token exactly when no time is set after
  the lock has gone over to another token since it was compared.**
-/

namespace KuzuEventBus.Service.LockOwnership

/-! ### The key -/

/-- The key of the resource, with the time in milliseconds at which it expires. -/
structure Lock where
  token : String
  expiresAt : ℕ
  deriving DecidableEq

/-- `SET key token NX EX timeout`: the key, and whether it was set.  A timeout that is not positive
raises. -/
def set (now : ℕ) (token : String) (timeoutSeconds : ℤ) : Option Lock → Option (Option Lock × Bool)
  | some lock => if 0 < timeoutSeconds then some (some lock, false) else none
  | none =>
    if 0 < timeoutSeconds then some (some ⟨token, now + timeoutSeconds.toNat * 1000⟩, true)
    else none

/-- `_RELEASE_SCRIPT`: the key, and whether it was deleted. -/
def releaseScript (token : String) : Option Lock → Option Lock × Bool
  | some lock => if lock.token = token then (none, true) else (some lock, false)
  | none => (none, false)

/-- `TTL key`, in seconds, and 0 for the negative answers. -/
def ttl (now : ℕ) : Option Lock → ℤ
  | some lock => (lock.expiresAt - now + 500) / 1000
  | none => 0

/-- `EXPIRE key seconds`: the key, and whether there was one.  A time that is not in the future
deletes it. -/
def expire (now : ℕ) (seconds : ℤ) : Option Lock → Option Lock × Bool
  | some lock =>
    if 0 < seconds then (some { lock with expiresAt := now + seconds.toNat * 1000 }, true)
    else (none, true)
  | none => (none, false)

/-! ### The clients -/

/-- Where a client is. -/
inductive Phase where
  /-- Between calls. -/
  | idle
  /-- In `extend_lock`, after `GET` has answered with the token. -/
  | matched (token : String) (extendSeconds : ℤ)
  /-- In `extend_lock`, after `TTL`, with the seconds that are to be set. -/
  | timed (token : String) (seconds : ℤ)
  deriving DecidableEq

/-- The token of the call a client is in. -/
def Phase.token : Phase → Option String
  | idle => none
  | matched token _ | timed token _ => some token

/-- The clock of Redis, the key, the tokens that were drawn, and the clients. -/
structure State (C : Type) where
  now : ℕ
  key : Option Lock
  drawn : List String
  phase : C → Phase

/-- The commands, and the passing of time. -/
inductive Action (C : Type) where
  /-- `acquire_lock`, with the token that is drawn. -/
  | acquire (c : C) (token : String) (timeoutSeconds : ℤ)
  /-- `release_lock`. -/
  | release (c : C) (token : String)
  /-- `extend_lock`, its `GET`. -/
  | get (c : C) (token : String) (extendSeconds : ℤ)
  /-- Its `TTL`. -/
  | ttl (c : C)
  /-- Its `EXPIRE`. -/
  | expire (c : C)
  /-- An exception ends the call of a client. -/
  | fail (c : C)
  /-- Time passes, in milliseconds. -/
  | wait (milliseconds : ℕ)

/-- Nothing is locked. -/
def init (C : Type) : State C := ⟨0, none, [], fun _ => .idle⟩

section

variable {C : Type} [DecidableEq C]

/-- A client goes on to a phase. -/
def State.goes (s : State C) (c : C) (p : Phase) : State C :=
  { s with phase := Function.update s.phase c p }

/-- One step.  No token is drawn twice. -/
def step (s : State C) : Action C → Option (State C)
  | .acquire c token timeoutSeconds =>
    if s.phase c = .idle ∧ token ∉ s.drawn then
      match set s.now token timeoutSeconds s.key with
      | some (key, _) => some { s with key, drawn := token :: s.drawn }
      | none => some { s with drawn := token :: s.drawn }
    else none
  | .release c token =>
    if s.phase c = .idle then some { s with key := (releaseScript token s.key).1 } else none
  | .get c token extendSeconds =>
    if s.phase c = .idle then
      if s.key.map Lock.token = some token then some (s.goes c (.matched token extendSeconds))
      else some s
    else none
  | .ttl c =>
    match s.phase c with
    | .matched token extendSeconds =>
      some (s.goes c (.timed token (ttl s.now s.key + extendSeconds)))
    | _ => none
  | .expire c =>
    match s.phase c with
    | .timed _ seconds => some { s.goes c .idle with key := (expire s.now seconds s.key).1 }
    | _ => none
  | .fail c => some (s.goes c .idle)
  | .wait milliseconds =>
    some { s with
      now := s.now + milliseconds
      key := s.key.filter fun lock => s.now + milliseconds < lock.expiresAt }

/-! ### What is asked for -/

/-- The lock is held under a token. -/
def State.HeldBy (s : State C) (token : String) : Prop := s.key.map Lock.token = some token

/-- It is held under another. -/
def State.HeldByOther (s : State C) (token : String) : Prop :=
  ∃ token', token' ≠ token ∧ s.HeldBy token'

/-- The token of the call a step belongs to, if it is a release or an extension. -/
def Action.token (s : State C) : Action C → Option String
  | release _ token | get _ token _ => some token
  | ttl c | expire c => (s.phase c).token
  | acquire _ _ _ | fail _ | wait _ => none

/-- The step lets `extend_lock` return `True`. -/
def Action.extends (s : State C) : Action C → Bool
  | expire c =>
    match s.phase c with
    | .timed _ seconds => (LockOwnership.expire s.now seconds s.key).2
    | _ => false
  | _ => false

/-- No two tokens hold the lock. -/
def OneHolder (s : State C) : Prop :=
  ∀ token token', s.HeldBy token → s.HeldBy token' → token = token'

/-- **A step of a release or an extension leaves the lock of another token as it is, and an
extension that returns `True` has set the time of a lock that is held under its own.** -/
def Owned (s : State C) (a : Action C) (s' : State C) : Prop :=
  ∀ token, a.token s = some token →
    (s.HeldByOther token → s'.key = s.key) ∧ (a.extends s = true → s.HeldBy token)

/-- The lock an extension sets the time of has not gone over to another token since its `GET`. -/
def StillHeld (s : State C) (a : Action C) (_ : State C) : Prop :=
  match a with
  | .expire c => ∀ token, (s.phase c).token = some token → ¬ s.HeldByOther token
  | _ => True

/-! ### What the steps do -/

section Steps

variable {s s' : State C} {token : String}

omit [DecidableEq C] in
/-- The lock of another token is not the one of the token. -/
theorem State.HeldByOther.exists_lock (h : s.HeldByOther token) :
    ∃ lock, s.key = some lock ∧ lock.token ≠ token := by
  obtain ⟨token', hne, hheld⟩ := h
  obtain ⟨lock, hkey, htoken⟩ := Option.map_eq_some_iff.mp hheld
  exact ⟨lock, hkey, by rw [htoken]; exact hne⟩

omit [DecidableEq C] in
theorem oneHolder (s : State C) : OneHolder s := by
  intro token token' h h'
  unfold State.HeldBy at h h'
  rw [h] at h'
  exact Option.some.inj h'

omit [DecidableEq C] in
/-- **A release leaves the lock of another token as it is.** -/
theorem key_of_release (h : s.HeldByOther token) : (releaseScript token s.key).1 = s.key := by
  obtain ⟨lock, hkey, hne⟩ := h.exists_lock
  rw [hkey, releaseScript, if_neg hne]

/-- `EXPIRE` finds the key exactly when there is one. -/
theorem expire_snd (now : ℕ) (seconds : ℤ) (key : Option Lock) :
    (LockOwnership.expire now seconds key).2 = key.isSome := by
  cases key with
  | none => rfl
  | some lock =>
    dsimp only [LockOwnership.expire]
    split <;> rfl

/-- **A step touches the lock of another token exactly when it sets the time of a lock that has gone
over to it.** -/
theorem owned_iff {a : Action C} (h : step s a = some s') : Owned s a s' ↔ StillHeld s a s' := by
  unfold Owned StillHeld
  cases a with
  | acquire c token timeoutSeconds | fail c | wait milliseconds => simp [Action.token]
  | release c token =>
    refine iff_of_true ?_ trivial
    intro t ht
    cases ht
    dsimp only [step] at h
    split at h
    · cases h
      exact ⟨key_of_release, fun h => by cases h⟩
    · cases h
  | get c token extendSeconds =>
    refine iff_of_true ?_ trivial
    intro t _
    have hkey : s'.key = s.key := by
      dsimp only [step] at h
      split at h
      · split at h <;> cases h <;> rfl
      · cases h
    exact ⟨fun _ => hkey, fun h => by cases h⟩
  | ttl c =>
    refine iff_of_true ?_ trivial
    intro t _
    have hkey : s'.key = s.key := by
      dsimp only [step] at h
      split at h
      · cases h
        rfl
      · cases h
    exact ⟨fun _ => hkey, fun h => by cases h⟩
  | expire c =>
    dsimp only [step] at h
    split at h
    · next token seconds hphase =>
      have hextends : (Action.expire c).extends s = s.key.isSome := by
        dsimp only [Action.extends]
        rw [hphase]
        exact expire_snd s.now seconds s.key
      refine forall₂_congr fun t _ => ?_
      rw [hextends]
      constructor
      · -- the key is there, so the call returns `True`
        rintro ⟨-, hheld⟩ hother
        obtain ⟨lock, hkey, hne⟩ := hother.exists_lock
        have hmine : s.HeldBy t := hheld (by rw [hkey]; rfl)
        unfold State.HeldBy at hmine
        rw [hkey] at hmine
        exact hne (Option.some.inj hmine)
      · intro hmine
        refine ⟨fun hother => absurd hother hmine, fun hsome => ?_⟩
        obtain ⟨lock, hkey⟩ := Option.isSome_iff_exists.mp hsome
        have hheld : s.HeldBy lock.token := by unfold State.HeldBy; rw [hkey]; rfl
        by_cases htoken : lock.token = t
        · rw [← htoken]
          exact hheld
        · exact absurd ⟨lock.token, htoken, hheld⟩ hmine
    · cases h

end Steps

/-- **No call touches the lock of another token exactly when no time is set after the lock has gone
over to another token since it was compared.** -/
theorem always_owned_iff (s : State C) (actions : List (Action C)) :
    (Runs.Always step OneHolder s actions ∧ Runs.EachStep step Owned s actions) ↔
      Runs.EachStep step StillHeld s actions := by
  refine Runs.always_and_eachStep_iff (fun s _ => oneHolder s) (fun s a s' _ hstep => ?_)
    (fun _ _ s' _ _ _ => oneHolder s') (oneHolder s) actions
  rw [← owned_iff hstep, and_iff_right (oneHolder s')]

/-- The lock of the first client expires after its `TTL`, and the second acquires it. -/
def overtaken : List (Action Bool) :=
  [.acquire true "first" 10, .get true "first" 10, .ttl true, .wait 10000,
    .acquire false "second" 10]

/-- **The extension of the first client sets the time of the second's lock, and returns `True`.** -/
theorem not_owned_overtaken :
    ¬ Runs.EachStep step Owned (init Bool) (overtaken ++ [.expire true]) := by
  refine Runs.not_eachStep_concat (by decide +kernel) (by decide +kernel) fun howned => ?_
  have hheld := (howned "first" (by decide +kernel)).2 (by decide +kernel)
  unfold State.HeldBy at hheld
  exact absurd hheld (by decide +kernel)

end

end KuzuEventBus.Service.LockOwnership
