import KuzuEventBus.Lib.Effects
import Mathlib.Logic.Function.Basic

/-!
# Mutexes that a panic poisons

A computation that changes a state and may raise can be looked at from two sides: what it leaves
alone, and what it reads.  Both are relations on states, whatever way the computation ends, and both
compose.  The mutexes are those of a language where a panic that unwinds past a guard poisons the
mutex, and locking a poisoned mutex panics in turn.

## Main definitions

* `EffectM.Keeps R x` — the state before the computation is related to the state after it.
* `EffectM.Reads R x` — from related states the computation ends alike, in related states.
* `Raised`, `Mutexes`, `withLock` — errors and panics, states with mutexes, and locking one.

## Main results

* `Keeps.bind`, `Reads.bind` — **the rules of sequencing.**
* `keeps_withLock`, `reads_withLock` — **the rules of locks.**
* `withLock_of_free`, `withLock_of_poisoned` — what locking does.
-/

namespace EffectM

variable {ε σ α β : Type} {R : σ → σ → Prop}

/-- The state before the computation is related to the state after it. -/
def Keeps (R : σ → σ → Prop) (x : EffectM ε σ α) : Prop := ∀ s, R s (x.run s).2

/-- From related states the computation ends alike, in related states. -/
def Reads (R : σ → σ → Prop) (x : EffectM ε σ α) : Prop :=
  ∀ s t, R s t → (x.run s).1 = (x.run t).1 ∧ R (x.run s).2 (x.run t).2

/-- A sequence runs its second part where the first one returns. -/
theorem run_bind (x : EffectM ε σ α) (f : α → EffectM ε σ β) (s : σ) : (x >>= f).run s =
    match x.run s with
    | (.ok a, s') => (f a).run s'
    | (.error e, s') => (.error e, s') := by
  have hrun : (x >>= f).run s = (ExceptT.bindCont f (x.run s).1 : StateM σ _) (x.run s).2 := rfl
  rw [hrun]
  rcases x.run s with ⟨e | a, s'⟩
  · rfl
  · rfl

@[simp] theorem run_pure (a : α) (s : σ) : (pure a : EffectM ε σ α).run s = (.ok a, s) := rfl

@[simp] theorem run_throw (e : ε) (s : σ) :
    (throw e : EffectM ε σ α).run s = (.error e, s) := rfl

@[simp] theorem run_get (s : σ) : (get : EffectM ε σ σ).run s = (.ok s, s) := rfl

@[simp] theorem run_modify (f : σ → σ) (s : σ) :
    (modify f : EffectM ε σ PUnit).run s = (.ok ⟨⟩, f s) := rfl

@[simp] theorem run_ofExcept (r : Except ε α) (s : σ) :
    (ofExcept r : EffectM ε σ α).run s = (r, s) := by
  cases r with
  | ok a => rfl
  | error e => rfl

section Keeps

theorem Keeps.of_run_eq [Std.Refl R] {x : EffectM ε σ α} (h : ∀ s, (x.run s).2 = s) :
    Keeps R x := by
  intro s
  rw [h]
  exact Std.Refl.refl s

theorem Keeps.pure [Std.Refl R] (a : α) : Keeps R (pure a : EffectM ε σ α) :=
  .of_run_eq fun _ => rfl

theorem Keeps.throw [Std.Refl R] (e : ε) : Keeps R (throw e : EffectM ε σ α) :=
  .of_run_eq fun _ => rfl

theorem Keeps.get [Std.Refl R] : Keeps R (get : EffectM ε σ σ) := .of_run_eq fun _ => rfl

theorem Keeps.ofExcept [Std.Refl R] (r : Except ε α) : Keeps R (ofExcept r : EffectM ε σ α) :=
  .of_run_eq fun s => by rw [run_ofExcept]

theorem Keeps.modify {f : σ → σ} (h : ∀ s, R s (f s)) :
    Keeps R (modify f : EffectM ε σ PUnit) := h

/-- **The rule of sequencing.** -/
theorem Keeps.bind [IsTrans σ R] {x : EffectM ε σ α} {f : α → EffectM ε σ β} (hx : Keeps R x)
    (hf : ∀ a, Keeps R (f a)) : Keeps R (x >>= f) := by
  intro s
  have hfirst : R s (x.run s).2 := hx s
  rw [run_bind]
  rcases hrun : x.run s with ⟨e | a, s'⟩
  · rw [hrun] at hfirst
    exact hfirst
  · rw [hrun] at hfirst
    exact IsTrans.trans _ _ _ hfirst (hf a s')

/-- **The rule of loops** with an accumulator. -/
theorem Keeps.foldlM [Std.Refl R] [IsTrans σ R] {f : β → α → EffectM ε σ β} {l : List α}
    (hf : ∀ b, ∀ a ∈ l, Keeps R (f b a)) : ∀ b, Keeps R (l.foldlM f b) := by
  induction l with
  | nil => intro b; exact .pure b
  | cons a l ih =>
    intro b
    rw [List.foldlM_cons]
    exact (hf b a List.mem_cons_self).bind
      (ih fun b a ha => hf b a (List.mem_cons_of_mem _ ha))

/-- **The rule of loops** that collect results. -/
theorem Keeps.mapM [Std.Refl R] [IsTrans σ R] {f : α → EffectM ε σ β} {l : List α}
    (hf : ∀ a ∈ l, Keeps R (f a)) : Keeps R (l.mapM f) := by
  induction l with
  | nil => exact .pure []
  | cons a l ih =>
    rw [List.mapM_cons]
    refine (hf a List.mem_cons_self).bind fun b => ?_
    exact (ih fun a ha => hf a (List.mem_cons_of_mem _ ha)).bind fun bs => .pure (b :: bs)

/-- A weaker relation is kept, too. -/
theorem Keeps.mono {R' : σ → σ → Prop} {x : EffectM ε σ α} (h : Keeps R x)
    (hR : ∀ s s', R s s' → R' s s') : Keeps R' x := fun s => hR s _ (h s)

end Keeps

section Reads

theorem Reads.pure (a : α) : Reads R (pure a : EffectM ε σ α) := fun _ _ h => ⟨rfl, h⟩

theorem Reads.throw (e : ε) : Reads R (throw e : EffectM ε σ α) := fun _ _ h => ⟨rfl, h⟩

theorem Reads.ofExcept (r : Except ε α) : Reads R (ofExcept r : EffectM ε σ α) := by
  intro s t h
  rw [run_ofExcept, run_ofExcept]
  exact ⟨rfl, h⟩

/-- What is read of related states is the same. -/
theorem Reads.gets {f : σ → α} (h : ∀ s t, R s t → f s = f t) :
    Reads R (do return f (← get) : EffectM ε σ α) :=
  fun s t hR => ⟨congrArg Except.ok (h s t hR), hR⟩

theorem Reads.modify {f : σ → σ} (h : ∀ s t, R s t → R (f s) (f t)) :
    Reads R (modify f : EffectM ε σ PUnit) := fun s t hR => ⟨rfl, h s t hR⟩

/-- **The rule of sequencing.** -/
theorem Reads.bind {x : EffectM ε σ α} {f : α → EffectM ε σ β} (hx : Reads R x)
    (hf : ∀ a, Reads R (f a)) : Reads R (x >>= f) := by
  intro s t h
  obtain ⟨heq, hnext⟩ := hx s t h
  rw [run_bind, run_bind]
  rcases hs : x.run s with ⟨e | a, s'⟩
  all_goals
    rcases ht : x.run t with ⟨e' | a', t'⟩
    all_goals
      rw [hs, ht] at heq hnext
      simp only [Except.error.injEq, Except.ok.injEq, reduceCtorEq] at heq
  · rw [heq]
    exact ⟨rfl, hnext⟩
  · rw [heq]
    exact hf a' s' t' hnext

end Reads

end EffectM

/-- How a call ends that does not return: with an error it raises, or with a panic. -/
inductive Raised (ε : Type) where
  | error (e : ε)
  | panic (msg : String)
  deriving DecidableEq

/-- A state with mutexes, some of them poisoned. -/
structure Mutexes (L σ : Type) where
  poisoned : L → Bool
  data : σ

namespace Mutexes

open EffectM

variable {L σ ε α : Type} [DecidableEq L] {l : L} {s s' : Mutexes L σ}

/-- The mutex `l` poisoned. -/
def poison (s : Mutexes L σ) (l : L) : Mutexes L σ :=
  { s with poisoned := Function.update s.poisoned l true }

@[simp] theorem poison_data : (s.poison l).data = s.data := rfl

theorem poison_poisoned (m : L) : (s.poison l).poisoned m = if m = l then true else s.poisoned m :=
  Function.update_apply _ _ _ _

theorem poisoned_of_poison {m : L} (h : s.poisoned m = true) : (s.poison l).poisoned m = true := by
  rw [poison_poisoned]
  split
  · rfl
  · exact h

/-- The panic of `lock().unwrap()` on a poisoned mutex. -/
def poisonPanic : String := "called `Result::unwrap()` on an `Err` value: PoisonError { .. }"

/-- The state a computation leaves under a lock: a panic poisons it. -/
def release (l : L) : Except (Raised ε) α → Mutexes L σ → Mutexes L σ
  | .error (.panic _), s => s.poison l
  | _, s => s

/-- `lock().unwrap()`, and the guard held until the computation ends. -/
def withLock (l : L) (x : EffectM (Raised ε) (Mutexes L σ) α) :
    EffectM (Raised ε) (Mutexes L σ) α := ExceptT.mk fun s =>
  if s.poisoned l then (.error (.panic poisonPanic), s)
  else ((x.run s).1, release l (x.run s).1 (x.run s).2)

variable {x : EffectM (Raised ε) (Mutexes L σ) α}

theorem withLock_run (s : Mutexes L σ) : (withLock l x).run s =
    if s.poisoned l then (.error (.panic poisonPanic), s)
    else ((x.run s).1, release l (x.run s).1 (x.run s).2) := rfl

/-- A poisoned mutex is not locked. -/
theorem withLock_of_poisoned (h : s.poisoned l = true) :
    (withLock l x).run s = (.error (.panic poisonPanic), s) := by
  rw [withLock_run, if_pos h]

theorem withLock_of_free (h : s.poisoned l = false) :
    (withLock l x).run s = ((x.run s).1, release l (x.run s).1 (x.run s).2) := by
  rw [withLock_run, if_neg (by simp [h])]

/-- A computation that returns leaves the mutex as it was. -/
theorem withLock_of_ok (h : s.poisoned l = false) {a : α} (hrun : x.run s = (.ok a, s')) :
    (withLock l x).run s = (.ok a, s') := by
  rw [withLock_of_free h, hrun]
  rfl

/-- What a lock was held for. -/
theorem release_cases (l : L) (r : Except (Raised ε) α) (s : Mutexes L σ) :
    release l r s = s ∨ ((∃ msg, r = .error (.panic msg)) ∧ release l r s = s.poison l) := by
  rcases r with (e | msg) | a
  · exact .inl rfl
  · exact .inr ⟨⟨msg, rfl⟩, rfl⟩
  · exact .inl rfl

section Rules

variable {R : Mutexes L σ → Mutexes L σ → Prop}

/-- **The rule of locks**, for what is kept: poisoning the mutex has to keep it, too. -/
theorem keeps_withLock [IsPreorder (Mutexes L σ) R] (hpoison : ∀ s, R s (s.poison l))
    (hx : Keeps R x) : Keeps R (withLock l x) := by
  intro s
  rw [withLock_run]
  split
  · exact refl s
  · rcases release_cases l (x.run s).1 (x.run s).2 with heq | ⟨-, heq⟩
    · rw [heq]
      exact hx s
    · rw [heq]
      exact IsTrans.trans _ _ _ (hx s) (hpoison _)

/-- **The rule of locks**, for what is read: whether the mutex is poisoned is read, too. -/
theorem reads_withLock (hlock : ∀ s t, R s t → s.poisoned l = t.poisoned l)
    (hpoison : ∀ s t, R s t → R (s.poison l) (t.poison l)) (hx : Reads R x) :
    Reads R (withLock l x) := by
  intro s t h
  rw [withLock_run, withLock_run, hlock s t h]
  split
  · exact ⟨rfl, h⟩
  · obtain ⟨heq, hnext⟩ := hx s t h
    refine ⟨heq, ?_⟩
    rw [← heq]
    rcases release_cases l (x.run s).1 (x.run s).2 with hs | ⟨⟨msg, hs⟩, -⟩
    · rcases release_cases l (x.run s).1 (x.run t).2 with ht | ⟨⟨msg, ht⟩, -⟩
      · rw [hs, ht]
        exact hnext
      · rw [ht]
        exact hpoison _ _ hnext
    · rw [hs]
      exact hpoison _ _ hnext

/-- **No computation takes poison back.** -/
theorem keeps_poisoned_withLock {m : L}
    (hx : Keeps (fun s s' => s.poisoned m = true → s'.poisoned m = true) x) :
    Keeps (fun s s' => s.poisoned m = true → s'.poisoned m = true) (withLock l x) :=
  haveI : IsPreorder (Mutexes L σ)
      fun s s' => s.poisoned m = true → s'.poisoned m = true :=
    { refl := fun _ h => h, trans := fun _ _ _ h h' hs => h' (h hs) }
  keeps_withLock (fun _ => poisoned_of_poison) hx

end Rules

end Mutexes
