import Mathlib.Order.Basic
import Mathlib.Tactic.TypeStar

/-!
# Computations that change a state and may raise

What an exception leaves of the state stays: a computation takes a state to its value, or to an
exception, and to the state after it.  A pair of postconditions says how it may end, and the weakest
precondition of a construct is a rule about its parts.

## Main definitions

* `EffectM`, `withFinally` — the computations, and a computation with a finalizer.
* `wp x Q E s` — from `s` the computation returns where `Q` holds, or raises where `E` does.

## Main results

* `wp_bind`, `wp_ite`, `wp_tryCatch`, `wp_withFinally` — **the rules of sequencing, of branches, of
  handlers and of finalizers.**
* `wp_mono`, `wp_iff_of` — weaker postconditions, and conditions for them.
* `wp_state_iff` — what holds of the state after a computation.
-/

/-- Computations with a state, which exceptions do not undo. -/
abbrev EffectM (ε σ : Type) := ExceptT ε (StateM σ)

namespace EffectM

variable {ε σ α β : Type}

/-- How a computation ends: with a value, or with an exception. -/
def wp (x : EffectM ε σ α) (Q : α → σ → Prop) (E : ε → σ → Prop) (s : σ) : Prop :=
  match x.run s with
  | (.ok a, s') => Q a s'
  | (.error e, s') => E e s'

variable {Q : α → σ → Prop} {E : ε → σ → Prop} {s : σ}

/-- What a computation guarantees can be decided, by running it. -/
instance (x : EffectM ε σ α) [∀ a s, Decidable (Q a s)] [∀ e s, Decidable (E e s)] :
    Decidable (wp x Q E s) :=
  match h : x.run s with
  | (.ok a, s') => decidable_of_iff (Q a s') (by rw [wp, h])
  | (.error e, s') => decidable_of_iff (E e s') (by rw [wp, h])

@[simp] theorem wp_pure (a : α) : wp (pure a : EffectM ε σ α) Q E s = Q a s := rfl

@[simp] theorem wp_throw (e : ε) : wp (throw e : EffectM ε σ α) Q E s = E e s := rfl

@[simp] theorem wp_get {Q : σ → σ → Prop} : wp (get : EffectM ε σ σ) Q E s = Q s s := rfl

@[simp] theorem wp_modify {Q : PUnit → σ → Prop} (f : σ → σ) :
    wp (modify f : EffectM ε σ PUnit) Q E s = Q ⟨⟩ (f s) := rfl

@[simp] theorem wp_ofExcept_ok (a : α) :
    wp (ofExcept (.ok a) : EffectM ε σ α) Q E s = Q a s := rfl

@[simp] theorem wp_ofExcept_error (e : ε) :
    wp (ofExcept (.error e) : EffectM ε σ α) Q E s = E e s := rfl

/-- **The rule of sequencing.** -/
@[simp] theorem wp_bind {Q : β → σ → Prop} (x : EffectM ε σ α) (f : α → EffectM ε σ β) :
    wp (x >>= f) Q E s = wp x (fun a s' => wp (f a) Q E s') E s := by
  have hrun : (x >>= f).run s = (ExceptT.bindCont f (x.run s).1 : StateM σ _) (x.run s).2 := rfl
  unfold wp
  rw [hrun]
  rcases x.run s with ⟨e | a, s'⟩
  · rfl
  · rfl

@[simp] theorem wp_map {Q : β → σ → Prop} (f : α → β) (x : EffectM ε σ α) :
    wp (f <$> x) Q E s = wp x (fun a => Q (f a)) E s := by
  rw [← bind_pure_comp, wp_bind]
  rfl

/-- **The rule of branches.** -/
theorem wp_ite {c : Prop} [Decidable c] (x y : EffectM ε σ α) :
    wp (if c then x else y) Q E s = if c then wp x Q E s else wp y Q E s := by
  split
  · rfl
  · rfl

/-- **The rule of handlers**: a handler starts where the exception left the state. -/
@[simp] theorem wp_tryCatch (x : EffectM ε σ α) (handler : ε → EffectM ε σ α) :
    wp (tryCatch x handler) Q E s = wp x Q (fun e s' => wp (handler e) Q E s') s := by
  have hrun : (tryCatch x handler).run s = (match (x.run s).1 with
      | .ok a => pure (.ok a)
      | .error e => handler e : StateM σ (Except ε α)) (x.run s).2 := rfl
  unfold wp
  rw [hrun]
  rcases x.run s with ⟨e | a, s'⟩
  · rfl
  · rfl

/-- A finalizer runs after the computation, however that ends. -/
def withFinally (x : EffectM ε σ α) (finalizer : EffectM ε σ Unit) : EffectM ε σ α := do
  let a ← tryCatch x fun e => do
    finalizer
    throw e
  finalizer
  pure a

/-- **The rule of finalizers**: an exception of the finalizer is the one that is left. -/
@[simp] theorem wp_withFinally (x : EffectM ε σ α) (finalizer : EffectM ε σ Unit) :
    wp (withFinally x finalizer) Q E s =
      wp x (fun a s' => wp finalizer (fun _ => Q a) E s')
        (fun e s' => wp finalizer (fun _ => E e) E s') s := by
  simp only [withFinally, wp_bind, wp_tryCatch, wp_pure, wp_throw]

theorem wp_mono {x : EffectM ε σ α} {Q' : α → σ → Prop} {E' : ε → σ → Prop} (h : wp x Q E s)
    (hQ : ∀ a s', Q a s' → Q' a s') (hE : ∀ e s', E e s' → E' e s') : wp x Q' E' s := by
  unfold wp at h ⊢
  rcases hrun : x.run s with ⟨e | a, s'⟩ <;> rw [hrun] at h
  · exact hE e s' h
  · exact hQ a s' h

/-- What is asked for however the computation ends is about the state after it. -/
theorem wp_state_iff {x : EffectM ε σ α} {P : σ → Prop} :
    wp x (fun _ => P) (fun _ => P) s ↔ P (x.run s).2 := by
  unfold wp
  rcases x.run s with ⟨e | a, s'⟩
  · rfl
  · rfl

/-- The second postcondition is about the state an exception leaves. -/
theorem error_of_wp {x : EffectM ε σ α} (h : wp x Q E s) (hraises : (x.run s).1.isOk = false) :
    ∃ e, E e (x.run s).2 := by
  unfold wp at h
  rcases hrun : x.run s with ⟨e | a, s'⟩ <;> rw [hrun] at h hraises
  · exact ⟨e, h⟩
  · cases hraises

/-- What is asked of a computation comes to a condition, when it does so however it ends. -/
theorem wp_iff_of {x : EffectM ε σ α} {Q' : α → σ → Prop} {E' : ε → σ → Prop} {p : Prop}
    (h : wp x Q E s) (hQ : ∀ a s', Q a s' → (Q' a s' ↔ p)) (hE : ∀ e s', E e s' → (E' e s' ↔ p)) :
    wp x Q' E' s ↔ p := by
  unfold wp at h ⊢
  rcases hrun : x.run s with ⟨e | a, s'⟩ <;> rw [hrun] at h
  · exact hE e s' h
  · exact hQ a s' h

end EffectM
